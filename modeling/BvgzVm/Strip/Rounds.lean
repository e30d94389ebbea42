import BvgzVm.Lib.Stutter
import BvgzVm.Strip.Machines
import BvgzVm.Vm.Exec

set_option autoImplicit false

/-! # One round on the two machines

A round of `execute_vm` is seen as a turn of a system that shows the instruction it executed and
the machine after it (`executeTurn`). While no events are pending, a round of the debug run either
executes an `assert`, which the stripped run does not have, or it is answered by one round of the
stripped run (`executeTurn_simulation`). A place comes after the `assert` that was passed, so not
more than finitely many are passed in a row.
-/

namespace BvgzVm

open CLib CallStack Fallible Stutter

variable {T : InstnTable} {σ : Type}

/-- No events are pending and no child has terminated while `h` is behind the core. -/
structure QuietAt (host : Host σ) (h : σ) : Prop where
  pending : ∀ vm, vm.host = h → hasPendingEvents host vm = false
  fire : ∀ vm, vm.host = h → host.fireProcEvents vm = .ok (0, vm)

/-- A round of `execute_vm`: what was executed, and the machine the next round begins with. -/
def executeTurn (defs : List (InstnDef Op)) (host : Host σ) (vm : Vm σ) :
    Turn (Instn × Vm σ) (Vm σ) :=
  match executeRound defs host vm with
  | .error _ | .ok (.stop _) => ⟨[], none⟩
  | .ok (.fail instn vm) => ⟨[(instn, vm)], none⟩
  | .ok (.again vm) => ⟨[], some vm⟩
  | .ok (.ran instn vm) => ⟨[(instn, vm)], some vm⟩

/-- The instruction that was executed is not `assert`. -/
def notAssert (T : InstnTable) (e : Instn × Vm σ) : Bool :=
  match handlerAt T.entries (e.1.code >>> 3) with
  | .ok .assert2 => false
  | _ => true

/-- The same instruction was executed, at its address in the one code and in the other, and left
the same memory. -/
structure SameStep (bd bs : Bytecode T) (e e' : Instn × Vm σ) : Prop where
  word : e'.1.code = e.1.code
  place : ∃ (k : Nat) (i i' : PrsInstn T), bd.parse.instns[k]? = some i ∧
    bs.parse.instns[k]? = some i' ∧ e.2.iptr = i.memOffset ∧ e'.2.iptr = i'.memOffset
  memory : e'.2.memory = e.2.memory

/-- An `assert` that comes next is decoded and does nothing, and a `ret` does not shrink the call
stack. -/
structure PlainRound (host : Host σ) (bd : Bytecode T) (vm : Vm σ) : Prop where
  asserts : ∀ i ∈ bd.parse.instns, i.instn.handler = .assert2 →
    ∀ q qs, vm.procedures = q :: qs → q.iptr = i.memOffset →
      ∃ instn vm₁, fetchInstn T.entries host vm = .ok (.decoded instn vm₁) ∧
        vmExecInstn T.entries host instn vm₁ = .ok (0, vm₁)
  returns : ∀ instn vm₁, fetchInstn T.entries host vm = .ok (.decoded instn vm₁) →
    handlerAt T.entries (instn.code >>> 3) = .ok .ret0 →
      ∀ q qs, vm₁.procedures = q :: qs → q.cstackSz ≠ 0 → PopKeeps q

/-- What a run of turns shows is the trace of `execute_vm`. -/
theorem trace_executeTurn (defs : List (InstnDef Op)) (host : Host σ) (n : Nat) (vm : Vm σ) :
    trace (executeTurn defs host) n vm = executeTrace defs host n vm := by
  induction n generalizing vm with
  | zero => rfl
  | succ n ih =>
      rw [trace, executeTrace]
      unfold executeTurn
      cases executeRound defs host vm with
      | error u => rfl
      | ok round =>
          cases round with
          | stop vm => rfl
          | fail instn vm => rfl
          | again vm => exact ih vm
          | ran instn vm => exact congrArg ((instn, vm) :: ·) (ih vm)

/-! ## The first half of a round -/

section Fetch

variable {defs : List (InstnDef Op)} {host : Host σ} {vm : Vm σ}

/-- Without procedures and events the machine stops. -/
theorem fetchInstn_nil (hnil : vm.procedures = []) (hpending : hasPendingEvents host vm = false) :
    fetchInstn defs host vm = .ok (.stop vm) := by
  unfold fetchInstn vmFireEvents
  rw [hnil, hpending]
  rfl

/-- With a procedure, a round begins with the instruction this one is at. -/
theorem fetchInstn_cons {q : Proc} {qs : List Proc} (hprocs : vm.procedures = q :: qs) :
    fetchInstn defs host vm = vmCurrentProcedure vm >>= fun current =>
      match current.1 with
      | none => .ok (.again current.2)
      | some proc => vmDecodeInstn defs proc current.2 >>= fun decoded =>
          match decoded.1 with
          | none => .ok (.stop decoded.2)
          | some instn => .ok (.decoded instn decoded.2) := by
  have hempty : vm.procedures.isEmpty = false := by
    rw [hprocs]
    rfl
  unfold fetchInstn
  rw [hempty]
  rfl

/-- A procedure behind the code ends. -/
theorem fetchInstn_outside {q : Proc} {qs : List Proc} (hprocs : vm.procedures = q :: qs)
    (hout : vm.code.size ≤ q.iptr.toNat) :
    fetchInstn defs host vm = .ok (.again { vm with procedures := qs }) := by
  have hcurrent : vmCurrentProcedure vm = .ok (none, { vm with procedures := qs }) := by
    unfold vmCurrentProcedure Vm.deleteCurrentProcedure
    rw [hprocs]
    exact if_pos hout
  rw [fetchInstn_cons hprocs, hcurrent, ok_bind]

/-- A procedure inside the code has its next instruction decoded. -/
theorem fetchInstn_inside {q : Proc} {qs : List Proc} (hprocs : vm.procedures = q :: qs)
    (hin : ¬ vm.code.size ≤ q.iptr.toNat) :
    fetchInstn defs host vm =
      match decodeInstn defs vm.code vm.memory q.iptr.toNat with
      | .error (.ub u) => .error u
      | .error (.exn e) => .ok (.stop (Vm.raise { vm with iptr := q.iptr } e))
      | .ok (instn, offt) => .ok (.decoded instn { vm with
          iptr := q.iptr
          procedures := { q with iptr := q.iptr + UInt32.ofNat offt } :: qs }) := by
  have hcurrent : vmCurrentProcedure vm = .ok (some q, vm) := by
    unfold vmCurrentProcedure
    rw [hprocs]
    exact if_neg hin
  rw [fetchInstn_cons hprocs, hcurrent, ok_bind]
  show (vmDecodeInstn defs q vm >>= _) = _
  unfold vmDecodeInstn
  dsimp only
  rw [hprocs]
  cases decodeInstn defs vm.code vm.memory q.iptr.toNat with
  | error f => cases f <;> rfl
  | ok r => rfl

/-- Counting an instruction changes the counters only. -/
theorem countInstn_quiet {h : σ} (hquiet : QuietAt host h) (hvm : vm.host = h) :
    ∃ c, countInstn host vm = .ok { vm with
      instns := vm.instns + 1
      instnsSinceLastCleanup := c } := by
  unfold countInstn cleanupVm
  dsimp only
  split
  · have hfire := hquiet.fire { vm with
      instns := vm.instns + 1
      instnsSinceLastCleanup := vm.instnsSinceLastCleanup + 1 } hvm
    rw [hfire]
    exact ⟨0, rfl⟩
  · exact ⟨_, rfl⟩

end Fetch

section Program

variable {p : PrsResult T} {h h' : σ} {k : Nat} {vm vm' : Vm σ} {host : Host σ}

/-- The machines after the counters have changed. -/
theorem Executes.counted (hvm : Executes p h h' k vm vm') (n n' : UInt64) (c c' : UInt32) :
    Executes p h h' k { vm with instns := n, instnsSinceLastCleanup := c }
      { vm' with instns := n', instnsSinceLastCleanup := c' } :=
  ⟨⟨hvm.code, hvm.code', hvm.memory, hvm.exceptions, hvm.host, hvm.host', hvm.procedures⟩,
    hvm.iptr, hvm.iptr'⟩

/-- The instruction pointer behind an instruction. -/
theorem toNat_behind (hp : p.Relocates) {debugMode : Bool} {x : PrsInstn T}
    (hk : p.instns[k]? = some x) (hxe : x.emitted debugMode = true) {a : UInt32}
    (ha : a.toNat = codeSize debugMode (p.instns.take k)) :
    (a + UInt32.ofNat x.size).toNat = codeSize debugMode (p.instns.take k) + x.size := by
  have hsucc : codeSize debugMode (p.instns.take (k + 1)) =
      codeSize debugMode (p.instns.take k) + x.size := by
    rw [codeSize_take_succ hk, hxe, if_pos rfl]
  have hle : codeSize debugMode (p.instns.take (k + 1)) ≤ codeSize debugMode p.instns :=
    codeSize_take_le_all (k + 1)
  have hmax := hp.size_le debugMode
  unfold maxCodeSize at hmax
  rw [UInt32.toNat_add, UInt32.toNat_ofNat', ha]
  omega

/-! ## The second half of a round -/

/-- The address of an instruction in the code that contains it. -/
theorem iptr_eq_memOffset (hp : p.Relocates) {debugMode : Bool} {x : PrsInstn T}
    (hk : p.instns[k]? = some x) (hxe : x.emitted debugMode = true) {a : UInt32}
    (ha : a.toNat = codeSize debugMode (p.instns.take k)) :
    ∃ i, (p.layout debugMode).parse.instns[k]? = some i ∧ a = i.memOffset := by
  refine ⟨_, getElem?_layout hk, ?_⟩
  rw [PrsInstn.setOffset_memOffset, ← UInt32.toNat_inj, ha,
    toNat_addressAt (hp.size_le debugMode) (firstEmitted_self hk hxe)]

/-- The instruction and the machines after it are the same. -/
theorem Executes.sameStep (hp : p.Relocates) (hvm : Executes p h h' k vm vm') {x : PrsInstn T}
    (hk : p.instns[k]? = some x) (hxe : x.emitted false = true) :
    SameStep (p.layout true) (p.layout false) (x.decoded (p.resolved true), vm)
      (x.decoded (p.resolved false), vm') := by
  rcases iptr_eq_memOffset hp hk (emitted_true x) hvm.iptr with ⟨i, hi, hiptr⟩
  rcases iptr_eq_memOffset hp hk hxe hvm.iptr' with ⟨i', hi', hiptr'⟩
  exact ⟨rfl, ⟨k, i, i', hi, hi', hiptr, hiptr'⟩, hvm.memory⟩

/-- **An instruction that is in both codes** is executed on both machines, and ends alike. -/
theorem executeTurn_decoded (hp : p.Relocates) (hquiet : QuietAt host h) (hquiet' : QuietAt host h')
    {x : PrsInstn T} (hk : p.instns[k]? = some x) (hassert : x.instn.handler ≠ .assert2)
    {s s' : Vm σ} (hvm : Executes p h h' k s s')
    (hkeep : x.instn.handler = .ret0 →
      ∀ q qs, s.procedures = q :: qs → q.cstackSz ≠ 0 → PopKeeps q)
    (hfetch : fetchInstn T.entries host vm = .ok (.decoded (x.decoded (p.resolved true)) s))
    (hfetch' : fetchInstn T.entries host vm' =
      .ok (.decoded (x.decoded (p.resolved false)) s')) :
    Answers (notAssert T) (SameStep (p.layout true) (p.layout false)) (SameVm p h h')
      (executeTurn T.entries host vm) (executeTurn T.entries host vm') := by
  have hvisible (e : Vm σ) : notAssert T (x.decoded (p.resolved true), e) = true := by
    rw [notAssert, handlerAt_decoded]
    split
    · next heq => exact absurd (Except.ok.inj heq) hassert
    · rfl
  have hshown {e e' : Vm σ} (he : Executes p h h' k e e') :
      List.Forall₂ (SameStep (p.layout true) (p.layout false))
        ([(x.decoded (p.resolved true), e)].filter (notAssert T))
        [(x.decoded (p.resolved false), e')] := by
    rw [List.filter_cons_of_pos (hvisible e), List.filter_nil]
    exact .cons (he.sameStep hp hk ((emitted_false_iff x).2 hassert)) .nil
  have halike := handlerOf_alike host hp (List.mem_of_getElem? hk) hassert hvm hkeep
  have hexec (r : CStr → UInt32) (e : Vm σ) :
      vmExecInstn T.entries host (x.decoded r) e =
        handlerOf x.instn.handler host (x.decoded r) e := by
    rw [vmExecInstn, handlerAt_decoded, ok_bind]
  unfold executeTurn executeRound
  rw [hfetch, hfetch', ok_bind, ok_bind]
  dsimp only
  rw [hexec, hexec]
  revert halike
  generalize handlerOf x.instn.handler host (x.decoded (p.resolved true)) s = result
  generalize handlerOf x.instn.handler host (x.decoded (p.resolved false)) s' = result'
  intro halike
  cases halike with
  | error u u' => exact ⟨.nil, Or.inl ⟨rfl, rfl⟩⟩
  | @ok r r' hsame =>
      rcases r with ⟨r, e⟩
      rcases r' with ⟨r', e'⟩
      obtain rfl : r' = r := hsame.result
      have he : Executes p h h' k e e' := hsame.executes
      simp only [ok_bind]
      by_cases hneg : r' < 0
      · simp only [if_pos hneg]
        exact ⟨hshown he, Or.inl ⟨rfl, rfl⟩⟩
      · rcases countInstn_quiet hquiet he.host with ⟨c, hc⟩
        rcases countInstn_quiet hquiet' he.host' with ⟨c', hc'⟩
        simp only [if_neg hneg, hc, hc', ok_bind]
        have hcounted := he.counted (e.instns + 1) (e'.instns + 1) c c'
        exact ⟨hshown hcounted, Or.inr ⟨_, _, rfl, rfl, hcounted.toSameVm⟩⟩

/-- **An `assert`** of the debug run that does nothing is not in the stripped run. -/
theorem executeTurn_assert (hquiet : QuietAt host h) {x : PrsInstn T}
    (hassert : x.instn.handler = .assert2) {s : Vm σ} (hvm : SameVm p h h' s vm')
    (hfetch : fetchInstn T.entries host vm = .ok (.decoded (x.decoded (p.resolved true)) s))
    (hexec : vmExecInstn T.entries host (x.decoded (p.resolved true)) s = .ok (0, s)) :
    (executeTurn T.entries host vm).shown.filter (notAssert T) = [] ∧
      ∃ s', (executeTurn T.entries host vm).next = some s' ∧ SameVm p h h' s' vm' ∧
        s'.procedures = s.procedures ∧ s'.code = s.code := by
  have hhidden (e : Vm σ) : ¬ notAssert T (x.decoded (p.resolved true), e) = true := by
    rw [notAssert, handlerAt_decoded, hassert]
    exact Bool.false_ne_true
  rcases countInstn_quiet hquiet hvm.host with ⟨c, hc⟩
  unfold executeTurn executeRound
  rw [hfetch, ok_bind]
  dsimp only
  rw [hexec, ok_bind]
  simp only [if_neg (show ¬ (0 : Int) < 0 by decide), hc, ok_bind]
  refine ⟨?_, _, rfl, ?_, rfl, rfl⟩
  · rw [List.filter_cons_of_neg (hhidden _), List.filter_nil]
  · exact ⟨hvm.code, hvm.code', hvm.memory, hvm.exceptions, hvm.host, hvm.host', hvm.procedures⟩

end Program

end BvgzVm
