import BvgzVm.Source.Effects
import BvgzVm.Strip.Decode
import BvgzVm.Strip.Machines

set_option autoImplicit false

/-! # The machine that runs a program

`RunsAs` says when the machine is where the program is: the instruction pointer is the address of
the place, the bytes of the call stack are the open calls, with addresses in place of indices, and
the memory is the same. An instruction that is decoded presents its operands
(`presents_decoded`), and its handler takes the machine where the source goes (`exec_matches`).
-/

namespace BvgzVm

open CLib CallStack Fallible

variable {T : InstnTable} {σ : Type}

/-- The frame of an open call. -/
structure FrameOf (p : PrsResult T) (debugMode : Bool) (c : SrcCall) (f : FCall) : Prop where
  retval : f.retval = c.retval
  args : f.args = c.args
  retAddress : f.retAddress.toNat = codeSize debugMode (p.instns.take c.resume)

/-- The procedure is at the place of the program and has its calls in one block. -/
structure ProcOf (p : PrsResult T) (debugMode : Bool) (s : SrcState) (q : Proc) : Prop where
  iptr : q.iptr.toNat = codeSize debugMode (p.instns.take s.place)
  block : q.cstackAlloc.toNat ≤ maxCalls
  frames : ∃ fs, Good q fs ∧ List.Forall₂ (FrameOf p debugMode) s.calls fs

/-- The machine runs the program, with `h` behind its core. -/
structure RunsAs (p : PrsResult T) (debugMode : Bool) (h : σ) (s : SrcState) (vm : Vm σ) :
    Prop where
  code : vm.code.bytes = (p.layout debugMode).code
  memory : vm.memory = s.memory
  exceptions : vm.exceptions = 0
  host : vm.host = h
  procedure : ∃ q, vm.procedures = [q] ∧ ProcOf p debugMode s q

/-- The machine shows how the program ended. -/
def SrcResult.Shown : SrcResult → Vm σ → Prop
  | .ended memory, vm => vm.memory = memory ∧ vm.exceptions = 0 ∧ vm.procedures = []
  | .failed e memory, vm => vm.memory = memory ∧ vm.exceptions = e ∧ vm.procedures ≠ []
  | .asserted id memory, vm =>
      vm.memory = memory ∧ vm.exceptions = vmEAssertFailed ∧ vm.assertId = id ∧
        vm.procedures ≠ []

/-- A handler returns `0` where the program goes on or returns, and `-1` where it fails. -/
inductive Matches (p : PrsResult T) (debugMode : Bool) (h : σ) :
    SrcState ⊕ SrcResult → Int × Vm σ → Prop
  | next {s : SrcState} {vm : Vm σ} (runs : RunsAs p debugMode h s vm) :
      Matches p debugMode h (.inl s) (0, vm)
  | ended {memory : Segment} {vm : Vm σ} (shown : (SrcResult.ended memory).Shown vm)
      (host : vm.host = h) : Matches p debugMode h (.inr (.ended memory)) (0, vm)
  | stopped {r : SrcResult} {vm : Vm σ} (shown : r.Shown vm) (host : vm.host = h)
      (stopped : vm.procedures ≠ []) : Matches p debugMode h (.inr r) (-1, vm)

section Program

variable {p : PrsResult T} {debugMode : Bool} {x : PrsInstn T} {os : List Operand}

/-! ## Operands -/

/-- The operands stand in the order of the instruction. -/
theorem operands_get {as : List PrsArg} (hos : p.operands debugMode as = some os) :
    os.length = as.length ∧ ∀ (j : Nat) o, os[j]? = some o →
      ∃ a, as[j]? = some a ∧ p.operand debugMode a = some o := by
  induction as generalizing os with
  | nil =>
      cases hos
      refine ⟨rfl, ?_⟩
      intro j o ho
      cases ho
  | cons a as ih =>
      unfold PrsResult.operands at hos
      split at hos
      · next o' os' ho' hos' =>
          cases hos
          rcases ih hos' with ⟨hlen, hget⟩
          refine ⟨by rw [List.length_cons, List.length_cons, hlen], ?_⟩
          intro j o ho
          cases j with
          | zero =>
              cases ho
              exact ⟨a, rfl, ho'⟩
          | succ j => exact hget j o ho
      · cases hos

theorem operand_value {a : PrsArg} {v : UInt64} (h : p.operand debugMode a = some (.value v)) :
    a.isImm = true ∧ a.decoded (p.resolved debugMode) = .imm v ∧ v.toNat < 256 ^ a.nBytes := by
  unfold PrsResult.operand at h
  split at h
  · next w value fits =>
      cases h
      exact ⟨rfl, rfl, fits⟩
  · cases h
  · split at h
    · split at h <;> cases h
    · cases h
  · next l =>
      split at h
      · next label hget =>
          split at h
          · next hmem =>
              cases h
              have hres : p.resolved debugMode l = label.offset := by
                rw [PrsResult.resolved, resolveLabel, hget]
                exact if_pos hmem
              refine ⟨rfl, ?_, ?_⟩
              · rw [PrsArg.decoded, hres]
              · rw [UInt32.toNat_toUInt64]
                exact label.offset.toNat_lt
          · split at h <;> cases h
      · cases h

theorem operand_cell {a : PrsArg} {ref : UInt32} (h : p.operand debugMode a = some (.cell ref)) :
    a.isImm = false ∧ a.decoded (p.resolved debugMode) = .ptr ref := by
  unfold PrsResult.operand at h
  split at h
  · cases h
  · next value =>
      cases h
      refine ⟨rfl, ?_⟩
      rw [PrsArg.decoded, Arg.ptr.injEq, ← UInt32.toNat_inj, UInt32.toNat_ofNat',
        UInt64.toNat_toUInt32, Nat.mod_mod]
  · next l =>
      split at h
      · next label hget =>
          split at h
          · next hmem =>
              cases h
              refine ⟨rfl, ?_⟩
              rw [PrsArg.decoded, PrsResult.resolved, resolveLabel, hget]
              exact congrArg Arg.ptr (if_pos hmem)
          · cases h
      · cases h
  · split at h
    · split at h
      · cases h
      · split at h <;> cases h
    · cases h

/-- A place is a code label behind which something is emitted. -/
theorem operand_label {a : PrsArg} {k : Nat} (h : p.operand debugMode a = some (.place k)) :
    ∃ l label, a = .immLbl l ∧ p.labels.get l = some label ∧ label.isMemRef = false ∧
      label.offset.toNat = k ∧ (firstEmitted debugMode p.instns k).isSome = true := by
  unfold PrsResult.operand at h
  split at h
  · cases h
  · cases h
  · split at h
    · split at h <;> cases h
    · cases h
  · next l =>
      split at h
      · next label hget =>
          split at h
          · cases h
          · next hcode =>
              split at h
              · next hsome =>
                  cases h
                  exact ⟨l, label, rfl, hget, Bool.eq_false_iff.2 hcode, rfl, hsome⟩
              · cases h
      · cases h

/-- The place has the address that is encoded for the label. -/
theorem operand_place (hmax : codeSize debugMode p.instns ≤ maxCodeSize) {a : PrsArg} {k : Nat}
    (h : p.operand debugMode a = some (.place k)) :
    ∃ l, a = .immLbl l ∧ (firstEmitted debugMode p.instns k).isSome = true ∧
      (p.resolved debugMode l).toNat = codeSize debugMode (p.instns.take k) := by
  rcases operand_label h with ⟨l, label, rfl, hget, hcode, rfl, hsome⟩
  refine ⟨l, rfl, hsome, ?_⟩
  rw [← toNat_addressAt hmax hsome, PrsResult.resolved, resolveLabel, hget]
  dsimp only
  rw [hcode, if_neg Bool.false_ne_true]

/-- **A decoded instruction** presents its operands. -/
theorem presents_decoded (hos : p.operands debugMode x.args = some os) :
    Presents (x.decoded (p.resolved debugMode)) os := by
  have hargs {j : Nat} {a : PrsArg} (ha : x.args[j]? = some a) :
      (x.decoded (p.resolved debugMode)).args[j]? =
        some (a.decoded (p.resolved debugMode)) := by
    rw [PrsInstn.decoded, List.getElem?_map, ha, Option.map_some]
  have hcell (j : Nat) (ref : UInt32) (hj : os[j]? = some (.cell ref)) :
      argPtr (x.decoded (p.resolved debugMode)) j = .ok ref := by
    rcases (operands_get hos).2 j _ hj with ⟨a, ha, hop⟩
    rw [argPtr, hargs ha, (operand_cell hop).2]
  refine ⟨?_, hcell⟩
  intro j o hj σ vm v hv
  rcases (operands_get hos).2 j o hj with ⟨a, ha, hop⟩
  cases o with
  | value u =>
      cases hv
      rcases operand_value hop with ⟨himm, hdec, hfits⟩
      exact argValue_decoded vm ha himm hdec hfits
  | cell ref =>
      have hbit : (x.decoded (p.resolved debugMode)).code.testBit j = false := by
        rw [PrsInstn.decoded, x.testBit_word ha, (operand_cell hop).1]
      rcases Option.map_eq_some_iff.1 hv with ⟨n, hn, rfl⟩
      rw [argValue, hbit, if_neg Bool.false_ne_true, lref64, lref, hcell j ref hj, ok_bind, hn]
      rfl
  | place k => cases hv

/-- **The target of a jump** is the address of the place. -/
theorem argValue_place (hmax : codeSize debugMode p.instns ≤ maxCodeSize)
    (hos : p.operands debugMode x.args = some os) {k : Nat} (h0 : os[0]? = some (.place k))
    (vm : Vm σ) :
    ∃ a, argValue (x.decoded (p.resolved debugMode)) 0 vm = .ok a ∧
      a.toUInt32.toNat = codeSize debugMode (p.instns.take k) ∧
      (firstEmitted debugMode p.instns k).isSome = true := by
  rcases (operands_get hos).2 0 _ h0 with ⟨a, ha, hop⟩
  rcases operand_place hmax hop with ⟨l, rfl, hsome, haddr⟩
  refine ⟨(p.resolved debugMode l).toUInt64, ?_, ?_, hsome⟩
  · refine argValue_decoded vm ha rfl rfl ?_
    rw [UInt32.toNat_toUInt64]
    exact (p.resolved debugMode l).toNat_lt
  · rw [UInt32.toUInt32_toUInt64]
    exact haddr

/-! ## Procedures -/

variable {s : SrcState} {q : Proc} {h : σ} {vm : Vm σ}

/-- The procedure at another place. -/
theorem ProcOf.jump (hq : ProcOf p debugMode s q) {k : Nat} {a : UInt32}
    (ha : a.toNat = codeSize debugMode (p.instns.take k)) :
    ProcOf p debugMode { s with place := k } { q with iptr := a } := by
  rcases hq.frames with ⟨fs, hgood, hcalls⟩
  exact ⟨ha, hq.block, fs, good_iptr hgood a, hcalls⟩

theorem ProcOf.size (hq : ProcOf p debugMode s q) : q.cstackSz.toNat = s.calls.length := by
  rcases hq.frames with ⟨fs, hgood, hcalls⟩
  rw [hgood.hasFrames.size, hcalls.length_eq]

/-- **A call** is pushed into the block. -/
theorem ProcOf.push (hq : ProcOf p debugMode s q) (hroom : s.calls.length < maxCalls)
    (fill : Nat → UInt8) {c : SrcCall} {f : FCall} (hf : FrameOf p debugMode c f) :
    ∃ q', pushCallStack fill q f.retval f.args f.retAddress = .ok q' ∧ q'.iptr = q.iptr ∧
      ProcOf p debugMode { s with calls := c :: s.calls } q' := by
  have hblock := hq.block
  have hsize := hq.size
  unfold maxCalls at hblock hroom
  rcases hq.frames with ⟨fs, hgood, hcalls⟩
  have hfits : PushFits q := by
    intro _
    omega
  rcases push_good hgood hfits fill f with ⟨q', hpush, hgood', hiptr⟩
  refine ⟨q', hpush, hiptr, ?_, ?_, f :: fs, hgood', .cons hf hcalls⟩
  · rw [hiptr]
    exact hq.iptr
  · have hwhole := hgood.whole
    have hone : (q.cstackSz + 1).toNat = q.cstackSz.toNat + 1 := by
      rw [UInt32.toNat_add, show (1 : UInt32).toNat = 1 from rfl, Nat.mod_eq_of_lt (by omega)]
    rw [pushCallStack_alloc hpush]
    unfold maxCalls
    split
    · next hgrow =>
        -- the first call of all, since the block has room for 64
        rw [UInt32.lt_iff_toNat_lt, hone] at hgrow
        rw [UInt32.toNat_add, show funcStackAllocSz.toNat = 64 from rfl]
        omega
    · exact hblock

/-- **A return** pops the innermost call, and the block stays as it is. -/
theorem ProcOf.pop (hq : ProcOf p debugMode s q) {c : SrcCall} {cs : List SrcCall}
    (hcs : s.calls = c :: cs) (fill : Nat → UInt8) :
    ∃ f q', popCallStack fill q = .ok (f.retAddress, q') ∧ FrameOf p debugMode c f ∧
      ProcOf p debugMode { s with calls := cs } q' := by
  have hblock := hq.block
  have hsize := hq.size
  unfold maxCalls at hblock
  rcases hq.frames with ⟨fs, hgood, hcalls⟩
  rw [hcs] at hcalls
  rcases List.forall₂_cons_left_iff.1 hcalls with ⟨f, fs', hf, hcalls', rfl⟩
  have hkeep : PopKeeps q := by
    unfold PopKeeps
    omega
  rcases pop_good hgood hkeep fill with ⟨q', hpop, hgood', hiptr⟩
  refine ⟨f, q', hpop, hf, ?_, ?_, fs', hgood', hcalls'⟩
  · rw [hiptr]
    exact hq.iptr
  · have heq := pop_eq hgood.hasFrames fill
    rw [if_neg fun hlow => (shrinks_iff hgood).2.1 hlow hkeep, hpop] at heq
    cases heq
    exact hq.block

/-- The pointers of the innermost call. -/
theorem ProcOf.top (hq : ProcOf p debugMode s q) {c : SrcCall} {cs : List SrcCall}
    (hcs : s.calls = c :: cs) :
    q.cstackSz ≠ 0 ∧ frameField q (q.cstackSz - 1) 0 = .ok c.retval ∧
      frameField q (q.cstackSz - 1) 4 = .ok c.args := by
  rcases hq.frames with ⟨fs, hgood, hcalls⟩
  rw [hcs] at hcalls
  rcases List.forall₂_cons_left_iff.1 hcalls with ⟨f, fs', hf, -, rfl⟩
  have htop := hgood.hasFrames.top
  refine ⟨?_, ?_, ?_⟩
  · rw [Ne, cstackSz_eq_zero hgood.hasFrames]
    exact List.cons_ne_nil f fs'
  · rw [← hf.retval]
    exact htop.1
  · rw [← hf.args]
    exact htop.2.1

theorem ProcOf.empty (hq : ProcOf p debugMode s q) (hcs : s.calls = []) : q.cstackSz = 0 := by
  rw [← UInt32.toNat_inj, hq.size, hcs]
  rfl

/-! ## Handlers -/

/-- The machine with another memory, or one procedure at another place. -/
theorem RunsAs.setMemory (hvm : RunsAs p debugMode h s vm) (memory : Segment) :
    RunsAs p debugMode h { s with memory := memory } { vm with memory := memory } := by
  rcases hvm.procedure with ⟨q, hprocs, hq⟩
  exact ⟨hvm.code, rfl, hvm.exceptions, hvm.host, q, hprocs, hq.iptr, hq.block, hq.frames⟩

theorem RunsAs.setProc (hvm : RunsAs p debugMode h s vm) {s' : SrcState} {q : Proc}
    (hmem : s'.memory = s.memory) (hq : ProcOf p debugMode s' q) :
    RunsAs p debugMode h s' { vm with procedures := [q] } := by
  refine ⟨hvm.code, ?_, hvm.exceptions, hvm.host, q, rfl, hq⟩
  rw [hmem]
  exact hvm.memory

theorem RunsAs.codeSize (hvm : RunsAs p debugMode h s vm) :
    vm.code.size = BvgzVm.codeSize debugMode p.instns := by
  rw [Segment.size, hvm.code, PrsResult.layout, length_encodeCode]

/-- A failure, with the machine where it was. -/
theorem RunsAs.raised (hvm : RunsAs p debugMode h s vm) (e : UInt32) :
    Matches p debugMode h (.inr (.failed e s.memory)) (-1, vm.raise e) := by
  rcases hvm.procedure with ⟨q, hprocs, -⟩
  have hne : vm.procedures ≠ [] := by
    rw [hprocs]
    exact List.cons_ne_nil q []
  refine .stopped ⟨hvm.memory, ?_, hne⟩ hvm.host hne
  show vm.exceptions ||| e = e
  rw [hvm.exceptions, UInt32.zero_or]

/-- The effect of an instruction, behind which the machine is already. -/
theorem RunsAs.finish (hvm : RunsAs p debugMode h { s with place := s.place + 1 } vm)
    (out : Except UInt32 Segment) : Matches p debugMode h (s.finish out) (vm.finish out) := by
  cases out with
  | ok memory => exact .next (hvm.setMemory memory)
  | error e => exact hvm.raised e

/-- **A jump** takes the machine to the place. -/
theorem RunsAs.doJump (hvm : RunsAs p debugMode h { s with place := s.place + 1 } vm) {k : Nat}
    (hk : (firstEmitted debugMode p.instns k).isSome = true) {a : UInt32}
    (ha : a.toNat = BvgzVm.codeSize debugMode (p.instns.take k)) :
    ∃ r, doJump a vm = .ok r ∧ Matches p debugMode h (s.goTo k) r := by
  rcases hvm.procedure with ⟨q, hprocs, hq⟩
  have hlt := codeSize_take_lt hk
  unfold BvgzVm.doJump
  rw [if_neg (by rw [hvm.codeSize, ha]; omega), hprocs]
  exact ⟨_, rfl, .next (hvm.setProc rfl (hq.jump ha))⟩

/-! ## Control flow -/

section Control

variable {instn : Instn} {out : SrcState ⊕ SrcResult} {c : Operand} {k : Nat} (host : Host σ)

/-- The first operand is the address of the place. -/
def TargetAt (p : PrsResult T) (debugMode : Bool) (instn : Instn) (k : Nat) (vm : Vm σ) : Prop :=
  ∃ a, argValue instn 0 vm = .ok a ∧
    a.toUInt32.toNat = BvgzVm.codeSize debugMode (p.instns.take k) ∧
    (firstEmitted debugMode p.instns k).isSome = true

theorem jmp1_matches (hvm : RunsAs p debugMode h { s with place := s.place + 1 } vm)
    (htarget : TargetAt p debugMode instn k vm) :
    ∃ r, opJmp1 host instn vm = .ok r ∧ Matches p debugMode h (s.goTo k) r := by
  rcases htarget with ⟨a, ha, haddr, hk⟩
  unfold opJmp1
  rw [ha, ok_bind]
  exact hvm.doJump hk haddr

theorem jumpIf_matches {taken : UInt64 → Bool}
    (hvm : RunsAs p debugMode h { s with place := s.place + 1 } vm)
    (hp : Presents instn [.place k, c]) (htarget : TargetAt p debugMode instn k vm)
    (hstep : s.branch taken k c = some out) :
    ∃ r, jumpIf taken host instn vm = .ok r ∧ Matches p debugMode h out r := by
  rcases Option.map_eq_some_iff.1 hstep with ⟨v, hv, rfl⟩
  rcases htarget with ⟨a, ha, haddr, hk⟩
  have hmem : vm.memory = s.memory := hvm.memory
  rw [← hmem] at hv
  unfold jumpIf
  rw [hp.value 1 c rfl vm v hv, ok_bind]
  by_cases htaken : taken v = true
  · rw [if_pos htaken, if_pos htaken, ha, ok_bind]
    exact hvm.doJump hk haddr
  · rw [if_neg htaken, if_neg htaken]
    exact ⟨_, rfl, .next hvm⟩

theorem call3_matches {argv retv : Operand}
    (hvm : RunsAs p debugMode h { s with place := s.place + 1 } vm)
    (hp : Presents instn [.place k, argv, retv]) (htarget : TargetAt p debugMode instn k vm)
    (hstep : s.call k argv retv = some out) :
    ∃ r, opCall3 host instn vm = .ok r ∧ Matches p debugMode h out r := by
  rcases htarget with ⟨a, ha, haddr, hk⟩
  have hread (o : Operand) : o.read vm.memory = o.read s.memory := by rw [hvm.memory]
  unfold SrcState.call at hstep
  split at hstep
  · next u v hu hv =>
      split at hstep
      · next hroom =>
          cases hstep
          rcases hvm.procedure with ⟨q, hprocs, hq⟩
          -- the instruction pointer is behind the call already
          have hframe : FrameOf p debugMode ⟨v.toUInt32, u.toUInt32, s.place + 1⟩
              ⟨v.toUInt32, u.toUInt32, q.iptr⟩ :=
            ⟨rfl, rfl, hq.iptr⟩
          rcases hq.push hroom host.fill hframe with ⟨q', hpush, -, hq'⟩
          unfold opCall3
          rw [ha, ok_bind, hp.value 1 argv rfl vm u ((hread argv).trans hu), ok_bind,
            hp.value 2 retv rfl vm v ((hread retv).trans hv), ok_bind, hprocs]
          dsimp only at hpush ⊢
          rw [hpush, ok_bind]
          exact ⟨_, rfl, .next (hvm.setProc rfl (hq'.jump haddr))⟩
      · cases hstep
  · cases hstep

/-- No place has the address that ends a procedure. -/
theorem address_ne_end (hmax : BvgzVm.codeSize debugMode p.instns ≤ maxCodeSize) {a : UInt32}
    (ha : a.toNat = BvgzVm.codeSize debugMode (p.instns.take k)) : a ≠ 0xffffffff := by
  have hle : BvgzVm.codeSize debugMode (p.instns.take k) ≤ BvgzVm.codeSize debugMode p.instns :=
    codeSize_take_le_all k
  have hend : (0xffffffff : UInt32).toNat = 2 ^ 32 - 1 := rfl
  unfold maxCodeSize at hmax
  rintro rfl
  omega

theorem ret0_matches (instn : Instn) (hmax : BvgzVm.codeSize debugMode p.instns ≤ maxCodeSize)
    (hvm : RunsAs p debugMode h { s with place := s.place + 1 } vm) :
    ∃ r, opRet0 host instn vm = .ok r ∧ Matches p debugMode h s.ret r := by
  rcases hvm.procedure with ⟨q, hprocs, hq⟩
  unfold opRet0 SrcState.ret Vm.deleteCurrentProcedure
  rw [hprocs]
  cases hcs : s.calls with
  | nil =>
      dsimp only
      rw [if_pos (hq.empty hcs)]
      exact ⟨_, rfl, .ended ⟨hvm.memory, hvm.exceptions, rfl⟩ hvm.host⟩
  | cons c cs =>
      rcases hq.pop hcs host.fill with ⟨f, q', hpop, hf, hq'⟩
      dsimp only
      rw [if_neg (hq.top hcs).1, hpop, ok_bind]
      dsimp only
      rw [if_neg (address_ne_end hmax hf.retAddress)]
      exact ⟨_, rfl, .next (hvm.setProc rfl (hq'.jump hf.retAddress))⟩

/-- The argument pointer of the innermost call. -/
theorem ProcOf.argv (hq : ProcOf p debugMode s q) :
    (q.cstackSz = 0 ∧ s.argv = 0) ∨
      (q.cstackSz ≠ 0 ∧ frameField q (q.cstackSz - 1) 4 = .ok s.argv) := by
  unfold SrcState.argv
  cases hcs : s.calls with
  | nil => exact Or.inl ⟨hq.empty hcs, rfl⟩
  | cons c cs => exact Or.inr ⟨(hq.top hcs).1, (hq.top hcs).2.2⟩

theorem argv1_matches {d : UInt32}
    (hvm : RunsAs p debugMode h { s with place := s.place + 1 } vm)
    (hp : Presents instn [.cell d])
    (hstep : (s.memory.store d.toNat 4 s.argv.toNat).map s.goOn = some out) :
    ∃ r, opArgv1 host instn vm = .ok r ∧ Matches p debugMode h out r := by
  rcases Option.map_eq_some_iff.1 hstep with ⟨memory, hs, rfl⟩
  rcases hvm.procedure with ⟨q, hprocs, hq⟩
  have hmem : vm.memory = s.memory := hvm.memory
  rw [← hmem] at hs
  refine ⟨(0, { vm with memory := memory }), ?_, .next (hvm.setMemory memory)⟩
  unfold opArgv1
  rw [hprocs]
  dsimp only
  have hframe : (q.cstackSz = 0 ∧ s.argv = 0) ∨
      (q.cstackSz ≠ 0 ∧ frameField q (q.cstackSz - 1) 4 = .ok s.argv) := hq.argv
  rcases hframe with ⟨hsz, hargv⟩ | ⟨hsz, hargv⟩
  · rw [hargv] at hs
    rw [if_pos hsz, ok_bind, hp.lrefSet rfl hs, ok_bind, hprocs]
  · rw [if_neg hsz, hargv, ok_bind, hp.lrefSet rfl hs, ok_bind, hprocs]

theorem retv1_matches {x : Operand}
    (hvm : RunsAs p debugMode h { s with place := s.place + 1 } vm) (hp : Presents instn [x])
    (hstep : s.retv x = some out) :
    ∃ r, opRetv1 host instn vm = .ok r ∧ Matches p debugMode h out r := by
  rcases hvm.procedure with ⟨q, hprocs, hq⟩
  have hmem : vm.memory = s.memory := hvm.memory
  unfold SrcState.retv at hstep
  unfold opRetv1
  rw [hprocs]
  dsimp only
  split at hstep
  · next v hcs hv =>
      cases hstep
      rw [if_pos (hq.empty hcs)]
      exact ⟨_, rfl, hvm.raised vmEMemFault⟩
  · next c cs v hcs hv =>
      rcases Option.map_eq_some_iff.1 hstep with ⟨eff, heff, rfl⟩
      rw [if_neg (hq.top hcs).1, (hq.top hcs).2.1, ok_bind]
      rw [← hmem] at heff hv
      rcases accessEffect_eq (by decide) heff with ⟨hin, heff⟩ | ⟨hout, rfl⟩
      · rcases Option.map_eq_some_iff.1 heff with ⟨memory, hs, rfl⟩
        have hderef : derefMemPtr c.retval 8 vm.memory.size = some c.retval := hin
        rw [hderef]
        dsimp only
        rw [hp.value 0 x rfl vm v hv, ok_bind, hs, ← hprocs]
        exact ⟨_, rfl, hvm.finish (.ok memory)⟩
      · have hderef : derefMemPtr c.retval 8 vm.memory.size = none := hout
        rw [hderef]
        exact ⟨_, rfl, hvm.finish (.error vmEMemFault)⟩
  · cases hstep

theorem assert2_matches {id : Operand}
    (hvm : RunsAs p debugMode h { s with place := s.place + 1 } vm) (hp : Presents instn [id, c])
    (hstep : s.assert id c = some out) :
    ∃ r, opAssert2 host instn vm = .ok r ∧ Matches p debugMode h out r := by
  have hmem : vm.memory = s.memory := hvm.memory
  unfold SrcState.assert at hstep
  rw [← hmem] at hstep
  split at hstep
  · next u v hu hv =>
      unfold opAssert2
      rw [hp.value 1 c rfl vm v hv, ok_bind]
      by_cases hz : v = 0
      · rw [if_pos hz] at hstep
        cases hstep
        rw [if_neg (not_not.2 hz)]
        exact ⟨_, rfl, .next (hvm.setMemory vm.memory)⟩
      · rw [if_neg hz] at hstep
        cases hstep
        rw [if_pos hz, hp.value 0 id rfl vm u hu, ok_bind]
        rcases hvm.procedure with ⟨q, hprocs, -⟩
        have hne : vm.procedures ≠ [] := by
          rw [hprocs]
          exact List.cons_ne_nil q []
        refine ⟨_, rfl, .stopped ⟨rfl, ?_, rfl, hne⟩ hvm.host hne⟩
        show vm.exceptions ||| vmEAssertFailed = vmEAssertFailed
        rw [hvm.exceptions, UInt32.zero_or]
  · cases hstep

/-- **An instruction** of the program takes the machine where the program goes. -/
theorem exec_matches (hmax : BvgzVm.codeSize debugMode p.instns ≤ maxCodeSize)
    (hos : p.operands debugMode x.args = some os)
    (hvm : RunsAs p debugMode h { s with place := s.place + 1 } vm)
    (hstep : s.exec x.instn.handler os = some out) :
    ∃ r, handlerOf x.instn.handler host (x.decoded (p.resolved debugMode)) vm = .ok r ∧
      Matches p debugMode h out r := by
  have hp := presents_decoded hos
  have hlen : os.length = x.instn.handler.argCount := by
    rw [(operands_get hos).1, x.length_args]
    rcases T.mem_inc x.mem_entries with ⟨d, hd, heq⟩
    rw [heq]
    exact instnDefsInc_argCount d hd
  unfold SrcState.exec at hstep
  generalize hop : x.instn.handler = op at hstep hlen
  split at hstep
  · cases hstep
    exact jmp1_matches host hvm (argValue_place hmax hos rfl vm)
  · exact jumpIf_matches host hvm hp (argValue_place hmax hos rfl vm) hstep
  · exact jumpIf_matches host hvm hp (argValue_place hmax hos rfl vm) hstep
  · exact call3_matches host hvm hp (argValue_place hmax hos rfl vm) hstep
  · cases hstep
    exact ret0_matches host (x.decoded (p.resolved debugMode)) hmax hvm
  · exact argv1_matches host hvm hp hstep
  · exact retv1_matches host hvm hp hstep
  · exact assert2_matches host hvm hp hstep
  · rcases Option.map_eq_some_iff.1 hstep with ⟨eff, heff, rfl⟩
    have hmem : vm.memory = s.memory := hvm.memory
    rw [← hmem] at heff
    exact ⟨_, handlerOf_effect host hp hlen heff, hvm.finish eff⟩

end Control

end Program

end BvgzVm
