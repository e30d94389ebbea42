import BvgzVm.Instn.Local
import BvgzVm.Strip.Decode
import BvgzVm.Vm.Calls

set_option autoImplicit false

/-! # The two machines

The machine that runs the debug code and the one that runs the stripped code have the same memory,
and procedures that are at corresponding places and return to corresponding places (`SameVm`). An
instruction that is in both codes keeps this (`handlerOf_alike`): it fails on both machines, or on
none.
-/

namespace BvgzVm

open CLib CallStack Fallible

variable {T : InstnTable} {σ : Type}

/-- The same call, which returns to one place. -/
structure SameCall (p : PrsResult T) (f f' : FCall) : Prop where
  retval : f'.retval = f.retval
  args : f'.args = f.args
  retAddress : Corresponds p f.retAddress f'.retAddress

/-- The same procedure at one place, with the same calls on stacks that were never shrunk. -/
structure SameProc (p : PrsResult T) (q q' : Proc) : Prop where
  iptr : Corresponds p q.iptr q'.iptr
  alloc : q'.cstackAlloc = q.cstackAlloc
  frames : ∃ fs fs', Good q fs ∧ Good q' fs' ∧ List.Forall₂ (SameCall p) fs fs'

/-- The machines that run the two codes, with `h` and `h'` behind their cores. -/
structure SameVm (p : PrsResult T) (h h' : σ) (vm vm' : Vm σ) : Prop where
  code : vm.code.bytes = (p.layout true).code
  code' : vm'.code.bytes = (p.layout false).code
  memory : vm'.memory = vm.memory
  exceptions : vm'.exceptions = vm.exceptions
  host : vm.host = h
  host' : vm'.host = h'
  procedures : List.Forall₂ (SameProc p) vm.procedures vm'.procedures

/-- The machines while they execute instruction `k`, or after it. -/
structure Executes (p : PrsResult T) (h h' : σ) (k : Nat) (vm vm' : Vm σ) : Prop
    extends SameVm p h h' vm vm' where
  iptr : vm.iptr.toNat = codeSize true (p.instns.take k)
  iptr' : vm'.iptr.toNat = codeSize false (p.instns.take k)

/-- A handler returns the same on both machines. -/
structure EndsAlike (p : PrsResult T) (h h' : σ) (k : Nat) (r r' : Int × Vm σ) : Prop where
  result : r'.1 = r.1
  executes : Executes p h h' k r.2 r'.2

section Program

variable {p : PrsResult T} {h h' : σ} {k : Nat} {vm vm' : Vm σ}

/-! ## Procedures -/

theorem SameProc.size {q q' : Proc} (hq : SameProc p q q') : q'.cstackSz = q.cstackSz := by
  rcases hq.frames with ⟨fs, fs', hgood, hgood', hcalls⟩
  apply UInt32.toNat_inj.1
  calc q'.cstackSz.toNat
      = fs'.length := hgood'.hasFrames.size
    _ = fs.length := hcalls.length_eq.symm
    _ = q.cstackSz.toNat := hgood.hasFrames.size.symm

/-- The same procedure at another place. -/
theorem SameProc.jump {q q' : Proc} (hq : SameProc p q q') {a a' : UInt32}
    (ha : Corresponds p a a') : SameProc p { q with iptr := a } { q' with iptr := a' } := by
  rcases hq.frames with ⟨fs, fs', hgood, hgood', hcalls⟩
  exact ⟨ha, hq.alloc, fs, fs', good_iptr hgood a, good_iptr hgood' a', hcalls⟩

theorem sameProc_new {a a' : UInt32} (ha : Corresponds p a a') :
    SameProc p (newProc a) (newProc a') :=
  ⟨ha, rfl, [], [], good_new a, good_new a', .nil⟩

/-- The size of the block after a push. -/
theorem pushCallStack_alloc {fill : Nat → UInt8} {q r : Proc} {retval args retAddress : UInt32}
    (hpush : pushCallStack fill q retval args retAddress = .ok r) :
    r.cstackAlloc =
      if q.cstackAlloc < q.cstackSz + 1 then q.cstackAlloc + funcStackAllocSz
      else q.cstackAlloc := by
  unfold pushCallStack at hpush
  dsimp only at hpush
  split at hpush
  · cases hpush
  · cases hpush
    dsimp only
    split <;> rfl

/-- **A push** on the two stacks. -/
theorem SameProc.push {q q' : Proc} (hq : SameProc p q q') (fill : Nat → UInt8) {f f' : FCall}
    (hf : SameCall p f f') :
    Alike (SameProc p) (pushCallStack fill q f.retval f.args f.retAddress)
      (pushCallStack fill q' f'.retval f'.args f'.retAddress) := by
  rcases hq.frames with ⟨fs, fs', hgood, hgood', hcalls⟩
  have hfits : PushFits q' ↔ PushFits q := by
    rw [PushFits, PushFits, hq.size, hq.alloc]
  by_cases hfit : PushFits q
  · rcases push_good hgood hfit fill f with ⟨r, hpush, hr, hiptr⟩
    rcases push_good hgood' (hfits.2 hfit) fill f' with ⟨r', hpush', hr', hiptr'⟩
    rw [hpush, hpush']
    refine .ok ⟨?_, ?_, f :: fs, f' :: fs', hr, hr', .cons hf hcalls⟩
    · rw [hiptr, hiptr']
      exact hq.iptr
    · rw [pushCallStack_alloc hpush, pushCallStack_alloc hpush', hq.size, hq.alloc]
  · rw [push_wrap hgood hfit fill f, push_wrap hgood' (mt hfits.1 hfit) fill f']
    exact .error _ _

/-- **A pop** of the two stacks, which does not shrink them. -/
theorem SameProc.pop {q q' : Proc} (hq : SameProc p q q') (fill : Nat → UInt8)
    (hsz : q.cstackSz ≠ 0) (hkeep : PopKeeps q) :
    ∃ f f' r r', popCallStack fill q = .ok (f.retAddress, r) ∧
      popCallStack fill q' = .ok (f'.retAddress, r') ∧ SameCall p f f' ∧ SameProc p r r' := by
  rcases hq.frames with ⟨fs, fs', hgood, hgood', hcalls⟩
  have hkeep' : PopKeeps q' := by
    rw [PopKeeps, hq.size, hq.alloc]
    exact hkeep
  cases hcalls with
  | nil => exact absurd ((cstackSz_eq_zero hgood.hasFrames).2 rfl) hsz
  | cons hf hcalls =>
      have hlow := (shrinks_iff hgood).2
      have hlow' := (shrinks_iff hgood').2
      rcases pop_good hgood hkeep fill with ⟨r, hpop, hr, hiptr⟩
      rcases pop_good hgood' hkeep' fill with ⟨r', hpop', hr', hiptr'⟩
      refine ⟨_, _, r, r', hpop, hpop', hf, ?_, ?_, _, _, hr, hr', hcalls⟩
      · rw [hiptr, hiptr']
        exact hq.iptr
      · have heq := pop_eq hgood.hasFrames fill
        have heq' := pop_eq hgood'.hasFrames fill
        rw [if_neg fun h => hlow.1 h hkeep, hpop] at heq
        rw [if_neg fun h => hlow'.1 h hkeep', hpop'] at heq'
        cases heq
        cases heq'
        exact hq.alloc

/-- The pointers of the innermost call. -/
theorem SameProc.top {q q' : Proc} (hq : SameProc p q q') (hsz : q.cstackSz ≠ 0) :
    ∃ f : FCall, frameField q (q.cstackSz - 1) 0 = .ok f.retval ∧
      frameField q' (q'.cstackSz - 1) 0 = .ok f.retval ∧
      frameField q (q.cstackSz - 1) 4 = .ok f.args ∧
      frameField q' (q'.cstackSz - 1) 4 = .ok f.args := by
  rcases hq.frames with ⟨fs, fs', hgood, hgood', hcalls⟩
  cases hcalls with
  | nil => exact absurd ((cstackSz_eq_zero hgood.hasFrames).2 rfl) hsz
  | @cons f f' fs fs' hf hcalls =>
      have htop := hgood.hasFrames.top
      have htop' := hgood'.hasFrames.top
      rw [hf.retval, hf.args] at htop'
      exact ⟨f, htop.1, htop'.1, htop.2.1, htop'.2.1⟩

/-! ## Machines -/

theorem SameVm.codeSize (hvm : SameVm p h h' vm vm') :
    vm.code.size = codeSize true p.instns ∧ vm'.code.size = BvgzVm.codeSize false p.instns := by
  constructor
  · rw [Segment.size, hvm.code, PrsResult.layout, length_encodeCode]
  · rw [Segment.size, hvm.code', PrsResult.layout, length_encodeCode]

/-- An address is behind the code on both machines, or on none. -/
theorem SameVm.outside_iff (hp : p.Strippable) (hvm : SameVm p h h' vm vm') {a a' : UInt32}
    (ha : Corresponds p a a') : vm'.code.size ≤ a'.toNat ↔ vm.code.size ≤ a.toNat := by
  rw [hvm.codeSize.1, hvm.codeSize.2]
  exact (ha.outside_iff hp).symm

theorem Executes.procedures_eq (hvm : Executes p h h' k vm vm') {qs qs' : List Proc}
    (hqs : List.Forall₂ (SameProc p) qs qs') :
    Executes p h h' k { vm with procedures := qs } { vm' with procedures := qs' } :=
  ⟨⟨hvm.code, hvm.code', hvm.memory, hvm.exceptions, hvm.host, hvm.host', hqs⟩, hvm.iptr,
    hvm.iptr'⟩

theorem Executes.raise (hvm : Executes p h h' k vm vm') (e : UInt32) :
    Executes p h h' k (vm.raise e) (vm'.raise e) := by
  refine ⟨⟨hvm.code, hvm.code', hvm.memory, ?_, hvm.host, hvm.host', hvm.procedures⟩, hvm.iptr,
    hvm.iptr'⟩
  show vm'.exceptions ||| e = vm.exceptions ||| e
  rw [hvm.exceptions]

/-- A change of the memory and the exceptions. -/
theorem Executes.effect (hvm : Executes p h h' k vm vm') (after : Vm σ) :
    Executes p h h' k (vm.effect after) (vm'.effect after) :=
  ⟨⟨hvm.code, hvm.code', rfl, rfl, hvm.host, hvm.host', hvm.procedures⟩, hvm.iptr, hvm.iptr'⟩

theorem Executes.setMemory (hvm : Executes p h h' k vm vm') (memory : Segment) :
    Executes p h h' k { vm with memory := memory } { vm' with memory := memory } :=
  ⟨⟨hvm.code, hvm.code', rfl, hvm.exceptions, hvm.host, hvm.host', hvm.procedures⟩, hvm.iptr,
    hvm.iptr'⟩

/-! ## Handlers -/

/-- What looks at the memory only does the same. -/
theorem local_alike {f : Vm σ → Except Ub (Int × Vm σ)} (hf : Local f)
    (hvm : Executes p h h' k vm vm') : Alike (EndsAlike p h h' k) (f vm) (f vm') := by
  rw [hf.eq vm vm' hvm.memory hvm.exceptions]
  apply alike_map
  rintro ⟨r, after⟩ hok
  have heq := hf.eq vm vm rfl rfl
  rw [hok] at heq
  have heffect : after = vm.effect after := congrArg Prod.snd (Except.ok.inj heq)
  refine ⟨rfl, ?_⟩
  show Executes p h h' k after (vm'.effect after)
  rw [heffect]
  exact hvm.effect after

/-- **A jump** to the addresses of one place. -/
theorem doJump_alike (hp : p.Strippable) (hvm : Executes p h h' k vm vm') {a a' : UInt32}
    (ha : Corresponds p a a') : Alike (EndsAlike p h h' k) (doJump a vm) (doJump a' vm') := by
  have houtside := hvm.outside_iff hp ha
  unfold doJump
  by_cases hle : vm.code.size ≤ a.toNat
  · rw [if_pos hle, if_pos (houtside.2 hle)]
    exact .ok ⟨rfl, hvm.raise _⟩
  · rw [if_neg hle, if_neg (mt houtside.1 hle)]
    have hprocs := hvm.procedures
    revert hprocs
    cases vm.procedures with
    | nil =>
        intro hprocs
        rw [List.forall₂_nil_left_iff.1 hprocs]
        exact .error _ _
    | cons q qs =>
        intro hprocs
        rcases List.forall₂_cons_left_iff.1 hprocs with ⟨q', qs', hq, hqs, heq⟩
        rw [heq]
        exact .ok ⟨rfl, hvm.procedures_eq (.cons (hq.jump ha) hqs)⟩

variable {x : PrsInstn T} (host : Host σ)

theorem jmp1_alike (hp : p.Relocates) (hx : x ∈ p.instns) (hjumps : x.instn.handler.jumps = true)
    (hvm : Executes p h h' k vm vm') :
    Alike (EndsAlike p h h' k) (opJmp1 host (x.decoded (p.resolved true)) vm)
      (opJmp1 host (x.decoded (p.resolved false)) vm') := by
  rcases argValue_target hp hx hjumps vm vm' with ⟨a, a', ha, ha', htarget⟩
  unfold opJmp1
  rw [ha, ha', ok_bind, ok_bind]
  exact doJump_alike hp.strippable hvm htarget

theorem jumpIf_alike (hp : p.Relocates) (hx : x ∈ p.instns)
    (hjumps : x.instn.handler.jumps = true) (taken : UInt64 → Bool)
    (hvm : Executes p h h' k vm vm') :
    Alike (EndsAlike p h h' k) (jumpIf taken host (x.decoded (p.resolved true)) vm)
      (jumpIf taken host (x.decoded (p.resolved false)) vm') := by
  rcases argValue_target hp hx hjumps vm vm' with ⟨a, a', ha, ha', htarget⟩
  unfold jumpIf
  rw [argValue_behind hp.strippable hx (by decide) hvm.memory]
  refine (alike_self (R := Eq) _ fun _ _ => rfl).bind ?_
  rintro c _ - - rfl
  by_cases htaken : taken c = true
  · rw [if_pos htaken, if_pos htaken, ha, ha', ok_bind, ok_bind]
    exact doJump_alike hp.strippable hvm htarget
  · rw [if_neg htaken, if_neg htaken]
    exact .ok ⟨rfl, hvm⟩

/-- **A call** pushes the addresses of one place. -/
theorem call3_alike (hp : p.Relocates) (hx : x ∈ p.instns) (hjumps : x.instn.handler.jumps = true)
    (hvm : Executes p h h' k vm vm') :
    Alike (EndsAlike p h h' k) (opCall3 host (x.decoded (p.resolved true)) vm)
      (opCall3 host (x.decoded (p.resolved false)) vm') := by
  rcases argValue_target hp hx hjumps vm vm' with ⟨a, a', ha, ha', htarget⟩
  unfold opCall3
  rw [ha, ha', ok_bind, ok_bind, argValue_behind hp.strippable hx (by decide) hvm.memory,
    argValue_behind hp.strippable hx (by decide) hvm.memory]
  refine (alike_self (R := Eq) _ fun _ _ => rfl).bind ?_
  rintro argv _ - - rfl
  refine (alike_self (R := Eq) _ fun _ _ => rfl).bind ?_
  rintro retv _ - - rfl
  have hprocs := hvm.procedures
  revert hprocs
  cases vm.procedures with
  | nil =>
      intro hprocs
      rw [List.forall₂_nil_left_iff.1 hprocs]
      exact .error _ _
  | cons q qs =>
      intro hprocs
      rcases List.forall₂_cons_left_iff.1 hprocs with ⟨q', qs', hq, hqs, heq⟩
      rw [heq]
      have hframe : SameCall p ⟨retv.toUInt32, argv.toUInt32, q.iptr⟩
          ⟨retv.toUInt32, argv.toUInt32, q'.iptr⟩ :=
        ⟨rfl, rfl, hq.iptr⟩
      refine (hq.push host.fill hframe).bind ?_
      intro r r' _ _ hr
      exact .ok ⟨rfl, hvm.procedures_eq (.cons (hr.jump htarget) hqs)⟩

/-- No place of the code has the address that ends a procedure. -/
theorem Corresponds.ne_end (hp : p.Relocates) {a a' : UInt32} (ha : Corresponds p a a') :
    a ≠ 0xffffffff ∧ a' ≠ 0xffffffff := by
  rcases ha with ⟨k, _, ha, ha'⟩
  have hne (debugMode : Bool) {b : UInt32}
      (hb : b.toNat = codeSize debugMode (p.instns.take k)) : b ≠ 0xffffffff := by
    have hle : codeSize debugMode (p.instns.take k) ≤ codeSize debugMode p.instns :=
      codeSize_take_le_all k
    have hmax := hp.size_le debugMode
    have hend : (0xffffffff : UInt32).toNat = 2 ^ 32 - 1 := rfl
    unfold maxCodeSize at hmax
    intro heq
    rw [heq, hend] at hb
    omega
  exact ⟨hne true ha, hne false ha'⟩

/-- **A return** goes to the addresses of one place, if the stack is not shrunk. -/
theorem ret0_alike (hp : p.Relocates) (instn : Instn) (hvm : Executes p h h' k vm vm')
    (hkeep : ∀ q qs, vm.procedures = q :: qs → q.cstackSz ≠ 0 → PopKeeps q) :
    Alike (EndsAlike p h h' k) (opRet0 host instn vm) (opRet0 host instn vm') := by
  have hprocs := hvm.procedures
  unfold opRet0 Vm.deleteCurrentProcedure
  revert hprocs hkeep
  cases vm.procedures with
  | nil =>
      intro _ hprocs
      rw [List.forall₂_nil_left_iff.1 hprocs]
      exact .error _ _
  | cons q qs =>
      intro hkeep hprocs
      rcases List.forall₂_cons_left_iff.1 hprocs with ⟨q', qs', hq, hqs, heq⟩
      rw [heq]
      by_cases hsz : q.cstackSz = 0
      · simp only [hq.size, if_pos hsz]
        exact .ok ⟨rfl, hvm.procedures_eq hqs⟩
      · rcases hq.pop host.fill hsz (hkeep q qs rfl hsz) with ⟨f, f', r, r', hpop, hpop', hf, hr⟩
        have hne := hf.retAddress.ne_end hp
        simp only [hq.size, if_neg hsz, hpop, hpop', ok_bind, if_neg hne.1, if_neg hne.2]
        exact .ok ⟨rfl, hvm.procedures_eq (.cons (hr.jump hf.retAddress) hqs)⟩

theorem argv1_alike (instn : Instn) (hvm : Executes p h h' k vm vm') :
    Alike (EndsAlike p h h' k) (opArgv1 host instn vm) (opArgv1 host instn vm') := by
  have hprocs := hvm.procedures
  unfold opArgv1
  revert hprocs
  cases vm.procedures with
  | nil =>
      intro hprocs
      rw [List.forall₂_nil_left_iff.1 hprocs]
      exact .error _ _
  | cons q qs =>
      intro hprocs
      rcases List.forall₂_cons_left_iff.1 hprocs with ⟨q', qs', hq, hqs, heq⟩
      rw [heq]
      by_cases hsz : q.cstackSz = 0
      · simp only [hq.size, if_pos hsz, ok_bind]
        exact local_alike (local_lrefSet 4 instn 0 _) hvm
      · rcases hq.top hsz with ⟨f, -, -, hargs, hargs'⟩
        rw [hq.size] at hargs'
        simp only [hq.size, if_neg hsz, hargs, hargs', ok_bind]
        exact local_alike (local_lrefSet 4 instn 0 _) hvm

theorem retv1_alike (instn : Instn) (hvm : Executes p h h' k vm vm') :
    Alike (EndsAlike p h h' k) (opRetv1 host instn vm) (opRetv1 host instn vm') := by
  have hprocs := hvm.procedures
  unfold opRetv1
  revert hprocs
  cases vm.procedures with
  | nil =>
      intro hprocs
      rw [List.forall₂_nil_left_iff.1 hprocs]
      exact .error _ _
  | cons q qs =>
      intro hprocs
      rcases List.forall₂_cons_left_iff.1 hprocs with ⟨q', qs', hq, hqs, heq⟩
      rw [heq]
      by_cases hsz : q.cstackSz = 0
      · simp only [hq.size, if_pos hsz]
        exact .ok ⟨rfl, hvm.raise _⟩
      · rcases hq.top hsz with ⟨f, hretval, hretval', -, -⟩
        rw [hq.size] at hretval'
        simp only [hq.size, if_neg hsz, hretval, hretval', ok_bind, hvm.memory,
          memOnly_argValue instn 0 vm vm' hvm.memory]
        cases derefMemPtr f.retval 8 vm.memory.size with
        | none => exact .ok ⟨rfl, hvm.raise _⟩
        | some ret =>
            refine (alike_self (R := Eq) _ fun _ _ => rfl).bind ?_
            rintro v _ - - rfl
            cases vm.memory.store ret.toNat 8 v.toNat with
            | none => exact .error _ _
            | some memory => exact .ok ⟨rfl, (hvm.setMemory memory).procedures_eq (.cons hq hqs)⟩

/-- **An instruction that is in both codes** does the same on both machines. -/
theorem handlerOf_alike (hp : p.Relocates) (hx : x ∈ p.instns)
    (hassert : x.instn.handler ≠ .assert2) (hvm : Executes p h h' k vm vm')
    (hkeep : x.instn.handler = .ret0 →
      ∀ q qs, vm.procedures = q :: qs → q.cstackSz ≠ 0 → PopKeeps q) :
    Alike (EndsAlike p h h' k)
      (handlerOf x.instn.handler host (x.decoded (p.resolved true)) vm)
      (handlerOf x.instn.handler host (x.decoded (p.resolved false)) vm') := by
  by_cases hjumps : x.instn.handler.jumps = true
  · cases hop : x.instn.handler with
    | jmp1 => exact jmp1_alike host hp hx hjumps hvm
    | jtrue2 | jfalse2 => exact jumpIf_alike host hp hx hjumps _ hvm
    | call3 => exact call3_alike host hp hx hjumps hvm
    | _ =>
        rw [hop] at hjumps
        cases hjumps
  · rw [decoded_eq hp.strippable hx (Bool.eq_false_iff.2 hjumps)]
    by_cases hbeyond : x.instn.handler.beyondMemory = true
    · cases hop : x.instn.handler with
      | ret0 => exact ret0_alike host hp (x.decoded (p.resolved false)) hvm (hkeep hop)
      | argv1 => exact argv1_alike host _ hvm
      | retv1 => exact retv1_alike host _ hvm
      | assert2 => exact absurd hop hassert
      | syscall3 => exact absurd hop (hp.strippable.noSyscall x hx)
      | jmp1 | jtrue2 | jfalse2 | call3 =>
          rw [hop] at hjumps
          exact absurd rfl hjumps
      | _ =>
          rw [hop] at hbeyond
          cases hbeyond
    · exact local_alike (handlerOf_local host _ (Bool.eq_false_iff.2 hbeyond)) hvm

end Program

end BvgzVm
