import BvgzVm.Instn.Forms
import BvgzVm.Vm.Exec

set_option autoImplicit false

/-! # Instructions that fail

A handler that returns `-1` has changed nothing but the exceptions and the id of a failed `assert`,
and the decoder changes nothing but the exceptions before it gives up (`failedInstn_atomic`). Only
`syscall` is different: events are fired before its number is looked at.
-/

namespace BvgzVm

open Fallible

variable {σ : Type}

/-- Only the exceptions and `assert_id` may differ. -/
def Aborted (vm vm' : Vm σ) : Prop :=
  ∃ e id, vm' = { vm with exceptions := e, assertId := id }

/-- A result below `0` leaves the machine `vm` as it was. -/
def Atomic (vm : Vm σ) (x : Except Ub (Int × Vm σ)) : Prop :=
  ∀ r vm', x = .ok (r, vm') → r < 0 → Aborted vm vm'

section Handlers

variable {vm : Vm σ} {instn : Instn} (host : Host σ)

theorem atomic_error (u : Ub) : Atomic vm (.error u) := by
  intro r vm' h
  cases h

theorem atomic_done (vm' : Vm σ) : Atomic vm (.ok (0, vm')) := by
  intro r vm'' h hneg
  cases h
  exact absurd hneg (by decide)

theorem atomic_raise (e : UInt32) : Atomic vm (.ok (-1, vm.raise e)) := by
  intro r vm' h _
  cases h
  exact ⟨_, _, rfl⟩

/-- Reading operands changes nothing. -/
theorem atomic_bind {α : Type} {x : Except Ub α} {f : α → Except Ub (Int × Vm σ)}
    (hf : ∀ a, Atomic vm (f a)) : Atomic vm (x >>= f) := by
  intro r vm' h
  rcases bind_eq_ok.1 h with ⟨a, -, hrest⟩
  exact hf a r vm' hrest

theorem atomic_ite {c : Prop} [Decidable c] {x y : Except Ub (Int × Vm σ)} (hx : Atomic vm x)
    (hy : Atomic vm y) : Atomic vm (if c then x else y) := by
  by_cases hc : c
  · rwa [if_pos hc]
  · rwa [if_neg hc]

theorem atomic_lrefSet (w k v : ℕ) :
    Atomic vm (lrefSet w instn k v vm >>= fun vm => .ok (0, vm)) :=
  atomic_bind fun vm' => atomic_done vm'

theorem atomic_assign (v : UInt64) : Atomic vm (assign instn v vm) :=
  atomic_lrefSet 8 0 v.toNat

theorem atomic_binary3 (f : UInt64 → UInt64 → Except Ub UInt64) :
    Atomic vm (binary3 f host instn vm) :=
  atomic_bind fun _ => atomic_bind fun _ => atomic_bind fun v => atomic_assign v

theorem atomic_binary2 (f : UInt64 → UInt64 → Except Ub UInt64) :
    Atomic vm (binary2 f host instn vm) :=
  atomic_bind fun _ => atomic_bind fun _ => atomic_bind fun v => atomic_assign v

/-- The divisor is looked at first. -/
theorem atomic_divide3 (f : UInt64 → UInt64 → UInt64) : Atomic vm (divide3 f host instn vm) :=
  atomic_bind fun y => atomic_ite (atomic_raise _) (atomic_bind fun x => atomic_assign (f x y))

theorem atomic_divide2 (f : UInt64 → UInt64 → UInt64) : Atomic vm (divide2 f host instn vm) :=
  atomic_bind fun y => atomic_ite (atomic_raise _) (atomic_bind fun x => atomic_assign (f x y))

theorem atomic_unary2 (f : UInt64 → UInt64) : Atomic vm (unary2 f host instn vm) :=
  atomic_bind fun x => atomic_assign (f x)

theorem atomic_unary1 (f : UInt64 → UInt64) : Atomic vm (unary1 f host instn vm) :=
  atomic_bind fun x => atomic_assign (f x)

theorem atomic_logical3 (f : Except Ub UInt64 → Except Ub UInt64 → Except Ub UInt64) :
    Atomic vm (logical3 f host instn vm) := atomic_bind fun v => atomic_assign v

theorem atomic_logical2 (f : Except Ub UInt64 → Except Ub UInt64 → Except Ub UInt64) :
    Atomic vm (logical2 f host instn vm) := atomic_bind fun v => atomic_assign v

/-- A jump out of the code is noticed before the procedure is changed. -/
theorem atomic_doJump (iptr : UInt32) : Atomic vm (doJump iptr vm) := by
  unfold doJump
  refine atomic_ite (atomic_raise _) ?_
  cases vm.procedures with
  | nil => exact atomic_error _
  | cons p ps => exact atomic_done _

theorem atomic_jumpIf (taken : UInt64 → Bool) : Atomic vm (jumpIf taken host instn vm) :=
  atomic_bind fun _ => atomic_ite (atomic_bind fun iptr => atomic_doJump iptr.toUInt32)
    (atomic_done vm)

theorem atomic_call3 : Atomic vm (opCall3 host instn vm) := by
  refine atomic_bind fun iptr => atomic_bind fun argv => atomic_bind fun retv => ?_
  cases vm.procedures with
  | nil => exact atomic_error _
  | cons p ps => exact atomic_bind fun p => atomic_done _

theorem atomic_ret0 : Atomic vm (opRet0 host instn vm) := by
  unfold opRet0
  cases vm.procedures with
  | nil => exact atomic_error _
  | cons p ps =>
      exact atomic_ite (atomic_done _) (atomic_bind fun r =>
        atomic_ite (atomic_done _) (atomic_done _))

theorem atomic_argv1 : Atomic vm (opArgv1 host instn vm) := by
  unfold opArgv1
  cases vm.procedures with
  | nil => exact atomic_error _
  | cons p ps =>
      dsimp only
      split
      · exact atomic_lrefSet 4 0 (UInt32.toNat 0)
      · exact atomic_bind fun args : UInt32 => atomic_lrefSet 4 0 args.toNat

/-- The cell for the result is looked up before the value is stored. -/
theorem atomic_retv1 : Atomic vm (opRetv1 host instn vm) := by
  unfold opRetv1
  cases vm.procedures with
  | nil => exact atomic_error _
  | cons p ps =>
      refine atomic_ite (atomic_raise _) (atomic_bind fun retv => ?_)
      cases derefMemPtr retv 8 vm.memory.size with
      | none => exact atomic_raise _
      | some ret =>
          refine atomic_bind fun v => ?_
          cases vm.memory.store ret.toNat 8 v.toNat with
          | none => exact atomic_error _
          | some memory => exact atomic_done _

theorem atomic_assert2 : Atomic vm (opAssert2 host instn vm) := by
  refine atomic_bind fun c => atomic_ite (atomic_bind fun id => ?_) (atomic_done vm)
  intro r vm' h _
  cases h
  exact ⟨_, _, rfl⟩

theorem atomic_abrt1 : Atomic vm (opAbrt1 host instn vm) :=
  atomic_bind fun e => atomic_raise e.toUInt32

theorem atomic_cp3 : Atomic vm (opCp3 host instn vm) :=
  atomic_bind fun _ => atomic_bind fun _ => atomic_bind fun _ => atomic_bind fun vm' =>
    atomic_done vm'

/-- The source is looked up before the destination is written. -/
theorem atomic_readMem (w : ℕ) : Atomic vm (readMem w host instn vm) := by
  refine atomic_bind fun ref => atomic_bind fun offset => ?_
  cases derefMemPtr (UInt32.ofNat ref + offset.toUInt32) (UInt32.ofNat w) vm.memory.size with
  | none => exact atomic_raise _
  | some mem =>
      dsimp only
      cases vm.memory.load mem.toNat w with
      | none => exact atomic_error _
      | some v => exact atomic_lrefSet w 0 v

theorem atomic_writeMem (w : ℕ) : Atomic vm (writeMem w host instn vm) := by
  refine atomic_bind fun ref => atomic_bind fun offset => ?_
  cases derefMemPtr (ref.toUInt32 + offset.toUInt32) (UInt32.ofNat w) vm.memory.size with
  | none => exact atomic_raise _
  | some mem =>
      refine atomic_bind fun v => ?_
      cases vm.memory.store mem.toNat w v.toNat with
      | none => exact atomic_error _
      | some memory => exact atomic_done _

/-- **A handler that fails has changed nothing** but the exceptions and `assert_id`. -/
theorem handlerOf_atomic {op : Op} (hop : op ≠ .syscall3) :
    Atomic vm (handlerOf op host instn vm) := by
  cases op with
  | syscall3 => exact absurd rfl hop
  | nop0 => exact atomic_done vm
  | add3 | sub3 | mul3 | eq3 | ne3 | gt3 | lt3 | ge3 | le3 | and3 | or3 | xor3 | shl3 | shr3 =>
      exact atomic_binary3 host _
  | add2 | sub2 | mul2 | and2 | or2 | xor2 | shl2 | shr2 => exact atomic_binary2 host _
  | div3 | mod3 => exact atomic_divide3 host _
  | div2 | mod2 => exact atomic_divide2 host _
  | not2 | lNot2 | lBool2 => exact atomic_unary2 host _
  | not1 | lNot1 | lBool1 => exact atomic_unary1 host _
  | lAnd3 | lOr3 => exact atomic_logical3 host _
  | lAnd2 | lOr2 => exact atomic_logical2 host _
  | cp3 => exact atomic_cp3 host
  | read8 | read16 | read32 | read64 => exact atomic_readMem host _
  | write8 | write16 | write32 | write64 => exact atomic_writeMem host _
  | jmp1 => exact atomic_bind fun iptr => atomic_doJump iptr.toUInt32
  | jtrue2 | jfalse2 => exact atomic_jumpIf host _
  | call3 => exact atomic_call3 host
  | ret0 => exact @atomic_ret0 σ vm instn host
  | argv1 => exact atomic_argv1 host
  | retv1 => exact atomic_retv1 host
  | assert2 => exact atomic_assert2 host
  | abrt1 => exact atomic_abrt1 host

end Handlers

/-- **Failing instructions are atomic.** When the decoder fails, `iptr` and the exceptions are all
that differs. When the handler of an instruction other than `syscall` fails, these, `assert_id` and
the `iptr` of the running procedure are: the memory, the code, the other procedures, all call stacks
and everything behind the core of the machine are as before the step. -/
theorem failedInstn_atomic (defs : List (InstnDef Op)) (host : Host σ) {vm : Vm σ} {p : Proc}
    {ps : List Proc} (hprocs : vm.procedures = p :: ps) :
    (∀ vm', vmDecodeInstn defs p vm = .ok (none, vm') →
      ∃ e, vm' = { vm with iptr := p.iptr, exceptions := e }) ∧
    ∀ instn vm₁ r vm', vmDecodeInstn defs p vm = .ok (some instn, vm₁) →
      handlerAt defs (instn.code >>> 3) ≠ .ok .syscall3 →
        vmExecInstn defs host instn vm₁ = .ok (r, vm') → r < 0 →
          ∃ n e id, vm' = { vm with
            iptr := p.iptr
            procedures := { p with iptr := p.iptr + n } :: ps
            exceptions := e
            assertId := id } := by
  constructor
  · intro vm' h
    unfold vmDecodeInstn at h
    dsimp only at h
    split at h
    · cases h
    · cases h
      exact ⟨_, rfl⟩
    · cases h
  · intro instn vm₁ r vm' hdec hop hexec hneg
    have hvm₁ : ∃ n, vm₁ = { vm with
        iptr := p.iptr
        procedures := { p with iptr := p.iptr + n } :: ps } := by
      unfold vmDecodeInstn at hdec
      dsimp only at hdec
      split at hdec
      · cases hdec
      · cases hdec
      · cases hdec
        rw [hprocs]
        exact ⟨_, rfl⟩
    rcases hvm₁ with ⟨n, rfl⟩
    rcases bind_eq_ok.1 hexec with ⟨op, hhandler, hrun⟩
    have hne : op ≠ .syscall3 := by
      rintro rfl
      exact hop hhandler
    rcases handlerOf_atomic host hne r vm' hrun hneg with ⟨e, id, rfl⟩
    exact ⟨n, e, id, rfl⟩

/-- `div 0, 0` -/
def divCode : Segment := ⟨[0x52, 0, 0, 0, 0, 0, 0, 0], by decide⟩

def divInstn : Instn := ⟨0x52, 0, [.ptr 0, .imm 0]⟩

/-- The machine after the instruction is decoded. -/
def divDecoded : Vm Unit :=
  { formVm divCode with iptr := 0, procedures := [{ newProc 0 with iptr := 8 }] }

/-- A division by `0`: the procedure stands behind it, and the memory is as it was. -/
theorem failedInstn_atomic_div :
    vmExecInstn stableTable.entries quietHost divInstn divDecoded =
        .ok (-1, divDecoded.raise vmEArithmetic) ∧
      ∃ n e id, divDecoded.raise vmEArithmetic = { formVm divCode with
        iptr := 0
        procedures := [{ newProc 0 with iptr := (newProc 0).iptr + n }]
        exceptions := e
        assertId := id } := by
  have hdec : vmDecodeInstn stableTable.entries (newProc 0) (formVm divCode) =
      .ok (some divInstn, divDecoded) := by decide +kernel
  have hexec : vmExecInstn stableTable.entries quietHost divInstn divDecoded =
      .ok (-1, divDecoded.raise vmEArithmetic) := by decide +kernel
  have hop : handlerAt stableTable.entries (divInstn.code >>> 3) ≠ .ok .syscall3 := by
    decide +kernel
  refine ⟨hexec, ?_⟩
  have hprocs : (formVm divCode).procedures = [newProc 0] := rfl
  exact (failedInstn_atomic stableTable.entries quietHost hprocs).2 divInstn divDecoded (-1) _
    hdec hop hexec (by decide)

end BvgzVm
