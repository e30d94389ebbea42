import BvgzVm.Instn.Operands

set_option autoImplicit false

/-! # The kinds of operands

An immediate and a pointer share the storage of an operand. Whether operand `k` is one or the
other is decided by bit `k` of the instruction word, which whoever wrote the code has chosen;
`decode_instn` accepts either for every instruction. `derefArgs` lists the operands a handler
uses as a pointer without looking at the bit. `kindsSafe_iff` shows that the handler is safe
exactly if those bits are clear, and `handlerOf_noWild` that no other operand is ever mistaken.
-/

namespace BvgzVm

open Fallible

variable {σ : Type}

/-- The operands `k` for which the handler dereferences `args[k].ptr` unconditionally: the
destinations, both addresses of `cp`, and the address operand of `readN`. -/
def derefArgs : Op → List Nat
  | .add3 | .add2 | .sub3 | .sub2 | .mul3 | .mul2 | .div3 | .div2 | .mod3 | .mod2 => [0]
  | .eq3 | .ne3 | .gt3 | .lt3 | .ge3 | .le3 => [0]
  | .lAnd3 | .lAnd2 | .lOr3 | .lOr2 | .lNot2 | .lNot1 | .lBool2 | .lBool1 => [0]
  | .and3 | .and2 | .or3 | .or2 | .xor3 | .xor2 | .not2 | .not1 => [0]
  | .shl3 | .shl2 | .shr3 | .shr2 => [0]
  | .cp3 | .read8 | .read16 | .read32 | .read64 => [0, 1]
  | .argv1 => [0]
  | .nop0 | .write8 | .write16 | .write32 | .write64 | .jmp1 | .jtrue2 | .jfalse2 | .call3
  | .syscall3 | .ret0 | .retv1 | .assert2 | .abrt1 => []

theorem derefArgs_lt (op : Op) : ∀ k ∈ derefArgs op, k < op.argCount := by
  cases op <;> decide

/-! ## Handlers whose pointers are pointers -/

/-- Something that is not a pointer was used as one. -/
def IsWild (u : Ub) : Prop := ∃ k, u = .wild k

/-- A computation uses nothing but pointers as pointers. -/
abbrev NoWild {α : Type} (x : Except Ub α) : Prop := Avoids IsWild x

theorem noWild_error {α : Type} {u : Ub} (hu : ∀ k, u ≠ .wild k) :
    NoWild (Except.error u : Except Ub α) :=
  avoids_error.2 (fun ⟨k, hk⟩ => hu k hk)

theorem noWild_bind {α β : Type} {x : Except Ub α} {f : α → Except Ub β} (hx : NoWild x)
    (hf : ∀ a, NoWild (f a)) : NoWild (x >>= f) :=
  avoids_bind.2 ⟨hx, fun a _ => hf a⟩

/-- Operand `k` is a pointer. -/
def IsPtr (instn : Instn) (k : Nat) : Prop := ∃ ref, instn.args[k]? = some (.ptr ref)

section Families

variable {instn : Instn} {op : Op} {memsz : Nat} (host : Host σ) (vm : Vm σ)

theorem argPtr_ok {k : Nat} (hp : IsPtr instn k) : ∃ ref, argPtr instn k = .ok ref := by
  obtain ⟨ref, href⟩ := hp
  exact ⟨ref, by rw [argPtr, href]⟩

theorem lref_noWild {w k : Nat} (hp : IsPtr instn k) : NoWild (lref w instn k vm) := by
  obtain ⟨ref, href⟩ := argPtr_ok hp
  rw [lref, href, ok_bind]
  cases vm.memory.load ref.toNat w with
  | none => exact noWild_error (by simp)
  | some v => exact avoids_ok _

theorem lrefSet_noWild {w k v : Nat} (hp : IsPtr instn k) : NoWild (lrefSet w instn k v vm) := by
  obtain ⟨ref, href⟩ := argPtr_ok hp
  rw [lrefSet, href, ok_bind]
  cases vm.memory.store ref.toNat w v with
  | none => exact noWild_error (by simp)
  | some m => exact avoids_ok _

theorem lref64_noWild {k : Nat} (hp : IsPtr instn k) : NoWild (lref64 instn k vm) :=
  noWild_bind (lref_noWild vm hp) (fun _ => avoids_ok _)

theorem assign_noWild {v : UInt64} (hp : IsPtr instn 0) : NoWild (assign instn v vm) :=
  noWild_bind (lrefSet_noWild vm hp) (fun _ => avoids_ok _)

/-- `arg_value` follows the kind bit. -/
theorem argValue_noWild {k : Nat} (hd : Decoded instn op memsz) (hk : k < op.argCount) :
    NoWild (argValue instn k vm) := by
  unfold argValue
  cases hb : instn.code.testBit k with
  | true =>
      obtain ⟨u64, hu⟩ := hd.imm k hk hb
      rw [if_pos rfl, hu]
      exact avoids_ok _
  | false =>
      obtain ⟨ref, href, -⟩ := hd.ptr k hk hb
      rw [if_neg Bool.false_ne_true]
      exact lref64_noWild vm ⟨ref, href⟩

theorem binary3_noWild {f : UInt64 → UInt64 → Except Ub UInt64} (hf : ∀ x y, NoWild (f x y))
    (hd : Decoded instn op memsz) (hop : op.argCount = 3) (hp : IsPtr instn 0) :
    NoWild (binary3 f host instn vm) :=
  noWild_bind (argValue_noWild vm hd (by omega)) (fun x =>
    noWild_bind (argValue_noWild vm hd (by omega)) (fun y =>
      noWild_bind (hf x y) (fun _ => assign_noWild vm hp)))

theorem binary2_noWild {f : UInt64 → UInt64 → Except Ub UInt64} (hf : ∀ x y, NoWild (f x y))
    (hd : Decoded instn op memsz) (hop : op.argCount = 2) (hp : IsPtr instn 0) :
    NoWild (binary2 f host instn vm) :=
  noWild_bind (argValue_noWild vm hd (by omega)) (fun y =>
    noWild_bind (lref64_noWild vm hp) (fun x =>
      noWild_bind (hf x y) (fun _ => assign_noWild vm hp)))

theorem shl_noWild (x y : UInt64) : NoWild (shl x y) := by
  unfold shl
  split
  · exact noWild_error (by simp)
  · exact avoids_ok _

theorem shr_noWild (x y : UInt64) : NoWild (shr x y) := by
  unfold shr
  split
  · exact noWild_error (by simp)
  · exact avoids_ok _

theorem divide3_noWild {f : UInt64 → UInt64 → UInt64} (hd : Decoded instn op memsz)
    (hop : op.argCount = 3) (hp : IsPtr instn 0) : NoWild (divide3 f host instn vm) := by
  refine noWild_bind (argValue_noWild vm hd (by omega)) (fun divisor => ?_)
  split
  · exact avoids_ok _
  · exact noWild_bind (argValue_noWild vm hd (by omega)) (fun _ => assign_noWild vm hp)

theorem divide2_noWild {f : UInt64 → UInt64 → UInt64} (hd : Decoded instn op memsz)
    (hop : op.argCount = 2) (hp : IsPtr instn 0) : NoWild (divide2 f host instn vm) := by
  refine noWild_bind (argValue_noWild vm hd (by omega)) (fun divisor => ?_)
  split
  · exact avoids_ok _
  · exact noWild_bind (lref64_noWild vm hp) (fun _ => assign_noWild vm hp)

theorem unary2_noWild {f : UInt64 → UInt64} (hd : Decoded instn op memsz)
    (hop : op.argCount = 2) (hp : IsPtr instn 0) : NoWild (unary2 f host instn vm) :=
  noWild_bind (argValue_noWild vm hd (by omega)) (fun _ => assign_noWild vm hp)

theorem unary1_noWild {f : UInt64 → UInt64} (hp : IsPtr instn 0) :
    NoWild (unary1 f host instn vm) :=
  noWild_bind (lref64_noWild vm hp) (fun _ => assign_noWild vm hp)

theorem lAnd_noWild {x y : Except Ub UInt64} (hx : NoWild x) (hy : NoWild y) :
    NoWild (lAnd x y) := by
  refine noWild_bind hx (fun x => ?_)
  split
  · exact avoids_ok _
  · exact noWild_bind hy (fun _ => avoids_ok _)

theorem lOr_noWild {x y : Except Ub UInt64} (hx : NoWild x) (hy : NoWild y) :
    NoWild (lOr x y) := by
  refine noWild_bind hx (fun x => ?_)
  split
  · exact noWild_bind hy (fun _ => avoids_ok _)
  · exact avoids_ok _

theorem doJump_noWild (iptr : UInt32) : NoWild (doJump iptr vm) := by
  unfold doJump
  split
  · exact avoids_ok _
  · split
    · exact noWild_error (by simp)
    · exact avoids_ok _

theorem jumpIf_noWild {taken : UInt64 → Bool} (hd : Decoded instn op memsz)
    (hop : op.argCount = 2) : NoWild (jumpIf taken host instn vm) := by
  refine noWild_bind (argValue_noWild vm hd (by omega)) (fun c => ?_)
  split
  · exact noWild_bind (argValue_noWild vm hd (by omega)) (fun _ => doJump_noWild vm _)
  · exact avoids_ok _

theorem frameField_noWild (p : Proc) (idx : UInt32) (off : Nat) :
    NoWild (frameField p idx off) := by
  unfold frameField
  split
  · exact noWild_error (by simp)
  · exact avoids_ok _

theorem call3_noWild (hd : Decoded instn op memsz) (hop : op.argCount = 3) :
    NoWild (opCall3 host instn vm) := by
  refine noWild_bind (argValue_noWild vm hd (by omega)) (fun iptr =>
    noWild_bind (argValue_noWild vm hd (by omega)) (fun argv =>
      noWild_bind (argValue_noWild vm hd (by omega)) (fun retv => ?_)))
  cases vm.procedures with
  | nil => exact noWild_error (by simp)
  | cons p ps =>
      refine noWild_bind ?_ (fun _ => avoids_ok _)
      unfold pushCallStack
      simp only
      split
      · exact noWild_error (by simp)
      · exact avoids_ok _

theorem ret0_noWild (instn : Instn) : NoWild (opRet0 host instn vm) := by
  unfold opRet0
  cases vm.procedures with
  | nil => exact noWild_error (by simp)
  | cons p ps =>
      simp only
      split
      · exact avoids_ok _
      · refine noWild_bind ?_ (fun r => ?_)
        · unfold popCallStack
          refine noWild_bind (frameField_noWild _ _ _) (fun r => ?_)
          simp only
          split
          · exact avoids_ok _
          · exact avoids_ok _
        · split
          · exact avoids_ok _
          · exact avoids_ok _

theorem argv1_noWild (hp : IsPtr instn 0) : NoWild (opArgv1 host instn vm) := by
  unfold opArgv1
  cases vm.procedures with
  | nil => exact noWild_error (by simp)
  | cons p ps =>
      have hset : ∀ args : UInt32, NoWild (lrefSet 4 instn 0 args.toNat vm >>= fun vm =>
          (.ok (0, vm) : Except Ub (Int × Vm σ))) :=
        fun args => noWild_bind (lrefSet_noWild vm hp) (fun _ => avoids_ok _)
      simp only
      split
      · exact hset 0
      · exact noWild_bind (frameField_noWild _ _ _) hset

theorem retv1_noWild (hd : Decoded instn op memsz) (hop : op.argCount = 1) :
    NoWild (opRetv1 host instn vm) := by
  unfold opRetv1
  cases vm.procedures with
  | nil => exact noWild_error (by simp)
  | cons p ps =>
      simp only
      split
      · exact avoids_ok _
      · refine noWild_bind (frameField_noWild _ _ _) (fun retv => ?_)
        cases derefMemPtr retv 8 vm.memory.size with
        | none => exact avoids_ok _
        | some ret =>
            refine noWild_bind (argValue_noWild vm hd (by omega)) (fun v => ?_)
            split
            · exact noWild_error (by simp)
            · exact avoids_ok _

theorem assert2_noWild (hd : Decoded instn op memsz) (hop : op.argCount = 2) :
    NoWild (opAssert2 host instn vm) := by
  refine noWild_bind (argValue_noWild vm hd (by omega)) (fun c => ?_)
  split
  · exact noWild_bind (argValue_noWild vm hd (by omega)) (fun _ => avoids_ok _)
  · exact avoids_ok _

theorem cp3_noWild (hd : Decoded instn op memsz) (hop : op.argCount = 3) (hp : IsPtr instn 0)
    (hp1 : IsPtr instn 1) : NoWild (opCp3 host instn vm) := by
  obtain ⟨dst, hdst⟩ := argPtr_ok hp
  obtain ⟨src, hsrc⟩ := argPtr_ok hp1
  rw [opCp3, hdst, hsrc, ok_bind, ok_bind]
  refine noWild_bind (argValue_noWild vm hd (by omega)) (fun n =>
    noWild_bind ?_ (fun _ => avoids_ok _))
  unfold memcpy
  split
  · exact avoids_ok _
  · split
    · exact noWild_error (by simp)
    · split
      · exact noWild_error (by simp)
      · split
        · exact noWild_error (by simp)
        · exact avoids_ok _

theorem readMem_noWild {w : Nat} (hd : Decoded instn op memsz) (hop : op.argCount = 3)
    (hp : IsPtr instn 0) (hp1 : IsPtr instn 1) : NoWild (readMem w host instn vm) := by
  refine noWild_bind (lref_noWild vm hp1) (fun ref =>
    noWild_bind (argValue_noWild vm hd (by omega)) (fun offset => ?_))
  split
  · exact avoids_ok _
  · split
    · exact noWild_error (by simp)
    · exact noWild_bind (lrefSet_noWild vm hp) (fun _ => avoids_ok _)

theorem writeMem_noWild {w : Nat} (hd : Decoded instn op memsz) (hop : op.argCount = 3) :
    NoWild (writeMem w host instn vm) := by
  refine noWild_bind (argValue_noWild vm hd (by omega)) (fun ref =>
    noWild_bind (argValue_noWild vm hd (by omega)) (fun offset => ?_))
  split
  · exact avoids_ok _
  · refine noWild_bind (argValue_noWild vm hd (by omega)) (fun v => ?_)
    split
    · exact noWild_error (by simp)
    · exact avoids_ok _

end Families

/-- **Only the operands of `derefArgs` can be mistaken for pointers**: if they are pointers, the
handler follows no other value, in any state. A system call is up to the host. -/
theorem handlerOf_noWild {instn : Instn} {op : Op} {memsz : Nat} (host : Host σ) (vm : Vm σ)
    (hd : Decoded instn op memsz) (hop : op ≠ .syscall3)
    (hp : ∀ k ∈ derefArgs op, IsPtr instn k) : NoWild (handlerOf op host instn vm) := by
  cases op with
  | syscall3 => exact absurd rfl hop
  | nop0 => exact avoids_ok _
  | ret0 => exact ret0_noWild host vm instn
  | add3 | sub3 | mul3 | eq3 | ne3 | gt3 | lt3 | ge3 | le3 | and3 | or3 | xor3 =>
      exact binary3_noWild host vm (fun _ _ => avoids_ok _) hd rfl (hp 0 (by decide))
  | shl3 => exact binary3_noWild host vm shl_noWild hd rfl (hp 0 (by decide))
  | shr3 => exact binary3_noWild host vm shr_noWild hd rfl (hp 0 (by decide))
  | add2 | sub2 | mul2 | and2 | or2 | xor2 =>
      exact binary2_noWild host vm (fun _ _ => avoids_ok _) hd rfl (hp 0 (by decide))
  | shl2 => exact binary2_noWild host vm shl_noWild hd rfl (hp 0 (by decide))
  | shr2 => exact binary2_noWild host vm shr_noWild hd rfl (hp 0 (by decide))
  | div3 | mod3 => exact divide3_noWild host vm hd rfl (hp 0 (by decide))
  | div2 | mod2 => exact divide2_noWild host vm hd rfl (hp 0 (by decide))
  | not2 | lNot2 | lBool2 => exact unary2_noWild host vm hd rfl (hp 0 (by decide))
  | not1 | lNot1 | lBool1 => exact unary1_noWild host vm (hp 0 (by decide))
  | lAnd3 =>
      exact noWild_bind (lAnd_noWild (argValue_noWild vm hd (by decide))
        (argValue_noWild vm hd (by decide))) (fun _ => assign_noWild vm (hp 0 (by decide)))
  | lOr3 =>
      exact noWild_bind (lOr_noWild (argValue_noWild vm hd (by decide))
        (argValue_noWild vm hd (by decide))) (fun _ => assign_noWild vm (hp 0 (by decide)))
  | lAnd2 =>
      exact noWild_bind (lAnd_noWild (lref64_noWild vm (hp 0 (by decide)))
        (argValue_noWild vm hd (by decide))) (fun _ => assign_noWild vm (hp 0 (by decide)))
  | lOr2 =>
      exact noWild_bind (lOr_noWild (lref64_noWild vm (hp 0 (by decide)))
        (argValue_noWild vm hd (by decide))) (fun _ => assign_noWild vm (hp 0 (by decide)))
  | jmp1 =>
      exact noWild_bind (argValue_noWild vm hd (by decide)) (fun _ => doJump_noWild vm _)
  | abrt1 => exact noWild_bind (argValue_noWild vm hd (by decide)) (fun _ => avoids_ok _)
  | jtrue2 | jfalse2 => exact jumpIf_noWild host vm hd rfl
  | assert2 => exact assert2_noWild host vm hd rfl
  | call3 => exact call3_noWild host vm hd rfl
  | argv1 => exact argv1_noWild host vm (hp 0 (by decide))
  | retv1 => exact retv1_noWild host vm hd rfl
  | cp3 => exact cp3_noWild host vm hd rfl (hp 0 (by decide)) (hp 1 (by decide))
  | read8 | read16 | read32 | read64 =>
      exact readMem_noWild host vm hd rfl (hp 0 (by decide)) (hp 1 (by decide))
  | write8 | write16 | write32 | write64 => exact writeMem_noWild host vm hd rfl

/-! ## What the decoder leaves open -/

/-- Operand-kind safety at one place of the code: the handler of an instruction accepted there
finds references where it dereferences, and follows nothing else in any state. -/
structure KindsSafe (T : InstnTable) (code memory : Segment) (iptr : Nat) : Prop where
  refs : ∀ instn n op, decodeInstn T.entries code memory iptr = .ok (instn, n) →
    handlerAt T.entries (instn.code >>> 3) = .ok op → ∀ k ∈ derefArgs op, IsPtr instn k
  noWild : ∀ instn n op, decodeInstn T.entries code memory iptr = .ok (instn, n) →
    handlerAt T.entries (instn.code >>> 3) = .ok op → op ≠ .syscall3 →
    ∀ (σ : Type) (host : Host σ) (vm : Vm σ) k,
      vmExecInstn T.entries host instn vm ≠ .error (.wild k)

/-- **Kind safety holds exactly where the kind bits of the dereferenced operands are clear** in
the word of an accepted instruction. -/
theorem kindsSafe_iff (T : InstnTable) (code memory : Segment) (iptr : Nat) :
    KindsSafe T code memory iptr ↔
      ∀ word op, code.load iptr 2 = some word → handlerAt T.entries (word >>> 3) = .ok op →
        (∃ p, decodeInstn T.entries code memory iptr = .ok p) →
        ∀ k ∈ derefArgs op, word.testBit k = false := by
  constructor
  · rintro hsafe word op hword hop ⟨⟨instn, n⟩, hdec⟩ k hk
    obtain ⟨hw, -⟩ := decodeInstn_ok hdec
    obtain rfl := Option.some.inj (hw.symm.trans hword)
    have hd := decoded_of_decodeInstn T hdec hop
    by_contra hb
    rw [Bool.not_eq_false] at hb
    obtain ⟨u64, hu⟩ := hd.imm k (derefArgs_lt op k hk) hb
    obtain ⟨ref, href⟩ := hsafe.refs instn n op hdec hop k hk
    rw [hu] at href
    cases href
  · intro hbits
    have hrefs : ∀ instn n op, decodeInstn T.entries code memory iptr = .ok (instn, n) →
        handlerAt T.entries (instn.code >>> 3) = .ok op → ∀ k ∈ derefArgs op, IsPtr instn k := by
      intro instn n op hdec hop k hk
      obtain ⟨hw, -⟩ := decodeInstn_ok hdec
      have hb := hbits instn.code op hw hop ⟨_, hdec⟩ k hk
      obtain ⟨ref, href, -⟩ :=
        (decoded_of_decodeInstn T hdec hop).ptr k (derefArgs_lt op k hk) hb
      exact ⟨ref, href⟩
    refine ⟨hrefs, ?_⟩
    intro instn n op hdec hop hfam σ host vm k
    rw [vmExecInstn, hop, ok_bind]
    exact handlerOf_noWild host vm (decoded_of_decodeInstn T hdec hop) hfam
      (hrefs instn n op hdec hop) _ ⟨k, rfl⟩

/-- `argv` with an immediate: the decoder accepts it and the handler stores through it. -/
theorem argv_immediate_accepted :
    ¬ KindsSafe stableTable ⟨[0x29, 0, 0, 0], by decide⟩ ⟨List.replicate 8 0, by decide⟩ 0 := by
  intro hsafe
  have hdec : decodeInstn stableTable.entries ⟨[0x29, 0, 0, 0], by decide⟩
      ⟨List.replicate 8 0, by decide⟩ 0 = .ok (⟨41, 0, [.imm 0]⟩, 4) := by decide +kernel
  obtain ⟨ref, href⟩ := hsafe.refs _ _ .argv1 hdec (by decide +kernel) 0 (by decide)
  cases href

end BvgzVm
