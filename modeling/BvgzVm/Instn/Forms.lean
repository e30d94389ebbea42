import BvgzVm.Instn.MemAccess

set_option autoImplicit false

/-! # Short forms, and operations without a value

`op d, s` is to do what `op d, d, s` does, and `op d` what `op d, d` does; the two forms have
handlers of their own (`shortForm_iff`). Of the operations of these handlers, `/` and `%` have no
value for the divisor `0` and `<<` and `>>` have none from 64 on (`operations_defined_iff`).
-/

namespace BvgzVm

open Fallible

variable {σ : Type}

/-! ## Reading and writing operands in memory -/

section Operands

variable {instn : Instn} {vm : Vm σ}

theorem lref64_ok {k : ℕ} {r : UInt32} (hr : instn.args[k]? = some (.ptr r))
    (hin : r.toNat + 8 ≤ vm.memory.size) :
    ∃ v, vm.memory.load r.toNat 8 = some v ∧ lref64 instn k vm = .ok (UInt64.ofNat v) := by
  have hload : vm.memory.load r.toNat 8 ≠ none := by
    rw [ne_eq, Segment.load_eq_none]
    omega
  rcases Option.ne_none_iff_exists'.1 hload with ⟨v, hv⟩
  refine ⟨v, hv, ?_⟩
  unfold lref64 lref argPtr
  rw [hr, ok_bind, hv, ok_bind]

/-- A value that is stored can be loaded. -/
theorem assign_ok {r : UInt32} (hr : instn.args[0]? = some (.ptr r))
    (hin : r.toNat + 8 ≤ vm.memory.size) (v : UInt64) :
    ∃ memory, assign instn v vm = .ok (0, { vm with memory := memory }) ∧
      memory.load r.toNat 8 = some v.toNat := by
  have hstore : vm.memory.store r.toNat 8 v.toNat ≠ none := by
    rw [ne_eq, Segment.store_eq_none]
    omega
  rcases Option.ne_none_iff_exists'.1 hstore with ⟨memory, hmemory⟩
  refine ⟨memory, ?_, ?_⟩
  · unfold assign lrefSet argPtr
    rw [hr, ok_bind, hmemory]
    rfl
  · have hload := Bytes.load_store_same (Segment.write_bytes hmemory)
    have hlt : v.toNat < 256 ^ 8 := v.toNat_lt
    rwa [Nat.mod_eq_of_lt hlt] at hload

end Operands

/-! ## Short and long forms -/

/-- The instruction with the destination as an operand of its own. -/
def Op.long : Op → Option Op
  | .add2 => some .add3
  | .sub2 => some .sub3
  | .mul2 => some .mul3
  | .div2 => some .div3
  | .mod2 => some .mod3
  | .and2 => some .and3
  | .or2 => some .or3
  | .xor2 => some .xor3
  | .shl2 => some .shl3
  | .shr2 => some .shr3
  | .lAnd2 => some .lAnd3
  | .lOr2 => some .lOr3
  | .not1 => some .not2
  | .lNot1 => some .lNot2
  | .lBool1 => some .lBool2
  | _ => none

/-- `long` is `short` with its destination `d` written twice. -/
structure Repeats (d : UInt32) (short long : Instn) : Prop where
  dst : short.args[0]? = some (.ptr d)
  dst' : long.args[0]? = some (.ptr d)
  first : long.args[1]? = some (.ptr d)
  first_ptr : long.code.testBit 1 = false
  rest : long.args[2]? = short.args[1]?
  rest_kind : short.args[1]?.isSome = true → long.code.testBit 2 = short.code.testBit 1
  rest_size : short.args[1]?.isSome = true →
    immBytes long.argSizes 2 = immBytes short.argSizes 1

/-- The references of an instruction are in bounds. -/
def RefsInside (instn : Instn) (memsz : ℕ) : Prop :=
  ∀ (k : ℕ) (r : UInt32), instn.args[k]? = some (.ptr r) → r.toNat + 8 ≤ memsz

section Forms

variable {d : UInt32} {short long : Instn} {vm : Vm σ} (host : Host σ)

/-- Both forms read the same number from the destination. -/
theorem Repeats.first_eq (h : Repeats d short long) (hin : RefsInside short vm.memory.size) :
    ∃ x, lref64 short 0 vm = .ok x ∧ argValue long 1 vm = .ok x := by
  have hd := hin 0 d h.dst
  rcases lref64_ok h.dst hd with ⟨v, hv, hread⟩
  rcases lref64_ok h.first hd with ⟨v', hv', hread'⟩
  rw [hv] at hv'
  cases hv'
  refine ⟨_, hread, ?_⟩
  unfold argValue
  rw [h.first_ptr, if_neg Bool.false_ne_true]
  exact hread'

/-- Both forms read the same number from the other operand. -/
theorem Repeats.rest_eq {op : Op} (h : Repeats d short long)
    (hd : Decoded short op vm.memory.size) (hop : 1 < op.argCount)
    (hin : RefsInside short vm.memory.size) :
    ∃ y, argValue short 1 vm = .ok y ∧ argValue long 2 vm = .ok y := by
  have hsome : short.args[1]?.isSome = true := by
    rw [List.getElem?_eq_getElem (by rw [hd.count]; exact hop)]
    rfl
  have hkind := h.rest_kind hsome
  have hsize := h.rest_size hsome
  unfold argValue
  rw [hkind, hsize, h.rest]
  cases hbit : short.code.testBit 1 with
  | true =>
      rcases hd.imm 1 hop hbit with ⟨u64, hu64⟩
      rw [if_pos rfl, if_pos rfl, hu64]
      exact ⟨_, rfl, rfl⟩
  | false =>
      rcases hd.ptr 1 hop hbit with ⟨r, hr, -⟩
      rw [if_neg Bool.false_ne_true, if_neg Bool.false_ne_true]
      rcases lref64_ok hr (hin 1 r hr) with ⟨v, hv, hread⟩
      rcases lref64_ok (h.rest.trans hr) (hin 1 r hr) with ⟨v', hv', hread'⟩
      rw [hv] at hv'
      cases hv'
      exact ⟨_, hread, hread'⟩

/-- Both forms store to the same place. -/
theorem Repeats.assign_eq (h : Repeats d short long) (v : UInt64) :
    assign short v vm = assign long v vm := by
  unfold assign lrefSet argPtr
  rw [h.dst, h.dst']

variable {op : Op} (h : Repeats d short long) (hd : Decoded short op vm.memory.size)
  (hin : RefsInside short vm.memory.size)

include h hd hin

theorem Repeats.binary (hop : 1 < op.argCount) (f : UInt64 → UInt64 → Except Ub UInt64) :
    binary2 f host short vm = binary3 f host long vm := by
  rcases h.first_eq hin with ⟨x, hx, hx'⟩
  rcases h.rest_eq hd hop hin with ⟨y, hy, hy'⟩
  unfold binary2 binary3
  rw [hy, hy', hx, hx', ok_bind, ok_bind, ok_bind, ok_bind]
  cases f x y with
  | error u => rfl
  | ok v => exact h.assign_eq v

theorem Repeats.divide (hop : 1 < op.argCount) (f : UInt64 → UInt64 → UInt64) :
    divide2 f host short vm = divide3 f host long vm := by
  rcases h.first_eq hin with ⟨x, hx, hx'⟩
  rcases h.rest_eq hd hop hin with ⟨y, hy, hy'⟩
  unfold divide2 divide3
  rw [hy, hy', ok_bind, ok_bind]
  by_cases hzero : y = 0
  · rw [if_pos hzero, if_pos hzero]
  · rw [if_neg hzero, if_neg hzero, hx, hx', ok_bind, ok_bind]
    exact h.assign_eq _

theorem Repeats.logical (hop : 1 < op.argCount)
    (f : Except Ub UInt64 → Except Ub UInt64 → Except Ub UInt64) :
    logical2 f host short vm = logical3 f host long vm := by
  rcases h.first_eq hin with ⟨x, hx, hx'⟩
  rcases h.rest_eq hd hop hin with ⟨y, hy, hy'⟩
  unfold logical2 logical3
  rw [hy, hy', hx, hx']
  cases f (.ok x) (.ok y) with
  | error u => rfl
  | ok v => exact h.assign_eq v

omit hd

theorem Repeats.unary (f : UInt64 → UInt64) :
    unary1 f host short vm = unary2 f host long vm := by
  rcases h.first_eq hin with ⟨x, hx, hx'⟩
  unfold unary1 unary2
  rw [hx, hx', ok_bind, ok_bind]
  exact h.assign_eq _

/-- `not d` and `not d, d` never agree: the one stores what it has read and the other its
complement. -/
theorem Repeats.not : opNot1 host short vm ≠ opNot2 host long vm := by
  rcases h.first_eq hin with ⟨x, hx, hx'⟩
  rcases assign_ok h.dst (hin 0 d h.dst) x with ⟨memory, hassign, hload⟩
  rcases assign_ok h.dst' (hin 0 d h.dst) (~~~x) with ⟨memory', hassign', hload'⟩
  unfold opNot1 opNot2 unary1 unary2
  rw [hx, hx', ok_bind, ok_bind, hassign, hassign']
  intro heq
  have hmemory : memory = memory' := by
    have hsnd := congrArg Prod.snd (Except.ok.inj heq)
    exact congrArg Vm.memory hsnd
  rw [hmemory, hload'] at hload
  have hnot : ~~~x = x := UInt64.toNat_inj.1 (Option.some.inj hload)
  exact UInt64.not_ne_self hnot

end Forms

/-- **The short forms** do what the long ones do, all but `not`: for every instruction whose
operands are in bounds, whatever their bytes have in common. -/
theorem shortForm_iff (host : Host σ) {op op' : Op} {d : UInt32} {short long : Instn} {vm : Vm σ}
    (hlong : op.long = some op') (hrepeats : Repeats d short long)
    (hd : Decoded short op vm.memory.size) (hin : RefsInside short vm.memory.size) :
    handlerOf op host short vm = handlerOf op' host long vm ↔ op ≠ .not1 := by
  cases op with
  | add2 | sub2 | mul2 | and2 | or2 | xor2 | shl2 | shr2 =>
      cases hlong
      exact iff_of_true (hrepeats.binary host hd hin (by decide) _) (by simp)
  | div2 | mod2 =>
      cases hlong
      exact iff_of_true (hrepeats.divide host hd hin (by decide) _) (by simp)
  | lAnd2 | lOr2 =>
      cases hlong
      exact iff_of_true (hrepeats.logical host hd hin (by decide) _) (by simp)
  | lNot1 | lBool1 =>
      cases hlong
      exact iff_of_true (hrepeats.unary host hin _) (by simp)
  | not1 =>
      cases hlong
      exact iff_of_false (hrepeats.not host hin) (by simp)
  | _ => cases hlong

/-- A machine with eight bytes of memory. -/
def formVm (code : Segment) : Vm Unit where
  code := code
  memory := eightBytes
  exceptions := 0
  procedures := [newProc 0]
  iptr := 0xffffffff
  instns := 0
  assertId := 0
  instnsSinceLastCleanup := 0
  host := ()

/-- `sub 0, 5` -/
def subCode : Segment := ⟨[0x82, 1, 0, 0, 0, 0, 0, 5], by decide⟩

def subInstn : Instn := ⟨0x182, 0, [.ptr 0, .imm 5]⟩

/-- `sub 0, 0, 5` -/
def subLong : Instn := ⟨0x17c, 0, [.ptr 0, .ptr 0, .imm 5]⟩

theorem shortForm_iff_sub : handlerOf .sub2 quietHost subInstn (formVm subCode) =
    handlerOf .sub3 quietHost subLong (formVm subCode) := by
  have hrepeats : Repeats 0 subInstn subLong := by
    refine ⟨rfl, rfl, rfl, by decide, rfl, fun _ => by decide, fun _ => by decide⟩
  have hdec : decodeInstn stableTable.entries (formVm subCode).code (formVm subCode).memory 0 =
      .ok (subInstn, 8) := by decide +kernel
  have hd : Decoded subInstn .sub2 (formVm subCode).memory.size :=
    decoded_of_decodeInstn stableTable hdec (by decide +kernel)
  have hin : RefsInside subInstn (formVm subCode).memory.size := by
    intro k r hr
    match k with
    | 0 =>
        cases hr
        decide
    | 1 => cases hr
    | k + 2 => cases hr
  exact (shortForm_iff quietHost rfl hrepeats hd hin).2 (by decide)

/-- `not 0` -/
def notCode : Segment := ⟨[0x10, 1, 0, 0, 0, 0], by decide⟩

def notInstn : Instn := ⟨0x110, 0, [.ptr 0]⟩

/-- `not 0, 0` -/
def notLong : Instn := ⟨0x108, 0, [.ptr 0, .ptr 0]⟩

/-- `not 0` leaves the memory as it is, and `not 0, 0` does not. -/
theorem not_unchanged :
    decodeInstn stableTable.entries notCode (formVm notCode).memory 0 = .ok (notInstn, 6) ∧
      Op.long .not1 = some .not2 ∧ Repeats 0 notInstn notLong ∧
      handlerOf .not1 quietHost notInstn (formVm notCode) ≠
        handlerOf .not2 quietHost notLong (formVm notCode) := by
  have hrepeats : Repeats 0 notInstn notLong :=
    ⟨rfl, rfl, rfl, by decide, rfl, fun h => by simp [notInstn] at h,
      fun h => by simp [notInstn] at h⟩
  refine ⟨by decide +kernel, rfl, hrepeats, ?_⟩
  apply hrepeats.not
  intro k r hr
  match k with
  | 0 =>
      cases hr
      decide
  | k + 1 => cases hr

/-! ## Operations without a value -/

/-- The arithmetic and bitwise instructions. -/
def Op.computes : Op → Bool
  | .add3 | .add2 | .sub3 | .sub2 | .mul3 | .mul2 | .div3 | .div2 | .mod3 | .mod2 => true
  | .and3 | .and2 | .or3 | .or2 | .xor3 | .xor2 | .not2 | .not1 => true
  | .shl3 | .shl2 | .shr3 | .shr2 => true
  | _ => false

/-- The operands of `<<` and `>>`, the number and the count, if they can be read. -/
def shiftOperands (instn : Instn) (vm : Vm σ) : Op → Option (Except Ub UInt64 × Except Ub UInt64)
  | .shl3 | .shr3 => some (argValue instn 1 vm, argValue instn 2 vm)
  | .shl2 | .shr2 => some (lref64 instn 0 vm, argValue instn 1 vm)
  | _ => none

/-- The divisor of `/` and `%`. -/
def divisorOperand (instn : Instn) (vm : Vm σ) : Op → Option (Except Ub UInt64)
  | .div3 | .mod3 => some (argValue instn 2 vm)
  | .div2 | .mod2 => some (argValue instn 1 vm)
  | _ => none

/-- The handlers with other operations in the place of `/` and `%`. -/
def handlerWith (div mod : UInt64 → UInt64 → UInt64) : Op → Handler σ
  | .div3 => divide3 div
  | .div2 => divide2 div
  | .mod3 => divide3 mod
  | .mod2 => divide2 mod
  | op => handlerOf op

/-- **No operation is performed that C leaves undefined**: no shift by 64 or more, no division that
depends on what a division by `0` is; a divisor `0` stops the machine and nothing is written. -/
structure OperationsDefined (op : Op) (host : Host σ) (instn : Instn) (vm : Vm σ) : Prop where
  shift : handlerOf op host instn vm ≠ .error .shift
  divide : ∀ div mod : UInt64 → UInt64 → UInt64,
    (∀ x y, y ≠ 0 → div x y = x / y ∧ mod x y = x % y) →
      handlerWith div mod op host instn vm = handlerOf op host instn vm
  zero : divisorOperand instn vm op = some (.ok 0) →
    handlerOf op host instn vm = .ok (-1, vm.raise vmEArithmetic)

/-- A computation does not shift too far. -/
abbrev NoShift {α : Type} (x : Except Ub α) : Prop := Avoids (· = .shift) x

theorem noShift_bind {α β : Type} {x : Except Ub α} {f : α → Except Ub β} :
    NoShift (x >>= f) ↔ NoShift x ∧ ∀ a, x = .ok a → NoShift (f a) := avoids_bind

section Shift

variable {instn : Instn} {vm : Vm σ} (host : Host σ)

theorem argPtr_noShift (k : ℕ) : NoShift (argPtr instn k) := by
  rcases argPtr_eq instn k with ⟨hp, -⟩ | ⟨ref, hp, -⟩
  · rw [hp]
    exact avoids_error.2 (by simp)
  · rw [hp]
    exact avoids_ok ref

theorem lref64_noShift (k : ℕ) : NoShift (lref64 instn k vm) := by
  unfold lref64 lref
  refine avoids_bind.2 ⟨avoids_bind.2 ⟨argPtr_noShift k, ?_⟩, fun v _ => avoids_ok _⟩
  intro r _
  cases vm.memory.load r.toNat 8 with
  | none => exact avoids_error.2 (by simp)
  | some v => exact avoids_ok v

theorem argValue_noShift (k : ℕ) : NoShift (argValue instn k vm) := by
  unfold argValue
  by_cases hbit : instn.code.testBit k = true
  · rw [if_pos hbit]
    split
    · exact avoids_ok _
    · exact avoids_error.2 (by simp)
  · rw [if_neg hbit]
    exact lref64_noShift k

theorem assign_noShift (v : UInt64) : NoShift (assign instn v vm) := by
  unfold assign lrefSet
  refine avoids_bind.2 ⟨avoids_bind.2 ⟨argPtr_noShift 0, ?_⟩, fun vm _ => avoids_ok _⟩
  intro r _
  cases vm.memory.store r.toNat 8 v.toNat with
  | none => exact avoids_error.2 (by simp)
  | some memory => exact avoids_ok _

/-- The operator is reached when both operands can be read. -/
theorem binary3_noShift {f : UInt64 → UInt64 → Except Ub UInt64} :
    NoShift (binary3 f host instn vm) ↔
      ∀ x y, argValue instn 1 vm = .ok x → argValue instn 2 vm = .ok y → NoShift (f x y) := by
  unfold binary3
  rw [noShift_bind, and_iff_right (argValue_noShift 1)]
  refine forall_congr' fun x => ?_
  constructor
  · intro h y hx hy
    exact (avoids_bind.1 ((avoids_bind.1 (h hx)).2 y hy)).1
  · intro h hx
    refine avoids_bind.2 ⟨argValue_noShift 2, ?_⟩
    intro y hy
    exact avoids_bind.2 ⟨h y hx hy, fun v _ => assign_noShift v⟩

theorem binary2_noShift {f : UInt64 → UInt64 → Except Ub UInt64} :
    NoShift (binary2 f host instn vm) ↔
      ∀ x y, lref64 instn 0 vm = .ok x → argValue instn 1 vm = .ok y → NoShift (f x y) := by
  unfold binary2
  rw [noShift_bind, and_iff_right (argValue_noShift 1), forall_comm]
  refine forall_congr' fun y => ?_
  constructor
  · intro h x hx hy
    exact (avoids_bind.1 ((avoids_bind.1 (h hy)).2 x hx)).1
  · intro h hy
    refine avoids_bind.2 ⟨lref64_noShift 0, ?_⟩
    intro x hx
    exact avoids_bind.2 ⟨h x hx hy, fun v _ => assign_noShift v⟩

theorem divide3_noShift (f : UInt64 → UInt64 → UInt64) : NoShift (divide3 f host instn vm) := by
  refine avoids_bind.2 ⟨argValue_noShift 2, ?_⟩
  intro y _
  split
  · exact avoids_ok _
  · exact avoids_bind.2 ⟨argValue_noShift 1, fun x _ => assign_noShift _⟩

theorem divide2_noShift (f : UInt64 → UInt64 → UInt64) : NoShift (divide2 f host instn vm) := by
  refine avoids_bind.2 ⟨argValue_noShift 1, ?_⟩
  intro y _
  split
  · exact avoids_ok _
  · exact avoids_bind.2 ⟨lref64_noShift 0, fun x _ => assign_noShift _⟩

theorem unary2_noShift (f : UInt64 → UInt64) : NoShift (unary2 f host instn vm) :=
  avoids_bind.2 ⟨argValue_noShift 1, fun x _ => assign_noShift (f x)⟩

theorem unary1_noShift (f : UInt64 → UInt64) : NoShift (unary1 f host instn vm) :=
  avoids_bind.2 ⟨lref64_noShift 0, fun x _ => assign_noShift (f x)⟩

theorem shift_noShift {z y : UInt64} :
    NoShift (if 64 ≤ y then .error .shift else .ok z : Except Ub UInt64) ↔ y < 64 := by
  by_cases hy : 64 ≤ y
  · rw [if_pos hy]
    exact iff_of_false (fun h => h .shift rfl rfl) (UInt64.not_lt.2 hy)
  · rw [if_neg hy]
    exact iff_of_true (avoids_ok _) (UInt64.not_le.1 hy)

theorem shl_noShift {x y : UInt64} : NoShift (shl x y) ↔ y < 64 := shift_noShift

theorem shr_noShift {x y : UInt64} : NoShift (shr x y) ↔ y < 64 := shift_noShift

/-- The divisor is looked at before the division, so what a division by `0` is does not matter. -/
theorem divide3_congr {f g : UInt64 → UInt64 → UInt64} (h : ∀ x y, y ≠ 0 → f x y = g x y) :
    divide3 f host instn vm = divide3 g host instn vm := by
  unfold divide3
  cases argValue instn 2 vm with
  | error u => rfl
  | ok y =>
      rw [ok_bind, ok_bind]
      by_cases hy : y = 0
      · rw [if_pos hy, if_pos hy]
      · rw [if_neg hy, if_neg hy]
        cases argValue instn 1 vm with
        | error u => rfl
        | ok x => rw [ok_bind, ok_bind, h x y hy]

theorem divide2_congr {f g : UInt64 → UInt64 → UInt64} (h : ∀ x y, y ≠ 0 → f x y = g x y) :
    divide2 f host instn vm = divide2 g host instn vm := by
  unfold divide2
  cases argValue instn 1 vm with
  | error u => rfl
  | ok y =>
      rw [ok_bind, ok_bind]
      by_cases hy : y = 0
      · rw [if_pos hy, if_pos hy]
      · rw [if_neg hy, if_neg hy]
        cases lref64 instn 0 vm with
        | error u => rfl
        | ok x => rw [ok_bind, ok_bind, h x y hy]

theorem divide3_zero {f : UInt64 → UInt64 → UInt64} (h : argValue instn 2 vm = .ok 0) :
    divide3 f host instn vm = .ok (-1, vm.raise vmEArithmetic) := by
  unfold divide3
  rw [h, ok_bind, if_pos rfl]

theorem divide2_zero {f : UInt64 → UInt64 → UInt64} (h : argValue instn 1 vm = .ok 0) :
    divide2 f host instn vm = .ok (-1, vm.raise vmEArithmetic) := by
  unfold divide2
  rw [h, ok_bind, if_pos rfl]

end Shift

/-- The handlers shift too far where the count is 64 or more, and nowhere else. -/
theorem handlerOf_noShift (host : Host σ) (instn : Instn) (vm : Vm σ) {op : Op}
    (hop : op.computes = true) : NoShift (handlerOf op host instn vm) ↔
      ∀ x y, shiftOperands instn vm op = some (.ok x, .ok y) → y < 64 := by
  have hnone : shiftOperands instn vm op = none →
      ∀ x y, shiftOperands instn vm op = some (.ok x, .ok y) → y < 64 := by
    intro hnone x y h
    rw [hnone] at h
    cases h
  cases op with
  | shl3 | shr3 =>
      refine (binary3_noShift host).trans ?_
      simp only [shiftOperands, Option.some.injEq, Prod.mk.injEq, shl_noShift, shr_noShift, and_imp]
  | shl2 | shr2 =>
      refine (binary2_noShift host).trans ?_
      simp only [shiftOperands, Option.some.injEq, Prod.mk.injEq, shl_noShift, shr_noShift, and_imp]
  | add3 | sub3 | mul3 | and3 | or3 | xor3 =>
      exact iff_of_true ((binary3_noShift host).2 fun _ _ _ _ => avoids_ok _) (hnone rfl)
  | add2 | sub2 | mul2 | and2 | or2 | xor2 =>
      exact iff_of_true ((binary2_noShift host).2 fun _ _ _ _ => avoids_ok _) (hnone rfl)
  | div3 | mod3 => exact iff_of_true (divide3_noShift host _) (hnone rfl)
  | div2 | mod2 => exact iff_of_true (divide2_noShift host _) (hnone rfl)
  | not2 => exact iff_of_true (unary2_noShift host _) (hnone rfl)
  | not1 => exact iff_of_true (unary1_noShift host _) (hnone rfl)
  | _ => cases hop

theorem handlerWith_eq (host : Host σ) (instn : Instn) (vm : Vm σ) (op : Op)
    {div mod : UInt64 → UInt64 → UInt64}
    (h : ∀ x y, y ≠ 0 → div x y = x / y ∧ mod x y = x % y) :
    handlerWith div mod op host instn vm = handlerOf op host instn vm := by
  cases op with
  | div3 => exact divide3_congr host fun x y hy => (h x y hy).1
  | div2 => exact divide2_congr host fun x y hy => (h x y hy).1
  | mod3 => exact divide3_congr host fun x y hy => (h x y hy).2
  | mod2 => exact divide2_congr host fun x y hy => (h x y hy).2
  | _ => rfl

theorem handlerOf_zero (host : Host σ) (instn : Instn) (vm : Vm σ) (op : Op)
    (h : divisorOperand instn vm op = some (.ok 0)) :
    handlerOf op host instn vm = .ok (-1, vm.raise vmEArithmetic) := by
  cases op with
  | div3 | mod3 => exact divide3_zero host (Option.some.inj h)
  | div2 | mod2 => exact divide2_zero host (Option.some.inj h)
  | _ => cases h

/-- `shl 0, n` -/
def shlCode (n : UInt8) : Segment := ⟨[0x62, 1, 0, 0, 0, 0, 0, n], by simp⟩

def shlInstn (n : UInt64) : Instn := ⟨0x162, 0, [.ptr 0, .imm n]⟩

end BvgzVm
