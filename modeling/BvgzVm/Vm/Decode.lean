import BvgzVm.Instn.Defs
import BvgzVm.Lib.Except
import BvgzVm.Vm.State

set_option autoImplicit false

/-! # Decoding an instruction

`decode_instn` of `bytecode.c` and the dispatch of `vm_exec_instn`. The record at `iptr` is

    word (2 bytes), sizes (1 byte, if some kind bit of the word is set), operands

where bit `i` of the word makes operand `i` an immediate of `2 ^ k` bytes, `k` being the `i`-th
pair of bits of the size byte, and otherwise operand `i` is a 4-byte reference. The decoder is
parametric in the table of instructions: it only uses the operand counts.
-/

namespace BvgzVm

open Fallible

variable {H : Type}

/-- An operand of `instn_t`: the immediate that was stored, or a pointer to the byte `ref` of
the memory segment. -/
inductive Arg
  | imm (u64 : UInt64)
  | ptr (ref : UInt32)
  deriving DecidableEq, Repr

/-- `instn_t`. `argSizes` is only meaningful when the word has a kind bit. -/
structure Instn where
  code : Nat
  argSizes : Nat
  args : List Arg
  deriving DecidableEq, Repr

/-- Why a decoding step has no result: `-1` with an exception, or undefined behaviour. -/
inductive Fault
  | exn (e : UInt32)
  | ub (u : Ub)
  deriving DecidableEq, Repr

/-- `InstnDefs[idx].arg_count` for `idx ≤ nInstnDefs`; the `{ NULL }` row has no operands. -/
def argCountAt (defs : List (InstnDef H)) (idx : Nat) : Nat :=
  match defs[idx]? with
  | some d => d.argCount
  | none => 0

/-- `InstnDefs[idx].handler`, called: the sentinel has a `NULL` handler. -/
def handlerAt (defs : List (InstnDef H)) (idx : Nat) : Except Ub H :=
  match defs[idx]? with
  | some d => .ok d.handler
  | none => .error .instnTable

/-- A read of `w` bytes through `iptr + offset`, without a check of its own. -/
def codeRead (code : Segment) (off w : Nat) : Except Fault Nat :=
  match code.load off w with
  | some v => .ok v
  | none => .error (.ub .codeRead)

/-- `1 << ((instn->arg_sizes >> (2 * i)) & 3)` -/
def immBytes (argSizes i : Nat) : Nat := 1 <<< ((argSizes >>> (2 * i)) &&& 3)

/-- One round of the operand loop. The checks compare with `iptr`, not with `iptr + offset`. -/
def decodeArg (code memory : Segment) (iptr word argSizes i offset : Nat) :
    Except Fault (Arg × Nat) :=
  if word.testBit i then
    if code.size < iptr + immBytes argSizes i then .error (.exn vmEBadInstnPointer)
    else do
      let v ← codeRead code (iptr + offset) (immBytes argSizes i)
      .ok (.imm (UInt64.ofNat v), offset + immBytes argSizes i)
  else if code.size < iptr + 4 then .error (.exn vmEBadInstnPointer)
  else do
    let ref ← codeRead code (iptr + offset) 4
    match derefMemPtr (UInt32.ofNat ref) 4 memory.size with
    | none => .error (.exn vmEMemFault)
    | some p => .ok (.ptr p, offset + 4)

/-- The operand loop, from operand `i` on, with `n` operands to go. -/
def decodeArgs (code memory : Segment) (iptr word argSizes : Nat) :
    Nat → Nat → Nat → Except Fault (List Arg × Nat)
  | 0, _, offset => .ok ([], offset)
  | n + 1, i, offset => do
      let (a, offset) ← decodeArg code memory iptr word argSizes i offset
      let (as, offset) ← decodeArgs code memory iptr word argSizes n (i + 1) offset
      .ok (a :: as, offset)

/-- `*(uint16_t*)iptr >> 3`, stored in a `uint8_t`. -/
def instnIdx (word : Nat) : Nat := (word >>> 3) % 256

/-- `decode_instn` -/
def decodeInstn (defs : List (InstnDef H)) (code memory : Segment) (iptr : Nat) :
    Except Fault (Instn × Nat) :=
  if code.size < iptr + 2 then .error (.exn vmEBadInstnPointer)
  else do
    let word ← codeRead code iptr 2
    if defs.length < instnIdx word then .error (.exn vmEBadInstnCode)
    else if word &&& 0x7 ≠ 0 then
      if code.size < iptr + 1 then .error (.exn vmEBadInstnPointer)
      else do
        let argSizes ← codeRead code (iptr + 2) 1
        let (args, offset) ←
          decodeArgs code memory iptr word argSizes (argCountAt defs (instnIdx word)) 0 3
        .ok (⟨word, argSizes, args⟩, offset)
    else do
      let (args, offset) ←
        decodeArgs code memory iptr word 0 (argCountAt defs (instnIdx word)) 0 2
      .ok (⟨word, 0, args⟩, offset)

/-! ## The layout of a record -/

/-- The bytes operand `i` takes. -/
def argWidth (word argSizes i : Nat) : Nat :=
  if word.testBit i then immBytes argSizes i else 4

/-- The bytes of `n` operands from operand `i` on. -/
def argsWidth (word argSizes : Nat) : Nat → Nat → Nat
  | 0, _ => 0
  | n + 1, i => argWidth word argSizes i + argsWidth word argSizes n (i + 1)

theorem codeRead_eq_ok {code : Segment} {off w v : Nat} :
    codeRead code off w = .ok v ↔ code.load off w = some v := by
  unfold codeRead
  cases code.load off w <;> simp

theorem codeRead_eq_error {code : Segment} {off w : Nat} {f : Fault} :
    codeRead code off w = .error f ↔ code.size < off + w ∧ f = .ub .codeRead := by
  rw [← Segment.load_eq_none]
  unfold codeRead
  cases code.load off w <;> simp [eq_comm]

theorem codeRead_ok_of_le {code : Segment} {off w : Nat} (h : off + w ≤ code.size) :
    ∃ v, codeRead code off w = .ok v := by
  cases hr : codeRead code off w with
  | ok v => exact ⟨v, rfl⟩
  | error f =>
      have := (codeRead_eq_error.1 hr).1
      omega

theorem codeRead_le {code : Segment} {off w v : Nat} (h : codeRead code off w = .ok v) :
    off + w ≤ code.size := by
  by_contra hlt
  have := Segment.load_eq_none.2 (show code.size < off + w by omega)
  rw [codeRead_eq_ok, this] at h
  cases h

/-- The bytes of a decoded operand were all inside the code, and an operand is a pointer
exactly when its kind bit is clear. -/
theorem decodeArg_ok {code memory : Segment} {iptr word argSizes i offset offset' : Nat} {a : Arg}
    (h : decodeArg code memory iptr word argSizes i offset = .ok (a, offset')) :
    offset' = offset + argWidth word argSizes i ∧ iptr + offset' ≤ code.size ∧
      (word.testBit i = true → ∃ v, code.load (iptr + offset) (immBytes argSizes i) = some v ∧
        a = .imm (UInt64.ofNat v)) ∧
      (word.testBit i = false → ∃ ref, code.load (iptr + offset) 4 = some ref ∧
        derefMemPtr (UInt32.ofNat ref) 4 memory.size = some (UInt32.ofNat ref) ∧
        a = .ptr (UInt32.ofNat ref)) := by
  unfold decodeArg at h
  unfold argWidth
  cases hk : word.testBit i with
  | true =>
      rw [hk, if_pos rfl] at h
      split at h
      · cases h
      · obtain ⟨v, hr, h⟩ := bind_eq_ok.1 h
        obtain ⟨rfl, rfl⟩ := Prod.mk.inj (Except.ok.inj h)
        have hle := codeRead_le hr
        exact ⟨rfl, by omega, fun _ => ⟨v, codeRead_eq_ok.1 hr, rfl⟩, fun hf => by cases hf⟩
  | false =>
      rw [hk, if_neg (by simp)] at h
      split at h
      · cases h
      · obtain ⟨ref, hr, h⟩ := bind_eq_ok.1 h
        have hle := codeRead_le hr
        unfold derefMemPtr at h ⊢
        by_cases hd : memory.size < (UInt32.ofNat ref + 4).toNat
        · rw [if_pos hd] at h
          cases h
        · rw [if_neg hd] at h
          obtain ⟨rfl, rfl⟩ := Prod.mk.inj (Except.ok.inj h)
          exact ⟨rfl, by omega, fun hf => (by cases hf),
            fun _ => ⟨ref, codeRead_eq_ok.1 hr, if_neg hd, rfl⟩⟩

theorem decodeArgs_ok {code memory : Segment} {iptr word argSizes n i offset offset' : Nat}
    {as : List Arg} (h : decodeArgs code memory iptr word argSizes n i offset = .ok (as, offset')) :
    as.length = n ∧ offset' = offset + argsWidth word argSizes n i := by
  induction n generalizing i offset as with
  | zero =>
      obtain ⟨rfl, rfl⟩ := Prod.mk.inj (Except.ok.inj h)
      exact ⟨rfl, rfl⟩
  | succ n ih =>
      rw [decodeArgs] at h
      obtain ⟨⟨a, o⟩, ha, h⟩ := bind_eq_ok.1 h
      obtain ⟨⟨as', o'⟩, has, h⟩ := bind_eq_ok.1 h
      obtain ⟨rfl, rfl⟩ := Prod.mk.inj (Except.ok.inj h)
      obtain ⟨hlen, hoff⟩ := ih has
      obtain ⟨hw, -⟩ := decodeArg_ok ha
      exact ⟨by rw [List.length_cons, hlen], by rw [hoff, hw, argsWidth, Nat.add_assoc]⟩

/-- The kinds of decoded operands: bit `i` of the word makes operand `i` an immediate, and a
reference has passed `deref_mem_ptr`. -/
theorem decodeArgs_kinds {code memory : Segment} {iptr word argSizes n i offset offset' : Nat}
    {as : List Arg} (h : decodeArgs code memory iptr word argSizes n i offset = .ok (as, offset'))
    {j : Nat} (hj : j < n) :
    (word.testBit (i + j) = true → ∃ u64, as[j]? = some (.imm u64)) ∧
      (word.testBit (i + j) = false →
        ∃ ref, as[j]? = some (.ptr ref) ∧ derefMemPtr ref 4 memory.size = some ref) := by
  induction n generalizing i offset as j with
  | zero => omega
  | succ n ih =>
      rw [decodeArgs] at h
      obtain ⟨⟨a, o⟩, ha, h⟩ := bind_eq_ok.1 h
      obtain ⟨⟨as', o'⟩, has, h⟩ := bind_eq_ok.1 h
      obtain ⟨rfl, rfl⟩ := Prod.mk.inj (Except.ok.inj h)
      cases j with
      | zero =>
          obtain ⟨-, -, himm, hptr⟩ := decodeArg_ok ha
          rw [Nat.add_zero, List.getElem?_cons_zero]
          refine ⟨fun hk => ?_, fun hk => ?_⟩
          · obtain ⟨v, -, rfl⟩ := himm hk
            exact ⟨_, rfl⟩
          · obtain ⟨ref, -, hderef, rfl⟩ := hptr hk
            exact ⟨_, rfl, hderef⟩
      | succ j =>
          rw [List.getElem?_cons_succ, show i + (j + 1) = i + 1 + j by omega]
          exact ih has (Nat.lt_of_succ_lt_succ hj)

end BvgzVm
