import BvgzVm.Asm.BytecodeGen
import BvgzVm.Vm.Decode

set_option autoImplicit false

/-! # The layout of the code

What the generator is meant to produce. An emitted instruction is encoded as its word, its size
byte if it has an immediate, and its operands (`encodeInstn`); the code is the encodings of the
emitted instructions in order (`encodeCode`), and the address of an instruction is the size of
what is emitted before it (`addressAt`).

The word and the size byte of `compute_layout` are described as numbers: `kindBits` has one bit
and `sizeBits` one pair of bits for each operand. This is the form in which the decoder takes
them apart.
-/

namespace BvgzVm

open Bytes CLib

variable {T : InstnTable}

/-! ## The word and the size byte -/

/-- One bit for each operand, the first one lowest: is it an immediate? -/
def kindBits : List PrsArg → Nat
  | [] => 0
  | a :: as => 2 * kindBits as + (if a.isImm then 1 else 0)

/-- Two bits for each operand, the first one lowest: the width of an immediate. -/
def sizeBits : List PrsArg → Nat
  | [] => 0
  | a :: as => 4 * sizeBits as + (if a.isImm then nlog2 a.nBytes else 0)

/-- The bytes of the operands. -/
def argsSize (as : List PrsArg) : Nat := (as.map PrsArg.nBytes).sum

theorem argsSize_cons (a : PrsArg) (as : List PrsArg) :
    argsSize (a :: as) = a.nBytes + argsSize as := by
  rw [argsSize, List.map_cons, List.sum_cons, argsSize]

theorem PrsArg.nBytes_pos (a : PrsArg) : 0 < a.nBytes := by
  cases a with
  | imm w value fits => cases w <;> simp [nBytes, ImmWidth.bytes]
  | refNum value => simp [nBytes]
  | refLbl l => simp [nBytes]
  | immLbl l => simp [nBytes]

theorem nlog2_le (n : Nat) : nlog2 n ≤ 3 := by
  unfold nlog2
  split <;> omega

theorem kindBits_lt (as : List PrsArg) : kindBits as < 2 ^ as.length := by
  induction as with
  | nil => simp [kindBits]
  | cons a as ih =>
      rw [kindBits, List.length_cons, pow_succ]
      split <;> omega

theorem sizeBits_lt (as : List PrsArg) : sizeBits as < 4 ^ as.length := by
  induction as with
  | nil => simp [sizeBits]
  | cons a as ih =>
      have hlog := nlog2_le a.nBytes
      rw [sizeBits, List.length_cons, pow_succ]
      split <;> omega

/-- Adding a field below the others is setting its bits. -/
theorem or_shiftLeft_field (x b m w j : Nat) (hb : b < 2 ^ w) :
    (x ||| b <<< j) ||| m <<< (j + w) = x ||| (m * 2 ^ w + b) <<< j := by
  have hfield : m * 2 ^ w + b = b ||| m <<< w := by
    rw [Nat.or_comm, ← Nat.shiftLeft_add_eq_or_of_lt hb, Nat.shiftLeft_eq]
  rw [hfield, Nat.shiftLeft_or_distrib, Nat.or_assoc, ← Nat.shiftLeft_add, Nat.add_comm w j]

/-- The loop of `compute_layout` sets the bits and adds up the sizes. -/
theorem layoutLoop_eq (as : List PrsArg) (j opIR iSz size : Nat) :
    layoutLoop j as opIR iSz size =
      (opIR ||| kindBits as <<< j, iSz ||| sizeBits as <<< (2 * j), size + argsSize as) := by
  induction as generalizing j opIR iSz size with
  | nil => simp [layoutLoop, kindBits, sizeBits, argsSize]
  | cons a as ih =>
      have hlog : nlog2 a.nBytes < 2 ^ 2 := by
        have := nlog2_le a.nBytes
        omega
      rw [layoutLoop, kindBits, sizeBits, argsSize_cons, ← Nat.add_assoc]
      cases a.isImm with
      | true =>
          have hk := or_shiftLeft_field opIR 1 (kindBits as) 1 j (by omega)
          have hs := or_shiftLeft_field iSz (nlog2 a.nBytes) (sizeBits as) 2 (2 * j) hlog
          rw [if_pos rfl, if_pos rfl, if_pos rfl, ih, hk, Nat.mul_succ, hs]
          simp only [Nat.pow_one, Nat.mul_comm, Nat.reducePow]
      | false =>
          have hk := or_shiftLeft_field opIR 0 (kindBits as) 1 j (by omega)
          have hs := or_shiftLeft_field iSz 0 (sizeBits as) 2 (2 * j) (by omega)
          rw [Nat.zero_shiftLeft, Nat.or_zero] at hk hs
          simp only [Bool.false_eq_true, if_false]
          rw [ih, hk, Nat.mul_succ, hs]
          simp only [Nat.pow_one, Nat.mul_comm, Nat.reducePow]

/-- The instruction word. -/
def PrsInstn.word (i : PrsInstn T) : Nat := 8 * i.instn.opcode + kindBits i.args

/-- The instruction has a size byte. -/
def PrsInstn.hasSizes (i : PrsInstn T) : Prop := i.word &&& 0x7 ≠ 0

instance (i : PrsInstn T) : Decidable i.hasSizes := inferInstanceAs (Decidable (_ ≠ _))

/-- The bytes before the operands. -/
def PrsInstn.headerSize (i : PrsInstn T) : Nat := if i.hasSizes then 3 else 2

/-- The bytes of the instruction. -/
def PrsInstn.size (i : PrsInstn T) : Nat := i.headerSize + argsSize i.args

theorem PrsInstn.kindBits_lt (i : PrsInstn T) : kindBits i.args < 8 := by
  have hlt := BvgzVm.kindBits_lt i.args
  have hpow : 2 ^ i.args.length ≤ 2 ^ 3 := Nat.pow_le_pow_right (by omega) i.length_args_le
  omega

theorem PrsInstn.sizeBits_lt (i : PrsInstn T) : sizeBits i.args < 64 := by
  have hlt := BvgzVm.sizeBits_lt i.args
  have hpow : 4 ^ i.args.length ≤ 4 ^ 3 := Nat.pow_le_pow_right (by omega) i.length_args_le
  omega

/-- **`compute_layout`** gives the word, the size byte and the size. -/
theorem computeLayout_eq (i : PrsInstn T) :
    computeLayout i = (i.word, sizeBits i.args, i.size) := by
  have hword : i.instn.opcode <<< 3 ||| kindBits i.args = i.word := by
    rw [← Nat.shiftLeft_add_eq_or_of_lt i.kindBits_lt, Nat.shiftLeft_eq, PrsInstn.word]
    omega
  unfold computeLayout
  rw [layoutLoop_eq]
  simp only [Nat.shiftLeft_zero, Nat.mul_zero, Nat.zero_or, hword]
  unfold PrsInstn.size PrsInstn.headerSize
  by_cases h : i.hasSizes
  · have hbits : i.word &&& 0x7 ≠ 0 := h
    rw [if_pos hbits, if_pos h, Nat.add_right_comm]
  · have hbits : ¬ i.word &&& 0x7 ≠ 0 := h
    rw [if_neg hbits, if_neg h]

theorem PrsInstn.word_lt (i : PrsInstn T) : i.word < 2 ^ 16 := by
  have hop := T.opcode_lt i.mem_entries
  have hk := i.kindBits_lt
  unfold PrsInstn.word
  omega

/-- The decoder finds the opcode in the word. -/
theorem PrsInstn.instnIdx_word (i : PrsInstn T) : instnIdx i.word = i.instn.opcode := by
  have hop := T.opcode_lt i.mem_entries
  have hk := i.kindBits_lt
  rw [instnIdx, Nat.shiftRight_eq_div_pow, PrsInstn.word]
  omega

/-- The kind bit of operand `k`. -/
theorem testBit_kindBits {as : List PrsArg} {k : Nat} {a : PrsArg} (h : as[k]? = some a) :
    (kindBits as).testBit k = a.isImm := by
  induction as generalizing k with
  | nil => simp at h
  | cons b as ih =>
      cases k with
      | zero =>
          obtain rfl := Option.some.inj h
          rw [kindBits, Nat.testBit_zero]
          cases b.isImm <;> simp
      | succ k =>
          rw [List.getElem?_cons_succ] at h
          rw [kindBits, Nat.testBit_succ, ← ih h]
          congr 1
          split <;> omega

theorem PrsInstn.testBit_word (i : PrsInstn T) {k : Nat} {a : PrsArg} (h : i.args[k]? = some a) :
    i.word.testBit k = a.isImm := by
  have hk : k < 3 := by
    have hlt : k < i.args.length := (List.getElem?_eq_some_iff.1 h).1
    have := i.length_args_le
    omega
  have hmod : i.word % 2 ^ 3 = kindBits i.args := by
    have := i.kindBits_lt
    unfold PrsInstn.word
    omega
  rw [← testBit_kindBits h, ← hmod, Nat.testBit_mod_two_pow, decide_eq_true hk, Bool.true_and]

/-- The width code of operand `k`. -/
theorem shiftRight_sizeBits {as : List PrsArg} {k : Nat} {a : PrsArg} (h : as[k]? = some a)
    (himm : a.isImm = true) : (sizeBits as >>> (2 * k)) &&& 3 = nlog2 a.nBytes := by
  have hand (x : Nat) : x &&& 3 = x % 4 := Nat.and_two_pow_sub_one_eq_mod x 2
  induction as generalizing k with
  | nil => simp at h
  | cons b as ih =>
      cases k with
      | zero =>
          obtain rfl := Option.some.inj h
          have hlog := nlog2_le b.nBytes
          rw [Nat.mul_zero, Nat.shiftRight_zero, hand, sizeBits, if_pos himm]
          omega
      | succ k =>
          rw [List.getElem?_cons_succ] at h
          rw [← ih h, Nat.mul_succ, Nat.add_comm, Nat.shiftRight_add]
          congr 2
          have hlog := nlog2_le b.nBytes
          rw [sizeBits, Nat.shiftRight_eq_div_pow]
          split <;> omega

/-- The decoder reads as many bytes for an immediate as the writer stored. -/
theorem immBytes_sizeBits {as : List PrsArg} {k : Nat} {a : PrsArg} (h : as[k]? = some a)
    (himm : a.isImm = true) : immBytes (sizeBits as) k = a.nBytes := by
  rw [immBytes, shiftRight_sizeBits h himm]
  cases a with
  | imm w value fits => cases w <;> rfl
  | refNum value => rfl
  | refLbl l => rfl
  | immLbl l => rfl

/-! ## Encodings -/

/-- The bytes of an operand, `r` giving the addresses of the labels. -/
def encodeArg (r : CStr → UInt32) : PrsArg → List UInt8
  | .imm w value _ => toLE w.bytes value.toNat
  | .refNum value => toLE 4 value.toNat
  | .refLbl l | .immLbl l => toLE 4 (r l).toNat

/-- The word and the size byte. -/
def PrsInstn.header (i : PrsInstn T) : List UInt8 :=
  toLE 2 i.word ++ if i.hasSizes then [UInt8.ofNat (sizeBits i.args)] else []

/-- The bytes of an instruction. -/
def encodeInstn (r : CStr → UInt32) (i : PrsInstn T) : List UInt8 :=
  i.header ++ i.args.flatMap (encodeArg r)

/-- The code: what is emitted, one instruction after the other. -/
def encodeCode (debugMode : Bool) (r : CStr → UInt32) (l : List (PrsInstn T)) : List UInt8 :=
  (l.filter (PrsInstn.emitted debugMode)).flatMap (encodeInstn r)

/-- The number of bytes emitted for `l`. -/
def codeSize (debugMode : Bool) (l : List (PrsInstn T)) : Nat :=
  ((l.filter (PrsInstn.emitted debugMode)).map PrsInstn.size).sum

@[simp] theorem length_encodeArg (r : CStr → UInt32) (a : PrsArg) :
    (encodeArg r a).length = a.nBytes := by
  cases a <;> simp [encodeArg, PrsArg.nBytes]

theorem length_encodeArgs (r : CStr → UInt32) (as : List PrsArg) :
    (as.flatMap (encodeArg r)).length = argsSize as := by
  induction as with
  | nil => rfl
  | cons a as ih =>
      rw [List.flatMap_cons, List.length_append, ih, length_encodeArg, argsSize_cons]

@[simp] theorem PrsInstn.length_header (i : PrsInstn T) : i.header.length = i.headerSize := by
  unfold PrsInstn.header PrsInstn.headerSize
  split <;> simp

@[simp] theorem length_encodeInstn (r : CStr → UInt32) (i : PrsInstn T) :
    (encodeInstn r i).length = i.size := by
  rw [encodeInstn, List.length_append, length_encodeArgs, i.length_header, PrsInstn.size]

@[simp] theorem length_encodeCode (debugMode : Bool) (r : CStr → UInt32) (l : List (PrsInstn T)) :
    (encodeCode debugMode r l).length = codeSize debugMode l := by
  rw [encodeCode, codeSize, List.length_flatMap]
  simp

theorem encodeCode_append (debugMode : Bool) (r : CStr → UInt32) (l l' : List (PrsInstn T)) :
    encodeCode debugMode r (l ++ l') = encodeCode debugMode r l ++ encodeCode debugMode r l' := by
  rw [encodeCode, List.filter_append, List.flatMap_append, encodeCode, encodeCode]

theorem codeSize_append (debugMode : Bool) (l l' : List (PrsInstn T)) :
    codeSize debugMode (l ++ l') = codeSize debugMode l + codeSize debugMode l' := by
  rw [codeSize, List.filter_append, List.map_append, List.sum_append, codeSize, codeSize]

theorem codeSize_eq_zero {debugMode : Bool} {l : List (PrsInstn T)}
    (h : l.any (PrsInstn.emitted debugMode) = false) : codeSize debugMode l = 0 := by
  have hnil : l.filter (PrsInstn.emitted debugMode) = [] := by
    rw [List.filter_eq_nil_iff]
    intro x hx
    rw [List.any_eq_false] at h
    exact h x hx
  rw [codeSize, hnil, List.map_nil, List.sum_nil]

theorem PrsInstn.size_pos (i : PrsInstn T) : 2 ≤ i.size := by
  unfold PrsInstn.size PrsInstn.headerSize
  split <;> omega

/-! ## Addresses -/

/-- The addresses after the first `k` instructions have been placed: an instruction has that of
the next emitted instruction, if this is one of the `k`. -/
def placedAddress (debugMode : Bool) (l : List (PrsInstn T)) (k j : Nat) : UInt32 :=
  if ((l.take k).drop j).any (PrsInstn.emitted debugMode) then
    UInt32.ofNat (codeSize debugMode (l.take j))
  else noOffset

/-- The address of instruction `j`, if it or an instruction after it is emitted. -/
def addressAt (debugMode : Bool) (l : List (PrsInstn T)) (j : Nat) : UInt32 :=
  placedAddress debugMode l l.length j

/-- The instructions with their addresses after the first `k` have been placed. -/
def placed (debugMode : Bool) (l : List (PrsInstn T)) (k : Nat) : List (PrsInstn T) :=
  l.mapIdx (fun j i => i.setOffset (placedAddress debugMode l k j))

/-- The number a label stands for. -/
def resolveLabel (debugMode : Bool) (labels : LabelMap) (l : List (PrsInstn T)) (k : CStr) :
    UInt32 :=
  match labels.get k with
  | none => noOffset
  | some label => if label.isMemRef then label.offset else addressAt debugMode l label.offset.toNat

theorem getElem?_placed (debugMode : Bool) (l : List (PrsInstn T)) (k j : Nat) :
    (placed debugMode l k)[j]? = l[j]?.map (fun i => i.setOffset (placedAddress debugMode l k j)) :=
  List.getElem?_mapIdx

@[simp] theorem length_placed (debugMode : Bool) (l : List (PrsInstn T)) (k : Nat) :
    (placed debugMode l k).length = l.length := List.length_mapIdx

@[simp] theorem emitted_setOffset (debugMode : Bool) (i : PrsInstn T) (o : UInt32) :
    (i.setOffset o).emitted debugMode = i.emitted debugMode := rfl

@[simp] theorem size_setOffset (i : PrsInstn T) (o : UInt32) : (i.setOffset o).size = i.size := rfl

/-- Everything up to the next emitted instruction is at one address. -/
theorem codeSize_take_of_skipped {debugMode : Bool} {l : List (PrsInstn T)} {j k : Nat}
    (hjk : j ≤ k) (h : ((l.take k).drop j).any (PrsInstn.emitted debugMode) = false) :
    codeSize debugMode (l.take k) = codeSize debugMode (l.take j) := by
  have hsplit : l.take k = l.take j ++ (l.take k).drop j := by
    have htake : l.take j = (l.take k).take j := by
      rw [List.take_take, Nat.min_eq_left hjk]
    rw [htake, List.take_append_drop]
  rw [hsplit, codeSize_append, codeSize_eq_zero h, Nat.add_zero]

theorem codeSize_take_le {debugMode : Bool} {l : List (PrsInstn T)} {j k : Nat} (hjk : j ≤ k) :
    codeSize debugMode (l.take j) ≤ codeSize debugMode (l.take k) := by
  have hsplit : l.take k = l.take j ++ (l.take k).drop j := by
    have htake : l.take j = (l.take k).take j := by
      rw [List.take_take, Nat.min_eq_left hjk]
    rw [htake, List.take_append_drop]
  rw [hsplit, codeSize_append]
  omega

end BvgzVm
