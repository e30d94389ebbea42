import BvgzVm.Asm.Result
import BvgzVm.Lib.Bytes
import BvgzVm.Lib.Except

set_option autoImplicit false

/-! # The bytecode generator

`parse_to_bytecode` of `bytecode_gen.c` and the functions it calls. The buffer is the list of the
bytes that are allocated; `fill` is what `realloc` leaves in new ones. A write outside of it, an
access outside `parse->instns`, a label that is not found and a loop that never ends are outcomes
of the model (`GenFault`).
-/

namespace BvgzVm

open Bytes CLib

variable {T : InstnTable}

/-- Why `parse_to_bytecode` does not return. -/
inductive GenFault
  /-- `assert(parse->errors == 0)` -/
  | assertion
  /-- the loop that grows the buffer does not end -/
  | hang
  /-- a write outside the buffer -/
  | bufferWrite
  /-- an access outside `parse->instns` -/
  | instnIndex
  /-- the label that was looked up is `NULL` and dereferenced -/
  | missingLabel
  deriving DecidableEq, Repr

/-- `struct ref`: a reference that is written when the address of `instn` is known. -/
structure Ref where
  offset : Nat
  instn : Nat
  deriving DecidableEq, Repr

/-- The variables of `parse_to_bytecode` and the instructions it updates. -/
structure Gen (T : InstnTable) where
  instns : List (PrsInstn T)
  buffer : List UInt8
  nBlocks : Nat
  offset : Nat
  delayedRefs : List Ref

/-! ## `compute_layout` -/

/-- `nlog2` -/
def nlog2 (n : Nat) : Nat :=
  match n with
  | 1 => 0
  | 2 => 1
  | 4 => 2
  | _ => 3

/-- The loop of `compute_layout`, from operand `j` on. -/
def layoutLoop : Nat → List PrsArg → Nat → Nat → Nat → Nat × Nat × Nat
  | _, [], opIR, iSz, size => (opIR, iSz, size)
  | j, a :: as, opIR, iSz, size =>
      if a.isImm then
        layoutLoop (j + 1) as (opIR ||| 1 <<< j) (iSz ||| nlog2 a.nBytes <<< (2 * j))
          (size + a.nBytes)
      else layoutLoop (j + 1) as opIR iSz (size + a.nBytes)

/-- `compute_layout`: the instruction word, the size byte and the size. -/
def computeLayout (instn : PrsInstn T) : Nat × Nat × Nat :=
  let (opIR, iSz, size) := layoutLoop 0 instn.args (instn.instn.opcode <<< 3) 0 2
  if opIR &&& 0x7 ≠ 0 then (opIR, iSz, size + 1) else (opIR, iSz, size)

/-! ## The buffer -/

/-- `BUF_BLOCK_SIZE` -/
def bufBlockSize : Nat := 256

/-- `while (offset + size > n_blocks * BUF_BLOCK_SIZE)`, `need` being `offset + size`. The product
is a 32-bit number: after `2 ^ 24` rounds it has gone through all its values, and a loop that is
not over by then never ends. -/
def growLoop (fill : Nat → UInt8) (need : Nat) :
    Nat → Nat → List UInt8 → Except GenFault (Nat × List UInt8)
  | 0, _, _ => .error .hang
  | fuel + 1, nBlocks, buffer =>
      if need > nBlocks * bufBlockSize % 2 ^ 32 then
        growLoop fill need fuel (nBlocks + 1)
          (resize fill buffer ((nBlocks + 1) * bufBlockSize % 2 ^ 32))
      else .ok (nBlocks, buffer)

/-- Room for `size` more bytes. -/
def growBuffer (fill : Nat → UInt8) (size : Nat) (g : Gen T) : Except GenFault (Gen T) := do
  let (nBlocks, buffer) ← growLoop fill (g.offset + size) (2 ^ 24 + 1) g.nBlocks g.buffer
  .ok { g with nBlocks, buffer }

/-- The bytes `bs`, written at `buffer + offset`, and the offset moved behind them. -/
def emit (bs : List UInt8) (g : Gen T) : Except GenFault (Gen T) :=
  match write g.buffer g.offset bs with
  | some buffer => .ok { g with buffer, offset := g.offset + bs.length }
  | none => .error .bufferWrite

/-! ## `write_args` -/

/-- `write_num_ref_arg` -/
def writeNumRefArg (value : UInt64) (g : Gen T) : Except GenFault (Gen T) :=
  emit (toLE 4 value.toNat) g

/-- `write_imm_arg` -/
def writeImmArg (w : ImmWidth) (value : UInt64) (g : Gen T) : Except GenFault (Gen T) :=
  emit (toLE w.bytes value.toNat) g

/-- `write_imm32bit` -/
def writeImm32bit (value : UInt32) (g : Gen T) : Except GenFault (Gen T) :=
  emit (toLE 4 value.toNat) g

/-- `add_delayed_ref`, and the four bytes left out for it. -/
def addDelayedRef (instn : Nat) (g : Gen T) : Gen T :=
  { g with delayedRefs := g.delayedRefs ++ [⟨g.offset, instn⟩], offset := g.offset + 4 }

/-- The label operands of `write_args`. -/
def writeLabelArg (labels : LabelMap) (curInstn : Nat) (l : CStr) (g : Gen T) :
    Except GenFault (Gen T) :=
  match labels.get l with
  | none => .error .missingLabel
  | some label =>
      if label.isMemRef then writeImm32bit label.offset g
      else if label.offset.toNat ≤ curInstn then
        match g.instns[label.offset.toNat]? with
        | none => .error .instnIndex
        | some instn => writeImm32bit instn.memOffset g
      else .ok (addDelayedRef label.offset.toNat g)

/-- One operand of `write_args`. -/
def writeArg (labels : LabelMap) (curInstn : Nat) (a : PrsArg) (g : Gen T) :
    Except GenFault (Gen T) :=
  match a with
  | .refNum value => writeNumRefArg value g
  | .imm w value _ => writeImmArg w value g
  | .immLbl l => writeLabelArg labels curInstn l g
  | .refLbl l => writeLabelArg labels curInstn l g

/-- `write_args` -/
def writeArgs (labels : LabelMap) (curInstn : Nat) :
    List PrsArg → Gen T → Except GenFault (Gen T)
  | [], g => .ok g
  | a :: as, g => do
      let g ← writeArg labels curInstn a g
      writeArgs labels curInstn as g

/-! ## `parse_to_bytecode` -/

/-- The loop over the instructions before the current one, downwards from `j - 1`: those that
have no address get that of the current one. -/
def backfill (offset : UInt32) : Nat → List (PrsInstn T) → List (PrsInstn T)
  | 0, instns => instns
  | j + 1, instns =>
      match instns[j]? with
      | some i2 =>
          if i2.memOffset = noOffset then backfill offset j (instns.set j (i2.setOffset offset))
          else instns
      | none => instns

/-- The instruction gets code: it is not a debug instruction, or `debug_mode` is set. -/
def PrsInstn.emitted (debugMode : Bool) (i : PrsInstn T) : Bool :=
  i.instn.flags &&& fDebugOnlyInstn = 0 || debugMode

/-- The current instruction and those before it get their addresses. -/
def place (i : Nat) (instn : PrsInstn T) (g : Gen T) : Gen T :=
  let offset := UInt32.ofNat g.offset
  { g with instns := backfill offset i (g.instns.set i (instn.setOffset offset)) }

/-- The size byte, if the word has a kind bit. -/
def emitSizes (opIR iSz : Nat) (g : Gen T) : Except GenFault (Gen T) :=
  if opIR &&& 0x7 ≠ 0 then emit [UInt8.ofNat iSz] g else .ok g

/-- The body of the loop of `parse_to_bytecode`. -/
def genInstn (fill : Nat → UInt8) (labels : LabelMap) (debugMode : Bool) (i : Nat) (g : Gen T) :
    Except GenFault (Gen T) :=
  match g.instns[i]? with
  | none => .error .instnIndex
  | some instn =>
      if instn.emitted debugMode then do
        let (opIR, iSz, size) := computeLayout instn
        let g ← growBuffer fill size g
        let g := place i instn g
        let g ← emit (toLE 2 opIR) g
        let g ← emitSizes opIR iSz g
        writeArgs labels i instn.args g
      else .ok g

/-- The loop, with `todo` instructions to go from instruction `i` on. -/
def genLoop (fill : Nat → UInt8) (labels : LabelMap) (debugMode : Bool) :
    Nat → Nat → Gen T → Except GenFault (Gen T)
  | 0, _, g => .ok g
  | todo + 1, i, g => do
      let g ← genInstn fill labels debugMode i g
      genLoop fill labels debugMode todo (i + 1) g

/-- The loop over the delayed references. -/
def patchRefs (instns : List (PrsInstn T)) : List Ref → List UInt8 → Except GenFault (List UInt8)
  | [], buffer => .ok buffer
  | r :: rs, buffer =>
      match instns[r.instn]? with
      | none => .error .instnIndex
      | some instn =>
          match write buffer r.offset (toLE 4 instn.memOffset.toNat) with
          | none => .error .bufferWrite
          | some buffer => patchRefs instns rs buffer

/-- What `parse_to_bytecode` returns: the code, and the parse result with the addresses. -/
structure Bytecode (T : InstnTable) where
  code : List UInt8
  parse : PrsResult T

/-- `parse_to_bytecode` -/
def parseToBytecode (fill : Nat → UInt8) (parse : PrsResult T) (debugMode : Bool) :
    Except GenFault (Bytecode T) :=
  if parse.errors ≠ 0 then .error .assertion
  else do
    let g ← genLoop fill parse.labels debugMode parse.nInstns 0 ⟨parse.instns, [], 0, 0, []⟩
    let buffer ← patchRefs g.instns g.delayedRefs g.buffer
    .ok ⟨buffer.take g.offset, { parse with instns := g.instns }⟩

end BvgzVm
