import BvgzVm.Asm.Targets
import BvgzVm.Instn.MemAccess
import BvgzVm.Lib.Outcomes

set_option autoImplicit false

/-! # What a program means

The meaning of a parsed program, without code bytes, instruction pointers and a call stack in
bytes: it is at an index of its instructions (`SrcState.place`), jumps and calls go to the index a
label stands for, and a call remembers the index it returns to. An operand is a value, a cell of
the memory or such an index (`Operand`).

Where the program does something that C or the encoding leaves undefined it has no meaning: an
access that leaves the memory, a shift by 64 or more, a copy between overlapping ranges, a code
label that is not the target of a jump, a jump to a number, a system call, and more than 64 open
calls, for which the block of the call stack would grow and lose frames when it shrinks again.
-/

namespace BvgzVm

open CLib Outcomes

variable {T : InstnTable}

/-! ## Programs on their way -/

/-- An open call: its two pointers, and the index of the instruction behind it. -/
structure SrcCall where
  retval : UInt32
  args : UInt32
  resume : Nat

/-- A running program: the index of the next instruction, the open calls, the innermost one first,
and the memory. -/
structure SrcState where
  place : Nat
  calls : List SrcCall
  memory : Segment

/-- How a program ends: it returns or comes to its end, an instruction fails with an exception, or
an assertion fails. -/
inductive SrcResult
  | ended (memory : Segment)
  | failed (exceptions : UInt32) (memory : Segment)
  | asserted (id : UInt64) (memory : Segment)

/-- The open calls that fit in the first block of a call stack. -/
def maxCalls : Nat := 64

/-! ## Operands -/

/-- An operand without its label. -/
inductive Operand
  | value (v : UInt64)
  | cell (ref : UInt32)
  | place (k : Nat)
  deriving DecidableEq

/-- What an operand of the source stands for. A code label is the index of an instruction, behind
which something is emitted. -/
def PrsResult.operand (p : PrsResult T) (debugMode : Bool) : PrsArg → Option Operand
  | .imm _ value _ => some (.value value)
  | .refNum value => some (.cell value.toUInt32)
  | .refLbl l =>
      match p.labels.get l with
      | some label => if label.isMemRef then some (.cell label.offset) else none
      | none => none
  | .immLbl l =>
      match p.labels.get l with
      | some label =>
          if label.isMemRef then some (.value label.offset.toUInt64)
          else if (firstEmitted debugMode p.instns label.offset.toNat).isSome then
            some (.place label.offset.toNat)
          else none
      | none => none

/-- The operands, if all of them stand for something. -/
def PrsResult.operands (p : PrsResult T) (debugMode : Bool) : List PrsArg → Option (List Operand)
  | [] => some []
  | a :: as =>
      match p.operand debugMode a, p.operands debugMode as with
      | some o, some os => some (o :: os)
      | _, _ => none

/-- The 64-bit value of an operand. -/
def Operand.read (memory : Segment) : Operand → Option UInt64
  | .value v => some v
  | .cell ref => (memory.load ref.toNat 8).map UInt64.ofNat
  | .place _ => none

/-- A cell that does not begin four bytes before the end of the memory, or earlier. -/
def Operand.outside (memory : Segment) : Operand → Bool
  | .cell ref => (derefMemPtr ref 4 memory.size).isNone
  | _ => false

/-! ## Values -/

/-- `x op y`: nothing, an exception or a value. -/
def Op.binary : Op → Option (UInt64 → UInt64 → Option (Except UInt32 UInt64))
  | .add3 | .add2 => some fun x y => some (.ok (x + y))
  | .sub3 | .sub2 => some fun x y => some (.ok (x - y))
  | .mul3 | .mul2 => some fun x y => some (.ok (x * y))
  | .div3 | .div2 => some fun x y => some (if y = 0 then .error vmEArithmetic else .ok (x / y))
  | .mod3 | .mod2 => some fun x y => some (if y = 0 then .error vmEArithmetic else .ok (x % y))
  | .eq3 => some fun x y => some (.ok (ofBool (x == y)))
  | .ne3 => some fun x y => some (.ok (ofBool (x != y)))
  | .gt3 => some fun x y => some (.ok (ofBool (decide (x > y))))
  | .lt3 => some fun x y => some (.ok (ofBool (decide (x < y))))
  | .ge3 => some fun x y => some (.ok (ofBool (decide (x ≥ y))))
  | .le3 => some fun x y => some (.ok (ofBool (decide (x ≤ y))))
  | .and3 | .and2 => some fun x y => some (.ok (x &&& y))
  | .or3 | .or2 => some fun x y => some (.ok (x ||| y))
  | .xor3 | .xor2 => some fun x y => some (.ok (x ^^^ y))
  | .shl3 | .shl2 => some fun x y => if y < 64 then some (.ok (x <<< y)) else none
  | .shr3 | .shr2 => some fun x y => if y < 64 then some (.ok (x >>> y)) else none
  | .lAnd3 | .lAnd2 => some fun x y => some (.ok (ofBool (x != 0 && y != 0)))
  | .lOr3 | .lOr2 => some fun x y => some (.ok (ofBool (x != 0 || y != 0)))
  | _ => none

/-- `op x` -/
def Op.unary : Op → Option (UInt64 → UInt64)
  | .lNot2 | .lNot1 => some fun x => ofBool (x == 0)
  | .lBool2 | .lBool1 => some fun x => ofBool (x != 0)
  | .not2 => some fun x => ~~~x
  -- `not a` leaves `a` as it is
  | .not1 => some fun x => x
  | _ => none

/-! ## Instructions that go on with the next one -/

/-- The memory with a 64-bit value in a cell. -/
def setCell (memory : Segment) (ref : UInt32) (v : UInt64) : Option (Except UInt32 Segment) :=
  (memory.store ref.toNat 8 v.toNat).map .ok

/-- `op d, x, y` -/
def binaryEffect (f : UInt64 → UInt64 → Option (Except UInt32 UInt64)) (memory : Segment)
    (d : UInt32) (x y : Operand) : Option (Except UInt32 Segment) :=
  match x.read memory, y.read memory with
  | some x, some y =>
      match f x y with
      | some (.ok v) => setCell memory d v
      | some (.error e) => some (.error e)
      | none => none
  | _, _ => none

/-- `op d, x` -/
def unaryEffect (f : UInt64 → UInt64) (memory : Segment) (d : UInt32) (x : Operand) :
    Option (Except UInt32 Segment) :=
  match x.read memory with
  | some x => setCell memory d (f x)
  | none => none

/-- An access to `w` bytes at an address. Behind the memory it is a fault, as long as the end of
the range is a 32-bit number. -/
def accessEffect (memory : Segment) (address : UInt32) (w : Nat)
    (f : Nat → Option (Except UInt32 Segment)) : Option (Except UInt32 Segment) :=
  if address.toNat + w ≤ memory.size then f address.toNat
  else if address.toNat + w < 2 ^ 32 then some (.error vmEMemFault)
  else none

/-- `readN d, r, x` -/
def readEffect (w : Nat) (memory : Segment) (d r : UInt32) (x : Operand) :
    Option (Except UInt32 Segment) :=
  match memory.load r.toNat 4, x.read memory with
  | some base, some offset =>
      accessEffect memory (UInt32.ofNat base + offset.toUInt32) w fun address =>
        match memory.load address w with
        | some v => (memory.store d.toNat w v).map .ok
        | none => none
  | _, _ => none

/-- `writeN x, y, z` -/
def writeEffect (w : Nat) (memory : Segment) (x y z : Operand) : Option (Except UInt32 Segment) :=
  match x.read memory, y.read memory, z.read memory with
  | some base, some offset, some v =>
      accessEffect memory (base.toUInt32 + offset.toUInt32) w fun address =>
        (memory.store address w v.toNat).map .ok
  | _, _, _ => none

/-- `cp d, s, n`, where the ranges do not overlap. -/
def copyEffect (memory : Segment) (d s : UInt32) (n : Operand) : Option (Except UInt32 Segment) :=
  match n.read memory with
  | some n =>
      if n = 0 then some (.ok memory)
      else if d.toNat < s.toNat + n.toNat ∧ s.toNat < d.toNat + n.toNat then none
      else match Bytes.read memory.bytes s.toNat n.toNat with
        | some bs => (memory.write d.toNat bs).map .ok
        | none => none
  | none => none

/-- The operands of `op d, x, y`; the form with two operands repeats the first one. -/
def binaryForm : List Operand → Option (UInt32 × Operand × Operand)
  | [.cell d, x, y] => some (d, x, y)
  | [.cell d, y] => some (d, .cell d, y)
  | _ => none

/-- The operands of `op d, x`; the form with one operand repeats it. -/
def unaryForm : List Operand → Option (UInt32 × Operand)
  | [.cell d, x] => some (d, x)
  | [.cell d] => some (d, .cell d)
  | _ => none

/-- The instructions that are not operators and do not look at the calls. -/
def Op.otherEffect (op : Op) (args : List Operand) (memory : Segment) :
    Option (Except UInt32 Segment) :=
  match op, args with
  | .nop0, [] => some (.ok memory)
  | .cp3, [.cell d, .cell s, n] => copyEffect memory d s n
  | .read8, [.cell d, .cell r, x] => readEffect 1 memory d r x
  | .read16, [.cell d, .cell r, x] => readEffect 2 memory d r x
  | .read32, [.cell d, .cell r, x] => readEffect 4 memory d r x
  | .read64, [.cell d, .cell r, x] => readEffect 8 memory d r x
  | .write8, [x, y, z] => writeEffect 1 memory x y z
  | .write16, [x, y, z] => writeEffect 2 memory x y z
  | .write32, [x, y, z] => writeEffect 4 memory x y z
  | .write64, [x, y, z] => writeEffect 8 memory x y z
  | .abrt1, [x] => (x.read memory).map fun e => .error e.toUInt32
  | _, _ => none

/-- What an instruction that does not look at the calls does with the memory: an exception, or
the memory behind it. -/
def Op.effect (op : Op) (args : List Operand) (memory : Segment) : Option (Except UInt32 Segment) :=
  match op.binary, op.unary with
  | some f, _ => (binaryForm args).bind fun (d, x, y) => binaryEffect f memory d x y
  | none, some f => (unaryForm args).bind fun (d, x) => unaryEffect f memory d x
  | none, none => op.otherEffect args memory

/-! ## Steps -/

/-- Goes on with the next instruction. -/
def SrcState.goOn (s : SrcState) (memory : Segment) : SrcState ⊕ SrcResult :=
  .inl { s with place := s.place + 1, memory := memory }

/-- Goes on at a place. -/
def SrcState.goTo (s : SrcState) (k : Nat) : SrcState ⊕ SrcResult := .inl { s with place := k }

/-- The end of an instruction that has this effect. -/
def SrcState.finish (s : SrcState) : Except UInt32 Segment → SrcState ⊕ SrcResult
  | .ok memory => s.goOn memory
  | .error e => .inr (.failed e s.memory)

/-- `jtrue` and `jfalse` -/
def SrcState.branch (s : SrcState) (taken : UInt64 → Bool) (k : Nat) (c : Operand) :
    Option (SrcState ⊕ SrcResult) :=
  (c.read s.memory).map fun c => if taken c then s.goTo k else s.goOn s.memory

/-- `call` -/
def SrcState.call (s : SrcState) (k : Nat) (argv retv : Operand) :
    Option (SrcState ⊕ SrcResult) :=
  match argv.read s.memory, retv.read s.memory with
  | some argv, some retv =>
      if s.calls.length < maxCalls then
        some (.inl { s with
          place := k
          calls := ⟨retv.toUInt32, argv.toUInt32, s.place + 1⟩ :: s.calls })
      else none
  | _, _ => none

/-- `ret` -/
def SrcState.ret (s : SrcState) : SrcState ⊕ SrcResult :=
  match s.calls with
  | [] => .inr (.ended s.memory)
  | c :: cs => .inl { s with place := c.resume, calls := cs }

/-- The argument pointer of the innermost call. -/
def SrcState.argv (s : SrcState) : UInt32 :=
  match s.calls with
  | [] => 0
  | c :: _ => c.args

/-- `retv` -/
def SrcState.retv (s : SrcState) (x : Operand) : Option (SrcState ⊕ SrcResult) :=
  match s.calls, x.read s.memory with
  | [], some _ => some (.inr (.failed vmEMemFault s.memory))
  | c :: _, some v =>
      (accessEffect s.memory c.retval 8 fun address =>
        (s.memory.store address 8 v.toNat).map .ok).map s.finish
  | _, none => none

/-- `assert` -/
def SrcState.assert (s : SrcState) (id c : Operand) : Option (SrcState ⊕ SrcResult) :=
  match id.read s.memory, c.read s.memory with
  | some id, some c =>
      some (if c = 0 then s.goOn s.memory else .inr (.asserted id s.memory))
  | _, _ => none

/-- The instruction `op` with these operands. -/
def SrcState.exec (s : SrcState) (op : Op) (args : List Operand) :
    Option (SrcState ⊕ SrcResult) :=
  match op, args with
  | .jmp1, [.place k] => some (s.goTo k)
  | .jtrue2, [.place k, c] => s.branch (fun c => c != 0) k c
  | .jfalse2, [.place k, c] => s.branch (fun c => c == 0) k c
  | .call3, [.place k, argv, retv] => s.call k argv retv
  | .ret0, [] => some s.ret
  | .argv1, [.cell d] => (s.memory.store d.toNat 4 s.argv.toNat).map s.goOn
  | .retv1, [x] => s.retv x
  | .assert2, [id, c] => s.assert id c
  | op, args => (op.effect args s.memory).map s.finish

/-- **A step of a program.** An instruction that is not emitted is passed; behind the last one the
program ends. -/
def PrsResult.step (p : PrsResult T) (debugMode : Bool) : Step SrcState SrcResult := fun s =>
  match p.instns[s.place]? with
  | none => some (.inr (.ended s.memory))
  | some x =>
      if x.emitted debugMode then
        match p.operands debugMode x.args with
        | none => none
        | some args =>
            if args.any (Operand.outside s.memory) then
              some (.inr (.failed vmEMemFault s.memory))
            else s.exec x.instn.handler args
      else some (s.goOn s.memory)

/-- The instruction at a place is emitted and has these operands. -/
def Fetches (p : PrsResult T) (debugMode : Bool) (k : Nat) (op : Op) (os : List Operand) : Prop :=
  ∃ x, p.instns[k]? = some x ∧ x.emitted debugMode = true ∧ x.instn.handler = op ∧
    p.operands debugMode x.args = some os

/-- An instruction whose operands are inside the memory is executed. -/
theorem step_eq_exec {p : PrsResult T} {debugMode : Bool} {k : Nat} {op : Op} {os : List Operand}
    {s : SrcState} (hf : Fetches p debugMode k op os) (hk : s.place = k)
    (hinside : os.any (Operand.outside s.memory) = false) : p.step debugMode s = s.exec op os := by
  rcases hf with ⟨x, hx, hxe, hop, hos⟩
  unfold PrsResult.step
  rw [hk, hx]
  dsimp only
  rw [if_pos hxe, hos]
  dsimp only
  rw [hinside, if_neg Bool.false_ne_true, hop]

end BvgzVm
