import BvgzVm.Vm.CallStack
import BvgzVm.Vm.Decode
import BvgzVm.Vm.Events
import BvgzVm.Vm.Procedures

set_option autoImplicit false

/-! # The handlers of the instructions

`instn_impl.h` and the `instn_impl_*.c` files. A handler returns `0` or `-1` and the machine it
leaves, or the undefined behaviour it runs into. Where many handlers differ by an operator or a
width only, they are one function applied to it.

An operand is read before the destination is looked at. C does not fix this order; it does not
matter either, since reading an operand changes nothing.
-/

namespace BvgzVm

variable {σ : Type}

/-- The type of the functions in the column `handler` of `InstnDefs`. -/
abbrev Handler (σ : Type) := Host σ → Instn → Vm σ → Except Ub (Int × Vm σ)

/-! ## Operands -/

/-- `instn->args[k].ptr`, where it is going to be dereferenced. -/
def argPtr (instn : Instn) (k : Nat) : Except Ub UInt32 :=
  match instn.args[k]? with
  | some (.ptr r) => .ok r
  | _ => .error (.wild k)

/-- A read of `w` bytes through `lref(instn->args[k].ptr)`. -/
def lref (w : Nat) (instn : Instn) (k : Nat) (vm : Vm σ) : Except Ub Nat := do
  let r ← argPtr instn k
  match vm.memory.load r.toNat w with
  | some v => .ok v
  | none => .error (.operand k)

/-- A write of `w` bytes through `lref(instn->args[k].ptr)`. -/
def lrefSet (w : Nat) (instn : Instn) (k v : Nat) (vm : Vm σ) : Except Ub (Vm σ) := do
  let r ← argPtr instn k
  match vm.memory.store r.toNat w v with
  | some memory => .ok { vm with memory := memory }
  | none => .error (.operand k)

/-- `lref64` as a value. -/
def lref64 (instn : Instn) (k : Nat) (vm : Vm σ) : Except Ub UInt64 := do
  let v ← lref 8 instn k vm
  .ok (UInt64.ofNat v)

/-- `arg_value` -/
def argValue (instn : Instn) (k : Nat) (vm : Vm σ) : Except Ub UInt64 :=
  if instn.code.testBit k then
    match instn.args[k]? with
    | some (.imm u64) => .ok (UInt64.ofNat (u64.toNat % 256 ^ immBytes instn.argSizes k))
    | _ => .error (.wild k)
  else lref64 instn k vm

/-- A handler that assigns `v` to its first operand and returns `0`. -/
def assign (instn : Instn) (v : UInt64) (vm : Vm σ) : Except Ub (Int × Vm σ) := do
  let vm ← lrefSet 8 instn 0 v.toNat vm
  .ok (0, vm)

/-- The result of a comparison or a logical operator. -/
def ofBool (b : Bool) : UInt64 := if b then 1 else 0

/-! ## Arithmetic, bitwise and relational instructions -/

/-- `op a, x, y` -/
def binary3 (f : UInt64 → UInt64 → Except Ub UInt64) : Handler σ := fun _ instn vm => do
  let x ← argValue instn 1 vm
  let y ← argValue instn 2 vm
  let v ← f x y
  assign instn v vm

/-- `op a, x`, an assignment operator -/
def binary2 (f : UInt64 → UInt64 → Except Ub UInt64) : Handler σ := fun _ instn vm => do
  let y ← argValue instn 1 vm
  let x ← lref64 instn 0 vm
  let v ← f x y
  assign instn v vm

/-- `op a, x, y` with a divisor -/
def divide3 (f : UInt64 → UInt64 → UInt64) : Handler σ := fun _ instn vm => do
  let divisor ← argValue instn 2 vm
  if divisor = 0 then .ok (-1, vm.raise vmEArithmetic)
  else do
    let x ← argValue instn 1 vm
    assign instn (f x divisor) vm

/-- `op a, x` with a divisor -/
def divide2 (f : UInt64 → UInt64 → UInt64) : Handler σ := fun _ instn vm => do
  let divisor ← argValue instn 1 vm
  if divisor = 0 then .ok (-1, vm.raise vmEArithmetic)
  else do
    let x ← lref64 instn 0 vm
    assign instn (f x divisor) vm

/-- `op a, x` that only assigns -/
def unary2 (f : UInt64 → UInt64) : Handler σ := fun _ instn vm => do
  let x ← argValue instn 1 vm
  assign instn (f x) vm

/-- `op a` -/
def unary1 (f : UInt64 → UInt64) : Handler σ := fun _ instn vm => do
  let x ← lref64 instn 0 vm
  assign instn (f x) vm

/-- `x << y`, undefined from 64 on -/
def shl (x y : UInt64) : Except Ub UInt64 := if 64 ≤ y then .error .shift else .ok (x <<< y)

/-- `x >> y`, undefined from 64 on -/
def shr (x y : UInt64) : Except Ub UInt64 := if 64 ≤ y then .error .shift else .ok (x >>> y)

def opAdd3 : Handler σ := binary3 (fun x y => .ok (x + y))
def opAdd2 : Handler σ := binary2 (fun x y => .ok (x + y))
def opSub3 : Handler σ := binary3 (fun x y => .ok (x - y))
def opSub2 : Handler σ := binary2 (fun x y => .ok (x - y))
def opMul3 : Handler σ := binary3 (fun x y => .ok (x * y))
def opMul2 : Handler σ := binary2 (fun x y => .ok (x * y))
def opDiv3 : Handler σ := divide3 (fun x y => x / y)
def opDiv2 : Handler σ := divide2 (fun x y => x / y)
def opMod3 : Handler σ := divide3 (fun x y => x % y)
def opMod2 : Handler σ := divide2 (fun x y => x % y)

def opEq3 : Handler σ := binary3 (fun x y => .ok (ofBool (x == y)))
def opNe3 : Handler σ := binary3 (fun x y => .ok (ofBool (x != y)))
def opGt3 : Handler σ := binary3 (fun x y => .ok (ofBool (decide (x > y))))
def opLt3 : Handler σ := binary3 (fun x y => .ok (ofBool (decide (x < y))))
def opGe3 : Handler σ := binary3 (fun x y => .ok (ofBool (decide (x ≥ y))))
def opLe3 : Handler σ := binary3 (fun x y => .ok (ofBool (decide (x ≤ y))))

def opAnd3 : Handler σ := binary3 (fun x y => .ok (x &&& y))
def opAnd2 : Handler σ := binary2 (fun x y => .ok (x &&& y))
def opOr3 : Handler σ := binary3 (fun x y => .ok (x ||| y))
def opOr2 : Handler σ := binary2 (fun x y => .ok (x ||| y))
def opXor3 : Handler σ := binary3 (fun x y => .ok (x ^^^ y))
def opXor2 : Handler σ := binary2 (fun x y => .ok (x ^^^ y))
def opNot2 : Handler σ := unary2 (fun x => ~~~x)
-- the complement is missing in the source
def opNot1 : Handler σ := unary1 (fun x => x)
def opShl3 : Handler σ := binary3 shl
def opShl2 : Handler σ := binary2 shl
def opShr3 : Handler σ := binary3 shr
def opShr2 : Handler σ := binary2 shr

/-! ## Logical instructions

`&&` and `||` look at their second operand only if the first one does not decide. -/

/-- `x && y ? 1 : 0`, with the operands still to be read -/
def lAnd (x y : Except Ub UInt64) : Except Ub UInt64 := do
  let x ← x
  if x = 0 then .ok 0
  else do
    let y ← y
    .ok (ofBool (y != 0))

/-- `x || y ? 1 : 0`, with the operands still to be read -/
def lOr (x y : Except Ub UInt64) : Except Ub UInt64 := do
  let x ← x
  if x = 0 then do
    let y ← y
    .ok (ofBool (y != 0))
  else .ok 1

/-- `op a, x, y` with a lazy operator -/
def logical3 (f : Except Ub UInt64 → Except Ub UInt64 → Except Ub UInt64) : Handler σ :=
  fun _ instn vm => do
    let v ← f (argValue instn 1 vm) (argValue instn 2 vm)
    assign instn v vm

/-- `op a, x` with a lazy operator -/
def logical2 (f : Except Ub UInt64 → Except Ub UInt64 → Except Ub UInt64) : Handler σ :=
  fun _ instn vm => do
    let v ← f (lref64 instn 0 vm) (argValue instn 1 vm)
    assign instn v vm

def opLAnd3 : Handler σ := logical3 lAnd
def opLAnd2 : Handler σ := logical2 lAnd
def opLOr3 : Handler σ := logical3 lOr
def opLOr2 : Handler σ := logical2 lOr
def opLNot2 : Handler σ := unary2 (fun x => ofBool (x == 0))
def opLNot1 : Handler σ := unary1 (fun x => ofBool (x == 0))
def opLBool2 : Handler σ := unary2 (fun x => ofBool (x != 0))
def opLBool1 : Handler σ := unary1 (fun x => ofBool (x != 0))

/-! ## Control flow -/

/-- `do_jump` -/
def doJump (iptr : UInt32) (vm : Vm σ) : Except Ub (Int × Vm σ) :=
  if vm.code.size ≤ iptr.toNat then .ok (-1, vm.raise vmEBadInstnPointer)
  else match vm.procedures with
    | [] => .error .noProcedure
    | p :: ps => .ok (0, { vm with procedures := { p with iptr := iptr } :: ps })

def opJmp1 : Handler σ := fun _ instn vm => do
  let iptr ← argValue instn 0 vm
  doJump iptr.toUInt32 vm

/-- `jtrue` and `jfalse`: jump if `taken` holds of the second operand. -/
def jumpIf (taken : UInt64 → Bool) : Handler σ := fun _ instn vm => do
  let c ← argValue instn 1 vm
  if taken c then do
    let iptr ← argValue instn 0 vm
    doJump iptr.toUInt32 vm
  else .ok (0, vm)

def opJtrue2 : Handler σ := jumpIf (fun c => c != 0)
def opJfalse2 : Handler σ := jumpIf (fun c => c == 0)

def opCall3 : Handler σ := fun host instn vm => do
  let iptr ← argValue instn 0 vm
  let argv ← argValue instn 1 vm
  let retv ← argValue instn 2 vm
  match vm.procedures with
  | [] => .error .noProcedure
  | p :: ps => do
      let p ← pushCallStack host.fill p retv.toUInt32 argv.toUInt32 p.iptr
      .ok (0, { vm with procedures := { p with iptr := iptr.toUInt32 } :: ps })

def opRet0 : Handler σ := fun host _ vm =>
  match vm.procedures with
  | [] => .error .noProcedure
  | p :: ps =>
      if p.cstackSz = 0 then .ok (0, vm.deleteCurrentProcedure)
      else do
        let (retAddress, p) ← popCallStack host.fill p
        if retAddress = 0xffffffff then
          .ok (0, Vm.deleteCurrentProcedure { vm with procedures := p :: ps })
        else .ok (0, { vm with procedures := { p with iptr := retAddress } :: ps })

def opArgv1 : Handler σ := fun _ instn vm =>
  match vm.procedures with
  | [] => .error .noProcedure
  | p :: _ => do
      let args ← if p.cstackSz = 0 then .ok 0 else frameField p (p.cstackSz - 1) 4
      let vm ← lrefSet 4 instn 0 args.toNat vm
      .ok (0, vm)

def opRetv1 : Handler σ := fun _ instn vm =>
  match vm.procedures with
  | [] => .error .noProcedure
  | p :: _ =>
      if p.cstackSz = 0 then .ok (-1, vm.raise vmEMemFault)
      else do
        let retv ← frameField p (p.cstackSz - 1) 0
        match derefMemPtr retv 8 vm.memory.size with
        | none => .ok (-1, vm.raise vmEMemFault)
        | some ret => do
            let v ← argValue instn 0 vm
            match vm.memory.store ret.toNat 8 v.toNat with
            | none => .error .deref
            | some memory => .ok (0, { vm with memory := memory })

/-! ## Memory, system calls and the rest -/

def opNop0 : Handler σ := fun _ _ vm => .ok (0, vm)

def opAssert2 : Handler σ := fun _ instn vm => do
  let c ← argValue instn 1 vm
  if c ≠ 0 then do
    let id ← argValue instn 0 vm
    .ok (-1, { vm with assertId := id }.raise vmEAssertFailed)
  else .ok (0, vm)

def opAbrt1 : Handler σ := fun _ instn vm => do
  let e ← argValue instn 0 vm
  .ok (-1, vm.raise e.toUInt32)

/-- `memcpy` inside the memory segment; no byte is touched when `n` is `0`. -/
def memcpy (dst src n : Nat) (vm : Vm σ) : Except Ub (Vm σ) :=
  if n = 0 then .ok vm
  else match Bytes.read vm.memory.bytes src n with
    | none => .error (.operand 1)
    | some bs =>
        if dst < src + n ∧ src < dst + n then .error .overlap
        else match vm.memory.write dst bs with
          | none => .error (.operand 0)
          | some memory => .ok { vm with memory := memory }

def opCp3 : Handler σ := fun _ instn vm => do
  let dst ← argPtr instn 0
  let src ← argPtr instn 1
  let n ← argValue instn 2 vm
  let vm ← memcpy dst.toNat src.toNat n.toNat vm
  .ok (0, vm)

/-- `readN a, x, y`: `w` bytes from the address stored in `x`, offset by `y`. -/
def readMem (w : Nat) : Handler σ := fun _ instn vm => do
  let ref ← lref 4 instn 1 vm
  let offset ← argValue instn 2 vm
  match derefMemPtr (UInt32.ofNat ref + offset.toUInt32) (UInt32.ofNat w) vm.memory.size with
  | none => .ok (-1, vm.raise vmEMemFault)
  | some mem =>
      match vm.memory.load mem.toNat w with
      | none => .error .deref
      | some v => do
          let vm ← lrefSet w instn 0 v vm
          .ok (0, vm)

/-- `writeN x, y, z`: the low `w` bytes of `z` to the address `x`, offset by `y`. -/
def writeMem (w : Nat) : Handler σ := fun _ instn vm => do
  let ref ← argValue instn 0 vm
  let offset ← argValue instn 1 vm
  match derefMemPtr (ref.toUInt32 + offset.toUInt32) (UInt32.ofNat w) vm.memory.size with
  | none => .ok (-1, vm.raise vmEMemFault)
  | some mem => do
      let v ← argValue instn 2 vm
      match vm.memory.store mem.toNat w v.toNat with
      | none => .error .deref
      | some memory => .ok (0, { vm with memory := memory })

def opRead8 : Handler σ := readMem 1
def opRead16 : Handler σ := readMem 2
def opRead32 : Handler σ := readMem 4
def opRead64 : Handler σ := readMem 8
def opWrite8 : Handler σ := writeMem 1
def opWrite16 : Handler σ := writeMem 2
def opWrite32 : Handler σ := writeMem 4
def opWrite64 : Handler σ := writeMem 8

def opSyscall3 : Handler σ := fun host instn vm => do
  let (_, vm) ← fireVmEvents host vm
  let vm ← cleanupVm host vm
  let syscallId ← argValue instn 0 vm
  let argv ← argValue instn 1 vm
  let retv ← argValue instn 2 vm
  match host.syscallTable[syscallId.toUInt16.toNat]? with
  | none => .ok (-1, vm.raise vmEBadSyscallNo)
  | some syscall => do
      let vm ← syscall vm argv.toUInt32 retv.toUInt32
      .ok (0, vm)

/-! ## Dispatch -/

/-- The functions the handler names stand for. -/
def handlerOf : Op → Handler σ
  | .nop0 => opNop0
  | .add3 => opAdd3 | .add2 => opAdd2 | .sub3 => opSub3 | .sub2 => opSub2
  | .mul3 => opMul3 | .mul2 => opMul2 | .div3 => opDiv3 | .div2 => opDiv2
  | .mod3 => opMod3 | .mod2 => opMod2
  | .eq3 => opEq3 | .ne3 => opNe3 | .gt3 => opGt3 | .lt3 => opLt3 | .ge3 => opGe3 | .le3 => opLe3
  | .lAnd3 => opLAnd3 | .lAnd2 => opLAnd2 | .lOr3 => opLOr3 | .lOr2 => opLOr2
  | .lNot2 => opLNot2 | .lNot1 => opLNot1 | .lBool2 => opLBool2 | .lBool1 => opLBool1
  | .and3 => opAnd3 | .and2 => opAnd2 | .or3 => opOr3 | .or2 => opOr2
  | .xor3 => opXor3 | .xor2 => opXor2 | .not2 => opNot2 | .not1 => opNot1
  | .shl3 => opShl3 | .shl2 => opShl2 | .shr3 => opShr3 | .shr2 => opShr2
  | .cp3 => opCp3
  | .read8 => opRead8 | .read16 => opRead16 | .read32 => opRead32 | .read64 => opRead64
  | .write8 => opWrite8 | .write16 => opWrite16 | .write32 => opWrite32 | .write64 => opWrite64
  | .jmp1 => opJmp1 | .jtrue2 => opJtrue2 | .jfalse2 => opJfalse2
  | .call3 => opCall3 | .syscall3 => opSyscall3 | .ret0 => opRet0
  | .argv1 => opArgv1 | .retv1 => opRetv1 | .assert2 => opAssert2 | .abrt1 => opAbrt1

/-- `vm_exec_instn` -/
def vmExecInstn (defs : List (InstnDef Op)) (host : Host σ) (instn : Instn) (vm : Vm σ) :
    Except Ub (Int × Vm σ) := do
  let op ← handlerAt defs (instn.code >>> 3)
  handlerOf op host instn vm

end BvgzVm
