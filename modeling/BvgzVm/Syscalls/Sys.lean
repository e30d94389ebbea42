import BvgzVm.Lib.Stateful
import BvgzVm.Syscalls.Tables
import BvgzVm.Vm.CallStack
import BvgzVm.Vm.Procedures

set_option autoImplicit false

/-! # What a system call works with

The state of a system call is the machine with the tables of `vm_t` that only system calls and
event sources use (`Sys`). The operating system is a parameter: `Os` has one function for each
call that is made, on a state `ω` of the world outside. A call that fails gives an error number.
-/

namespace BvgzVm

open Stateful

/-! ## The operating system -/

/-- `struct timespec` -/
structure Timespec where
  tvSec : Int64
  tvNsec : Int64
  deriving DecidableEq, Repr

/-- What `fork` returns in the parent. -/
abbrev Pid := {p : Int32 // 0 < p}

/-- `WTERMSIG` -/
def wtermsig (status : UInt32) : UInt32 := status &&& 0x7f

/-- `WIFEXITED` -/
def wifexited (status : UInt32) : Bool := wtermsig status = 0

/-- `WEXITSTATUS` -/
def wexitstatus (status : UInt32) : UInt32 := (status &&& 0xff00) >>> 8

/-- `WIFSTOPPED` -/
def wifstopped (status : UInt32) : Bool := status &&& 0xff = 0x7f

/-- `WIFSIGNALED` -/
def wifsignaled (status : UInt32) : Bool := wtermsig status ≠ 0 && wtermsig status ≠ 0x7f

/-- `WIFCONTINUED` -/
def wifcontinued (status : UInt32) : Bool := status = 0xffff

/-- What `waitpid` reports without `WUNTRACED` and `WCONTINUED`: the child is gone. -/
abbrev ExitStatus := {s : UInt32 // wifexited s || wifsignaled s}

/-- The calls of the operating system. `Except Int32 α` is a result or an error number; a call
without a result is one of these with `Unit`. -/
structure Os (ω : Type) where
  /-- `sizeof(vm_io_evt_t)` -/
  evtSize : Nat
  /-- what `realloc` leaves in the bytes it adds -/
  fill : Nat → UInt8
  clockGettime : ω → Except Int32 Timespec × ω
  nanosleep : ω → Except Int32 Unit × ω
  /-- whether `realloc` gives the memory a new size -/
  realloc (size : Nat) : ω → Bool × ω
  pselect (maxfd : Int32) (readset writeset : List Int32) :
    ω → Except Int32 (Nat × List Int32 × List Int32) × ω
  read (fd : Int32) (len : Nat) : ω → Except Int32 (List UInt8) × ω
  write (fd : Int32) (bytes : List UInt8) : ω → Except Int32 Nat × ω
  close (fd : Int32) : ω → Except Int32 Unit × ω
  openFile (path : List UInt8) (flags : UInt64) : ω → Except Int32 Int32 × ω
  stat (path : List UInt8) : ω → Except Int32 (List UInt8) × ω
  unlink (path : List UInt8) : ω → Except Int32 Unit × ω
  lseek (fd : Int32) (offset : Int64) (whence : Nat) : ω → Except Int32 Unit × ω
  mkdir (path : List UInt8) : ω → Except Int32 Unit × ω
  rmdir (path : List UInt8) : ω → Except Int32 Unit × ω
  /-- the names `readdir` returns, each with `errno` after the call -/
  opendir (path : List UInt8) : ω → Except Int32 (List (List UInt8 × Int32)) × ω
  socket (udp : Bool) : ω → Except Int32 Int32 × ω
  setsockopt (fd : Int32) : ω → Except Int32 Unit × ω
  fcntl (fd : Int32) : ω → Except Int32 Unit × ω
  bind (fd : Int32) (addr : SockAddr) : ω → Except Int32 Unit × ω
  connect (fd : Int32) (addr : SockAddr) : ω → Except Int32 Unit × ω
  listen (fd : Int32) (backlog : Nat) : ω → Except Int32 Unit × ω
  accept (fd : Int32) : ω → Except Int32 (Int32 × SockAddr) × ω
  /-- `fork`; the child executes the program with these arguments -/
  forkExec (argv : List (List UInt8)) : ω → Except Int32 Pid × ω
  /-- whether there is a directory for images; without it the process exits -/
  setupImageGenDir : ω → Bool × ω
  /-- an image file with a new name -/
  writeImage (bytes : List UInt8) : ω → Except Int32 Unit × ω
  /-- `fork`; the child runs the last image -/
  forkRun : ω → Except Int32 Pid × ω
  kill (pid : Int32) : ω → Except Int32 Unit × ω
  waitpid : ω → Except Int32 (Option (Pid × ExitStatus)) × ω

def eCHILD : Int32 := 10
def eAGAIN : Int32 := 11
def eNOMEM : Int32 := 12
def eFAULT : Int32 := 14
def eINVAL : Int32 := 22
def eBADF : Int32 := 9
def eINPROGRESS : Int32 := 115

/-! ## The state -/

/-- `vm_timer_t` -/
structure VmTimer where
  expiresAt : Timespec
  iptr : UInt32
  deriving DecidableEq, Repr

/-- The fields of `vm_t` that are behind the interpreter core, `errno` and the world. -/
structure Sys (ω : Type) where
  errorNo : Int32
  errno : Int32
  timers : List VmTimer
  io : VmIo
  proc : VmProc
  world : ω

/-- The fields in a new machine. -/
def newSys {ω : Type} (world : ω) : Sys ω := ⟨0, 0, [], ⟨[], 0, 0⟩, ⟨[], 0, 0⟩, world⟩

/-- A computation of a system call. -/
abbrev SysM (ω α : Type) := Comp Ub (Vm (Sys ω)) α

variable {ω α : Type}

/-- Another state of the fields behind the core. -/
def Vm.withSys (vm : Vm (Sys ω)) (f : Sys ω → Sys ω) : Vm (Sys ω) := { vm with host := f vm.host }

@[simp] theorem Vm.withSys_code (vm : Vm (Sys ω)) (f : Sys ω → Sys ω) :
    (vm.withSys f).code = vm.code := rfl
@[simp] theorem Vm.withSys_memory (vm : Vm (Sys ω)) (f : Sys ω → Sys ω) :
    (vm.withSys f).memory = vm.memory := rfl
@[simp] theorem Vm.withSys_exceptions (vm : Vm (Sys ω)) (f : Sys ω → Sys ω) :
    (vm.withSys f).exceptions = vm.exceptions := rfl
@[simp] theorem Vm.withSys_procedures (vm : Vm (Sys ω)) (f : Sys ω → Sys ω) :
    (vm.withSys f).procedures = vm.procedures := rfl
@[simp] theorem Vm.withSys_host (vm : Vm (Sys ω)) (f : Sys ω → Sys ω) :
    (vm.withSys f).host = f vm.host := rfl

/-- Undefined behaviour. -/
def ub (e : Ub) : SysM ω α := fun _ => .error e

def setErrorNo (e : Int32) : SysM ω Unit := modify (Vm.withSys · fun s => { s with errorNo := e })

def setErrno (e : Int32) : SysM ω Unit := modify (Vm.withSys · fun s => { s with errno := e })

def getErrno : SysM ω Int32 := do return (← get).host.errno

/-- A call of the operating system. -/
def ask (f : ω → α × ω) : SysM ω α := fun vm =>
  let (a, world) := f vm.host.world
  .ok (a, vm.withSys fun s => { s with world })

/-- A call that may fail: `none` is the result `-1`, and `errno` tells why. -/
def call (f : ω → Except Int32 α × ω) : SysM ω (Option α) := do
  match ← ask f with
  | .ok a => return some a
  | .error e =>
      setErrno e
      return none

/-- Undefined behaviour in a table. -/
def TableFault.toUb : TableFault → Ub := fun _ => .host

/-- A function on the descriptors. -/
def onIo (f : VmIo → Except TableFault (α × VmIo)) : SysM ω α := fun vm =>
  match f vm.host.io with
  | .error e => .error e.toUb
  | .ok (a, io) => .ok (a, vm.withSys fun s => { s with io })

/-- A function on the descriptors without a result. -/
def onIo' (f : VmIo → Except TableFault VmIo) : SysM ω Unit :=
  onIo (fun io => (f io).map (fun io => ((), io)))

/-- A function on the child processes. -/
def onProc (f : VmProc → Except TableFault VmProc) : SysM ω Unit := fun vm =>
  match f vm.host.proc with
  | .error e => .error e.toUb
  | .ok proc => .ok ((), vm.withSys fun s => { s with proc })

/-- A slot that is looked at. -/
def getFd (i : Nat) : SysM ω VmFd := do
  match (← get).host.io.fds[i]? with
  | none => ub .host
  | some fd => return fd

/-! ## Memory -/

/-- `deref` -/
def deref (ref size : UInt32) : SysM ω (Option Nat) := do
  return (derefMemPtr ref size (← get).memory.size).map UInt32.toNat

/-- `deref_mem_ptr`, with the exception. -/
def derefMem (ref size : UInt32) : SysM ω (Option Nat) := do
  match ← deref ref size with
  | none =>
      modify (Vm.raise · vmEMemFault)
      return none
  | some p => return some p

/-- The `w`-byte number behind a pointer. -/
def loadMem (p w : Nat) : SysM ω Nat := do
  match (← get).memory.load p w with
  | none => ub .deref
  | some v => return v

def loadU16 (p : Nat) : SysM ω UInt16 := do return UInt16.ofNat (← loadMem p 2)
def loadU32 (p : Nat) : SysM ω UInt32 := do return UInt32.ofNat (← loadMem p 4)
def loadU64 (p : Nat) : SysM ω UInt64 := do return UInt64.ofNat (← loadMem p 8)

/-- Bytes written behind a pointer. -/
def writeMemBytes (p : Nat) (bs : List UInt8) : SysM ω Unit := fun vm =>
  match vm.memory.write p bs with
  | none => .error .deref
  | some memory => .ok ((), { vm with memory })

/-- The `w`-byte number stored behind a pointer. -/
def storeMem (p w v : Nat) : SysM ω Unit := writeMemBytes p (Bytes.toLE w v)

/-- A `uint64_t` stored behind a pointer, as in `*ret = 1`. -/
def storeU64 (p : Nat) (v : UInt64) : SysM ω Unit := storeMem p 8 v.toNat

/-- An `int` stored as a `uint64_t`. -/
def ofInt (e : Int32) : UInt64 := e.toInt64.toUInt64

/-- The `n` bytes behind a pointer. -/
def readMemBytes (p n : Nat) : SysM ω (List UInt8) := do
  match Bytes.read (← get).memory.bytes p n with
  | none => ub .deref
  | some bs => return bs

/-- The string behind a pointer, up to its terminator. -/
def readStr (p : Nat) : SysM ω (List UInt8) := do
  let bytes := (← get).memory.bytes.drop p
  if 0 ∈ bytes then return bytes.takeWhile (· ≠ 0) else ub .deref

/-- `ensure_nul_term_str`: whether it returns `0`. -/
def ensureNulTermStr (p : Nat) : SysM ω Bool := do
  if 0 ∈ (← get).memory.bytes.drop p then return true
  else
    modify (Vm.raise · vmEMemFault)
    return false

/-- The pointers to the arguments and to the result, with which a system call begins; `find` is
`deref` or `deref_mem_ptr`, and `bad` is the result of the call without arguments. -/
def argsRet (find : UInt32 → UInt32 → SysM ω (Option Nat)) (argv size retv : UInt32)
    (bad : UInt64) : SysM ω (Option (Nat × Nat)) := do
  let args ← find argv size
  let ret ← find retv 8
  match args, ret with
  | some args, some ret => return some (args, ret)
  | none, some ret =>
      setErrorNo eFAULT
      storeU64 ret bad
      return none
  | _, none =>
      setErrorNo eFAULT
      return none

/-- `vm->error_no = e; *ret = bad` -/
def fail (e : Int32) (ret : Nat) (bad : UInt64) : SysM ω Unit := do
  setErrorNo e
  storeU64 ret bad

/-- `vm->error_no = errno; *ret = bad` -/
def failErrno (ret : Nat) (bad : UInt64) : SysM ω Unit := do
  fail (← getErrno) ret bad

/-! ## Procedures -/

/-- `make_procedure` -/
def makeProcedure (iptr : UInt32) : SysM ω Bool := fun vm => .ok (vm.makeProcedure iptr)

/-- What `make_func_procedure` fills in: a procedure with one call on its stack. -/
def newFuncProc (os : Os ω) (iptr argv retv : UInt32) : Except Ub Proc :=
  pushCallStack os.fill (newProc iptr) retv argv 0xffffffff

/-- `make_func_procedure` -/
def makeFuncProcedure (os : Os ω) (iptr argv retv : UInt32) : SysM ω Unit := fun vm =>
  if vm.code.size ≤ iptr.toNat then .ok ((), vm.raise vmEBadInstnPointer)
  else match newFuncProc os iptr argv retv with
    | .error e => .error e
    | .ok p => .ok ((), { vm with procedures := vm.procedures ++ [p] })

end BvgzVm
