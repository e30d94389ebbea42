import BvgzVm.Syscalls.Sys

set_option autoImplicit false

/-! # Errors, time, code and memory

The system calls of `syscall_misc.c` and `syscall_mem.c`, and the timers of `timers.c`.
-/

namespace BvgzVm

open Stateful SwapRemove

variable {ω : Type}

/-! ## `syscall_misc.c` -/

/-- `sys_getlasterr` -/
def sysGetlasterr (_argv retv : UInt32) : SysM ω Unit := do
  match ← deref retv 8 with
  | none => setErrorNo eFAULT
  | some ret =>
      storeU64 ret (ofInt (← get).host.errorNo)
      setErrorNo 0

/-- `sys_setlasterr` -/
def sysSetlasterr (argv _retv : UInt32) : SysM ω Unit := do
  match ← deref argv 8 with
  | none => setErrorNo eFAULT
  | some args => setErrorNo (← loadU64 args).toUInt32.toInt32

/-- `sys_time` -/
def sysTime (os : Os ω) (argv retv : UInt32) : SysM ω Unit := do
  let some (args, ret) ← argsRet deref argv 16 retv 1 | return
  match ← call os.clockGettime with
  | none => failErrno ret 1
  | some tp =>
      storeU64 args tp.tvSec.toUInt64
      storeU64 (args + 8) tp.tvNsec.toUInt64
      storeU64 ret 0

/-- The time of a timer: `MILLISECONDS_TO_SECONDS` and `MILLISECONDS_TO_NANOSECONDS` are added to
the fields. -/
def expiresAt (tp : Timespec) (millis : UInt64) : Timespec where
  tvSec := tp.tvSec + (millis / 1000).toInt64
  tvNsec := tp.tvNsec + (1000000 * (millis % 1000)).toInt64

/-- `make_vm_timer` -/
def makeVmTimer (expiresAt : Timespec) (iptr : UInt32) : SysM ω Unit :=
  modify (Vm.withSys · fun s => { s with timers := s.timers ++ [⟨expiresAt, iptr⟩] })

/-- `sys_timeout`. The test is `>`, so the address behind the last byte of the code passes it. -/
def sysTimeout (os : Os ω) (argv retv : UInt32) : SysM ω Unit := do
  let some (args, ret) ← argsRet deref argv 12 retv 1 | return
  let fPtr ← loadU32 args
  let millis ← loadU64 (args + 4)
  if (← get).code.size < fPtr.toNat then fail eINVAL ret 1
  else
    match ← call os.clockGettime with
    | none => failErrno ret 1
    | some tp =>
        makeVmTimer (expiresAt tp millis) fPtr
        storeU64 ret 0

/-- `sys_yield` -/
def sysYield (_argv _retv : UInt32) : SysM ω Unit := do
  match (← get).procedures with
  | [] => ub .noProcedure
  | [_] => return
  | self :: rest => modify fun vm => { vm with procedures := rest ++ [self] }

/-- `sys_codesz` -/
def sysCodesz (_argv retv : UInt32) : SysM ω Unit := do
  match ← derefMem retv 8 with
  | none => setErrorNo eFAULT
  | some ret => storeU64 ret (UInt64.ofNat (← get).code.size)

/-- `sys_codecp`. The sum wraps around, and a range outside the code leaves the result as it is. -/
def sysCodecp (argv retv : UInt32) : SysM ω Unit := do
  let some (args, ret) ← argsRet derefMem argv 20 retv 1 | return
  let start ← loadU64 args
  let size ← loadU64 (args + 8)
  if (← get).code.size < (start + size).toNat then setErrorNo eINVAL
  else
    match ← derefMem (← loadU32 (args + 16)) size.toUInt32 with
    | none => fail eFAULT ret 1
    | some ptr =>
        match Bytes.read (← get).code.bytes start.toNat size.toNat with
        | none => ub .host
        | some bytes =>
            writeMemBytes ptr bytes
            storeU64 ret 0

/-! ## `syscall_mem.c` -/

/-- The memory in a block of `size` bytes. -/
def resizeSegment (fill : Nat → UInt8) (s : Segment) (size : Nat) : Segment where
  bytes := Bytes.resize fill s.bytes (size % 2 ^ 32)
  size_lt := by
    rw [Bytes.length_resize]
    exact Nat.mod_lt _ (by norm_num)

def setMemory (memory : Segment) : SysM ω Unit := modify fun vm => { vm with memory }

/-- `realloc` of the memory to `size` bytes and the store of the result behind it. A block of no
bytes is a null pointer, behind which the result is stored all the same. -/
def reallocMemory (os : Os ω) (size ret : Nat) : SysM ω Unit := do
  if size = 0 then ub .host
  else if ← ask (os.realloc size) then
    let memory := (← get).memory
    if size < 2 ^ 32 then
      setMemory (resizeSegment os.fill memory size)
      storeU64 ret 0
    else -- `memsz` has only the low 32 bits of the size, but the block is at least the old one
      storeU64 ret 0
      setMemory (resizeSegment os.fill (← get).memory size)
  else fail eNOMEM ret 1

/-- `sys_mexpand` -/
def sysMexpand (os : Os ω) (argv retv : UInt32) : SysM ω Unit := do
  let some (args, ret) ← argsRet derefMem argv 8 retv 1 | return
  let sz ← loadU64 args
  reallocMemory os (((← get).memory.size + sz.toNat) % 2 ^ 64) ret

/-- `sys_mretract` -/
def sysMretract (os : Os ω) (argv retv : UInt32) : SysM ω Unit := do
  let some (args, ret) ← argsRet derefMem argv 8 retv 1 | return
  let sz ← loadU64 args
  let memsz := (← get).memory.size
  if memsz < sz.toNat then fail eINVAL ret 1
  else reallocMemory os (memsz - sz.toNat) ret

/-- `sys_msize` -/
def sysMsize (_argv retv : UInt32) : SysM ω Unit := do
  match ← derefMem retv 8 with
  | none => setErrorNo eFAULT
  | some ret => storeU64 ret (UInt64.ofNat (← get).memory.size)

/-! ## `timers.c` -/

/-- `TIMESPEC_GREATER_EQUAL` -/
def timespecGreaterEqual (a b : Timespec) : Bool :=
  b.tvSec < a.tvSec || (a.tvSec = b.tvSec && b.tvNsec ≤ a.tvNsec)

/-- The loop of `fire_timer_events` from timer `i` on, with `todo` timers to go. The place of a
timer that has fired is taken by the last one. -/
def fireTimers (now : Timespec) : Nat → Nat → List VmTimer → UInt32 → SysM ω (UInt32 × List VmTimer)
  | 0, _, timers, events => return (events, timers)
  | todo + 1, i, timers, events => do
      match timers[i]? with
      | none => return (events, timers)
      | some tmr =>
          if timespecGreaterEqual now tmr.expiresAt then
            let _ ← makeProcedure tmr.iptr
            fireTimers now todo i (swapRemove timers i) (events + 1)
          else fireTimers now todo (i + 1) timers events

/-- `fire_timer_events` -/
def fireTimerEvents (os : Os ω) : SysM ω UInt32 := do
  let now ← call os.clockGettime
  if now.isNone then setErrorNo (← getErrno)
  let timers := (← get).host.timers
  let (events, timers) ← fireTimers (now.getD ⟨0, 0⟩) timers.length 0 timers 0
  modify (Vm.withSys · fun s => { s with timers })
  return events

end BvgzVm
