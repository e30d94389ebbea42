import BvgzVm.Syscalls.Sys

set_option autoImplicit false

/-! # Requests on descriptors

The handlers of the four kinds of events, `activate_event` and `fire_io_events`, and the system
calls `close`, `read` and `write`: `syscall_io.c` and the handlers of `syscall_net.c`.
-/

namespace BvgzVm

open Stateful

variable {ω : Type}

/-- `FD_HANDLE_TO_IDX`, as a `uint32_t` -/
def fdHandleToIdx (handle : UInt64) : Nat := (handle - 1).toUInt32.toNat

/-- `FD_IDX_TO_HANDLE` -/
def fdIdxToHandle (idx : Nat) : UInt64 := UInt64.ofNat (idx + 1)

/-- What a handler returns: its result, whether the event is to be removed, and whether it has
moved the array of descriptors. -/
structure Activated where
  result : UInt32
  remove : Bool
  grew : Bool

/-! ## The handlers -/

/-- `common_io_evt_handler`: the buffer and the arguments of the callback. -/
def commonIoEvtHandler (i : Nat) (ptr len : UInt32) (cb : VmCallback) :
    SysM ω (Option (Nat × Nat)) := do
  match ← deref cb.args 32 with
  | none =>
      setErrorNo eFAULT
      return none
  | some cbArgs =>
      storeU64 cbArgs (fdIdxToHandle i)
      storeU64 (cbArgs + 8) 0
      storeU64 (cbArgs + 16) 0
      match ← deref ptr len with
      | none =>
          storeU64 (cbArgs + 8) (ofInt eFAULT)
          return none
      | some buf => return some (buf, cbArgs)

/-- `cb_args[2]`, `cb_args[1]` and `error_no` after a transfer; `none` is the result `-1`. -/
def transferred (cbArgs : Nat) (len : Option Nat) : SysM ω Unit := do
  match len with
  | some len =>
      storeU64 (cbArgs + 16) (UInt64.ofNat len)
      storeU64 (cbArgs + 8) 0
  | none =>
      storeU64 (cbArgs + 16) 0
      storeU64 (cbArgs + 8) (ofInt (← getErrno))
      setErrorNo (← getErrno)

/-- `read_io_evt_handler` -/
def readIoEvtHandler (os : Os ω) (i : Nat) (ptr len : UInt32) (cb : VmCallback) :
    SysM ω Activated := do
  match ← commonIoEvtHandler i ptr len cb with
  | none => return ⟨0, true, false⟩
  | some (buf, cbArgs) =>
      let fd ← getFd i
      match ← call (os.read fd.fd len.toNat) with
      | some bytes =>
          writeMemBytes buf (bytes.take len.toNat)
          transferred cbArgs (some (bytes.take len.toNat).length)
      | none => transferred cbArgs none
      makeFuncProcedure os cb.callback cb.args 0
      return ⟨1, true, false⟩

/-- `write_io_evt_handler` -/
def writeIoEvtHandler (os : Os ω) (i : Nat) (ptr len : UInt32) (cb : VmCallback) :
    SysM ω Activated := do
  match ← commonIoEvtHandler i ptr len cb with
  | none => return ⟨0, true, false⟩
  | some (buf, cbArgs) =>
      let fd ← getFd i
      let bytes ← readMemBytes buf len.toNat
      transferred cbArgs (← call (os.write fd.fd bytes))
      makeFuncProcedure os cb.callback cb.args 0
      return ⟨1, true, false⟩

/-- `connect_io_evt_handler` -/
def connectIoEvtHandler (os : Os ω) (i : Nat) (cb : VmCallback) : SysM ω Activated := do
  match ← deref cb.args 16 with
  | none =>
      setErrorNo eFAULT
      return ⟨0, true, false⟩
  | some cbArgs =>
      storeU64 cbArgs (fdIdxToHandle i)
      storeU64 (cbArgs + 8) 0
      makeFuncProcedure os cb.callback cb.args 0
      return ⟨1, true, false⟩

/-- The slot of a client that was accepted. -/
def acceptedFd (fd : Int32) (addr : SockAddr) (slot : VmFd) : VmFd :=
  { slot with fd, onClose := true, data := .sock addr }

/-- `accept_io_evt_handler`. Its last store has `errno` for every descriptor but `0`, whatever
the last failure was. -/
def acceptIoEvtHandler (os : Os ω) (i : Nat) (cb : VmCallback) : SysM ω Activated := do
  match ← deref cb.args 16 with
  | none =>
      setErrorNo eFAULT
      return ⟨0, true, false⟩
  | some cbArgs =>
      let fd ← getFd i
      match ← call (os.accept fd.fd) with
      | some (r, addr) =>
          let nFds := (← get).host.io.fds.length
          let newfd ← onIo allocFd
          let _ ← call (os.fcntl r)
          onIo' (fun io => .ok (setFd newfd (acceptedFd r addr) io))
          storeU64 cbArgs (fdIdxToHandle newfd)
          let errno ← getErrno
          storeU64 (cbArgs + 8) (if r = 0 then 0 else ofInt errno)
          makeFuncProcedure os cb.callback cb.args 0
          return ⟨1, false, (← get).host.io.fds.length ≠ nFds⟩
      | none =>
          if (← getErrno) = eAGAIN then return ⟨0, false, false⟩
          else
            storeU64 (cbArgs + 8) (ofInt (← getErrno))
            makeFuncProcedure os cb.callback cb.args 0
            return ⟨1, false, false⟩

/-- `evt->activate` -/
def activate (os : Os ω) (i : Nat) : VmIoEvt → SysM ω Activated
  | .read ptr len cb => readIoEvtHandler os i ptr len cb
  | .write ptr len cb => writeIoEvtHandler os i ptr len cb
  | .connect cb => connectIoEvtHandler os i cb
  | .accept cb => acceptIoEvtHandler os i cb

/-! ## Rounds of events -/

/-- The events of a slot, when they are looked at. -/
def readEvents (os : Os ω) (i : Nat) : SysM ω (List VmIoEvt) := do
  match (← getFd i).readEvents os.evtSize with
  | .error e => ub e.toUb
  | .ok events => return events

/-- `activate_event`: the result, and whether the array of descriptors has moved. -/
def activateEvent (os : Os ω) (i : Nat) (mask : Select) : SysM ω (UInt32 × Bool) := do
  let events ← readEvents os i
  match events.findIdx? (·.flags = mask) with
  | none => return (0, false)
  | some e =>
      match events[e]? with
      | none => return (0, false)
      | some evt =>
          let r ← activate os i evt
          if r.remove then onIo' (removeEvent i e)
          return (r.result, r.grew)

/-- The second loop of `fire_io_events`, with `todo` slots to go from slot `i` on. When a handler
has moved the array, `fd` still points to the old one. -/
def fireFds (os : Os ω) (readset writeset : List Int32) :
    Nat → Nat → UInt32 → SysM ω UInt32
  | 0, _, events => return events
  | todo + 1, i, events => do
      let fd ← getFd i
      if !fd.used then fireFds os readset writeset todo (i + 1) events
      else if ¬ inFdSet fd.fd then ub TableFault.fdSet.toUb
      else
        let (r, grew) ←
          if fd.fd ∈ readset then activateEvent os i .read else pure (0, false)
        if grew then ub TableFault.freed.toUb
        else
          let (w, _) ←
            if fd.fd ∈ writeset then activateEvent os i .write else pure (0, false)
          fireFds os readset writeset todo (i + 1) (events + r + w)

/-- The sets for `pselect`. -/
def selectSets (os : Os ω) : SysM ω (Int32 × List Int32 × List Int32) := do
  match selectRwsets os.evtSize (← get).host.io.fds 0 [] [] with
  | .error e => ub e.toUb
  | .ok sets => return sets

/-- `fire_io_events`. `pselect` leaves a subset of each set. -/
def fireIoEvents (os : Os ω) : SysM ω UInt32 := do
  if (← get).host.io.nIoEvents = 0 then return 0
  else
    let (maxfd, readset, writeset) ← selectSets os
    match ← call (os.pselect (maxfd + 1) readset writeset) with
    | none =>
        setErrorNo (← getErrno)
        return 0
    | some (ret, ready, writable) =>
        if ret = 0 then return 0
        else
          fireFds os (readset.filter (· ∈ ready)) (writeset.filter (· ∈ writable))
            (← get).host.io.fds.length 0 0

/-! ## System calls -/

/-- `sys_close`. The index `n_fds` passes the first test. -/
def sysClose (os : Os ω) (argv retv : UInt32) : SysM ω Unit := do
  let some (args, ret) ← argsRet derefMem argv 8 retv 1 | return
  let idx := fdHandleToIdx (← loadU64 args)
  if (← get).host.io.fds.length < idx then fail eBADF ret 1
  else
    let fd ← getFd idx
    if !fd.used then fail eBADF ret 1
    else
      storeU64 ret 0
      if (← call (os.close fd.fd)).isNone then failErrno ret 1
      onIo' (deallocFd os.evtSize idx)

/-- The slot of a handle, if there is one in use. -/
def usedFd (idx : Nat) : SysM ω (Option VmFd) := do
  match (← get).host.io.fds[idx]? with
  | none => return none
  | some fd => if fd.used then return some fd else return none

/-- The results of `get_io_task_params`. -/
structure IoTask where
  ret : Nat
  ptr : UInt32
  len : UInt32
  fPtr : UInt32
  argsPtr : UInt32
  fd : Nat

/-- `get_io_task_params` -/
def getIoTaskParams (argv retv : UInt32) : SysM ω (Option IoTask) := do
  let some (args, ret) ← argsRet derefMem argv 40 retv 1 | return none
  let fd := fdHandleToIdx (← loadU64 args)
  if (← usedFd fd).isNone then
    fail eBADF ret 1
    return none
  else
    let ptr ← loadU32 (args + 8)
    let len := (← loadU64 (args + 12)).toUInt32
    if (← deref ptr len).isNone then
      fail eFAULT ret 1
      return none
    else
      let argsPtr ← loadU32 (args + 20)
      if (← deref argsPtr 32).isNone then
        fail eFAULT ret 1
        return none
      else
        let fPtr ← loadU32 (args + 24)
        if (← get).code.size ≤ fPtr.toNat then
          fail eINVAL ret 1
          return none
        else return some ⟨ret, ptr, len, fPtr, argsPtr, fd⟩

/-- `sys_read` -/
def sysRead (os : Os ω) (argv retv : UInt32) : SysM ω Unit := do
  let some task ← getIoTaskParams argv retv | return
  onIo' (allocEvent os.evtSize task.fd (.read task.ptr task.len ⟨task.fPtr, task.argsPtr⟩))
  storeU64 task.ret 0

/-- `sys_write` -/
def sysWrite (os : Os ω) (argv retv : UInt32) : SysM ω Unit := do
  let some task ← getIoTaskParams argv retv | return
  onIo' (allocEvent os.evtSize task.fd (.write task.ptr task.len ⟨task.fPtr, task.argsPtr⟩))
  storeU64 task.ret 0

end BvgzVm
