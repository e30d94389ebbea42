import BvgzVm.Lib.SwapRemove
import BvgzVm.Vm.State

set_option autoImplicit false

/-! # The tables of descriptors and child processes

`vm_io_t` and `vm_proc_t` and the functions of `syscall_io.c`, `syscall_net.c` and
`syscall_proc.c` that manage their slots. A slot that is given back keeps its fields: the pointer
to its events, which have been freed, their count and, for a socket, the pointer to freed data.
What such a pointer leads to later is an outcome of the model (`TableFault`).

The counters that the virtual machine looks at, of all events and of the exit callbacks, are numbers
of 32 bits and wrap around. The slots in use and the events of one slot are counted in 32 bits by the
code too, and without a bound here. For slots the two differ from 2^32 - 1 slots in use on, and every
slot in use holds an open descriptor or a child process, whose number is an `int`, so that there are
never as many. For one slot they differ from 2^32 events in it on, when the counter of all events has
wrapped around before.
-/

namespace BvgzVm

open SwapRemove

/-- What goes wrong in the tables. -/
inductive TableFault
  /-- a slot outside the array -/
  | slot
  /-- a block is used or freed after it has been freed -/
  | freed
  /-- an event outside the block of events -/
  | block
  /-- a descriptor outside an `fd_set` -/
  | fdSet
  /-- `abort()` -/
  | abort
  deriving DecidableEq, Repr

/-! ## Events -/

/-- `vm_callback_t` -/
structure VmCallback where
  callback : UInt32
  args : UInt32
  deriving DecidableEq, Repr

/-- `vm_io_evt_t`: the handler and the data it is given. -/
inductive VmIoEvt
  /-- `read_io_evt_handler` on an `io_mem_t` -/
  | read (ptr len : UInt32) (callback : VmCallback)
  /-- `write_io_evt_handler` on an `io_mem_t` -/
  | write (ptr len : UInt32) (callback : VmCallback)
  /-- `connect_io_evt_handler` on a `vm_callback_t` -/
  | connect (callback : VmCallback)
  /-- `accept_io_evt_handler` on a `vm_callback_t` -/
  | accept (callback : VmCallback)
  deriving DecidableEq, Repr

/-- `IO_EVT_SELECT_READ`, `IO_EVT_SELECT_WRITE` -/
inductive Select
  | read | write
  deriving DecidableEq, Repr

/-- `flags` -/
def VmIoEvt.flags : VmIoEvt → Select
  | .read _ _ _ | .accept _ => .read
  | .write _ _ _ | .connect _ => .write

/-- The callback in the data. -/
def VmIoEvt.callback : VmIoEvt → VmCallback
  | .read _ _ c | .write _ _ c | .connect c | .accept c => c

/-! ## Descriptors -/

/-- `struct sockaddr_in`, as far as it is read: the address and the port. -/
structure SockAddr where
  sAddr : UInt32
  sinPort : UInt16
  deriving DecidableEq, Repr

/-- `data` of a slot, a pointer to a `vm_net_sock_t` -/
inductive SockPtr
  | null
  | sock (addr : SockAddr)
  | freed
  deriving DecidableEq, Repr

/-- `vm_fd_t`. `n_events` is the length of `events`; the pointer `events` is `NULL` as long as
`alloc_events` is zero, and `eventsFreed` says that its block has been freed. -/
structure VmFd where
  fd : Int32
  used : Bool
  events : List VmIoEvt
  allocEvents : Nat
  eventsFreed : Bool
  /-- `on_close` is `net_io_close_handler` and not `NULL` -/
  onClose : Bool
  data : SockPtr
  deriving DecidableEq, Repr

/-- `vm_io_t`. `n_fds` is the length of `fds`. -/
structure VmIo where
  fds : List VmFd
  usedFds : Nat
  nIoEvents : UInt32
  deriving DecidableEq, Repr

/-- `FD_ALLOC_STEP` -/
def fdAllocStep : Nat := 5

/-- `IO_EVT_ALLOC` -/
def ioEvtAlloc : Nat := 4

/-- `sizeof(io_mem_t)`, by which the blocks of events are sized -/
def ioMemSize : Nat := 16

/-- A slot of zeros, as `memset` leaves it. -/
def emptyFd : VmFd := ⟨0, false, [], 0, false, false, .null⟩

/-- The events are inside their block; `evtSize` is `sizeof(vm_io_evt_t)`, which is 24 where
pointers take 8 bytes and 12 where they take 4. -/
def VmFd.fits (evtSize : Nat) (fd : VmFd) : Prop :=
  fd.events.length * evtSize ≤ ioMemSize * fd.allocEvents

instance (evtSize : Nat) (fd : VmFd) : Decidable (fd.fits evtSize) :=
  inferInstanceAs (Decidable (_ ≤ _))

/-- The events of a slot, when they are looked at. -/
def VmFd.readEvents (evtSize : Nat) (fd : VmFd) : Except TableFault (List VmIoEvt) :=
  if fd.events = [] then .ok []
  else if fd.eventsFreed then .error .freed
  else if fd.fits evtSize then .ok fd.events
  else .error .block

/-- The first slot from `begin` on that is not used. -/
def firstUnused (fds : List VmFd) (start : Nat) : Option Nat :=
  ((fds.drop start).findIdx? (fun fd => !fd.used)).map (start + ·)

/-- `alloc_fd` -/
def allocFd (io : VmIo) : Except TableFault (Nat × VmIo) :=
  let grow := io.usedFds = io.fds.length
  let fds := if grow then io.fds ++ List.replicate fdAllocStep emptyFd else io.fds
  let beginFd := if grow then io.fds.length else 0
  match firstUnused fds beginFd with
  | none => .error .abort
  | some i => .ok (i, { io with
      fds := fds.modify i (fun fd => { fd with used := true, onClose := false })
      usedFds := io.usedFds + 1 })

/-- `net_io_close_handler`: the number of events that are given up, and the pointer that is left. -/
def netIoCloseHandler (evtSize : Nat) (fd : VmFd) : Except TableFault (Nat × SockPtr) := do
  let events ← fd.readEvents evtSize -- each of them is freed
  match fd.data with
  | .null => .ok (events.length, .null)
  | .sock _ => .ok (events.length, .freed)
  | .freed => .error .freed

/-- `dealloc_fd` -/
def deallocFd (evtSize i : Nat) (io : VmIo) : Except TableFault VmIo :=
  match io.fds[i]? with
  | none => .error .slot
  | some fd => do
      let (events, data) ← if fd.onClose then netIoCloseHandler evtSize fd else .ok (0, fd.data)
      if fd.eventsFreed then .error .freed
      else .ok {
        fds := io.fds.set i { fd with used := false, eventsFreed := fd.allocEvents ≠ 0, data }
        usedFds := io.usedFds - 1
        nIoEvents := io.nIoEvents - UInt32.ofNat events }

/-- `alloc_event`, and the caller fills in the event. -/
def allocEvent (evtSize i : Nat) (evt : VmIoEvt) (io : VmIo) : Except TableFault VmIo :=
  match io.fds[i]? with
  | none => .error .slot
  | some fd =>
      let allocEvents :=
        if fd.events.length + 1 > fd.allocEvents then fd.allocEvents + ioEvtAlloc
        else fd.allocEvents
      let fd' := { fd with events := fd.events ++ [evt], allocEvents }
      if fd.eventsFreed then .error .freed
      else if fd'.fits evtSize then
        .ok { io with fds := io.fds.set i fd', nIoEvents := io.nIoEvents + 1 }
      else .error .block

/-- The end of `activate_event`: the event `e` is removed, and the block of events shrinks when
more than `IO_EVT_ALLOC` of its entries are free. -/
def removeEvent (i e : Nat) (io : VmIo) : Except TableFault VmIo :=
  match io.fds[i]? with
  | none => .error .slot
  | some fd =>
      let events := swapRemove fd.events e
      let allocEvents :=
        if events ≠ [] ∧ fd.allocEvents - events.length > ioEvtAlloc then
          fd.allocEvents - ioEvtAlloc
        else fd.allocEvents
      .ok { io with
        fds := io.fds.set i { fd with events, allocEvents }
        nIoEvents := io.nIoEvents - 1 }

/-- A slot gets a descriptor. -/
def setFd (i : Nat) (f : VmFd → VmFd) (io : VmIo) : VmIo := { io with fds := io.fds.modify i f }

/-- `FD_SETSIZE` -/
def fdSetSize : Int32 := 1024

/-- The descriptor has a place in an `fd_set`. -/
def inFdSet (fd : Int32) : Prop := 0 ≤ fd ∧ fd < fdSetSize

instance (fd : Int32) : Decidable (inFdSet fd) := inferInstanceAs (Decidable (_ ∧ _))

/-- The sets of `fire_io_events`, with `setup_select_rwsets` for each used slot with events. -/
def selectRwsets (evtSize : Nat) :
    List VmFd → Int32 → List Int32 → List Int32 →
      Except TableFault (Int32 × List Int32 × List Int32)
  | [], maxfd, readset, writeset => .ok (maxfd, readset, writeset)
  | fd :: fds, maxfd, readset, writeset =>
      if fd.used ∧ fd.events ≠ [] then do
        let events ← fd.readEvents evtSize
        if inFdSet fd.fd then
          let readset := if events.any (·.flags = .read) then fd.fd :: readset else readset
          let writeset := if events.any (·.flags = .write) then fd.fd :: writeset else writeset
          selectRwsets evtSize fds (if maxfd < fd.fd then fd.fd else maxfd) readset writeset
        else .error .fdSet
      else selectRwsets evtSize fds maxfd readset writeset

/-- `has_pending_io_events` -/
def VmIo.hasPending (io : VmIo) : Bool := io.nIoEvents > 0

/-! ## Child processes -/

/-- `vm_child_t`. `n_exit_cb` is the length of `exitCb`. -/
structure VmChild where
  pid : Int32
  used : Bool
  exitCb : List VmCallback
  deriving DecidableEq, Repr

/-- `vm_proc_t`. `alloc_proc` is the length of `childProc`. -/
structure VmProc where
  childProc : List VmChild
  nProc : Nat
  nExitCallbacks : UInt32
  deriving DecidableEq, Repr

/-- `PROC_ALLOC` -/
def procAlloc : Nat := 8

/-- A slot of zeros. -/
def emptyChild : VmChild := ⟨0, false, []⟩

/-- `save_child_proc` -/
def saveChildProc (pid : Int32) (proc : VmProc) : Except TableFault VmProc :=
  let childProc :=
    if proc.nProc ≥ proc.childProc.length then
      proc.childProc ++ List.replicate procAlloc emptyChild
    else proc.childProc
  match childProc.findIdx? (fun ch => !ch.used) with
  | none => .error .abort
  | some p => .ok { proc with childProc := childProc.set p ⟨pid, true, []⟩, nProc := proc.nProc + 1 }

/-- `find_proc`, the index of the slot. -/
def findProc (pid : Int32) (proc : VmProc) : Option Nat :=
  proc.childProc.findIdx? (fun ch => ch.used && ch.pid = pid)

/-- The end of `sys_onexit`: a callback is added to the child. -/
def addExitCallback (p : Nat) (cb : VmCallback) (proc : VmProc) : VmProc :=
  { proc with
    childProc := proc.childProc.modify p (fun ch => { ch with exitCb := ch.exitCb ++ [cb] })
    nExitCallbacks := proc.nExitCallbacks + 1 }

/-- The end of the loop body of `fire_proc_events`, for a child that is gone. -/
def endChild (p : Nat) (ch : VmChild) (proc : VmProc) : VmProc :=
  { childProc := proc.childProc.set p { ch with used := false, exitCb := [] }
    nProc := proc.nProc - 1
    nExitCallbacks := proc.nExitCallbacks - UInt32.ofNat ch.exitCb.length }

end BvgzVm
