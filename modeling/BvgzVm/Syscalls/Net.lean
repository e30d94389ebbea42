import BvgzVm.Syscalls.Io

set_option autoImplicit false

/-! # Sockets

The system calls of `syscall_net.c`. Each of them but `socket` looks a handle up in the table and
does its work on the descriptor found there.
-/

namespace BvgzVm

open Stateful

variable {ω : Type}

/-- `LISTEN_BACKLOG` -/
def listenBacklog : Nat := 10

/-- `SOCK_T_TCP` and `SOCK_T_UDP`: `socket()` is not called for another kind. -/
def openSocket (os : Os ω) (kind : UInt64) : SysM ω (Option Int32) :=
  if kind = 1 then call (os.socket false)
  else if kind = 2 then call (os.socket true)
  else pure none

/-- A socket cannot be had: the slot is given back. -/
def socketFailed (os : Os ω) (fd ret : Nat) : SysM ω Unit := do
  onIo' (deallocFd os.evtSize fd)
  let errno ← getErrno
  fail (if errno = 0 then eINVAL else errno) ret 1

/-- `sys_socket` -/
def sysSocket (os : Os ω) (argv retv : UInt32) : SysM ω Unit := do
  let some (args, ret) ← argsRet deref argv 8 retv 1 | return
  let fd ← onIo allocFd
  setErrno 0
  match ← openSocket os (← loadU64 args) with
  | none => socketFailed os fd ret
  | some sockfd =>
      if (← call (os.setsockopt sockfd)).isNone then
        let _ ← call (os.close sockfd)
        socketFailed os fd ret
      else
        let _ ← call (os.fcntl sockfd)
        onIo' (fun io => .ok (setFd fd (fun slot => { slot with fd := sockfd, onClose := true }) io))
        storeU64 ret (fdIdxToHandle fd)

/-- The address at `addr_ref`, four bytes and two. -/
def loadAddr (addrPtr : Nat) : SysM ω SockAddr := do
  return ⟨← loadU32 addrPtr, ← loadU16 (addrPtr + 4)⟩

/-- `sys_bind` -/
def sysBind (os : Os ω) (argv retv : UInt32) : SysM ω Unit := do
  let some (args, ret) ← argsRet deref argv 12 retv 1 | return
  match ← usedFd (fdHandleToIdx (← loadU64 args)) with
  | none => fail eBADF ret 1
  | some fd =>
      match ← deref (← loadU32 (args + 8)) 6 with
      | none => fail eFAULT ret 1
      | some addrPtr =>
          match ← call (os.bind fd.fd (← loadAddr addrPtr)) with
          | none => failErrno ret 1
          | some _ => storeU64 ret 0

/-- The end of `sys_connect`, when the connection is there at once. -/
def connected (os : Os ω) (idx : Nat) (cb : VmCallback) (ret : Nat) : SysM ω Unit := do
  match ← deref cb.args 16 with
  | none => fail eFAULT ret 1
  | some cbArgs =>
      storeU64 cbArgs (fdIdxToHandle idx)
      storeU64 (cbArgs + 8) 0
      makeFuncProcedure os cb.callback cb.args 0
      storeU64 ret 0

/-- `sys_connect` -/
def sysConnect (os : Os ω) (argv retv : UInt32) : SysM ω Unit := do
  let some (args, ret) ← argsRet deref argv 20 retv 1 | return
  let idx := fdHandleToIdx (← loadU64 args)
  match ← usedFd idx with
  | none => fail eBADF ret 1
  | some fd =>
      match ← deref (← loadU32 (args + 8)) 6 with
      | none => fail eFAULT ret 1
      | some addrPtr =>
          let addr ← loadAddr addrPtr
          onIo' (fun io => .ok (setFd idx (fun slot => { slot with data := .sock addr }) io))
          let cbArgs ← loadU32 (args + 12)
          let callback ← loadU32 (args + 16)
          match ← call (os.connect fd.fd addr) with
          | some _ => connected os idx ⟨callback, cbArgs⟩ ret
          | none =>
              if (← getErrno) = eINPROGRESS then
                onIo' (allocEvent os.evtSize idx (.connect ⟨callback, cbArgs⟩))
                storeU64 ret 0
              else failErrno ret 1

/-- `sys_listen` -/
def sysListen (os : Os ω) (argv retv : UInt32) : SysM ω Unit := do
  let some (args, ret) ← argsRet deref argv 8 retv 1 | return
  match ← usedFd (fdHandleToIdx (← loadU64 args)) with
  | none => fail eBADF ret 1
  | some fd =>
      match ← call (os.listen fd.fd listenBacklog) with
      | none => failErrno ret 1
      | some _ => storeU64 ret 0

/-- `sys_accept`. Neither the callback nor its arguments are checked. -/
def sysAccept (os : Os ω) (argv retv : UInt32) : SysM ω Unit := do
  let some (args, ret) ← argsRet deref argv 16 retv 1 | return
  let idx := fdHandleToIdx (← loadU64 args)
  match ← usedFd idx with
  | none => fail eBADF ret 1
  | some _ =>
      let cbArgs ← loadU32 (args + 8)
      let callback ← loadU32 (args + 12)
      onIo' (allocEvent os.evtSize idx (.accept ⟨callback, cbArgs⟩))
      storeU64 ret 0

/-- `sys_peer_address` -/
def sysPeerAddress (argv retv : UInt32) : SysM ω Unit := do
  let some (args, ret) ← argsRet deref argv 12 retv 1 | return
  match ← usedFd (fdHandleToIdx (← loadU64 args)) with
  | none => fail eBADF ret 1
  | some fd =>
      if fd.data = .null then fail eBADF ret 1
      else
        match ← deref (← loadU32 (args + 8)) 6 with
        | none => fail eFAULT ret 1
        | some addrPtr =>
            match fd.data with
            | .sock addr =>
                storeMem addrPtr 4 addr.sAddr.toNat
                storeMem (addrPtr + 4) 2 addr.sinPort.toNat
                storeU64 ret 0
            | _ => ub TableFault.freed.toUb

end BvgzVm
