import BvgzVm.Syscalls.Sys
import BvgzVm.Vm.Image

set_option autoImplicit false

/-! # Child processes

The system calls of `syscall_proc.c` and `fire_proc_events`.
-/

namespace BvgzVm

open Stateful

variable {ω : Type}

/-! ## System calls -/

/-- The result of `fork` in the parent. -/
def forked (r : Option Pid) (ret : Nat) : SysM ω Unit := do
  match r with
  | none =>
      storeU64 ret 0
      setErrorNo (← getErrno)
  | some pid =>
      storeU64 ret (ofInt pid.1)
      onProc (saveChildProc pid.1)

/-- The loop of `sys_exec` over the arguments, from number `a` on; `none` if one is rejected. -/
def execArgs (argvR : Nat) : Nat → Nat → SysM ω (Option (List (List UInt8)))
  | 0, _ => return some []
  | todo + 1, a => do
      match ← derefMem (← loadU32 (argvR + 4 * a)) 1 with
      | none => return none
      | some arg =>
          if ← ensureNulTermStr arg then
            let str ← readStr arg
            match ← execArgs argvR todo (a + 1) with
            | none => return none
            | some strs => return some (str :: strs)
          else return none

/-- `sys_exec` -/
def sysExec (os : Os ω) (argv retv : UInt32) : SysM ω Unit := do
  let some (args, ret) ← argsRet derefMem argv 12 retv 0 | return
  let argc ← loadU64 args
  if argc = 0 then fail eINVAL ret 0
  else
    match ← derefMem (← loadU32 (args + 8)) (argc * 4).toUInt32 with
    | none => storeU64 ret 0
    | some argvR =>
        match ← execArgs argvR argc.toNat 0 with
        | none => storeU64 ret 0
        | some strs => forked (← call (os.forkExec strs)) ret

/-- The image `sys_run` writes, and the child that runs it. -/
def runImage (os : Os ω) (code mem : List UInt8) (entryPt : UInt64) (ret : Nat) : SysM ω Unit := do
  if ← ask os.setupImageGenDir then
    let image := (writeBvgzImageDirect code mem entryPt.toUInt32 bvgzImgFExec).getD []
    match ← call (os.writeImage image) with
    | none =>
        setErrorNo (← getErrno)
        storeU64 ret 0
    | some _ => forked (← call os.forkRun) ret
  else ub .host -- `exit(1)`

/-- `sys_run` -/
def sysRun (os : Os ω) (argv retv : UInt32) : SysM ω Unit := do
  let some (args, ret) ← argsRet derefMem argv 32 retv 0 | return
  let codeRef ← loadU32 args
  let codesz ← loadU64 (args + 4)
  let memRef ← loadU32 (args + 12)
  let memsz ← loadU64 (args + 16)
  let entryPt ← loadU64 (args + 24)
  if codesz ≤ entryPt ∨ 2 ^ 32 ≤ codesz.toNat ∨ 2 ^ 32 ≤ memsz.toNat then fail eINVAL ret 0
  else
    match ← derefMem codeRef codesz.toUInt32 with
    | none => storeU64 ret 0
    | some codePtr =>
        match ← derefMem memRef memsz.toUInt32 with
        | none => storeU64 ret 0
        | some memPtr =>
            let code ← readMemBytes codePtr codesz.toNat
            let mem ← readMemBytes memPtr memsz.toNat
            runImage os code mem entryPt ret

/-- `sys_kill` -/
def sysKill (os : Os ω) (argv retv : UInt32) : SysM ω Unit := do
  let some (args, ret) ← argsRet derefMem argv 8 retv 1 | return
  match ← call (os.kill (← loadU64 args).toUInt32.toInt32) with
  | none => failErrno ret 1
  | some _ => storeU64 ret 0

/-- `sys_onexit`. Only the first of the three arguments is checked to be in memory. -/
def sysOnexit (argv retv : UInt32) : SysM ω Unit := do
  let some (args, ret) ← argsRet derefMem argv 8 retv 1 | return
  let cbArgs ← loadU64 (args + 8)
  if (← deref cbArgs.toUInt32 56).isNone then fail eFAULT ret 1
  else
    let callback ← loadU64 (args + 16)
    if (← get).code.size ≤ callback.toNat then fail eINVAL ret 1
    else
      let pid := (← loadU64 args).toUInt32.toInt32
      match findProc pid (← get).host.proc with
      | none => fail eCHILD ret 1
      | some p =>
          onProc (fun proc =>
            .ok (addExitCallback p ⟨callback.toUInt32, cbArgs.toUInt32⟩ proc))
          storeU64 ret 0

/-! ## Terminations -/

/-- The arguments of an exit callback. -/
def exitArgs (pid : Int32) (status : UInt32) : List UInt64 :=
  [ofInt pid, (wifexited status).toUInt64, (wexitstatus status).toUInt64,
    (wifsignaled status).toUInt64, (wtermsig status).toUInt64, (wifstopped status).toUInt64,
    (wifcontinued status).toUInt64]

/-- Numbers stored one behind the other. -/
def storeAll : Nat → List UInt64 → SysM ω Unit
  | _, [] => return
  | p, v :: vs => do
      storeU64 p v
      storeAll (p + 8) vs

/-- `fire_events_of_proc`, for the callbacks of the child. -/
def fireEventsOfProc (os : Os ω) (pid : Int32) (status : UInt32) :
    List VmCallback → SysM ω UInt32
  | [] => return 0
  | cb :: cbs => do
      match ← derefMem cb.args 56 with
      | none => fireEventsOfProc os pid status cbs
      | some cbArgs =>
          storeAll cbArgs (exitArgs pid status)
          makeFuncProcedure os cb.callback cb.args 0
          let n ← fireEventsOfProc os pid status cbs
          return 1 + n

/-- A child that is gone: its callbacks are fired and its slot is given back. -/
def childExited (os : Os ω) (p : Nat) (ch : VmChild) (pid : Int32) (status : UInt32) :
    SysM ω UInt32 := do
  let n ← fireEventsOfProc os pid status ch.exitCb
  onProc (fun proc => .ok (endChild p ch proc))
  return n

/-- The loop of `fire_proc_events`. Each round but the last takes one child off `n_proc`, which is
where the loop ends. -/
def fireProcs (os : Os ω) : Nat → UInt32 → SysM ω UInt32
  | 0, nEvents => return nEvents
  | nProc + 1, nEvents => do
      match ← call os.waitpid with
      | none =>
          setErrorNo (← getErrno)
          return nEvents
      | some none => return nEvents
      | some (some (pid, status)) =>
          let proc := (← get).host.proc
          match findProc pid.1 proc with
          | none => return nEvents
          | some p =>
              match proc.childProc[p]? with
              | none => return nEvents
              | some ch =>
                  let n ← childExited os p ch pid.1 status.1
                  fireProcs os nProc (nEvents + n)

/-- `fire_proc_events` -/
def fireProcEvents (os : Os ω) : SysM ω UInt32 := do
  fireProcs os (← get).host.proc.nProc 0

/-- `has_pending_proc_events` -/
def VmProc.hasPending (proc : VmProc) : Bool := proc.nExitCallbacks > 0

end BvgzVm
