import BvgzVm.Syscalls.Io

set_option autoImplicit false

/-! # Files and directories

The system calls of `syscall_fs.c`. They begin with a path (`setup_sys_fs_call`), but for
`fs_seek`, which works on a handle.
-/

namespace BvgzVm

open Stateful

variable {ω : Type}

/-- `setup_sys_fs_call`: the pointers to the arguments, the result and the path. -/
def setupSysFsCall (argv retv argslen : UInt32) : SysM ω (Option (Nat × Nat × Nat)) := do
  let some (args, ret) ← argsRet deref argv argslen retv 1 | return none
  match ← deref (← loadU32 args) 1 with
  | none =>
      fail eFAULT ret 1
      return none
  | some path =>
      if ← ensureNulTermStr path then return some (args, ret, path)
      else
        fail eINVAL ret 1
        return none

/-- `FS_OPEN_FLAG_MASK`: `O_RDWR`, `O_WRONLY`, `O_APPEND` and `O_CREAT` -/
def fsOpenFlagMask : UInt64 := 0x443

/-- `O_SYNC` -/
def oSync : UInt64 := 0x101000

/-- `sys_fs_open` -/
def sysFsOpen (os : Os ω) (argv retv : UInt32) : SysM ω Unit := do
  let some (args, ret, path) ← setupSysFsCall argv retv 12 | return
  let options := (← loadU64 (args + 4)) &&& fsOpenFlagMask ||| oSync
  let fd ← onIo allocFd
  let r ← call (os.openFile (← readStr path) options)
  onIo' (fun io => .ok (setFd fd (fun slot => { slot with fd := r.getD (-1) }) io))
  if r.getD (-1) < 0 then
    onIo' (deallocFd os.evtSize fd)
    failErrno ret 0
  else storeU64 ret (fdIdxToHandle fd)

/-- `sizeof(struct stat)` -/
def statSize : UInt32 := 144

/-- `sys_fs_stat` -/
def sysFsStat (os : Os ω) (argv retv : UInt32) : SysM ω Unit := do
  let some (args, ret, path) ← setupSysFsCall argv retv 8 | return
  match ← derefMem (← loadU32 (args + 4)) statSize with
  | none => fail eFAULT ret 1
  | some statPtr =>
      storeU64 ret 0
      match ← call (os.stat (← readStr path)) with
      | none => failErrno ret 1
      | some bytes => writeMemBytes statPtr (bytes.take statSize.toNat)

/-- A system call that does something to a path and returns nothing. -/
def onPath (f : List UInt8 → ω → Except Int32 Unit × ω) (argv retv : UInt32) : SysM ω Unit := do
  let some (_, ret, path) ← setupSysFsCall argv retv 4 | return
  match ← call (f (← readStr path)) with
  | none => failErrno ret 1
  | some _ => storeU64 ret 0

/-- `sys_fs_unlink` -/
def sysFsUnlink (os : Os ω) : UInt32 → UInt32 → SysM ω Unit := onPath os.unlink

/-- `sys_fs_mkdir` -/
def sysFsMkdir (os : Os ω) : UInt32 → UInt32 → SysM ω Unit := onPath os.mkdir

/-- `sys_fs_rmdir` -/
def sysFsRmdir (os : Os ω) : UInt32 → UInt32 → SysM ω Unit := onPath os.rmdir

/-- `sys_fs_seek` -/
def sysFsSeek (os : Os ω) (argv retv : UInt32) : SysM ω Unit := do
  let some (args, ret) ← argsRet derefMem argv 24 retv 1 | return
  match ← usedFd (fdHandleToIdx (← loadU64 args)) with
  | none => fail eBADF ret 1
  | some fd =>
      let offset ← loadU64 (args + 8)
      let whence ← loadU64 (args + 16)
      if 2 < whence then fail eINVAL ret 1
      else
        match ← call (os.lseek fd.fd offset.toInt64 whence.toNat) with
        | none => failErrno ret 1
        | some _ => storeU64 ret 0

/-! ## Directories -/

/-- The variables of the loop of `sys_fs_readdir`; `endOfBuf` is an offset into the buffer. -/
structure ReadDir where
  savedEntries : Nat
  totalEntries : UInt32
  bufUsed : UInt32
  bufRequired : UInt32
  endOfBuf : Nat

/-- The loop of `sys_fs_readdir` over the names; `buf` is the address of the buffer. A failed
`assert` ends the process. -/
def readDirLoop (buf : Nat) (bufLen : UInt64) (ret : Nat) :
    List (List UInt8 × Int32) → ReadDir → SysM ω ReadDir
  | [], d => return d
  | (name, errno) :: names, d => do
      setErrno errno
      if errno ≠ 0 then
        fail errno ret 1
        return d
      else
        let len := name.length
        let need := d.bufUsed + UInt32.ofNat (len + 5)
        let bufRequired := d.bufRequired + UInt32.ofNat (len + 5)
        if need.toNat ≤ bufLen.toNat then
          let endOfBuf := d.endOfBuf - (len + 1)
          if d.endOfBuf < len + 1 ∨ endOfBuf ≤ 4 * d.savedEntries then
            ub TableFault.abort.toUb
          else
            writeMemBytes (buf + endOfBuf) (name ++ [0])
            storeMem (buf + 4 * d.savedEntries) 4 (buf + endOfBuf)
            storeMem (buf + 4 * (d.savedEntries + 1)) 4 0
            readDirLoop buf bufLen ret names
              ⟨d.savedEntries + 1, d.totalEntries + 1, need, bufRequired, endOfBuf⟩
        else
          readDirLoop buf bufLen ret names
            { d with totalEntries := d.totalEntries + 1, bufRequired }

/-- `if (p) *p = v`, with eight bytes -/
def storeIf (p : Option Nat) (v : UInt64) : SysM ω Unit :=
  match p with
  | none => pure ()
  | some p => storeU64 p v

/-- The buffer of `sys_fs_readdir`: `none` if it is rejected, and `some none` if there is none. -/
def readDirBuf (bufRef : UInt32) (bufLen : UInt64) (ret : Nat) : SysM ω (Option (Option Nat)) := do
  if 0 < bufLen then
    match ← deref bufRef bufLen.toUInt32 with
    | none =>
        fail eFAULT ret 1
        return none
    | some buf => return some (some buf)
  else return some none

/-- `sys_fs_readdir`. The three counts are checked for 4 bytes and stored with 8. -/
def sysFsReaddir (os : Os ω) (argv retv : UInt32) : SysM ω Unit := do
  let some (args, ret, path) ← setupSysFsCall argv retv 28 | return
  let bufRef ← loadU32 (args + 4)
  let bufLen ← loadU64 (args + 8)
  let savedRef ← loadU32 (args + 16)
  let totalRef ← loadU32 (args + 20)
  let minRef ← loadU32 (args + 24)
  let some buf ← readDirBuf bufRef bufLen ret | return
  let nSaved ← deref savedRef 4
  let nTotal ← deref totalRef 4
  let minBuf ← deref minRef 4
  if buf = none ∧ minBuf = none then fail eINVAL ret 1
  else
    match ← call (os.opendir (← readStr path)) with
    | none => failErrno ret 1
    | some names =>
        storeU64 ret 0
        setErrno 0
        setErrorNo 0
        let d ← readDirLoop (buf.getD 0) bufLen ret names ⟨0, 0, 0, 4, bufLen.toNat⟩
        storeIf nSaved (UInt64.ofNat d.savedEntries)
        storeIf nTotal d.totalEntries.toUInt64
        storeIf minBuf d.bufRequired.toUInt64

end BvgzVm
