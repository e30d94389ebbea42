import BvgzVm.Syscalls.Accesses
import BvgzVm.Syscalls.Expand

set_option autoImplicit false

/-! # The blocks a system call gets to

A system call checks its blocks with `deref`, which adds in 32 bits, and with sizes that are
written by hand. For each call there is a list of the blocks that it uses, with the size that is
checked and the extent that is used: block by block in the order in which the call gets to them, and
only as far as its own tests on the state before let it get.
-/

namespace BvgzVm

open Stateful

variable {ω : Type}

instance (vm : Vm (Sys ω)) (p : ℕ) : Decidable (NulTerm vm p) :=
  inferInstanceAs (Decidable (0 ∈ vm.memory.bytes.drop p))

variable (os : Os ω) (vm : Vm (Sys ω)) (argv retv : UInt32)

/-- The slot of the handle that is the first argument. -/
def argSlot : Option VmFd := usedSlot (fdHandleToIdx (word64 vm argv.toNat)) vm.host.io

/-- The blocks of a call on a handle: the other blocks are for a handle in use only. -/
def handleBlocks (size : UInt32) (rest : VmFd → List Block) : List Block :=
  ⟨argv, size, 8⟩ ::
    match argSlot vm argv with
    | none => [resultCell retv]
    | some fd => rest fd

/-- The path that is the first argument is accepted. -/
def PathAccepted : Prop :=
  Reaches vm (word32 vm argv.toNat) 1 ∧ NulTerm vm (word32 vm argv.toNat).toNat

instance : Decidable (PathAccepted vm argv) := inferInstanceAs (Decidable (_ ∧ _))

/-- The blocks of a call on a path. -/
def pathBlocks (size : UInt32) (rest : List Block) : List Block :=
  ⟨argv, size, 4⟩ :: if PathAccepted vm argv then rest else [resultCell retv]

/-- `sys_time` stores the time where its arguments are. -/
def timeBlocks : List Block :=
  match (os.clockGettime vm.host.world).1 with
  | .ok _ => [⟨argv, 16, 16⟩, resultCell retv]
  | .error _ => [resultCell retv]

/-- `sys_close`: behind the last slot there is one that passes the test. -/
def closeBlocks : List Block :=
  ⟨argv, 8, 8⟩ ::
    if fdHandleToIdx (word64 vm argv.toNat) = vm.host.io.fds.length then [] else [resultCell retv]

/-- `sys_read` and `sys_write`: seven fields are read of the ten for which there is a check. -/
def ioBlocks (evt : UInt32 → UInt32 → VmCallback → VmIoEvt) : List Block :=
  let idx := fdHandleToIdx (word64 vm argv.toNat)
  let ptr := word32 vm (argv.toNat + 8)
  let len := (word64 vm (argv.toNat + 12)).toUInt32
  let argsPtr := word32 vm (argv.toNat + 20)
  let fPtr := word32 vm (argv.toNat + 24)
  handleBlocks vm argv retv 40 fun _ => ⟨argv, 40, 20⟩ ::
    if Reaches vm ptr len then ⟨argv, 40, 24⟩ ::
      if Reaches vm argsPtr 32 then ⟨argv, 40, 28⟩ ::
        if vm.code.size ≤ fPtr.toNat then [resultCell retv]
        else ifReturns (allocEvent os.evtSize idx (evt ptr len ⟨fPtr, argsPtr⟩) vm.host.io)
          [resultCell retv]
      else [resultCell retv]
    else [resultCell retv]

/-- The block of the arguments, an address and the cell of the result. -/
def addrBlocks (size : UInt32) : List Block :=
  [⟨argv, size, size.toNat⟩, ⟨word32 vm (argv.toNat + 8), 6, 6⟩, resultCell retv]

/-- `sys_bind` -/
def bindBlocks : List Block :=
  let addrRef := word32 vm (argv.toNat + 8)
  handleBlocks vm argv retv 12 fun _ => ⟨argv, 12, 12⟩ ::
    if Reaches vm addrRef 6 then [⟨addrRef, 6, 6⟩, resultCell retv] else [resultCell retv]

/-- `sys_connect`: the block of the callback is used if the connection is there at once. -/
def connectBlocks : List Block :=
  let idx := fdHandleToIdx (word64 vm argv.toNat)
  let addrRef := word32 vm (argv.toNat + 8)
  let addr := addrAt vm addrRef.toNat
  let cbArgs := word32 vm (argv.toNat + 12)
  let callback := word32 vm (argv.toNat + 16)
  handleBlocks vm argv retv 20 fun fd => ⟨argv, 20, 12⟩ ::
    if Reaches vm addrRef 6 then ⟨addrRef, 6, 6⟩ :: ⟨argv, 20, 20⟩ ::
      match (os.connect fd.fd addr vm.host.world).1 with
      | .ok _ =>
          if Reaches vm cbArgs 16 then [⟨cbArgs, 16, 16⟩, resultCell retv] else [resultCell retv]
      | .error e =>
          if e = eINPROGRESS then
            ifReturns (allocEvent os.evtSize idx (.connect ⟨callback, cbArgs⟩)
              (setFd idx (fun slot => { slot with data := .sock addr }) vm.host.io))
              [resultCell retv]
          else [resultCell retv]
    else [resultCell retv]

/-- `sys_accept` -/
def acceptBlocks : List Block :=
  let idx := fdHandleToIdx (word64 vm argv.toNat)
  let cbArgs := word32 vm (argv.toNat + 8)
  let callback := word32 vm (argv.toNat + 12)
  handleBlocks vm argv retv 16 fun _ => ⟨argv, 16, 16⟩ ::
    ifReturns (allocEvent os.evtSize idx (.accept ⟨callback, cbArgs⟩) vm.host.io) [resultCell retv]

/-- `sys_peer_address` stores the address that the slot has. -/
def peerBlocks : List Block :=
  let addrRef := word32 vm (argv.toNat + 8)
  handleBlocks vm argv retv 12 fun fd =>
    if fd.data = .null then [resultCell retv]
    else ⟨argv, 12, 12⟩ ::
      if Reaches vm addrRef 6 then
        match fd.data with
        | .sock _ => [⟨addrRef, 6, 6⟩, resultCell retv]
        | _ => []
      else [resultCell retv]

/-- `sys_fs_open`: a slot is taken before the file is opened, and given back if it cannot be. -/
def fsOpenBlocks : List Block :=
  let path := stringAt vm.memory (word32 vm argv.toNat).toNat
  let options := word64 vm (argv.toNat + 4) &&& fsOpenFlagMask ||| oSync
  let r := (os.openFile path options vm.host.world).1.toOption.getD (-1)
  pathBlocks vm argv retv 12 (⟨argv, 12, 12⟩ ::
    match allocFd vm.host.io with
    | .error _ => []
    | .ok (fd, io) =>
        if r < 0 then
          ifReturns (deallocFd os.evtSize fd (setFd fd (fun slot => { slot with fd := r }) io))
            [resultCell retv]
        else [resultCell retv])

/-- `sys_fs_stat`: the path is read when the result has been stored already. -/
def fsStatBlocks : List Block :=
  let statRef := word32 vm (argv.toNat + 4)
  let memory := (stored vm retv.toNat (Bytes.toLE 8 0)).memory
  pathBlocks vm argv retv 8 (⟨argv, 8, 8⟩ ::
    if Reaches vm statRef statSize then resultCell retv ::
      match (os.stat (stringAt memory (word32 vm argv.toNat).toNat) vm.host.world).1 with
      | .ok bytes => [⟨statRef, statSize, (bytes.take statSize.toNat).length⟩]
      | .error _ => []
    else [resultCell retv])

/-- There is a socket of this kind to be had. -/
def socketOpens (kind : UInt64) (w : ω) : Bool :=
  if kind = 1 ∨ kind = 2 then
    match os.socket (kind = 2) w with
    | (.ok fd, w') => (os.setsockopt fd w').1.toBool
    | (.error _, _) => false
  else false

/-- `sys_socket`: a slot is taken before the arguments are read. -/
def socketBlocks : List Block :=
  match allocFd vm.host.io with
  | .error _ => []
  | .ok (fd, io) => ⟨argv, 8, 8⟩ ::
      if socketOpens os (word64 vm argv.toNat) vm.host.world then [resultCell retv]
      else ifReturns (deallocFd os.evtSize fd io) [resultCell retv]

/-- The bytes that `realloc` takes from the end of the memory. -/
def takenBytes (size : ℕ) : ℕ :=
  if size < 2 ^ 32 ∧ (os.realloc size vm.host.world).1 then vm.memory.size - size else 0

/-- The result is stored when the end of the memory is gone. -/
def reallocBlocks (size : ℕ) : List Block :=
  if size = 0 then [] else [⟨retv, 8, 8 + takenBytes os vm size⟩]

/-- `sys_mexpand` -/
def mexpandBlocks : List Block := ⟨argv, 8, 8⟩ :: reallocBlocks os vm retv (expandedSize vm argv)

/-- `sys_mretract` -/
def mretractBlocks : List Block :=
  let sz := (word64 vm argv.toNat).toNat
  ⟨argv, 8, 8⟩ ::
    if vm.memory.size < sz then [resultCell retv]
    else reallocBlocks os vm retv (vm.memory.size - sz)

/-- `sys_onexit`: three fields are read, and only the first is checked. -/
def onexitBlocks : List Block :=
  let cbArgs := word64 vm (argv.toNat + 8)
  ⟨argv, 8, 16⟩ ::
    if Reaches vm cbArgs.toUInt32 56 then [⟨argv, 8, 24⟩, resultCell retv] else [resultCell retv]

/-- `sys_exec` -/
def execBlocks : List Block :=
  ⟨argv, 12, 8⟩ ::
    if word64 vm argv.toNat = 0 then [resultCell retv] else [⟨argv, 12, 12⟩, resultCell retv]

/-- The code and the memory that `sys_run` is given are accepted. -/
def RunGiven : Prop :=
  let codesz := word64 vm (argv.toNat + 4)
  let memsz := word64 vm (argv.toNat + 16)
  ¬ (codesz ≤ word64 vm (argv.toNat + 24) ∨ 2 ^ 32 ≤ codesz.toNat ∨ 2 ^ 32 ≤ memsz.toNat) ∧
    Reaches vm (word32 vm argv.toNat) codesz.toUInt32 ∧
    Reaches vm (word32 vm (argv.toNat + 12)) memsz.toUInt32

instance : Decidable (RunGiven vm argv) := inferInstanceAs (Decidable (_ ∧ _))

/-- `sys_run`: without a directory for images the process exits. -/
def runBlocks : List Block :=
  ⟨argv, 32, 32⟩ ::
    if RunGiven vm argv ∧ (os.setupImageGenDir vm.host.world).1 = false then []
    else [resultCell retv]

/-- `sys_codecp`: there is no result for a range outside the code. -/
def codecpBlocks : List Block :=
  let start := word64 vm argv.toNat
  let size := word64 vm (argv.toNat + 8)
  ⟨argv, 20, 16⟩ ::
    if vm.code.size < (start + size).toNat then []
    else ⟨argv, 20, 20⟩ ::
      if Reaches vm (word32 vm (argv.toNat + 16)) size.toUInt32 ∧
          Bytes.read vm.code.bytes start.toNat size.toNat = none then []
      else [resultCell retv]

/-- The number of pointers that the loop of `sys_exec` reads: up to the first that is rejected. -/
def argsRead (argvR : ℕ) : ℕ → ℕ → ℕ
  | 0, _ => 0
  | todo + 1, a =>
      let arg := word32 vm (argvR + 4 * a)
      if Reaches vm arg 1 ∧ NulTerm vm arg.toNat then argsRead argvR todo (a + 1) + 1 else 1

/-- What the loop of `sys_fs_readdir` comes to: the number of names that are stored, and whether no
`assert` fails. -/
def packing (bufLen : UInt64) :
    List (List UInt8 × Int32) → (bufUsed : UInt32) → (endOfBuf savedEntries : ℕ) → ℕ × Bool
  | [], _, _, saved => (saved, true)
  | (name, errno) :: names, bufUsed, endOfBuf, saved =>
      let need := bufUsed + UInt32.ofNat (name.length + 5)
      if errno ≠ 0 then (saved, true)
      else if need.toNat ≤ bufLen.toNat then
        if endOfBuf < name.length + 1 ∨ endOfBuf - (name.length + 1) ≤ 4 * saved then (saved, false)
        else packing bufLen names need (endOfBuf - (name.length + 1)) (saved + 1)
      else packing bufLen names bufUsed endOfBuf saved

/-- A count of `sys_fs_readdir`: it is checked for 4 bytes and stored with 8. -/
def countBlock (ref : UInt32) : List Block := if Reaches vm ref 4 then [⟨ref, 4, 8⟩] else []

/-- `sys_fs_readdir` -/
def fsReaddirBlocks : List Block :=
  let path := stringAt vm.memory (word32 vm argv.toNat).toNat
  let bufRef := word32 vm (argv.toNat + 4)
  let bufLen := word64 vm (argv.toNat + 8)
  let minRef := word32 vm (argv.toNat + 24)
  pathBlocks vm argv retv 28 (⟨argv, 28, 28⟩ ::
    if 0 < bufLen ∧ ¬ Reaches vm bufRef bufLen.toUInt32 then [resultCell retv]
    else if ¬ 0 < bufLen ∧ ¬ Reaches vm minRef 4 then [resultCell retv]
    else
      match (os.opendir path vm.host.world).1 with
      | .error _ => [resultCell retv]
      | .ok names => resultCell retv ::
          if (packing bufLen names 0 bufLen.toNat 0).2 then
            countBlock vm (word32 vm (argv.toNat + 16)) ++
              (countBlock vm (word32 vm (argv.toNat + 20)) ++ countBlock vm minRef)
          else [])

end BvgzVm
