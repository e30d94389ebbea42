import BvgzVm.Syscalls.Fs
import BvgzVm.Syscalls.Misc
import BvgzVm.Syscalls.Net
import BvgzVm.Syscalls.Proc
import BvgzVm.Vm.Exec

set_option autoImplicit false

/-! # The table of system calls

`SyscallTable` in the order of `syscall.inc`, and the machine with these system calls and the
event sources of timers, descriptors and child processes.
-/

namespace BvgzVm

open Stateful

variable {ω : Type}

/-- The system calls. -/
inductive Syscall
  | getlasterr | setlasterr | time | timeout | yield | close | read | write
  | fsOpen | fsStat | fsUnlink | fsSeek | fsMkdir | fsRmdir | fsReaddir
  | socket | bind | connect | listen | accept | peerAddress
  | mexpand | mretract | msize | exec | run | kill | onexit | codesz | codecp
  deriving DecidableEq, Repr

/-- The functions the names stand for. -/
def Syscall.function (os : Os ω) : Syscall → UInt32 → UInt32 → SysM ω Unit
  | .getlasterr => sysGetlasterr
  | .setlasterr => sysSetlasterr
  | .time => sysTime os
  | .timeout => sysTimeout os
  | .yield => sysYield
  | .close => sysClose os
  | .read => sysRead os
  | .write => sysWrite os
  | .fsOpen => sysFsOpen os
  | .fsStat => sysFsStat os
  | .fsUnlink => sysFsUnlink os
  | .fsSeek => sysFsSeek os
  | .fsMkdir => sysFsMkdir os
  | .fsRmdir => sysFsRmdir os
  | .fsReaddir => sysFsReaddir os
  | .socket => sysSocket os
  | .bind => sysBind os
  | .connect => sysConnect os
  | .listen => sysListen os
  | .accept => sysAccept os
  | .peerAddress => sysPeerAddress
  | .mexpand => sysMexpand os
  | .mretract => sysMretract os
  | .msize => sysMsize
  | .exec => sysExec os
  | .run => sysRun os
  | .kill => sysKill os
  | .onexit => sysOnexit
  | .codesz => sysCodesz
  | .codecp => sysCodecp

/-- `syscall.inc` -/
def syscallInc : List Syscall :=
  [.getlasterr, .setlasterr, .time, .timeout, .yield, .close, .read, .write,
    .fsOpen, .fsStat, .fsUnlink, .fsSeek, .fsMkdir, .fsRmdir, .fsReaddir,
    .socket, .bind, .connect, .listen, .accept, .peerAddress,
    .mexpand, .mretract, .msize, .exec, .run, .kill, .onexit, .codesz, .codecp]

/-- The machine on an operating system. -/
def sysHost (os : Os ω) : Host (Sys ω) where
  fireTimerEvents := fireTimerEvents os
  fireIoEvents := fireIoEvents os
  fireProcEvents := fireProcEvents os
  hasPendingTimerEvents vm := vm.host.timers ≠ []
  hasPendingIoEvents vm := vm.host.io.hasPending
  hasPendingProcEvents vm := vm.host.proc.hasPending
  nanosleep vm :=
    match os.nanosleep vm.host.world with
    | (.ok _, world) => vm.withSys fun s => { s with world }
    | (.error errno, world) => vm.withSys fun s => { s with world, errno, errorNo := errno }
  syscallTable := syscallInc.map fun k vm argv retv =>
    (k.function os argv retv vm).map Prod.snd
  fill := os.fill

end BvgzVm
