import BvgzVm.Vm.Procedures
import BvgzVm.Vm.DecodeBounds
import BvgzVm.Instn.Kinds
import BvgzVm.Vm.Calls
import BvgzVm.Debug.Exec
import BvgzVm.Debug.Transparency
import BvgzVm.Asm.BytecodeGen
import BvgzVm.Lib.Patch
import BvgzVm.Asm.GenCorrect
import BvgzVm.Asm.RoundTrip
import BvgzVm.Asm.EntryPoint
import BvgzVm.Asm.Parser
import BvgzVm.Asm.ParserInv
import BvgzVm.Asm.LabelEncoding
import BvgzVm.Debug.Section
import BvgzVm.Debug.Lines
import BvgzVm.Debug.Complete
import BvgzVm.Lib.Stateful
import BvgzVm.Lib.SwapRemove
import BvgzVm.Syscalls.Tables
import BvgzVm.Syscalls.Sys
import BvgzVm.Syscalls.Io
import BvgzVm.Syscalls.Fs
import BvgzVm.Syscalls.Net
import BvgzVm.Syscalls.Misc
import BvgzVm.Syscalls.Proc
import BvgzVm.Syscalls.Table
import BvgzVm.Lib.Slots
import BvgzVm.Syscalls.IoBooks
import BvgzVm.Syscalls.IoQueue
import BvgzVm.Lib.Triples
import BvgzVm.Syscalls.ProcOps
import BvgzVm.Syscalls.Moved
import BvgzVm.Syscalls.Spec
import BvgzVm.Syscalls.Calls
import BvgzVm.Syscalls.Fire
import BvgzVm.Instn.Local
import BvgzVm.Syscalls.Runs
import BvgzVm.Syscalls.Quiet
import BvgzVm.Asm.DataImage
import BvgzVm.Instn.MemAccess
import BvgzVm.Asm.DataLayout
import BvgzVm.Asm.DataLabels
import BvgzVm.Syscalls.Faults
import BvgzVm.Syscalls.Stored
import BvgzVm.Syscalls.Lengths
import BvgzVm.Syscalls.Reports
import BvgzVm.Syscalls.Exits
import BvgzVm.Syscalls.Completions
import BvgzVm.Instn.Atomic
import BvgzVm.Instn.Copy
import BvgzVm.Syscalls.Timers
import BvgzVm.Syscalls.Handles
import BvgzVm.Syscalls.Opened
import BvgzVm.Syscalls.Expand
import BvgzVm.Syscalls.Outcomes
import BvgzVm.Syscalls.Blocks
import BvgzVm.Lib.Stutter
import BvgzVm.Strip.Places
import BvgzVm.Strip.Decode
import BvgzVm.Strip.Machines
import BvgzVm.Strip.Rounds
import BvgzVm.Strip.Runs
import BvgzVm.Syscalls.Retract
import BvgzVm.Syscalls.CodeCopy
import BvgzVm.Asm.Lookup
import BvgzVm.Asm.Tokens
import BvgzVm.Asm.Literals
import BvgzVm.Asm.DataTokens
import BvgzVm.Asm.Numbers
import BvgzVm.Asm.OptionOrder
import BvgzVm.Lib.TwoEnded
import BvgzVm.Syscalls.Readdir
import BvgzVm.Instn.Opcodes
import BvgzVm.Syscalls.EventBlock
import BvgzVm.Syscalls.FdSlots
import BvgzVm.Util.ListEnds
import BvgzVm.Debug.Disasm
import BvgzVm.Asm.DataGrowth
import BvgzVm.Debug.BreakArgs
import BvgzVm.Asm.Includes
import BvgzVm.Asm.LineBounds
import BvgzVm.Asm.LineEnds
import BvgzVm.Asm.IdleData
import BvgzVm.Asm.LineLayout
import BvgzVm.Util.HashmapSpec
import BvgzVm.Util.Crc
import BvgzVm.Syscalls.Turns
import BvgzVm.Lib.Outcomes
import BvgzVm.Source.Meaning
import BvgzVm.Source.Effects
import BvgzVm.Source.Machine
import BvgzVm.Source.Correct
import BvgzVm.Lib.Cells
import BvgzVm.Source.Blocks
import BvgzVm.Source.Fib
import BvgzVm.Source.Toolchain
import BvgzVm.Source.Paste
import BvgzVm.Debug.Setup
import BvgzVm.Source.Debugging
