import BvgzVm.Syscalls.IoQueue
import BvgzVm.Syscalls.ProcOps
import BvgzVm.Syscalls.Sys

set_option autoImplicit false

/-! # What a computation of the host may do

`Moved os vm vm'` says that the code is the same and that the tables of descriptors and of child
processes have changed by actions of `ioStep` and `procStep`, in which each callback of a read, of
a write and of a termination is inside the code. It is a preorder, so what each part of a
computation does the whole of it does. `SameTables` is the case in which the tables are as before,
and `Same` the case in which only the bytes of the memory, the errors and the world may differ.
-/

namespace BvgzVm

variable {ω : Type}

/-! ## Actions with valid callbacks -/

/-- The callback of a read or a write is inside the code; `connect` and `accept` do not check it. -/
def IoOp.Valid (codesz : Nat) : IoOp → Prop
  | .submit _ (.read _ _ cb) | .submit _ (.write _ _ cb) => cb.callback.toNat < codesz
  | _ => True

/-- The callback of a termination is inside the code. -/
def ProcOp.Valid (codesz : Nat) : ProcOp → Prop
  | .register _ cb => cb.callback.toNat < codesz
  | _ => True

/-- The tables of descriptors that valid actions lead to. -/
def IoMoves (evtSize codesz : Nat) (io io' : VmIo) : Prop :=
  ∃ ops : List IoOp, (∀ op ∈ ops, op.Valid codesz) ∧
    Steps.run (ioStep evtSize) ops io = some io'

/-- The tables of child processes that valid actions lead to. -/
def ProcMoves (codesz : Nat) (proc proc' : VmProc) : Prop :=
  ∃ ops : List ProcOp, (∀ op ∈ ops, op.Valid codesz) ∧ Steps.run procStep ops proc = some proc'

theorem IoMoves.refl (evtSize codesz : Nat) (io : VmIo) : IoMoves evtSize codesz io io :=
  ⟨[], by simp, rfl⟩

theorem IoMoves.trans {evtSize codesz : Nat} {io io' io'' : VmIo}
    (h : IoMoves evtSize codesz io io') (h' : IoMoves evtSize codesz io' io'') :
    IoMoves evtSize codesz io io'' := by
  rcases h with ⟨ops, hvalid, hrun⟩
  rcases h' with ⟨ops', hvalid', hrun'⟩
  refine ⟨ops ++ ops', ?_, Steps.run_append.2 ⟨io', hrun, hrun'⟩⟩
  intro op hop
  rcases List.mem_append.1 hop with hop | hop
  · exact hvalid op hop
  · exact hvalid' op hop

/-- One action. -/
theorem IoMoves.single {evtSize codesz : Nat} {op : IoOp} {io io' : VmIo}
    (hstep : ioStep evtSize op io = some io') (hvalid : op.Valid codesz) :
    IoMoves evtSize codesz io io' := by
  refine ⟨[op], ?_, Steps.run_cons.2 ⟨io', hstep, rfl⟩⟩
  intro op' hop
  rw [List.mem_singleton.1 hop]
  exact hvalid

theorem ProcMoves.refl (codesz : Nat) (proc : VmProc) : ProcMoves codesz proc proc :=
  ⟨[], by simp, rfl⟩

theorem ProcMoves.trans {codesz : Nat} {proc proc' proc'' : VmProc}
    (h : ProcMoves codesz proc proc') (h' : ProcMoves codesz proc' proc'') :
    ProcMoves codesz proc proc'' := by
  rcases h with ⟨ops, hvalid, hrun⟩
  rcases h' with ⟨ops', hvalid', hrun'⟩
  refine ⟨ops ++ ops', ?_, Steps.run_append.2 ⟨proc', hrun, hrun'⟩⟩
  intro op hop
  rcases List.mem_append.1 hop with hop | hop
  · exact hvalid op hop
  · exact hvalid' op hop

theorem ProcMoves.single {codesz : Nat} {op : ProcOp} {proc proc' : VmProc}
    (hstep : procStep op proc = some proc') (hvalid : op.Valid codesz) :
    ProcMoves codesz proc proc' := by
  refine ⟨[op], ?_, Steps.run_cons.2 ⟨proc', hstep, rfl⟩⟩
  intro op' hop
  rw [List.mem_singleton.1 hop]
  exact hvalid

/-- No request is new. -/
def NoNewEvents (io io' : VmIo) : Prop :=
  ∀ slot ∈ io'.fds, ∀ evt ∈ slot.events, ∃ fd ∈ io.fds, evt ∈ fd.events

/-- Only a submission makes a request. -/
theorem noNewEvents {evtSize : Nat} {op : IoOp} {io io' : VmIo} (hop : ∀ i evt, op ≠ .submit i evt)
    (hstep : ioStep evtSize op io = some io') : NoNewEvents io io' := by
  intro slot hslot evt hevt
  rcases ioStep_events hstep hslot hevt with hold | ⟨i, hsubmit⟩
  · exact hold
  · exact absurd hsubmit (hop i evt)

/-- No slot is given back. -/
def KeepsUsed (io io' : VmIo) : Prop :=
  ∀ i, (usedSlot i io).isSome = true → (usedSlot i io').isSome = true

@[grind .] theorem KeepsUsed.refl (io : VmIo) : KeepsUsed io io := fun _ => id

@[grind →] theorem KeepsUsed.trans {io io' io'' : VmIo} (h : KeepsUsed io io')
    (h' : KeepsUsed io' io'') : KeepsUsed io io'' := fun i hused => h' i (h i hused)

/-- Only `dealloc_fd` gives a slot back. -/
theorem keepsUsed {evtSize : Nat} {op : IoOp} {io io' : VmIo} (hop : ∀ i, op ≠ .close i)
    (hstep : ioStep evtSize op io = some io') : KeepsUsed io io' :=
  fun i hused => (serves hused (hop i) hstep).1

/-! ## Machines -/

/-- The code is the same and the tables have changed by valid actions. -/
structure Moved (os : Os ω) (vm vm' : Vm (Sys ω)) : Prop where
  code : vm'.code = vm.code
  io : IoMoves os.evtSize vm.code.size vm.host.io vm'.host.io
  proc : ProcMoves vm.code.size vm.host.proc vm'.host.proc

/-- The code and the tables are as before. -/
structure SameTables (vm vm' : Vm (Sys ω)) : Prop where
  code : vm'.code = vm.code
  io : vm'.host.io = vm.host.io
  proc : vm'.host.proc = vm.host.proc

/-- The code, the tables and the procedures are as before. -/
structure SameProcs (vm vm' : Vm (Sys ω)) : Prop where
  tables : SameTables vm vm'
  procedures : vm'.procedures = vm.procedures

/-- What a system call does to the tables and to the procedures, which are only appended. -/
structure Acts (os : Os ω) (vm vm' : Vm (Sys ω)) : Prop where
  moved : Moved os vm vm'
  grows : vm.procedures <+: vm'.procedures

/-- Only the tables of descriptors and of child processes may differ. -/
structure TablesOnly (vm vm' : Vm (Sys ω)) : Prop where
  code : vm'.code = vm.code
  memory : vm'.memory = vm.memory
  exceptions : vm'.exceptions = vm.exceptions
  procedures : vm'.procedures = vm.procedures
  timers : vm'.host.timers = vm.host.timers
  world : vm'.host.world = vm.host.world

/-- Only the bytes of the memory, `error_no`, `errno`, the world and the counters may differ. -/
structure Same (vm vm' : Vm (Sys ω)) : Prop where
  code : vm'.code = vm.code
  memsz : vm'.memory.size = vm.memory.size
  exceptions : vm'.exceptions = vm.exceptions
  procedures : vm'.procedures = vm.procedures
  timers : vm'.host.timers = vm.host.timers
  io : vm'.host.io = vm.host.io
  proc : vm'.host.proc = vm.host.proc

@[grind .] theorem Moved.refl (os : Os ω) (vm : Vm (Sys ω)) : Moved os vm vm :=
  ⟨rfl, IoMoves.refl _ _ _, ProcMoves.refl _ _⟩

@[grind →] theorem Moved.trans {os : Os ω} {vm vm' vm'' : Vm (Sys ω)} (h : Moved os vm vm')
    (h' : Moved os vm' vm'') : Moved os vm vm'' := by
  have hio := h'.io
  have hproc := h'.proc
  rw [h.code] at hio hproc
  exact ⟨h'.code.trans h.code, h.io.trans hio, h.proc.trans hproc⟩

@[grind .] theorem SameTables.refl (vm : Vm (Sys ω)) : SameTables vm vm := ⟨rfl, rfl, rfl⟩

@[grind →] theorem SameTables.trans {vm vm' vm'' : Vm (Sys ω)} (h : SameTables vm vm')
    (h' : SameTables vm' vm'') : SameTables vm vm'' :=
  ⟨h'.code.trans h.code, h'.io.trans h.io, h'.proc.trans h.proc⟩

theorem SameTables.moved {vm vm' : Vm (Sys ω)} (os : Os ω) (h : SameTables vm vm') :
    Moved os vm vm' := by
  refine ⟨h.code, ?_, ?_⟩
  · rw [h.io]
    exact IoMoves.refl _ _ _
  · rw [h.proc]
    exact ProcMoves.refl _ _

@[grind →] theorem Moved.trans_tables {os : Os ω} {vm vm' vm'' : Vm (Sys ω)} (h : Moved os vm vm')
    (h' : SameTables vm' vm'') : Moved os vm vm'' :=
  h.trans (h'.moved os)

/-- Actions on the tables. -/
@[grind →] theorem Moved.trans_only {os : Os ω} {vm vm' vm'' : Vm (Sys ω)} (h : Moved os vm vm')
    (h' : TablesOnly vm' vm'') (hio : IoMoves os.evtSize vm'.code.size vm'.host.io vm''.host.io)
    (hproc : ProcMoves vm'.code.size vm'.host.proc vm''.host.proc) : Moved os vm vm'' :=
  h.trans ⟨h'.code, hio, hproc⟩

@[grind .] theorem Same.refl (vm : Vm (Sys ω)) : Same vm vm :=
  ⟨rfl, rfl, rfl, rfl, rfl, rfl, rfl⟩

@[grind →] theorem Same.trans {vm vm' vm'' : Vm (Sys ω)} (h : Same vm vm') (h' : Same vm' vm'') :
    Same vm vm'' :=
  ⟨h'.code.trans h.code, h'.memsz.trans h.memsz, h'.exceptions.trans h.exceptions,
    h'.procedures.trans h.procedures, h'.timers.trans h.timers, h'.io.trans h.io,
    h'.proc.trans h.proc⟩

@[grind →] theorem Same.tables {vm vm' : Vm (Sys ω)} (h : Same vm vm') : SameTables vm vm' :=
  ⟨h.code, h.io, h.proc⟩

@[grind .] theorem SameProcs.refl (vm : Vm (Sys ω)) : SameProcs vm vm := ⟨SameTables.refl vm, rfl⟩

@[grind →] theorem SameProcs.trans {vm vm' vm'' : Vm (Sys ω)} (h : SameProcs vm vm')
    (h' : SameProcs vm' vm'') : SameProcs vm vm'' :=
  ⟨h.tables.trans h'.tables, h'.procedures.trans h.procedures⟩

@[grind →] theorem Same.sameProcs {vm vm' : Vm (Sys ω)} (h : Same vm vm') : SameProcs vm vm' :=
  ⟨h.tables, h.procedures⟩

theorem sameProcs_raise (vm : Vm (Sys ω)) (e : UInt32) : SameProcs vm (vm.raise e) :=
  ⟨⟨rfl, rfl, rfl⟩, rfl⟩

grind_pattern sameProcs_raise => vm.raise e

@[grind .] theorem Acts.refl (os : Os ω) (vm : Vm (Sys ω)) : Acts os vm vm :=
  ⟨Moved.refl os vm, List.prefix_refl _⟩

@[grind →] theorem Acts.trans {os : Os ω} {vm vm' vm'' : Vm (Sys ω)} (h : Acts os vm vm')
    (h' : Acts os vm' vm'') : Acts os vm vm'' :=
  ⟨h.moved.trans h'.moved, h.grows.trans h'.grows⟩

@[grind →] theorem Acts.trans_same {os : Os ω} {vm vm' vm'' : Vm (Sys ω)} (h : Acts os vm vm')
    (h' : SameProcs vm' vm'') : Acts os vm vm'' := by
  refine h.trans ⟨h'.tables.moved os, ?_⟩
  rw [h'.procedures]

/-- New procedures. -/
@[grind →] theorem Acts.trans_grows {os : Os ω} {vm vm' vm'' : Vm (Sys ω)} (h : Acts os vm vm')
    (h' : SameTables vm' vm'') (hgrows : vm'.procedures <+: vm''.procedures) : Acts os vm vm'' :=
  h.trans ⟨h'.moved os, hgrows⟩

theorem sameTables_raise (vm : Vm (Sys ω)) (e : UInt32) : SameTables vm (vm.raise e) :=
  ⟨rfl, rfl, rfl⟩

grind_pattern sameTables_raise => vm.raise e

/-! ## Addresses -/

/-- `deref_mem_ptr` accepts the range; the bound is computed in 32 bits. -/
def Reaches (vm : Vm (Sys ω)) (ref size : UInt32) : Prop :=
  derefMemPtr ref size vm.memory.size = some ref

instance (vm : Vm (Sys ω)) (ref size : UInt32) : Decidable (Reaches vm ref size) :=
  inferInstanceAs (Decidable (_ = _))

/-- The bytes are inside the memory. -/
def InMemory (vm : Vm (Sys ω)) (ref : UInt32) (size : Nat) : Prop :=
  ref.toNat + size ≤ vm.memory.size

/-- There is a string at the address. -/
def NulTerm (vm : Vm (Sys ω)) (p : Nat) : Prop := 0 ∈ vm.memory.bytes.drop p

theorem reaches_iff {vm : Vm (Sys ω)} {ref size : UInt32} :
    Reaches vm ref size ↔ (ref + size).toNat ≤ vm.memory.size := by
  unfold Reaches derefMemPtr
  split
  · next h => exact iff_of_false (by simp) (Nat.not_le_of_gt h)
  · next h => exact iff_of_true rfl (Nat.le_of_not_lt h)

/-- The range that is accepted depends on the size of the memory only. -/
theorem reaches_congr {vm vm' : Vm (Sys ω)} (h : vm'.memory.size = vm.memory.size)
    (ref size : UInt32) : Reaches vm' ref size ↔ Reaches vm ref size := by
  unfold Reaches
  rw [h]

end BvgzVm
