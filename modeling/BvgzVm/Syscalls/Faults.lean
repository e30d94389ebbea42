import BvgzVm.Lib.Triples
import BvgzVm.Syscalls.Io
import BvgzVm.Syscalls.Moved

set_option autoImplicit false

/-! # What the parts of a system call do, and when they fault

One triple for each of the functions of `Syscalls/Sys.lean`, with what a call that succeeds leaves
behind and with the faults there may be: an access through a pointer faults with `Ub.deref` exactly
where it leaves the memory.
-/

namespace BvgzVm

open Stateful Std.Do

set_option mvcgen.warning false

variable {ω α : Type}

attribute [local grind →] Same.code Same.memsz Same.exceptions Same.procedures Same.timers Same.io
  Same.proc

@[local grind =] theorem raise_memory (vm : Vm (Sys ω)) (e : UInt32) :
    (vm.raise e).memory = vm.memory := rfl

@[local grind =] theorem raise_host (vm : Vm (Sys ω)) (e : UInt32) :
    (vm.raise e).host = vm.host := rfl

@[local grind =] theorem reaches_raise (vm : Vm (Sys ω)) (e ref size : UInt32) :
    Reaches (vm.raise e) ref size ↔ Reaches vm ref size := Iff.rfl

/-! ## Errors and the world -/

@[local spec high] theorem ub_exact (s0 : Vm (Sys ω)) (e : Ub) :
    ⦃fun vm => ⌜vm = s0⌝⦄ (ub e : SysM ω α)
    ⦃post⟨fun _ _ => ⌜False⌝, fun e' => ⌜e' = e⌝⟩⦄ :=
  exact_of (fun _ _ h => by cases h) (fun e' h => (Except.error.inj h).symm)

@[local spec high] theorem setErrorNo_exact (s0 : Vm (Sys ω)) (e : Int32) :
    ⦃fun vm => ⌜vm = s0⌝⦄ (setErrorNo e : SysM ω Unit)
    ⦃post⟨fun _ vm => ⌜Same s0 vm ∧ vm.memory = s0.memory ∧ vm.host.errorNo = e ∧
      vm.host.errno = s0.host.errno ∧ vm.host.world = s0.host.world⌝, fun _ => ⌜False⌝⟩⦄ := by
  refine exact_of ?_ (fun e h => by cases h)
  intro a s' h
  cases h
  exact ⟨⟨rfl, rfl, rfl, rfl, rfl, rfl, rfl⟩, rfl, rfl, rfl, rfl⟩

@[local spec high] theorem setErrno_exact (s0 : Vm (Sys ω)) (e : Int32) :
    ⦃fun vm => ⌜vm = s0⌝⦄ (setErrno e : SysM ω Unit)
    ⦃post⟨fun _ vm => ⌜Same s0 vm ∧ vm.memory = s0.memory ∧ vm.host.errorNo = s0.host.errorNo ∧
      vm.host.errno = e ∧ vm.host.world = s0.host.world⌝, fun _ => ⌜False⌝⟩⦄ := by
  refine exact_of ?_ (fun e h => by cases h)
  intro a s' h
  cases h
  exact ⟨⟨rfl, rfl, rfl, rfl, rfl, rfl, rfl⟩, rfl, rfl, rfl, rfl⟩

@[local spec high] theorem getErrno_exact (s0 : Vm (Sys ω)) :
    ⦃fun vm => ⌜vm = s0⌝⦄ (getErrno : SysM ω Int32)
    ⦃post⟨fun r vm => ⌜vm = s0 ∧ r = s0.host.errno⌝, fun _ => ⌜False⌝⟩⦄ := by
  refine exact_of ?_ (fun e h => by cases h)
  intro a s' h
  cases h
  exact ⟨rfl, rfl⟩

@[local spec high] theorem ask_exact (s0 : Vm (Sys ω)) (f : ω → α × ω) :
    ⦃fun vm => ⌜vm = s0⌝⦄ (ask f : SysM ω α)
    ⦃post⟨fun r vm => ⌜Same s0 vm ∧ vm.memory = s0.memory ∧ r = (f s0.host.world).1 ∧
      vm.host.errorNo = s0.host.errorNo ∧ vm.host.errno = s0.host.errno ∧
      vm.host.world = (f s0.host.world).2⌝, fun _ => ⌜False⌝⟩⦄ := by
  refine exact_of ?_ (fun e h => by cases h)
  intro a s' h
  cases h
  exact ⟨⟨rfl, rfl, rfl, rfl, rfl, rfl, rfl⟩, rfl, rfl, rfl, rfl, rfl⟩

/-- A call that fails sets `errno`, and one that succeeds leaves it alone. -/
@[local spec high] theorem call_exact (s0 : Vm (Sys ω)) (f : ω → Except Int32 α × ω) :
    ⦃fun vm => ⌜vm = s0⌝⦄ (call f : SysM ω (Option α))
    ⦃post⟨fun r vm => ⌜Same s0 vm ∧ vm.memory = s0.memory ∧ vm.host.errorNo = s0.host.errorNo ∧
      vm.host.world = (f s0.host.world).2 ∧
      (r = none ∧ (f s0.host.world).1 = .error vm.host.errno ∨
        ∃ a, r = some a ∧ (f s0.host.world).1 = .ok a ∧ vm.host.errno = s0.host.errno)⌝,
      fun _ => ⌜False⌝⟩⦄ := by
  unfold call
  mvcgen
  all_goals grind

/-! ## Memory -/

/-- `deref` never faults: it is where the pointer is used that a fault may be. -/
@[local spec high] theorem deref_exact (s0 : Vm (Sys ω)) (ref size : UInt32) :
    ⦃fun vm => ⌜vm = s0⌝⦄ (deref ref size : SysM ω (Option Nat))
    ⦃post⟨fun r vm => ⌜vm = s0 ∧ (r = none ∧ ¬ Reaches s0 ref size ∨
      r = some ref.toNat ∧ Reaches s0 ref size)⌝, fun _ => ⌜False⌝⟩⦄ := by
  refine exact_of ?_ (fun e h => by cases h)
  intro a s' h
  cases h
  refine ⟨rfl, ?_⟩
  unfold Reaches derefMemPtr
  split
  · next hlt => exact Or.inl ⟨rfl, by simp⟩
  · next hle => exact Or.inr ⟨rfl, rfl⟩

@[local spec high] theorem derefMem_exact (s0 : Vm (Sys ω)) (ref size : UInt32) :
    ⦃fun vm => ⌜vm = s0⌝⦄ (derefMem ref size : SysM ω (Option Nat))
    ⦃post⟨fun r vm => ⌜r = none ∧ vm = s0.raise vmEMemFault ∧ ¬ Reaches s0 ref size ∨
      vm = s0 ∧ r = some ref.toNat ∧ Reaches s0 ref size⌝, fun _ => ⌜False⌝⟩⦄ := by
  unfold derefMem
  mvcgen
  all_goals grind

@[local spec high] theorem loadMem_exact (s0 : Vm (Sys ω)) (p w : Nat) :
    ⦃fun vm => ⌜vm = s0⌝⦄ (loadMem p w : SysM ω Nat)
    ⦃post⟨fun r vm => ⌜vm = s0 ∧ s0.memory.load p w = some r⌝,
      fun e => ⌜e = .deref ∧ s0.memory.size < p + w⌝⟩⦄ := by
  unfold loadMem
  mvcgen
  all_goals grind [Segment.load_eq_none]

@[local spec high] theorem loadU16_exact (s0 : Vm (Sys ω)) (p : Nat) :
    ⦃fun vm => ⌜vm = s0⌝⦄ (loadU16 p : SysM ω UInt16)
    ⦃post⟨fun r vm => ⌜vm = s0 ∧ s0.memory.load p 2 = some r.toNat⌝,
      fun e => ⌜e = .deref ∧ s0.memory.size < p + 2⌝⟩⦄ := by
  unfold loadU16
  mvcgen
  · next v _ hload =>
      have hlt : v < 256 ^ 2 := Segment.load_lt hload.2
      grind [UInt16.toNat_ofNat_of_lt']
  · grind

@[local spec high] theorem loadU32_exact (s0 : Vm (Sys ω)) (p : Nat) :
    ⦃fun vm => ⌜vm = s0⌝⦄ (loadU32 p : SysM ω UInt32)
    ⦃post⟨fun r vm => ⌜vm = s0 ∧ s0.memory.load p 4 = some r.toNat⌝,
      fun e => ⌜e = .deref ∧ s0.memory.size < p + 4⌝⟩⦄ := by
  unfold loadU32
  mvcgen
  · next v _ hload =>
      have hlt : v < 256 ^ 4 := Segment.load_lt hload.2
      grind [UInt32.toNat_ofNat_of_lt']
  · grind

@[local spec high] theorem loadU64_exact (s0 : Vm (Sys ω)) (p : Nat) :
    ⦃fun vm => ⌜vm = s0⌝⦄ (loadU64 p : SysM ω UInt64)
    ⦃post⟨fun r vm => ⌜vm = s0 ∧ s0.memory.load p 8 = some r.toNat⌝,
      fun e => ⌜e = .deref ∧ s0.memory.size < p + 8⌝⟩⦄ := by
  unfold loadU64
  mvcgen
  · next v _ hload =>
      have hlt : v < 256 ^ 8 := Segment.load_lt hload.2
      grind [UInt64.toNat_ofNat_of_lt']
  · grind

/-- What a store leaves behind. -/
structure Stored (p : Nat) (bs : List UInt8) (vm vm' : Vm (Sys ω)) : Prop where
  same : Same vm vm'
  host : vm'.host = vm.host
  bytes : vm.memory.write p bs = some vm'.memory

attribute [local grind →] Stored.same Stored.host

@[local spec high] theorem writeMemBytes_exact (s0 : Vm (Sys ω)) (p : Nat) (bs : List UInt8) :
    ⦃fun vm => ⌜vm = s0⌝⦄ (writeMemBytes p bs : SysM ω Unit)
    ⦃post⟨fun _ vm => ⌜Stored p bs s0 vm⌝,
      fun e => ⌜e = .deref ∧ s0.memory.size < p + bs.length⌝⟩⦄ := by
  refine exact_of ?_ ?_
  · intro a s' h
    unfold writeMemBytes at h
    split at h
    · cases h
    · next memory hwrite =>
        cases h
        exact ⟨⟨rfl, Segment.write_size hwrite, rfl, rfl, rfl, rfl, rfl⟩, rfl, hwrite⟩
  · intro e h
    unfold writeMemBytes at h
    split at h
    · next hwrite =>
        cases h
        exact ⟨rfl, Segment.write_eq_none.1 hwrite⟩
    · cases h

@[local spec high] theorem storeMem_exact (s0 : Vm (Sys ω)) (p w v : Nat) :
    ⦃fun vm => ⌜vm = s0⌝⦄ (storeMem p w v : SysM ω Unit)
    ⦃post⟨fun _ vm => ⌜Stored p (Bytes.toLE w v) s0 vm⌝,
      fun e => ⌜e = .deref ∧ s0.memory.size < p + w⌝⟩⦄ := by
  unfold storeMem
  mvcgen
  all_goals grind [Bytes.length_toLE]

/-- A number that was stored can be loaded. -/
theorem load_stored {p w v : Nat} {vm vm' : Vm (Sys ω)} (h : Stored p (Bytes.toLE w v) vm vm')
    (hv : v < 256 ^ w) : vm'.memory.load p w = some v := by
  have hstore : Bytes.store vm.memory.bytes p w v = some vm'.memory.bytes :=
    Segment.write_bytes h.bytes
  have hload := Bytes.load_store_same hstore
  rw [Nat.mod_eq_of_lt hv] at hload
  exact hload

@[local spec high] theorem storeU64_exact (s0 : Vm (Sys ω)) (p : Nat) (v : UInt64) :
    ⦃fun vm => ⌜vm = s0⌝⦄ (storeU64 p v : SysM ω Unit)
    ⦃post⟨fun _ vm => ⌜Same s0 vm ∧ vm.host = s0.host ∧ vm.memory.load p 8 = some v.toNat ∧
        s0.memory.write p (Bytes.toLE 8 v.toNat) = some vm.memory⌝,
      fun e => ⌜e = .deref ∧ s0.memory.size < p + 8⌝⟩⦄ := by
  unfold storeU64
  mvcgen
  · next vm =>
      rintro hstored
      exact ⟨by grind, by grind, load_stored hstored v.toNat_lt, by grind [Stored]⟩
  · grind

@[local spec high] theorem readMemBytes_exact (s0 : Vm (Sys ω)) (p n : Nat) :
    ⦃fun vm => ⌜vm = s0⌝⦄ (readMemBytes p n : SysM ω (List UInt8))
    ⦃post⟨fun r vm => ⌜vm = s0 ∧ Bytes.read s0.memory.bytes p n = some r⌝,
      fun e => ⌜e = .deref ∧ s0.memory.size < p + n⌝⟩⦄ := by
  unfold readMemBytes
  mvcgen
  all_goals grind [Bytes.read, Segment.size]

@[local spec high] theorem readStr_exact (s0 : Vm (Sys ω)) (p : Nat) :
    ⦃fun vm => ⌜vm = s0⌝⦄ (readStr p : SysM ω (List UInt8))
    ⦃post⟨fun r vm => ⌜vm = s0 ∧ r = (s0.memory.bytes.drop p).takeWhile (· ≠ 0)⌝,
      fun e => ⌜e = .deref ∧ ¬ NulTerm s0 p⌝⟩⦄ := by
  unfold readStr
  mvcgen
  all_goals grind [NulTerm]

@[local spec high] theorem ensureNulTermStr_exact (s0 : Vm (Sys ω)) (p : Nat) :
    ⦃fun vm => ⌜vm = s0⌝⦄ (ensureNulTermStr p : SysM ω Bool)
    ⦃post⟨fun r vm => ⌜r = true ∧ vm = s0 ∧ NulTerm s0 p ∨
      r = false ∧ vm = s0.raise vmEMemFault ∧ ¬ NulTerm s0 p⌝, fun _ => ⌜False⌝⟩⦄ := by
  unfold ensureNulTermStr
  mvcgen
  all_goals grind [NulTerm]

@[local spec high] theorem fail_exact (s0 : Vm (Sys ω)) (e : Int32) (ret : Nat) (bad : UInt64) :
    ⦃fun vm => ⌜vm = s0⌝⦄ (fail e ret bad : SysM ω Unit)
    ⦃post⟨fun _ vm => ⌜Same s0 vm ∧ vm.host.errorNo = e ∧
      vm.memory.load ret 8 = some bad.toNat⌝,
      fun e => ⌜e = .deref ∧ s0.memory.size < ret + 8⌝⟩⦄ := by
  unfold fail
  mvcgen
  all_goals grind

@[local spec high] theorem failErrno_exact (s0 : Vm (Sys ω)) (ret : Nat) (bad : UInt64) :
    ⦃fun vm => ⌜vm = s0⌝⦄ (failErrno ret bad : SysM ω Unit)
    ⦃post⟨fun _ vm => ⌜Same s0 vm ∧ vm.host.errorNo = s0.host.errno ∧
      vm.memory.load ret 8 = some bad.toNat⌝,
      fun e => ⌜e = .deref ∧ s0.memory.size < ret + 8⌝⟩⦄ := by
  unfold failErrno
  mvcgen
  all_goals grind

/-! ## The arguments of a system call -/

/-- What is left behind where the arguments or the result are not accepted. -/
structure NoArgs (bad : UInt64) (argv size retv : UInt32) (vm vm' : Vm (Sys ω)) : Prop where
  tables : SameProcs vm vm'
  memsz : vm'.memory.size = vm.memory.size
  rejected : ¬ (Reaches vm argv size ∧ Reaches vm retv 8)
  errorNo : vm'.host.errorNo = eFAULT
  result : Reaches vm retv 8 → vm'.memory.load retv.toNat 8 = some bad.toNat

@[local spec high] theorem argsRet_derefMem_exact (s0 : Vm (Sys ω)) (argv size retv : UInt32)
    (bad : UInt64) :
    ⦃fun vm => ⌜vm = s0⌝⦄ (argsRet derefMem argv size retv bad : SysM ω _)
    ⦃post⟨fun r vm => ⌜r = none ∧ NoArgs bad argv size retv s0 vm ∨
      r = some (argv.toNat, retv.toNat) ∧ vm = s0 ∧ Reaches s0 argv size ∧ Reaches s0 retv 8⌝,
      fun e => ⌜e = .deref ∧ ¬ Reaches s0 argv size ∧ Reaches s0 retv 8 ∧
        s0.memory.size < retv.toNat + 8⌝⟩⦄ := by
  unfold argsRet
  mvcgen
  all_goals grind [NoArgs]

@[local spec high] theorem argsRet_deref_exact (s0 : Vm (Sys ω)) (argv size retv : UInt32)
    (bad : UInt64) :
    ⦃fun vm => ⌜vm = s0⌝⦄ (argsRet deref argv size retv bad : SysM ω _)
    ⦃post⟨fun r vm => ⌜r = none ∧ NoArgs bad argv size retv s0 vm ∧
        vm.exceptions = s0.exceptions ∨
      r = some (argv.toNat, retv.toNat) ∧ vm = s0 ∧ Reaches s0 argv size ∧ Reaches s0 retv 8⌝,
      fun e => ⌜e = .deref ∧ ¬ Reaches s0 argv size ∧ Reaches s0 retv 8 ∧
        s0.memory.size < retv.toNat + 8⌝⟩⦄ := by
  unfold argsRet
  mvcgen
  all_goals grind [NoArgs]

/-! ## Tables -/

@[local spec high] theorem getFd_exact (s0 : Vm (Sys ω)) (i : Nat) :
    ⦃fun vm => ⌜vm = s0⌝⦄ (getFd i : SysM ω VmFd)
    ⦃post⟨fun r vm => ⌜vm = s0 ∧ s0.host.io.fds[i]? = some r⌝,
      fun e => ⌜e = .host ∧ s0.host.io.fds[i]? = none⌝⟩⦄ := by
  unfold getFd
  mvcgen
  all_goals grind

@[local spec high] theorem usedFd_exact (s0 : Vm (Sys ω)) (i : Nat) :
    ⦃fun vm => ⌜vm = s0⌝⦄ (usedFd i : SysM ω (Option VmFd))
    ⦃post⟨fun r vm => ⌜vm = s0 ∧ r = usedSlot i s0.host.io⌝, fun _ => ⌜False⌝⟩⦄ := by
  unfold usedFd usedSlot
  mvcgen
  all_goals grind

/-- Only the tables may differ, and the errors and the world are the same. -/
structure SameButTables (vm vm' : Vm (Sys ω)) : Prop where
  only : TablesOnly vm vm'
  errorNo : vm'.host.errorNo = vm.host.errorNo
  errno : vm'.host.errno = vm.host.errno

/-- A function on the descriptors, whatever it is. -/
@[local spec high] theorem onIo_exact (s0 : Vm (Sys ω))
    (f : VmIo → Except TableFault (α × VmIo)) :
    ⦃fun vm => ⌜vm = s0⌝⦄ (onIo f : SysM ω α)
    ⦃post⟨fun r vm => ⌜SameButTables s0 vm ∧ vm.host.proc = s0.host.proc ∧
      f s0.host.io = .ok (r, vm.host.io)⌝, fun e => ⌜e = .host⌝⟩⦄ := by
  refine exact_of ?_ ?_
  · intro a vm h
    unfold onIo at h
    split at h
    · cases h
    · next a' io hf =>
        cases h
        exact ⟨⟨⟨rfl, rfl, rfl, rfl, rfl, rfl⟩, rfl, rfl⟩, rfl, hf⟩
  · intro e h
    unfold onIo at h
    split at h
    · cases h
      rfl
    · cases h

@[local spec high] theorem onIo'_exact (s0 : Vm (Sys ω)) (f : VmIo → Except TableFault VmIo) :
    ⦃fun vm => ⌜vm = s0⌝⦄ (onIo' f : SysM ω Unit)
    ⦃post⟨fun _ vm => ⌜SameButTables s0 vm ∧ vm.host.proc = s0.host.proc ∧
      f s0.host.io = .ok vm.host.io⌝, fun e => ⌜e = .host⌝⟩⦄ := by
  have hexact := of_exact (onIo_exact s0 (fun io => (f io).map (fun io => ((), io))))
  refine exact_of ?_ hexact.2
  intro a vm h
  rcases hexact.1 a vm h with ⟨hsame, hproc, hf⟩
  refine ⟨hsame, hproc, ?_⟩
  cases hio : f s0.host.io with
  | error e =>
      rw [hio] at hf
      cases hf
  | ok io =>
      rw [hio] at hf
      cases hf
      rfl

/-- A function on the child processes, whatever it is. -/
@[local spec high] theorem onProc_exact (s0 : Vm (Sys ω)) (f : VmProc → Except TableFault VmProc) :
    ⦃fun vm => ⌜vm = s0⌝⦄ (onProc f : SysM ω Unit)
    ⦃post⟨fun _ vm => ⌜SameButTables s0 vm ∧ vm.host.io = s0.host.io ∧
      f s0.host.proc = .ok vm.host.proc⌝, fun e => ⌜e = .host⌝⟩⦄ := by
  refine exact_of ?_ ?_
  · intro a vm h
    unfold onProc at h
    split at h
    · cases h
    · next proc hf =>
        cases h
        exact ⟨⟨⟨rfl, rfl, rfl, rfl, rfl, rfl⟩, rfl, rfl⟩, rfl, hf⟩
  · intro e h
    unfold onProc at h
    split at h
    · cases h
      rfl
    · cases h

/-! ## Procedures -/

/-- Only the exceptions and the procedures may differ. -/
structure SameButProcs (vm vm' : Vm (Sys ω)) : Prop where
  code : vm'.code = vm.code
  memory : vm'.memory = vm.memory
  host : vm'.host = vm.host

theorem newFuncProc_fault {os : Os ω} {iptr argv retv : UInt32} {e : Ub}
    (h : newFuncProc os iptr argv retv = .error e) : e = .callStack := by
  unfold newFuncProc pushCallStack at h
  dsimp only at h
  split at h
  · cases h
    rfl
  · cases h

@[local spec high] theorem makeFuncProcedure_exact (os : Os ω) (s0 : Vm (Sys ω))
    (iptr argv retv : UInt32) :
    ⦃fun vm => ⌜vm = s0⌝⦄ (makeFuncProcedure os iptr argv retv : SysM ω Unit)
    ⦃post⟨fun _ vm => ⌜SameButProcs s0 vm⌝, fun e => ⌜e = .callStack⌝⟩⦄ := by
  refine exact_of ?_ ?_
  · intro a vm h
    unfold makeFuncProcedure at h
    split at h
    · cases h
      exact ⟨rfl, rfl, rfl⟩
    · split at h
      · cases h
      · cases h
        exact ⟨rfl, rfl, rfl⟩
  · intro e h
    unfold makeFuncProcedure at h
    split at h
    · cases h
    · split at h
      · next e' hfault =>
          cases h
          exact newFuncProc_fault hfault
      · cases h

end BvgzVm
