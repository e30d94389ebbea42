import BvgzVm.Lib.Triples
import BvgzVm.Syscalls.Io
import BvgzVm.Syscalls.Moved

set_option autoImplicit false

/-! # What the parts of a system call do

One triple for each of the functions of `Syscalls/Sys.lean` and for the functions on tables, each
in terms of the machine before it. A system call is put together from these, part by part or by
`mvcgen`.
-/

namespace BvgzVm

open Stateful Std.Do

set_option mvcgen.warning false

variable {ω α : Type}

attribute [grind →] Same.code Same.memsz Same.exceptions Same.procedures Same.timers Same.io
  Same.proc Moved.code

/-! ## Errors and the world -/

@[spec] theorem ub_spec (s0 : Vm (Sys ω)) (e : Ub) :
    ⦃fun vm => ⌜vm = s0⌝⦄ (ub e : SysM ω α) ⦃⇓? _ => fun _ => ⌜False⌝⦄ :=
  triple_of (by
    intro a s' h
    cases h)

@[spec] theorem setErrorNo_spec (s0 : Vm (Sys ω)) (e : Int32) :
    ⦃fun vm => ⌜vm = s0⌝⦄ (setErrorNo e : SysM ω Unit)
    ⦃⇓? _ => fun vm => ⌜Same s0 vm ∧ vm.memory = s0.memory ∧ vm.host.errorNo = e⌝⦄ :=
  triple_of (by
    intro a s' h
    cases h
    exact ⟨⟨rfl, rfl, rfl, rfl, rfl, rfl, rfl⟩, rfl, rfl⟩)

@[spec] theorem setErrno_spec (s0 : Vm (Sys ω)) (e : Int32) :
    ⦃fun vm => ⌜vm = s0⌝⦄ (setErrno e : SysM ω Unit)
    ⦃⇓? _ => fun vm => ⌜Same s0 vm ∧ vm.memory = s0.memory⌝⦄ :=
  triple_of (by
    intro a s' h
    cases h
    exact ⟨⟨rfl, rfl, rfl, rfl, rfl, rfl, rfl⟩, rfl⟩)

@[spec] theorem getErrno_spec (s0 : Vm (Sys ω)) :
    ⦃fun vm => ⌜vm = s0⌝⦄ (getErrno : SysM ω Int32)
    ⦃⇓? r => fun vm => ⌜vm = s0 ∧ r = s0.host.errno⌝⦄ :=
  triple_of (by
    intro a s' h
    cases h
    exact ⟨rfl, rfl⟩)

@[spec] theorem ask_spec (s0 : Vm (Sys ω)) (f : ω → α × ω) :
    ⦃fun vm => ⌜vm = s0⌝⦄ (ask f : SysM ω α)
    ⦃⇓? r => fun vm => ⌜Same s0 vm ∧ vm.memory = s0.memory ∧ r = (f s0.host.world).1⌝⦄ :=
  triple_of (by
    intro a s' h
    cases h
    exact ⟨⟨rfl, rfl, rfl, rfl, rfl, rfl, rfl⟩, rfl, rfl⟩)

@[spec] theorem call_spec (s0 : Vm (Sys ω)) (f : ω → Except Int32 α × ω) :
    ⦃fun vm => ⌜vm = s0⌝⦄ (call f : SysM ω (Option α))
    ⦃⇓? r => fun vm => ⌜Same s0 vm ∧ vm.memory = s0.memory ∧
      r = (f s0.host.world).1.toOption⌝⦄ := by
  unfold call
  mvcgen
  all_goals grind [Except.toOption]

/-! ## Memory -/

@[spec] theorem deref_spec (s0 : Vm (Sys ω)) (ref size : UInt32) :
    ⦃fun vm => ⌜vm = s0⌝⦄ (deref ref size : SysM ω (Option Nat))
    ⦃⇓? r => fun vm => ⌜vm = s0 ∧
      (r = none ∧ ¬ Reaches s0 ref size ∨ r = some ref.toNat ∧ Reaches s0 ref size)⌝⦄ :=
  triple_of (by
    intro a s' h
    cases h
    refine ⟨rfl, ?_⟩
    unfold Reaches derefMemPtr
    split
    · next hlt => exact Or.inl ⟨rfl, by simp⟩
    · next hle => exact Or.inr ⟨rfl, rfl⟩)

/-- `deref_mem_ptr` sets the exception where it fails. -/
@[spec] theorem derefMem_spec (s0 : Vm (Sys ω)) (ref size : UInt32) :
    ⦃fun vm => ⌜vm = s0⌝⦄ (derefMem ref size : SysM ω (Option Nat))
    ⦃⇓? r => fun vm => ⌜r = none ∧ vm = s0.raise vmEMemFault ∧ ¬ Reaches s0 ref size ∨
      vm = s0 ∧ r = some ref.toNat ∧ Reaches s0 ref size⌝⦄ := by
  unfold derefMem
  mvcgen
  all_goals grind

@[spec] theorem loadMem_spec (s0 : Vm (Sys ω)) (p w : Nat) :
    ⦃fun vm => ⌜vm = s0⌝⦄ (loadMem p w : SysM ω Nat)
    ⦃⇓? r => fun vm => ⌜vm = s0 ∧ s0.memory.load p w = some r⌝⦄ := by
  unfold loadMem
  mvcgen
  all_goals grind

@[spec] theorem loadU16_spec (s0 : Vm (Sys ω)) (p : Nat) :
    ⦃fun vm => ⌜vm = s0⌝⦄ (loadU16 p : SysM ω UInt16)
    ⦃⇓? r => fun vm => ⌜vm = s0 ∧ s0.memory.load p 2 = some r.toNat⌝⦄ := by
  unfold loadU16
  mvcgen
  next v _ hload =>
    have hlt : v < 256 ^ 2 := Segment.load_lt hload.2
    grind [UInt16.toNat_ofNat_of_lt']

@[spec] theorem loadU32_spec (s0 : Vm (Sys ω)) (p : Nat) :
    ⦃fun vm => ⌜vm = s0⌝⦄ (loadU32 p : SysM ω UInt32)
    ⦃⇓? r => fun vm => ⌜vm = s0 ∧ s0.memory.load p 4 = some r.toNat⌝⦄ := by
  unfold loadU32
  mvcgen
  next v _ hload =>
    have hlt : v < 256 ^ 4 := Segment.load_lt hload.2
    grind [UInt32.toNat_ofNat_of_lt']

@[spec] theorem loadU64_spec (s0 : Vm (Sys ω)) (p : Nat) :
    ⦃fun vm => ⌜vm = s0⌝⦄ (loadU64 p : SysM ω UInt64)
    ⦃⇓? r => fun vm => ⌜vm = s0 ∧ s0.memory.load p 8 = some r.toNat⌝⦄ := by
  unfold loadU64
  mvcgen
  next v _ hload =>
    have hlt : v < 256 ^ 8 := Segment.load_lt hload.2
    grind [UInt64.toNat_ofNat_of_lt']

@[spec] theorem writeMemBytes_spec (s0 : Vm (Sys ω)) (p : Nat) (bs : List UInt8) :
    ⦃fun vm => ⌜vm = s0⌝⦄ (writeMemBytes p bs : SysM ω Unit)
    ⦃⇓? _ => fun vm => ⌜Same s0 vm ∧ vm.host = s0.host⌝⦄ :=
  triple_of (by
    intro a s' h
    unfold writeMemBytes at h
    split at h
    · cases h
    · next memory hwrite =>
        cases h
        exact ⟨⟨rfl, Segment.write_size hwrite, rfl, rfl, rfl, rfl, rfl⟩, rfl⟩)

@[spec] theorem storeMem_spec (s0 : Vm (Sys ω)) (p w v : Nat) :
    ⦃fun vm => ⌜vm = s0⌝⦄ (storeMem p w v : SysM ω Unit)
    ⦃⇓? _ => fun vm => ⌜Same s0 vm ∧ vm.host = s0.host⌝⦄ :=
  writeMemBytes_spec s0 p _

@[spec] theorem storeU64_spec (s0 : Vm (Sys ω)) (p : Nat) (v : UInt64) :
    ⦃fun vm => ⌜vm = s0⌝⦄ (storeU64 p v : SysM ω Unit)
    ⦃⇓? _ => fun vm => ⌜Same s0 vm ∧ vm.host = s0.host⌝⦄ :=
  storeMem_spec s0 p 8 _

@[spec] theorem readMemBytes_spec (s0 : Vm (Sys ω)) (p n : Nat) :
    ⦃fun vm => ⌜vm = s0⌝⦄ (readMemBytes p n : SysM ω (List UInt8))
    ⦃⇓? _ => fun vm => ⌜vm = s0⌝⦄ := by
  unfold readMemBytes
  mvcgen
  all_goals grind

@[spec] theorem readStr_spec (s0 : Vm (Sys ω)) (p : Nat) :
    ⦃fun vm => ⌜vm = s0⌝⦄ (readStr p : SysM ω (List UInt8)) ⦃⇓? _ => fun vm => ⌜vm = s0⌝⦄ := by
  unfold readStr
  mvcgen
  all_goals grind

/-- `ensure_nul_term_str` sets the exception where it fails. -/
@[spec] theorem ensureNulTermStr_spec (s0 : Vm (Sys ω)) (p : Nat) :
    ⦃fun vm => ⌜vm = s0⌝⦄ (ensureNulTermStr p : SysM ω Bool)
    ⦃⇓? r => fun vm => ⌜r = true ∧ vm = s0 ∧ NulTerm s0 p ∨
      r = false ∧ vm = s0.raise vmEMemFault ∧ ¬ NulTerm s0 p⌝⦄ := by
  unfold ensureNulTermStr
  mvcgen
  all_goals grind [NulTerm]

@[spec] theorem fail_spec (s0 : Vm (Sys ω)) (e : Int32) (ret : Nat) (bad : UInt64) :
    ⦃fun vm => ⌜vm = s0⌝⦄ (fail e ret bad : SysM ω Unit)
    ⦃⇓? _ => fun vm => ⌜Same s0 vm ∧ vm.host.errorNo = e⌝⦄ := by
  unfold fail
  mvcgen
  all_goals grind

@[spec] theorem failErrno_spec (s0 : Vm (Sys ω)) (ret : Nat) (bad : UInt64) :
    ⦃fun vm => ⌜vm = s0⌝⦄ (failErrno ret bad : SysM ω Unit)
    ⦃⇓? _ => fun vm => ⌜Same s0 vm ∧ vm.host.errorNo = s0.host.errno⌝⦄ := by
  unfold failErrno
  mvcgen
  all_goals grind

/-! ## The arguments of a system call -/

/-- The beginning of the system calls that use `deref_mem_ptr`. -/
@[spec] theorem argsRet_derefMem_spec (s0 : Vm (Sys ω)) (argv size retv : UInt32) (bad : UInt64) :
    ⦃fun vm => ⌜vm = s0⌝⦄ (argsRet derefMem argv size retv bad : SysM ω _)
    ⦃⇓? r => fun vm => ⌜r = none ∧ SameProcs s0 vm ∧ ¬ (Reaches s0 argv size ∧ Reaches s0 retv 8) ∨
      r = some (argv.toNat, retv.toNat) ∧ vm = s0 ∧ Reaches s0 argv size ∧ Reaches s0 retv 8⌝⦄ := by
  unfold argsRet
  mvcgen
  all_goals grind

/-- The beginning of the system calls that use `deref`. -/
@[spec] theorem argsRet_deref_spec (s0 : Vm (Sys ω)) (argv size retv : UInt32) (bad : UInt64) :
    ⦃fun vm => ⌜vm = s0⌝⦄ (argsRet deref argv size retv bad : SysM ω _)
    ⦃⇓? r => fun vm => ⌜r = none ∧ Same s0 vm ∧ ¬ (Reaches s0 argv size ∧ Reaches s0 retv 8) ∨
      r = some (argv.toNat, retv.toNat) ∧ vm = s0 ∧ Reaches s0 argv size ∧ Reaches s0 retv 8⌝⦄ := by
  unfold argsRet
  mvcgen
  all_goals grind

/-! ## Tables -/

attribute [grind →] TablesOnly.code TablesOnly.memory TablesOnly.exceptions TablesOnly.procedures
  TablesOnly.timers TablesOnly.world

@[spec] theorem getFd_spec (s0 : Vm (Sys ω)) (i : Nat) :
    ⦃fun vm => ⌜vm = s0⌝⦄ (getFd i : SysM ω VmFd)
    ⦃⇓? r => fun vm => ⌜vm = s0 ∧ s0.host.io.fds[i]? = some r⌝⦄ := by
  unfold getFd
  mvcgen
  all_goals grind

@[spec] theorem usedFd_spec (s0 : Vm (Sys ω)) (i : Nat) :
    ⦃fun vm => ⌜vm = s0⌝⦄ (usedFd i : SysM ω (Option VmFd))
    ⦃⇓? r => fun vm => ⌜vm = s0 ∧ r = usedSlot i s0.host.io⌝⦄ := by
  unfold usedFd usedSlot
  mvcgen
  all_goals grind

/-- A function on the descriptors. -/
theorem onIo_ok {f : VmIo → Except TableFault (α × VmIo)} {s0 vm : Vm (Sys ω)} {a : α}
    (h : onIo f s0 = .ok (a, vm)) :
    f s0.host.io = .ok (a, vm.host.io) ∧ TablesOnly s0 vm ∧ vm.host.proc = s0.host.proc := by
  unfold onIo at h
  split at h
  · cases h
  · next a' io hf =>
      cases h
      exact ⟨hf, ⟨rfl, rfl, rfl, rfl, rfl, rfl⟩, rfl⟩

theorem onIo'_ok {f : VmIo → Except TableFault VmIo} {s0 vm : Vm (Sys ω)} {a : Unit}
    (h : onIo' f s0 = .ok (a, vm)) :
    f s0.host.io = .ok vm.host.io ∧ TablesOnly s0 vm ∧ vm.host.proc = s0.host.proc := by
  have hio := onIo_ok h
  refine ⟨?_, hio.2⟩
  cases hf : f s0.host.io with
  | error e =>
      rw [hf] at hio
      cases hio.1
  | ok io =>
      rw [hf] at hio
      cases hio.1
      rfl

/-- A function on the child processes. -/
theorem onProc_ok {f : VmProc → Except TableFault VmProc} {s0 vm : Vm (Sys ω)} {a : Unit}
    (h : onProc f s0 = .ok (a, vm)) :
    f s0.host.proc = .ok vm.host.proc ∧ TablesOnly s0 vm ∧ vm.host.io = s0.host.io := by
  unfold onProc at h
  split at h
  · cases h
  · next proc hf =>
      cases h
      exact ⟨hf, ⟨rfl, rfl, rfl, rfl, rfl, rfl⟩, rfl⟩

/-- What an action on the descriptors does to the machine. -/
structure IoActs (evtSize : Nat) (vm vm' : Vm (Sys ω)) : Prop where
  only : TablesOnly vm vm'
  io : IoMoves evtSize vm.code.size vm.host.io vm'.host.io
  proc : vm'.host.proc = vm.host.proc

/-- An action on the descriptors that does not depend on the size of an event, makes none and
gives no slot back. -/
structure SlotActs (vm vm' : Vm (Sys ω)) : Prop where
  only : TablesOnly vm vm'
  io : ∀ evtSize, IoMoves evtSize vm.code.size vm.host.io vm'.host.io
  events : NoNewEvents vm.host.io vm'.host.io
  used : KeepsUsed vm.host.io vm'.host.io
  proc : vm'.host.proc = vm.host.proc

/-- What an action on the child processes does to the machine. -/
structure ProcActs (vm vm' : Vm (Sys ω)) : Prop where
  only : TablesOnly vm vm'
  io : vm'.host.io = vm.host.io
  proc : ProcMoves vm.code.size vm.host.proc vm'.host.proc

attribute [grind →] IoActs.only IoActs.proc SlotActs.only SlotActs.events SlotActs.used
  SlotActs.proc
  ProcActs.only ProcActs.io

@[grind →] theorem Moved.trans_ioActs {os : Os ω} {vm vm' vm'' : Vm (Sys ω)} (h : Moved os vm vm')
    (h' : IoActs os.evtSize vm' vm'') : Moved os vm vm'' := by
  refine h.trans_only h'.only h'.io ?_
  rw [h'.proc]
  exact ProcMoves.refl _ _

@[grind →] theorem Moved.trans_slotActs {os : Os ω} {vm vm' vm'' : Vm (Sys ω)}
    (h : Moved os vm vm') (h' : SlotActs vm' vm'') : Moved os vm vm'' :=
  h.trans_ioActs ⟨h'.only, h'.io os.evtSize, h'.proc⟩

@[grind →] theorem Moved.trans_procActs {os : Os ω} {vm vm' vm'' : Vm (Sys ω)}
    (h : Moved os vm vm') (h' : ProcActs vm' vm'') : Moved os vm vm'' := by
  refine h.trans_only h'.only ?_ h'.proc
  rw [h'.io]
  exact IoMoves.refl _ _ _

@[grind →] theorem Acts.trans_ioActs {os : Os ω} {vm vm' vm'' : Vm (Sys ω)} (h : Acts os vm vm')
    (h' : IoActs os.evtSize vm' vm'') : Acts os vm vm'' := by
  refine h.trans ⟨(Moved.refl os vm').trans_ioActs h', ?_⟩
  rw [h'.only.procedures]

@[grind →] theorem Acts.trans_slotActs {os : Os ω} {vm vm' vm'' : Vm (Sys ω)}
    (h : Acts os vm vm') (h' : SlotActs vm' vm'') : Acts os vm vm'' :=
  h.trans_ioActs ⟨h'.only, h'.io os.evtSize, h'.proc⟩

@[grind →] theorem Acts.trans_procActs {os : Os ω} {vm vm' vm'' : Vm (Sys ω)}
    (h : Acts os vm vm') (h' : ProcActs vm' vm'') : Acts os vm vm'' := by
  refine h.trans ⟨(Moved.refl os vm').trans_procActs h', ?_⟩
  rw [h'.only.procedures]

@[spec] theorem allocFd_spec (s0 : Vm (Sys ω)) :
    ⦃fun vm => ⌜vm = s0⌝⦄ (onIo allocFd : SysM ω Nat)
    ⦃⇓? r => fun vm => ⌜SlotActs s0 vm ∧ (usedSlot r vm.host.io).isSome = true⌝⦄ :=
  triple_of (by
    intro i vm h
    have hio := onIo_ok h
    rcases allocFd_ok hio.1 with ⟨k, fd, hget, hunused, hfds, hcount⟩
    have hstep : ∀ evtSize, ioStep evtSize .alloc s0.host.io = some vm.host.io := by
      intro evtSize
      rw [ioStep, hio.1]
      rfl
    refine ⟨⟨hio.2.1, fun evtSize => .single (hstep evtSize) trivial,
      noNewEvents (by simp) (hstep 0), keepsUsed (by simp) (hstep 0), hio.2.2⟩, ?_⟩
    · rw [Option.isSome_iff_exists]
      refine ⟨{ fd with used := true, onClose := false }, usedSlot_eq_some.2 ⟨?_, rfl⟩⟩
      rw [hfds, List.getElem?_set_self (List.getElem?_eq_some_iff.1 hget).1])

@[spec] theorem deallocFd_spec (s0 : Vm (Sys ω)) (evtSize i : Nat) :
    ⦃fun vm => ⌜vm = s0⌝⦄ (onIo' (deallocFd evtSize i) : SysM ω Unit)
    ⦃⇓? _ => fun vm => ⌜(usedSlot i s0.host.io).isSome = true → IoActs evtSize s0 vm⌝⦄ :=
  triple_of (by
    intro a vm h hused
    have hio := onIo'_ok h
    rcases Option.isSome_iff_exists.1 hused with ⟨fd, hfd⟩
    have hstep : ioStep evtSize (.close i) s0.host.io = some vm.host.io := by
      rw [ioStep, hfd, Option.bind_some, hio.1]
      rfl
    exact ⟨hio.2.1, .single hstep trivial, hio.2.2⟩)

@[spec] theorem allocEvent_spec (s0 : Vm (Sys ω)) (evtSize i : Nat) (evt : VmIoEvt) :
    ⦃fun vm => ⌜vm = s0⌝⦄ (onIo' (allocEvent evtSize i evt) : SysM ω Unit)
    ⦃⇓? _ => fun vm => ⌜(usedSlot i s0.host.io).isSome = true →
      (IoOp.submit i evt).Valid s0.code.size → IoActs evtSize s0 vm⌝⦄ :=
  triple_of (by
    intro a vm h hused hvalid
    have hio := onIo'_ok h
    rcases Option.isSome_iff_exists.1 hused with ⟨fd, hfd⟩
    have hstep : ioStep evtSize (.submit i evt) s0.host.io = some vm.host.io := by
      rw [ioStep, hfd, Option.bind_some, hio.1]
      rfl
    exact ⟨hio.2.1, .single hstep hvalid, hio.2.2⟩)

theorem removeEvent_spec (s0 : Vm (Sys ω)) (evtSize i e : Nat) (mask : Select) :
    ⦃fun vm => ⌜vm = s0⌝⦄ (onIo' (removeEvent i e) : SysM ω Unit)
    ⦃⇓? _ => fun vm => ⌜∀ fd, usedSlot i s0.host.io = some fd →
      fd.readEvents evtSize = .ok fd.events → firstEvent mask fd.events = some e →
        IoActs evtSize s0 vm ∧ NoNewEvents s0.host.io vm.host.io ∧
          KeepsUsed s0.host.io vm.host.io⌝⦄ :=
  triple_of (by
    intro a vm h fd hfd hread hfirst
    have hio := onIo'_ok h
    have hstep : ioStep evtSize (.complete i mask) s0.host.io = some vm.host.io := by
      rw [ioStep, hfd, Option.bind_some, hread]
      show ((firstEvent mask fd.events).bind _) = _
      rw [hfirst, Option.bind_some, hio.1]
      rfl
    exact ⟨⟨hio.2.1, .single hstep trivial, hio.2.2⟩, noNewEvents (by simp) hstep,
      keepsUsed (by simp) hstep⟩)

/-- The functions that fill in the fields of a slot. -/
structure Fills (f : VmFd → VmFd) : Prop where
  eq : ∀ slot, f slot =
    { slot with fd := (f slot).fd, onClose := (f slot).onClose, data := (f slot).data }

@[spec] theorem setFd_spec (s0 : Vm (Sys ω)) (i : Nat) {f : VmFd → VmFd} (hf : Fills f) :
    ⦃fun vm => ⌜vm = s0⌝⦄ (onIo' (fun io => .ok (setFd i f io)) : SysM ω Unit)
    ⦃⇓? _ => fun vm => ⌜(usedSlot i s0.host.io).isSome = true →
      SlotActs s0 vm ∧ (usedSlot i vm.host.io).isSome = true⌝⦄ :=
  triple_of (by
    intro a vm h hused
    have hio := onIo'_ok h
    rcases Option.isSome_iff_exists.1 hused with ⟨fd, hfd⟩
    have hget := usedSlot_eq_some.1 hfd
    have hset : vm.host.io = setFd i f s0.host.io := (Except.ok.inj hio.1).symm
    have hused' : (f fd).used = true := (congrArg VmFd.used (hf.eq fd)).trans hget.2
    have hstep : ∀ evtSize, ioStep evtSize (.update i (f fd).fd (f fd).onClose (f fd).data)
        s0.host.io = some vm.host.io := by
      intro evtSize
      rw [ioStep, hfd, Option.map_some, hset]
      unfold setFd
      rw [List.modify_eq_set_getElem?, List.modify_eq_set_getElem?, hget.1]
      exact congrArg (fun slot => some ({ s0.host.io with fds := s0.host.io.fds.set i slot } : VmIo))
        (hf.eq fd).symm
    refine ⟨⟨hio.2.1, fun evtSize => .single (hstep evtSize) trivial,
      noNewEvents (by simp) (hstep 0), keepsUsed (by simp) (hstep 0), hio.2.2⟩, ?_⟩
    · rw [Option.isSome_iff_exists, hset]
      exact ⟨f fd, usedSlot_set hfd (setFd_fds f hget.1) hused'⟩)

@[spec] theorem saveChildProc_spec (s0 : Vm (Sys ω)) (pid : Int32) :
    ⦃fun vm => ⌜vm = s0⌝⦄ (onProc (saveChildProc pid) : SysM ω Unit)
    ⦃⇓? _ => fun vm => ⌜ProcActs s0 vm ∧ TablesOnly s0 vm⌝⦄ :=
  triple_of (by
    intro a vm h
    have hproc := onProc_ok h
    have hstep : procStep (.save pid) s0.host.proc = some vm.host.proc := by
      rw [procStep, hproc.1]
      rfl
    exact ⟨⟨hproc.2.1, hproc.2.2, .single hstep trivial⟩, hproc.2.1⟩)

@[spec] theorem addExitCallback_spec (s0 : Vm (Sys ω)) (p : Nat) (cb : VmCallback) :
    ⦃fun vm => ⌜vm = s0⌝⦄ (onProc (fun proc => .ok (addExitCallback p cb proc)) : SysM ω Unit)
    ⦃⇓? _ => fun vm => ⌜∀ pid, findProc pid s0.host.proc = some p →
      cb.callback.toNat < s0.code.size → ProcActs s0 vm⌝⦄ :=
  triple_of (by
    intro a vm h pid hfind hvalid
    have hproc := onProc_ok h
    have hstep : procStep (.register pid cb) s0.host.proc = some vm.host.proc := by
      rw [procStep, hfind]
      exact congrArg some (Except.ok.inj hproc.1)
    exact ⟨hproc.2.1, hproc.2.2, .single hstep hvalid⟩)

@[spec] theorem endChild_spec (s0 : Vm (Sys ω)) (p : Nat) (ch : VmChild) :
    ⦃fun vm => ⌜vm = s0⌝⦄ (onProc (fun proc => .ok (endChild p ch proc)) : SysM ω Unit)
    ⦃⇓? _ => fun vm => ⌜(∀ pid, findProc pid s0.host.proc = some p →
      s0.host.proc.childProc[p]? = some ch → ProcActs s0 vm) ∧
      vm.host.proc = endChild p ch s0.host.proc⌝⦄ :=
  triple_of (by
    intro a vm h
    have hproc := onProc_ok h
    refine ⟨?_, (Except.ok.inj hproc.1).symm⟩
    intro pid hfind hch
    have hstep : procStep (.exit pid) s0.host.proc = some vm.host.proc := by
      rw [procStep, hfind, Option.bind_some, hch]
      exact congrArg some (Except.ok.inj hproc.1)
    exact ⟨hproc.2.1, hproc.2.2, .single hstep trivial⟩)

/-! ## Procedures -/

/-- A procedure with the call of a callback on its stack is appended, if the callback is inside
the code. -/
theorem makeFuncProcedure_spec (os : Os ω) (s0 : Vm (Sys ω)) (iptr argv retv : UInt32) :
    ⦃fun vm => ⌜vm = s0⌝⦄ (makeFuncProcedure os iptr argv retv : SysM ω Unit)
    ⦃⇓? _ => fun vm => ⌜SameTables s0 vm ∧ vm.memory = s0.memory ∧ vm.host = s0.host ∧
      (s0.code.size ≤ iptr.toNat ∧ vm.procedures = s0.procedures ∨
        iptr.toNat < s0.code.size ∧ vm.exceptions = s0.exceptions ∧
          ∃ p, newFuncProc os iptr argv retv = .ok p ∧
            vm.procedures = s0.procedures ++ [p])⌝⦄ :=
  triple_of (by
    intro a vm h
    unfold makeFuncProcedure at h
    split at h
    · next hle =>
        cases h
        exact ⟨⟨rfl, rfl, rfl⟩, rfl, rfl, Or.inl ⟨hle, rfl⟩⟩
    · next hlt =>
        split at h
        · cases h
        · next p hp =>
            cases h
            exact ⟨⟨rfl, rfl, rfl⟩, rfl, rfl, Or.inr ⟨Nat.lt_of_not_le hlt, rfl, p, hp, rfl⟩⟩)

theorem makeProcedure_spec (s0 : Vm (Sys ω)) (iptr : UInt32) :
    ⦃fun vm => ⌜vm = s0⌝⦄ (makeProcedure iptr : SysM ω Bool)
    ⦃⇓? _ => fun vm => ⌜SameTables s0 vm ∧ vm.memory = s0.memory ∧ vm.host = s0.host ∧
      (s0.code.size ≤ iptr.toNat ∧ vm.procedures = s0.procedures ∨
        iptr.toNat < s0.code.size ∧ vm.exceptions = s0.exceptions ∧
          vm.procedures = s0.procedures ++ [newProc iptr])⌝⦄ :=
  triple_of (by
    intro a vm h
    unfold makeProcedure Vm.makeProcedure at h
    split at h
    · next hle =>
        cases h
        exact ⟨⟨rfl, rfl, rfl⟩, rfl, rfl, Or.inl ⟨hle, rfl⟩⟩
    · next hlt =>
        cases h
        exact ⟨⟨rfl, rfl, rfl⟩, rfl, rfl, Or.inr ⟨Nat.lt_of_not_le hlt, rfl, rfl⟩⟩)

end BvgzVm
