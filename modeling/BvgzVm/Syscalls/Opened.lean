import BvgzVm.Syscalls.Handles

set_option autoImplicit false

/-! # Handles that are given out

`fs_open` and `socket` take a slot before they ask the operating system, and give it back when
there is nothing to put into it. The result of the call is the handle of the slot or `0`; only
`fs_open` stores `0`, and only where it is `open` that has failed (`opened_iff`).
-/

namespace BvgzVm

open Stateful Std.Do

set_option mvcgen.warning false

variable {ω α : Type}

attribute [local spec high] setErrno_exact getErrno_exact call_exact deref_exact loadU32_exact
  loadU64_exact storeU64_exact readStr_exact ensureNulTermStr_exact fail_exact failErrno_exact
  argsRet_deref_exact

attribute [local grind →] Same.memsz Same.io word32_of_load word64_of_load inside_of_load
  SameButTables.only TablesOnly.memory TablesOnly.world

attribute [local grind =] InMemory raise_memory raise_host reaches_raise

/-! ## The slots in use -/

/-- The slots that are in use. -/
def usedSlots (io : VmIo) : Set ℕ := {i | ∃ fd, usedSlot i io = some fd}

theorem mem_usedSlots {io : VmIo} {i : ℕ} :
    i ∈ usedSlots io ↔ ∃ fd, io.fds[i]? = some fd ∧ fd.used = true := by
  constructor
  · rintro ⟨fd, hfd⟩
    exact ⟨fd, usedSlot_eq_some.1 hfd⟩
  · rintro ⟨fd, hfd⟩
    exact ⟨fd, usedSlot_eq_some.2 hfd⟩

/-- A slot is taken or given back. -/
theorem usedSlots_set {io io' : VmIo} {i : ℕ} {fd : VmFd} (hlt : i < io.fds.length)
    (h : io'.fds = io.fds.set i fd) :
    usedSlots io' = if fd.used then insert i (usedSlots io) else usedSlots io \ {i} := by
  ext j
  rw [mem_usedSlots, h, List.getElem?_set]
  by_cases hij : i = j
  · subst hij
    cases hused : fd.used <;> simp [hlt, hused]
  · cases hused : fd.used <;> simp [hij, Ne.symm hij, mem_usedSlots]

/-- Slots of zeros are not in use. -/
theorem usedSlots_append (io : VmIo) (k : ℕ) :
    usedSlots { io with fds := io.fds ++ List.replicate k emptyFd } = usedSlots io := by
  ext j
  rw [mem_usedSlots, mem_usedSlots]
  by_cases hlt : j < io.fds.length
  · rw [List.getElem?_append_left hlt]
  · rw [List.getElem?_append_right (by omega), List.getElem?_eq_none (by omega : io.fds.length ≤ j)]
    constructor
    · rintro ⟨fd, hfd, hused⟩
      rw [List.getElem?_replicate] at hfd
      split at hfd
      · cases hfd
        cases hused
      · cases hfd
    · rintro ⟨fd, hfd, -⟩
      cases hfd

/-- A slot that `alloc_fd` has taken. -/
structure Taken (io io' : VmIo) (i : ℕ) (slot : VmFd) : Prop where
  unused : i ∉ usedSlots io
  used : usedSlots io' = insert i (usedSlots io)
  was : io.fds[i]?.getD emptyFd = slot
  fds : io'.fds[i]? = some { slot with used := true, onClose := false }

/-- **`alloc_fd`** takes a slot that was free, and no other. -/
theorem allocFd_taken {io io' : VmIo} {i : ℕ} (h : allocFd io = .ok (i, io')) :
    ∃ slot, Taken io io' i slot := by
  rcases allocFd_ok h with ⟨k, slot, hget, hunused, hfds, -⟩
  have hlt := (List.getElem?_eq_some_iff.1 hget).1
  have happend := usedSlots_append io k
  have hused : usedSlots io' = insert i (usedSlots io) := by
    rw [@usedSlots_set { io with fds := io.fds ++ List.replicate k emptyFd } io' i _ hlt hfds,
      happend]
    rfl
  refine ⟨slot, ?_, hused, ?_, ?_⟩
  · rw [← happend, mem_usedSlots]
    rintro ⟨fd, hfd, hfdUsed⟩
    rw [hget] at hfd
    cases hfd
    rw [hunused] at hfdUsed
    cases hfdUsed
  · by_cases hold : i < io.fds.length
    · rw [List.getElem?_append_left hold] at hget
      rw [hget]
      rfl
    · rw [List.getElem?_append_right (not_lt.1 hold), List.getElem?_replicate] at hget
      rw [List.getElem?_eq_none (not_lt.1 hold)]
      split at hget
      · cases hget
        rfl
      · cases hget
  · rw [hfds, List.getElem?_set_self hlt]

/-- The number of the slot is that of an old one or of one of the five that are added. -/
theorem allocFd_lt {io io' : VmIo} {i : ℕ} (h : allocFd io = .ok (i, io')) :
    i < io.fds.length + fdAllocStep := by
  unfold allocFd firstUnused at h
  dsimp only at h
  split at h
  · cases h
  · next j hj =>
      cases h
      rcases Option.map_eq_some_iff.1 hj with ⟨n, hn, rfl⟩
      have hlt := (List.findIdx?_eq_some_iff_getElem.1 hn).1
      rw [List.length_drop] at hlt
      by_cases hgrow : io.usedFds = io.fds.length
      · rw [if_pos hgrow, if_pos hgrow, List.length_append, List.length_replicate] at hlt
        rw [if_pos hgrow]
        omega
      · rw [if_neg hgrow, if_neg hgrow] at hlt
        rw [if_neg hgrow]
        omega

/-- The descriptor of a slot that is set. -/
theorem usedSlots_setFd {io : VmIo} {i : ℕ} {slot : VmFd} {f : VmFd → VmFd}
    (hslot : io.fds[i]? = some slot) (hused : slot.used = true) (hf : (f slot).used = true) :
    usedSlots (setFd i f io) = usedSlots io := by
  rw [usedSlots_set (List.getElem?_eq_some_iff.1 hslot).1 (setFd_fds f hslot), if_pos hf]
  exact Set.insert_eq_of_mem (mem_usedSlots.2 ⟨slot, hslot, hused⟩)

/-- A slot that has just been taken is given back, if its events have not been freed before. -/
theorem deallocFd_eq {io : VmIo} {evtSize i : ℕ} {slot : VmFd} (hslot : io.fds[i]? = some slot)
    (hclose : slot.onClose = false) :
    deallocFd evtSize i io = if slot.eventsFreed then .error .freed else .ok {
      io with
      fds := io.fds.set i { slot with used := false, eventsFreed := slot.allocEvents ≠ 0 }
      usedFds := io.usedFds - 1 } := by
  unfold deallocFd
  rw [hslot]
  dsimp only
  rw [if_neg (show ¬ slot.onClose = true by rw [hclose]; exact Bool.false_ne_true)]
  show (if slot.eventsFreed then _ else Except.ok _) = _
  rw [show io.nIoEvents - UInt32.ofNat 0 = io.nIoEvents from UInt32.sub_zero _]

/-- The slots in use when a slot that was taken has been given back. -/
theorem usedSlots_deallocFd {io io' io'' : VmIo} {evtSize i : ℕ} {slot : VmFd}
    (hunused : i ∉ usedSlots io) (hused : usedSlots io' = insert i (usedSlots io))
    (hslot : io'.fds[i]? = some slot) (hclose : slot.onClose = false)
    (h : deallocFd evtSize i io' = .ok io'') : usedSlots io'' = usedSlots io := by
  rw [deallocFd_eq hslot hclose] at h
  split at h
  · cases h
  · cases h
    rw [usedSlots_set (List.getElem?_eq_some_iff.1 hslot).1 rfl, if_neg Bool.false_ne_true, hused]
    exact Set.insert_sdiff_self_of_notMem hunused

/-! ## What is opened -/

/-- The arguments of a call on a path pass the checks. -/
structure PathGiven (vm : Vm (Sys ω)) (argv size : UInt32) : Prop where
  args : Reaches vm argv size
  path : Reaches vm (word32 vm argv.toNat) 1
  nul : NulTerm vm (word32 vm argv.toNat).toNat

/-- The string at an address. -/
def strAt (vm : Vm (Sys ω)) (p : ℕ) : List UInt8 :=
  (vm.memory.bytes.drop p).takeWhile (· ≠ 0)

/-- The flags for `open`. -/
def openOptions (vm : Vm (Sys ω)) (argv : UInt32) : UInt64 :=
  word64 vm (argv.toNat + 4) &&& fsOpenFlagMask ||| oSync

/-- `fs_open` has a path, and the operating system opens the file. -/
def OpensFile (os : Os ω) (vm : Vm (Sys ω)) (argv : UInt32) (fd : Int32) : Prop :=
  PathGiven vm argv 12 ∧ 0 ≤ fd ∧
    (os.openFile (strAt vm (word32 vm argv.toNat).toNat) (openOptions vm argv)
      vm.host.world).1 = .ok fd

/-- `socket` has a kind, and the operating system gives a socket and sets its option. -/
def OpensSocket (os : Os ω) (vm : Vm (Sys ω)) (argv : UInt32) (fd : Int32) : Prop :=
  Reaches vm argv 8 ∧ ∃ udp : Bool, word64 vm argv.toNat = (if udp then 2 else 1) ∧
    (os.socket udp vm.host.world).1 = .ok fd ∧
      (os.setsockopt fd (os.socket udp vm.host.world).2).1 = .ok ()

/-- A handle is stored for what has been opened, in a slot that was free, and `0` if nothing has
been opened. -/
def OpenLaw (opens : Int32 → Prop) (retv : UInt32) (vm : Vm (Sys ω))
    (run : Except Ub (Unit × Vm (Sys ω))) : Prop :=
  ∃ vm', run = .ok ((), vm') ∧
    (∀ fd, opens fd → ∃ i, i ∉ usedSlots vm.host.io ∧
      usedSlots vm'.host.io = insert i (usedSlots vm.host.io) ∧
      (∃ slot, usedSlot i vm'.host.io = some slot ∧ slot.fd = fd) ∧
        vm'.memory.load retv.toNat 8 = some (i + 1)) ∧
    ((∀ fd, ¬ opens fd) → usedSlots vm'.host.io = usedSlots vm.host.io ∧
      vm'.memory.load retv.toNat 8 = some 0)

/-! ## Opening a file -/

/-- A function on the descriptors, with the reason for a fault. -/
@[local spec high] theorem onIo_faults (s0 : Vm (Sys ω))
    (f : VmIo → Except TableFault (α × VmIo)) :
    ⦃fun vm => ⌜vm = s0⌝⦄ (onIo f : SysM ω α)
    ⦃post⟨fun r vm => ⌜SameButTables s0 vm ∧ f s0.host.io = .ok (r, vm.host.io)⌝,
      fun _ => ⌜(f s0.host.io).toOption = none⌝⟩⦄ := by
  have hexact := of_exact (onIo_exact s0 f)
  refine exact_of ?_ ?_
  · intro a vm h
    exact ⟨(hexact.1 a vm h).1, (hexact.1 a vm h).2.2⟩
  · intro e h
    unfold onIo at h
    cases hf : f s0.host.io with
    | error t => rfl
    | ok r =>
        rw [hf] at h
        cases h

@[local spec high] theorem onIo'_faults (s0 : Vm (Sys ω)) (f : VmIo → Except TableFault VmIo) :
    ⦃fun vm => ⌜vm = s0⌝⦄ (onIo' f : SysM ω Unit)
    ⦃post⟨fun _ vm => ⌜SameButTables s0 vm ∧ f s0.host.io = .ok vm.host.io⌝,
      fun _ => ⌜(f s0.host.io).toOption = none⌝⟩⦄ := by
  have hexact := of_exact (onIo'_exact s0 f)
  refine exact_of ?_ ?_
  · intro a vm h
    exact ⟨(hexact.1 a vm h).1, (hexact.1 a vm h).2.2⟩
  · intro e h
    unfold onIo' onIo at h
    dsimp only at h
    cases hf : f s0.host.io with
    | error t => rfl
    | ok io =>
        rw [hf] at h
        cases h

@[local spec high] theorem setupSysFsCall_path (s0 : Vm (Sys ω)) {argv retv size : UInt32}
    (hret : InMemory s0 retv 8) (hreach : Reaches s0 retv 8) :
    ⦃fun vm => ⌜vm = s0⌝⦄ (setupSysFsCall argv retv size : SysM ω _)
    ⦃post⟨fun r vm => ⌜(r = none ∧ ¬ PathGiven s0 argv size ∧
          vm.memory.load retv.toNat 8 = some 1) ∨
        vm = s0 ∧ PathGiven s0 argv size ∧
          r = some (argv.toNat, retv.toNat, (word32 s0 argv.toNat).toNat)⌝,
      fun _ => ⌜s0.memory.size < argv.toNat + 4⌝⟩⦄ := by
  unfold setupSysFsCall
  mvcgen
  all_goals grind [NoArgs, PathGiven]

/-- The slot with another descriptor. -/
def withFd (fd : Int32) (slot : VmFd) : VmFd := { slot with fd }

/-- Fields of a slot are set. -/
theorem onIo'_setFd (s0 : Vm (Sys ω)) (i : ℕ) (change : VmFd → VmFd) :
    ⦃fun vm => ⌜vm = s0⌝⦄
    (onIo' (fun io => .ok (setFd i change io)) : SysM ω Unit)
    ⦃post⟨fun _ vm => ⌜SameButTables s0 vm ∧ vm.host.io = setFd i change s0.host.io⌝,
      fun _ => ⌜False⌝⟩⦄ := by
  have hexact := of_exact (onIo'_faults s0 fun io => .ok (setFd i change io))
  refine exact_of ?_ ?_
  · intro a vm h
    have hio := hexact.1 a vm h
    exact ⟨hio.1, (Except.ok.inj hio.2).symm⟩
  · intro e h
    cases hexact.2 e h

@[local spec 20000] theorem onIo'_withFd (s0 : Vm (Sys ω)) (i : ℕ) (fd : Int32) :
    ⦃fun vm => ⌜vm = s0⌝⦄
    (onIo' (fun io => .ok (setFd i (fun slot => { slot with fd }) io)) : SysM ω Unit)
    ⦃post⟨fun _ vm => ⌜SameButTables s0 vm ∧ vm.host.io = setFd i (withFd fd) s0.host.io⌝,
      fun _ => ⌜False⌝⟩⦄ :=
  onIo'_setFd s0 i (withFd fd)

/-- How `fs_open` ends: with the handle of a slot that it has taken, with `0` and the slot given
back, or with `1`. -/
theorem sysFsOpen_exact (os : Os ω) {s0 : Vm (Sys ω)} {argv retv : UInt32}
    (hret : InMemory s0 retv 8) (hreach : Reaches s0 retv 8) :
    ⦃fun vm => ⌜vm = s0⌝⦄ sysFsOpen os argv retv
    ⦃post⟨fun _ vm => ⌜(¬ PathGiven s0 argv 12 ∧ vm.memory.load retv.toNat 8 = some 1) ∨
        PathGiven s0 argv 12 ∧ InMemory s0 argv 12 ∧ ∃ i io fd,
          allocFd s0.host.io = .ok (i, io) ∧
          ((OpensFile os s0 argv fd ∧ vm.host.io = setFd i (withFd fd) io ∧
              vm.memory.load retv.toNat 8 = some (fdIdxToHandle i).toNat) ∨
            (∀ fd, ¬ OpensFile os s0 argv fd) ∧
              deallocFd os.evtSize i (setFd i (withFd fd) io) = .ok vm.host.io ∧
              vm.memory.load retv.toNat 8 = some 0)⌝,
      fun _ => ⌜¬ InMemory s0 argv 12 ∨ PathGiven s0 argv 12 ∧
        ((allocFd s0.host.io).toOption = none ∨ (∀ fd, ¬ OpensFile os s0 argv fd) ∧
          ∃ i io fd, allocFd s0.host.io = .ok (i, io) ∧
            (deallocFd os.evtSize i (setFd i (withFd fd) io)).toOption = none)⌝⟩⦄ := by
  have hminus : (-1 : Int32) < 0 := by decide
  unfold sysFsOpen
  mvcgen
  all_goals grind [OpensFile, strAt, openOptions, PathGiven, NulTerm]

/-! ## Opening a socket -/

/-- The slot with a socket. -/
def withSocket (fd : Int32) (slot : VmFd) : VmFd := { slot with fd, onClose := true }

@[local spec 20000] theorem onIo'_withSocket (s0 : Vm (Sys ω)) (i : ℕ) (fd : Int32) :
    ⦃fun vm => ⌜vm = s0⌝⦄
    (onIo' (fun io => .ok (setFd i (fun slot => { slot with fd, onClose := true }) io)) :
      SysM ω Unit)
    ⦃post⟨fun _ vm => ⌜SameButTables s0 vm ∧ vm.host.io = setFd i (withSocket fd) s0.host.io⌝,
      fun _ => ⌜False⌝⟩⦄ :=
  onIo'_setFd s0 i (withSocket fd)

@[local spec high] theorem openSocket_exact (os : Os ω) (s0 : Vm (Sys ω)) (kind : UInt64) :
    ⦃fun vm => ⌜vm = s0⌝⦄ (openSocket os kind : SysM ω (Option Int32))
    ⦃post⟨fun r vm => ⌜Same s0 vm ∧ vm.memory = s0.memory ∧
        ((r = none ∧ ∀ udp : Bool, kind = (if udp then 2 else 1) →
            ∀ fd, (os.socket udp s0.host.world).1 ≠ .ok fd) ∨
          ∃ fd, ∃ udp : Bool, r = some fd ∧ kind = (if udp then 2 else 1) ∧
            (os.socket udp s0.host.world).1 = .ok fd ∧
              vm.host.world = (os.socket udp s0.host.world).2)⌝, fun _ => ⌜False⌝⟩⦄ := by
  have hrefl : Same s0 s0 := ⟨rfl, rfl, rfl, rfl, rfl, rfl, rfl⟩
  unfold openSocket
  mvcgen
  all_goals grind

@[local spec high] theorem socketFailed_exact (os : Os ω) {s0 : Vm (Sys ω)} (fd : ℕ) {ret : ℕ}
    (_hret : ret + 8 ≤ s0.memory.size) :
    ⦃fun vm => ⌜vm = s0⌝⦄ socketFailed os fd ret
    ⦃post⟨fun _ vm => ⌜vm.memory.load ret 8 = some 1⌝, fun _ => ⌜True⌝⟩⦄ := by
  unfold socketFailed
  mvcgen
  all_goals grind

/-- How `socket` ends: with the handle of a slot that it has taken, or with `1`. -/
theorem sysSocket_exact (os : Os ω) {s0 : Vm (Sys ω)} {argv retv : UInt32}
    (hret : InMemory s0 retv 8) (hreach : Reaches s0 retv 8) :
    ⦃fun vm => ⌜vm = s0⌝⦄ sysSocket os argv retv
    ⦃post⟨fun _ vm => ⌜((∀ fd, ¬ OpensSocket os s0 argv fd) ∧
          vm.memory.load retv.toNat 8 = some 1) ∨
        InMemory s0 argv 8 ∧ ∃ i io fd, allocFd s0.host.io = .ok (i, io) ∧
          OpensSocket os s0 argv fd ∧
          vm.host.io = setFd i (withSocket fd) io ∧
            vm.memory.load retv.toNat 8 = some (fdIdxToHandle i).toNat⌝,
      fun _ => ⌜¬ InMemory s0 argv 8 ∨ (allocFd s0.host.io).toOption = none ∨
        ∀ fd, ¬ OpensSocket os s0 argv fd⌝⟩⦄ := by
  unfold sysSocket
  mvcgen
  all_goals grind [OpensSocket, NoArgs]

/-! ## When the result can be trusted -/

/-- The handle of a slot that has been taken and filled in. -/
theorem handle_of_taken {io io' : VmIo} {i : ℕ} {fd : Int32} {f : VmFd → VmFd}
    (halloc : allocFd io = .ok (i, io')) (hlen : io.fds.length < 2 ^ 32)
    (hused : ∀ slot, (f slot).used = slot.used) (hfd : ∀ slot, (f slot).fd = fd) :
    i ∉ usedSlots io ∧ usedSlots (setFd i f io') = insert i (usedSlots io) ∧
      (∃ slot, usedSlot i (setFd i f io') = some slot ∧ slot.fd = fd) ∧
        (fdIdxToHandle i).toNat = i + 1 := by
  rcases allocFd_taken halloc with ⟨slot, htaken⟩
  have hlt := allocFd_lt halloc
  have hset : (setFd i f io').fds[i]? = some (f { slot with used := true, onClose := false }) := by
    rw [setFd_fds f htaken.fds, List.getElem?_set_self (List.getElem?_eq_some_iff.1 htaken.fds).1]
  refine ⟨htaken.unused, ?_, ⟨_, usedSlot_eq_some.2 ⟨hset, hused _⟩, hfd _⟩, ?_⟩
  · rw [usedSlots_setFd htaken.fds rfl (hused _), htaken.used]
  · unfold fdAllocStep at hlt
    exact UInt64.toNat_ofNat_of_lt' (show i + 1 < 2 ^ 64 by omega)

theorem OpensFile.unique {os : Os ω} {vm : Vm (Sys ω)} {argv : UInt32} {fd fd' : Int32}
    (h : OpensFile os vm argv fd) (h' : OpensFile os vm argv fd') : fd = fd' :=
  Except.ok.inj (h.2.2.symm.trans h'.2.2)

theorem OpensSocket.unique {os : Os ω} {vm : Vm (Sys ω)} {argv : UInt32} {fd fd' : Int32}
    (h : OpensSocket os vm argv fd) (h' : OpensSocket os vm argv fd') : fd = fd' := by
  rcases h with ⟨-, udp, hkind, hsocket, -⟩
  rcases h' with ⟨-, udp', hkind', hsocket', -⟩
  have hudp : udp = udp' := by
    rw [hkind] at hkind'
    cases udp <;> cases udp' <;> first | rfl | exact absurd hkind' (by decide)
  subst hudp
  exact Except.ok.inj (hsocket.symm.trans hsocket')

/-- The arguments of `fs_open` are accepted, and there is a slot; if the file is not opened, the
events of the slot have not been freed before. -/
def FileReported (os : Os ω) (vm : Vm (Sys ω)) (argv : UInt32) : Prop :=
  InMemory vm argv 12 ∧ PathGiven vm argv 12 ∧ ∃ i io, allocFd vm.host.io = .ok (i, io) ∧
    ((∃ fd, OpensFile os vm argv fd) ∨
      ∀ slot, vm.host.io.fds[i]? = some slot → slot.eventsFreed = false)

/-- `socket` gets its socket, and there is a slot. -/
def SocketReported (os : Os ω) (vm : Vm (Sys ω)) (argv : UInt32) : Prop :=
  InMemory vm argv 8 ∧ (∃ r, allocFd vm.host.io = .ok r) ∧ ∃ fd, OpensSocket os vm argv fd

/-- When the slot of a file that was not opened can be given back. -/
theorem deallocFd_withFd {io io' : VmIo} {evtSize i : ℕ} (fd : Int32)
    (halloc : allocFd io = .ok (i, io')) :
    (∀ slot, io.fds[i]? = some slot → slot.eventsFreed = false) ↔
      ∃ io'', deallocFd evtSize i (setFd i (withFd fd) io') = .ok io'' ∧
        usedSlots io'' = usedSlots io := by
  rcases allocFd_taken halloc with ⟨slot, htaken⟩
  have hget : (setFd i (withFd fd) io').fds[i]? =
      some (withFd fd { slot with used := true, onClose := false }) := by
    rw [setFd_fds _ htaken.fds, List.getElem?_set_self (List.getElem?_eq_some_iff.1 htaken.fds).1]
  rcases (⟨_, hget, rfl, rfl⟩ : ∃ slot', (setFd i (withFd fd) io').fds[i]? = some slot' ∧
    slot'.eventsFreed = slot.eventsFreed ∧ slot'.onClose = false) with
    ⟨slot', hset, hevents, hclose⟩
  have hused : usedSlots (setFd i (withFd fd) io') = insert i (usedSlots io) := by
    rw [usedSlots_setFd htaken.fds rfl rfl, htaken.used]
  have hwas : (∀ slot, io.fds[i]? = some slot → slot.eventsFreed = false) ↔
      slot.eventsFreed = false := by
    rw [← htaken.was]
    cases io.fds[i]? with
    | none => simp [emptyFd]
    | some slot => simp
  rw [hwas]
  constructor
  · intro hfreed
    have hok : ∃ io'', deallocFd evtSize i (setFd i (withFd fd) io') = .ok io'' := by
      rw [deallocFd_eq hset hclose, hevents, hfreed]
      exact ⟨_, rfl⟩
    rcases hok with ⟨io'', hok⟩
    exact ⟨io'', hok, usedSlots_deallocFd htaken.unused hused hset hclose hok⟩
  · rintro ⟨io'', hok, -⟩
    rw [deallocFd_eq hset hclose, hevents] at hok
    split at hok
    · cases hok
    · next hfreed => exact Bool.eq_false_iff.2 hfreed

theorem fsOpen_law_iff (os : Os ω) {vm : Vm (Sys ω)} {argv retv : UInt32}
    (hret : InMemory vm retv 8) (hlen : vm.host.io.fds.length < 2 ^ 32) :
    OpenLaw (OpensFile os vm argv) retv vm (sysFsOpen os argv retv vm) ↔
      FileReported os vm argv := by
  have hreach : Reaches vm retv 8 := hret.reaches_result
  rcases of_exact (@sysFsOpen_exact ω os vm argv retv hret hreach) with ⟨hok, herror⟩
  constructor
  · rintro ⟨vm', hrun, hopened, hfailed⟩
    rcases hok () vm' hrun with ⟨hpath, hone⟩ | ⟨hpath, hargs, i, io, fd, halloc, hend⟩
    · have hnone : ∀ fd, ¬ OpensFile os vm argv fd := fun fd h => hpath h.1
      have hzero := (hfailed hnone).2
      rw [hone] at hzero
      cases hzero
    · refine ⟨hargs, hpath, i, io, halloc, ?_⟩
      rcases hend with ⟨hopens, -⟩ | ⟨hnone, hdealloc, -⟩
      · exact Or.inl ⟨fd, hopens⟩
      · exact Or.inr ((deallocFd_withFd fd halloc).2 ⟨_, hdealloc, (hfailed hnone).1⟩)
  · rintro ⟨hargs, hpath, i, io, halloc, hcan⟩
    cases hrun : sysFsOpen os argv retv vm with
    | error e =>
        exfalso
        rcases herror e hrun with hwrap | ⟨-, hfull | ⟨hnone, i', io', fd, halloc', hdealloc⟩⟩
        · exact hwrap hargs
        · rw [halloc] at hfull
          cases hfull
        · rw [halloc] at halloc'
          cases halloc'
          rcases hcan with ⟨fd, hopens⟩ | hfreed
          · exact hnone fd hopens
          · rcases (deallocFd_withFd fd halloc).1 hfreed with ⟨io'', hok', -⟩
            rw [hok'] at hdealloc
            cases hdealloc
    | ok r =>
        rcases r with ⟨⟨⟩, vm'⟩
        refine ⟨vm', rfl, ?_⟩
        rcases hok () vm' hrun with ⟨hnopath, -⟩ | ⟨-, -, i', io', fd, halloc', hend⟩
        · exact absurd hpath hnopath
        · rw [halloc] at halloc'
          cases halloc'
          rcases hend with ⟨hopens, hio, hcell⟩ | ⟨hnone, hdealloc, hcell⟩
          · refine ⟨?_, fun hnone => absurd hopens (hnone fd)⟩
            intro fd' hopens'
            rcases hopens.unique hopens'
            have htaken := @handle_of_taken _ _ i fd (withFd fd) halloc hlen
              (fun _ => rfl) (fun _ => rfl)
            rw [← hio] at htaken
            exact ⟨i, htaken.1, htaken.2.1, htaken.2.2.1, by rw [hcell, htaken.2.2.2]⟩
          · refine ⟨fun fd' hopens' => absurd hopens' (hnone fd'), fun _ => ⟨?_, hcell⟩⟩
            rcases hcan with ⟨fd', hopens'⟩ | hfreed
            · exact absurd hopens' (hnone fd')
            · rcases (@deallocFd_withFd _ _ os.evtSize i fd halloc).1 hfreed with ⟨io'', hok', hsame⟩
              rw [hdealloc] at hok'
              cases hok'
              exact hsame

theorem socket_law_iff (os : Os ω) {vm : Vm (Sys ω)} {argv retv : UInt32}
    (hret : InMemory vm retv 8) (hlen : vm.host.io.fds.length < 2 ^ 32) :
    OpenLaw (OpensSocket os vm argv) retv vm (sysSocket os argv retv vm) ↔
      SocketReported os vm argv := by
  have hreach : Reaches vm retv 8 := hret.reaches_result
  rcases of_exact (@sysSocket_exact ω os vm argv retv hret hreach) with ⟨hok, herror⟩
  constructor
  · rintro ⟨vm', hrun, hopened, hfailed⟩
    rcases hok () vm' hrun with ⟨hnone, hone⟩ | ⟨hargs, i, io, fd, halloc, hopens, -⟩
    · have hzero := (hfailed hnone).2
      rw [hone] at hzero
      cases hzero
    · exact ⟨hargs, ⟨_, halloc⟩, fd, hopens⟩
  · rintro ⟨hargs, ⟨r, halloc⟩, fd, hopens⟩
    cases hrun : sysSocket os argv retv vm with
    | error e =>
        exfalso
        rcases herror e hrun with hwrap | hfull | hnone
        · exact hwrap hargs
        · rw [halloc] at hfull
          cases hfull
        · exact hnone fd hopens
    | ok r =>
        rcases r with ⟨⟨⟩, vm'⟩
        refine ⟨vm', rfl, ?_, fun hnone => absurd hopens (hnone fd)⟩
        rcases hok () vm' hrun with ⟨hnone, -⟩ | ⟨-, i, io, fd', halloc', hopens', hio, hcell⟩
        · exact absurd hopens (hnone fd)
        · intro fd'' hopens''
          rcases hopens'.unique hopens''
          have htaken := @handle_of_taken _ _ i fd' (withSocket fd') halloc' hlen
            (fun _ => rfl) (fun _ => rfl)
          rw [← hio] at htaken
          exact ⟨i, htaken.1, htaken.2.1, htaken.2.2.1, by rw [hcell, htaken.2.2.2]⟩

/-- **A guest can tell a handle from a failure of `fs_open` and of `socket` just when** the
arguments of `fs_open` are accepted, and `socket` does not fail. -/
theorem opened_iff (os : Os ω) {vm : Vm (Sys ω)} {argv retv : UInt32}
    (hret : InMemory vm retv 8) (hlen : vm.host.io.fds.length < 2 ^ 32) :
    (OpenLaw (OpensFile os vm argv) retv vm (Syscall.fsOpen.function os argv retv vm) ↔
      FileReported os vm argv) ∧
    (OpenLaw (OpensSocket os vm argv) retv vm (Syscall.socket.function os argv retv vm) ↔
      SocketReported os vm argv) :=
  ⟨fsOpen_law_iff os hret hlen, socket_law_iff os hret hlen⟩

/-- With the arguments at `0` and the result at `8`. -/
theorem opened_iff_empty :
    (OpenLaw (OpensFile deadOs (handleVm 1 0 []) 0) 8 (handleVm 1 0 [])
        (Syscall.fsOpen.function deadOs 0 8 (handleVm 1 0 [])) ↔
      FileReported deadOs (handleVm 1 0 []) 0) ∧
    (OpenLaw (OpensSocket deadOs (handleVm 1 0 []) 0) 8 (handleVm 1 0 [])
        (Syscall.socket.function deadOs 0 8 (handleVm 1 0 [])) ↔
      SocketReported deadOs (handleVm 1 0 []) 0) :=
  opened_iff deadOs (by unfold InMemory; decide) (by decide)

/-- A result of `1` is not what the law says of a call that opens nothing. -/
theorem not_openLaw {opens : Int32 → Prop} {vm vm' : Vm (Sys Unit)} {retv : UInt32}
    {run : Except Ub (Unit × Vm (Sys Unit))} (hnone : ∀ fd, ¬ opens fd)
    (hrun : run = .ok ((), vm')) (hone : vm'.memory.load retv.toNat 8 = some 1) :
    ¬ OpenLaw opens retv vm run := by
  rintro ⟨vm'', hrun', -, hfailed⟩
  rw [hrun] at hrun'
  cases hrun'
  have hzero := (hfailed hnone).2
  rw [hone] at hzero
  cases hzero

/-- The machine after a call that has failed. -/
def failedVm (ref : UInt8) (errno errorNo : Int32) (fds : List VmFd) : Vm (Sys Unit) :=
  { handleVm ref 0 fds with
    memory := ⟨[ref, 0, 0, 0, 0, 0, 0, 0, 1, 0, 0, 0, 0, 0, 0, 0], by simp⟩
    host := { newSys () with errno, errorNo, io := ⟨fds, 0, 0⟩ } }

/-- `socket` stores `1` where the operating system has no socket, and so does `fs_open` where the
path is not in memory. -/
theorem failure_is_handle :
    ¬ OpenLaw (OpensSocket deadOs (handleVm 1 0 []) 0) 8 (handleVm 1 0 [])
        (Syscall.socket.function deadOs 0 8 (handleVm 1 0 [])) ∧
      ¬ OpenLaw (OpensFile deadOs (handleVm 255 0 []) 0) 8 (handleVm 255 0 [])
        (Syscall.fsOpen.function deadOs 0 8 (handleVm 255 0 [])) := by
  have hsocket : Syscall.socket.function deadOs 0 8 (handleVm 1 0 []) =
      .ok ((), failedVm 1 1 1 (List.replicate 5 emptyFd)) := by rfl
  have hopen : Syscall.fsOpen.function deadOs 0 8 (handleVm 255 0 []) =
      .ok ((), failedVm 255 0 eFAULT []) := by rfl
  constructor
  · refine not_openLaw ?_ hsocket (by decide +kernel)
    rintro fd ⟨-, udp, -, hfd, -⟩
    cases hfd
  · refine not_openLaw ?_ hopen (by decide +kernel)
    rintro fd ⟨-, -, hfd⟩
    cases hfd

end BvgzVm
