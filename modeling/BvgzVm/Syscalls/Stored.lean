import BvgzVm.Syscalls.Faults
import BvgzVm.Syscalls.Runs

set_option autoImplicit false

/-! # Requests that are carried out later

A read, a write or a callback for a termination is stored with addresses of the guest, and the
memory may have any other size when its event fires. `deref` computes its bound in 32 bits, so it is
exact for a range that does not wrap around, and a range that was inside some memory does not: the
handlers look at every range again before they use it (`stored_requests_inside`).
-/

namespace BvgzVm

open Stateful Std.Do

set_option mvcgen.warning false

variable {ω : Type}

attribute [local spec high] ub_exact setErrorNo_exact getErrno_exact call_exact deref_exact
  derefMem_exact writeMemBytes_exact storeU64_exact readMemBytes_exact getFd_exact
  onIo_exact onIo'_exact makeFuncProcedure_exact

attribute [local grind →] Same.memsz Stored.same Stored.host SameButTables.only
  TablesOnly.memory SameButProcs.memory

/-! ## Ranges that do not wrap around -/

/-- The range ends before the last address. -/
def Fits (ref : UInt32) (n : ℕ) : Prop := ref.toNat + n < 2 ^ 32

/-- A range inside a memory fits. -/
theorem InMemory.fits {vm : Vm (Sys ω)} {ref : UInt32} {n : ℕ} (h : InMemory vm ref n) :
    Fits ref n := Nat.lt_of_le_of_lt h vm.memory.size_lt'

/-- **`deref` is exact** for a range that fits. -/
theorem Fits.reaches_iff {vm : Vm (Sys ω)} {ref size : UInt32} (h : Fits ref size.toNat) :
    Reaches vm ref size ↔ InMemory vm ref size.toNat := by
  unfold Fits at h
  unfold InMemory
  rw [BvgzVm.reaches_iff, UInt32.toNat_add, Nat.mod_eq_of_lt h]

/-! ## The handlers -/

/-- The ranges of a request fit: the buffer with the length that is stored, and the arguments of
the callback. -/
def VmIoEvt.Fits : VmIoEvt → Prop
  | .read ptr len cb | .write ptr len cb => BvgzVm.Fits ptr len.toNat ∧ BvgzVm.Fits cb.args 32
  | .connect cb | .accept cb => BvgzVm.Fits cb.args 16

/-- The ranges of a request are inside the memory. -/
def VmIoEvt.Inside (vm : Vm (Sys ω)) : VmIoEvt → Prop
  | .read ptr len cb | .write ptr len cb => InMemory vm ptr len.toNat ∧ InMemory vm cb.args 32
  | .connect cb | .accept cb => InMemory vm cb.args 16

theorem VmIoEvt.Inside.fits {vm : Vm (Sys ω)} {evt : VmIoEvt} (h : evt.Inside vm) : evt.Fits := by
  cases evt with
  | read ptr len cb => exact ⟨h.1.fits, h.2.fits⟩
  | write ptr len cb => exact ⟨h.1.fits, h.2.fits⟩
  | connect cb => exact InMemory.fits h
  | accept cb => exact InMemory.fits h

/-- The buffer and the block of the callback are in memory. -/
def BuffersIn (vm : Vm (Sys ω)) (len : UInt32) (c : ℕ × ℕ) : Prop :=
  c.1 + len.toNat ≤ vm.memory.size ∧ c.2 + 32 ≤ vm.memory.size

theorem commonIoEvtHandler_safe (s0 : Vm (Sys ω)) (i : ℕ) {ptr len : UInt32}
    {cb : VmCallback} (hbuf : Fits ptr len.toNat) (hargs : Fits cb.args 32) :
    ⦃fun vm => ⌜vm = s0⌝⦄ (commonIoEvtHandler i ptr len cb : SysM ω _)
    ⦃post⟨fun r vm => ⌜∀ c, r = some c → BuffersIn vm len c⌝, fun e => ⌜e ≠ .deref⌝⟩⦄ := by
  have hbuf' : ∀ vm : Vm (Sys ω), Reaches vm ptr len ↔ InMemory vm ptr len.toNat :=
    fun _ => hbuf.reaches_iff
  have hargs' : ∀ vm : Vm (Sys ω), Reaches vm cb.args 32 ↔ InMemory vm cb.args 32 :=
    fun vm => @Fits.reaches_iff ω vm cb.args 32 hargs
  unfold commonIoEvtHandler
  mvcgen
  all_goals grind [InMemory, BuffersIn]

@[local spec high] theorem transferred_safe (s0 : Vm (Sys ω)) {cbArgs : ℕ}
    (h : cbArgs + 24 ≤ s0.memory.size) (len : Option ℕ) :
    ⦃fun vm => ⌜vm = s0⌝⦄ (transferred cbArgs len : SysM ω Unit)
    ⦃post⟨fun _ _ => ⌜True⌝, fun e => ⌜e ≠ .deref⌝⟩⦄ := by
  unfold transferred
  mvcgen
  all_goals grind

/-- **A handler stays inside the memory** if its work does with the blocks that are accepted. -/
theorem evtHandler_safe {γ : Type} {check : SysM ω (Option γ)} {work : γ → SysM ω Activated}
    {s : Vm (Sys ω)} (hcheck : check s ≠ .error .deref)
    (hwork : ∀ c s', check s = .ok (some c, s') → work c s' ≠ .error .deref) :
    evtHandler check work s ≠ .error .deref := by
  refine bind_ne_error hcheck fun r s' hrun => ?_
  cases r with
  | none =>
      intro h
      cases h
  | some c => exact hwork c s' hrun

/-- The callback needs no memory. -/
theorem thenCallback_safe (os : Os ω) (cb : VmCallback) {work : SysM ω Unit} {s : Vm (Sys ω)}
    (hwork : work s ≠ .error .deref) : thenCallback os cb work s ≠ .error .deref := by
  refine bind_ne_error hwork fun _ s' _ => bind_ne_error ?_ fun _ _ _ h => by cases h
  intro hfault
  cases (of_exact (makeFuncProcedure_exact os s' cb.callback cb.args 0)).2 .deref hfault

theorem argsCheck_safe (s0 : Vm (Sys ω)) {cb : VmCallback}
    (hargs : Fits cb.args 16) :
    ⦃fun vm => ⌜vm = s0⌝⦄ argsCheck cb
    ⦃post⟨fun r vm => ⌜∀ cbArgs, r = some cbArgs → cbArgs + 16 ≤ vm.memory.size⌝,
      fun e => ⌜e ≠ .deref⌝⟩⦄ := by
  have hargs' : ∀ vm : Vm (Sys ω), Reaches vm cb.args 16 ↔ InMemory vm cb.args 16 :=
    fun vm => @Fits.reaches_iff ω vm cb.args 16 hargs
  unfold argsCheck
  mvcgen
  all_goals grind [InMemory]

section Works

variable (os : Os ω) {s0 : Vm (Sys ω)}

theorem readWork_safe (i : ℕ) {len : UInt32} {c : ℕ × ℕ} (h : BuffersIn s0 len c) :
    readWork os i len c s0 ≠ .error .deref := by
  have htriple : ⦃fun vm => ⌜vm = s0⌝⦄ readWork os i len c
      ⦃post⟨fun _ _ => ⌜True⌝, fun e => ⌜e ≠ .deref⌝⟩⦄ := by
    unfold readWork
    mvcgen
    all_goals grind [BuffersIn]
  exact fun hfault => (of_exact htriple).2 .deref hfault rfl

theorem writeWork_safe (i : ℕ) {len : UInt32} {c : ℕ × ℕ} (h : BuffersIn s0 len c) :
    writeWork os i len c s0 ≠ .error .deref := by
  have htriple : ⦃fun vm => ⌜vm = s0⌝⦄ writeWork os i len c
      ⦃post⟨fun _ _ => ⌜True⌝, fun e => ⌜e ≠ .deref⌝⟩⦄ := by
    unfold writeWork
    mvcgen
    all_goals grind [BuffersIn]
  exact fun hfault => (of_exact htriple).2 .deref hfault rfl

theorem connectWork_safe (i : ℕ) {cbArgs : ℕ} (h : cbArgs + 16 ≤ s0.memory.size) :
    connectWork i cbArgs s0 ≠ .error .deref := by
  have htriple : ⦃fun vm => ⌜vm = s0⌝⦄ (connectWork i cbArgs : SysM ω Unit)
      ⦃post⟨fun _ _ => ⌜True⌝, fun e => ⌜e ≠ .deref⌝⟩⦄ := by
    unfold connectWork
    mvcgen
    all_goals grind
  exact fun hfault => (of_exact htriple).2 .deref hfault rfl

theorem acceptWork_safe (i : ℕ) {cb : VmCallback} {cbArgs : ℕ} (h : cbArgs + 16 ≤ s0.memory.size) :
    acceptWork os i cb cbArgs s0 ≠ .error .deref := by
  have htriple : ⦃fun vm => ⌜vm = s0⌝⦄ acceptWork os i cb cbArgs
      ⦃post⟨fun _ _ => ⌜True⌝, fun e => ⌜e ≠ .deref⌝⟩⦄ := by
    unfold acceptWork
    mvcgen
    all_goals grind
  exact fun hfault => (of_exact htriple).2 .deref hfault rfl

end Works

/-- **A request whose ranges fit** stays inside the memory of the machine it is carried out in. -/
theorem activate_safe (os : Os ω) (vm : Vm (Sys ω)) (i : ℕ) {evt : VmIoEvt} (h : evt.Fits) :
    activate os i evt vm ≠ .error .deref := by
  cases evt with
  | read ptr len cb =>
      have hcheck := of_exact (commonIoEvtHandler_safe vm i h.1 h.2)
      rw [activate, readIoEvtHandler_eq]
      refine evtHandler_safe (fun hfault => hcheck.2 .deref hfault rfl) fun c s hc => ?_
      exact thenCallback_safe os cb (readWork_safe os i (hcheck.1 _ s hc c rfl))
  | write ptr len cb =>
      have hcheck := of_exact (commonIoEvtHandler_safe vm i h.1 h.2)
      rw [activate, writeIoEvtHandler_eq]
      refine evtHandler_safe (fun hfault => hcheck.2 .deref hfault rfl) fun c s hc => ?_
      exact thenCallback_safe os cb (writeWork_safe os i (hcheck.1 _ s hc c rfl))
  | connect cb =>
      have hcheck := of_exact (argsCheck_safe vm h)
      rw [activate, connectIoEvtHandler_eq]
      refine evtHandler_safe (fun hfault => hcheck.2 .deref hfault rfl) fun c s hc => ?_
      exact thenCallback_safe os cb (connectWork_safe i (hcheck.1 _ s hc c rfl))
  | accept cb =>
      have hcheck := of_exact (argsCheck_safe vm h)
      rw [activate, acceptIoEvtHandler_eq]
      refine evtHandler_safe (fun hfault => hcheck.2 .deref hfault rfl) fun c s hc => ?_
      exact acceptWork_safe os i (hcheck.1 _ s hc c rfl)

/-! ## Terminations -/

@[local spec high] theorem storeAll_exact (s0 : Vm (Sys ω)) (p : ℕ) (vs : List UInt64) :
    ⦃fun vm => ⌜vm = s0⌝⦄ (storeAll p vs : SysM ω Unit)
    ⦃post⟨fun _ vm => ⌜Same s0 vm ∧ vm.host = s0.host ∧
        (vs ≠ [] → p + 8 * vs.length ≤ s0.memory.size)⌝,
      fun e => ⌜e = .deref ∧ s0.memory.size < p + 8 * vs.length⌝⟩⦄ := by
  induction vs generalizing p s0 with
  | nil =>
      have hsame := Same.refl s0
      unfold storeAll
      mvcgen
      grind
  | cons v vs ih =>
      have hlen : vs = [] ∨ vs ≠ [] := em _
      unfold storeAll
      mvcgen [ih]
      all_goals grind [Segment.load_eq_none]

/-- **Exit callbacks whose arguments fit** stay inside the memory. -/
theorem fireEventsOfProc_safe (os : Os ω) (vm : Vm (Sys ω)) (pid : Int32) (status : UInt32)
    {cbs : List VmCallback} (h : ∀ cb ∈ cbs, Fits cb.args 56) :
    ⦃fun s => ⌜s = vm⌝⦄ fireEventsOfProc os pid status cbs
    ⦃post⟨fun _ _ => ⌜True⌝, fun e => ⌜e ≠ .deref⌝⟩⦄ := by
  induction cbs generalizing vm with
  | nil =>
      unfold fireEventsOfProc
      mvcgen
  | cons cb cbs ih =>
      have hargs : ∀ s : Vm (Sys ω), Reaches s cb.args 56 ↔ InMemory s cb.args 56 :=
        fun s => @Fits.reaches_iff ω s cb.args 56 (h cb List.mem_cons_self)
      have hrest := fun s => ih s (fun cb hcb => h cb (List.mem_cons_of_mem _ hcb))
      have hlen : (exitArgs pid status).length = 7 := rfl
      unfold fireEventsOfProc
      mvcgen [hrest]
      all_goals grind [InMemory]

/-! ## Pending requests -/

@[local spec high] theorem readEvents_exact (os : Os ω) (s0 : Vm (Sys ω)) (i : ℕ) :
    ⦃fun vm => ⌜vm = s0⌝⦄ readEvents os i
    ⦃post⟨fun r vm => ⌜vm = s0 ∧ ∃ fd, s0.host.io.fds[i]? = some fd ∧ r = fd.events⌝,
      fun e => ⌜e = .host⌝⟩⦄ := by
  unfold readEvents
  mvcgen
  all_goals grind [readEvents_ok]

@[local spec high] theorem activate_exact (os : Os ω) (s0 : Vm (Sys ω)) (i : ℕ) (evt : VmIoEvt) :
    ⦃fun vm => ⌜vm = s0⌝⦄ activate os i evt
    ⦃post⟨fun _ _ => ⌜True⌝, fun e => ⌜evt.Fits → e ≠ .deref⌝⟩⦄ := by
  refine exact_of (fun _ _ _ => trivial) ?_
  rintro e hfault hfits rfl
  exact activate_safe os s0 i hfits hfault

/-- The request that `activate_event` carries out for the slot. -/
def pendingRequest (i : ℕ) (mask : Select) (vm : Vm (Sys ω)) : Option VmIoEvt :=
  vm.host.io.fds[i]?.bind fun fd => fd.events.find? (·.flags = mask)

theorem activateEvent_safe (os : Os ω) (s0 : Vm (Sys ω)) (i : ℕ) (mask : Select) :
    ⦃fun vm => ⌜vm = s0⌝⦄ activateEvent os i mask
    ⦃post⟨fun _ _ => ⌜True⌝, fun e => ⌜(∀ evt, pendingRequest i mask s0 = some evt → evt.Fits) →
      e ≠ .deref⌝⟩⦄ := by
  have hpending : ∀ (fd : VmFd) (k : ℕ) (evt : VmIoEvt), s0.host.io.fds[i]? = some fd →
      fd.events.findIdx? (·.flags = mask) = some k → fd.events[k]? = some evt →
        pendingRequest i mask s0 = some evt := by
    intro fd k evt hfd hk hevt
    unfold pendingRequest
    rw [hfd, Option.bind_some, List.find?_eq_bind_findIdx?_getElem?, hk, Option.bind_some, hevt]
  unfold activateEvent
  mvcgen
  all_goals grind

/-- **Stored requests stay inside the memory.** A request that `activate_event` carries out in the
machine `vm`, and whose buffer and callback block were inside the memory of the machine `vm₀` in
which it was accepted, does not touch a byte outside the memory of `vm`; neither do exit callbacks
whose blocks were inside when they were registered. Nothing is assumed of what has happened in
between: the sizes of the two memories have nothing to do with each other. -/
theorem stored_requests_inside (os : Os ω) (vm : Vm (Sys ω)) :
    (∀ i mask evt, pendingRequest i mask vm = some evt → (∃ vm₀ : Vm (Sys ω), evt.Inside vm₀) →
      activateEvent os i mask vm ≠ .error .deref) ∧
    (∀ pid status cbs, (∀ cb ∈ cbs, ∃ vm₀ : Vm (Sys ω), InMemory vm₀ cb.args 56) →
      fireEventsOfProc os pid status cbs vm ≠ .error .deref) := by
  constructor
  · rintro i mask evt hpending ⟨vm₀, hinside⟩ hfault
    refine (of_exact (activateEvent_safe os vm i mask)).2 .deref hfault ?_ rfl
    intro evt' hpending'
    rw [hpending] at hpending'
    cases hpending'
    exact hinside.fits
  · intro pid status cbs hcbs hfault
    have hfits : ∀ cb ∈ cbs, Fits cb.args 56 := by
      intro cb hcb
      rcases hcbs cb hcb with ⟨vm₀, hinside⟩
      exact hinside.fits
    exact (of_exact (fireEventsOfProc_safe os vm pid status hfits)).2 .deref hfault rfl

/-- `ret` -/
def retCode : Segment := ⟨[0x48, 1], by decide⟩

/-- A machine with `n` bytes of memory and one descriptor, on which a read is pending. -/
def pendingVm (n : UInt8) : Vm (Sys Unit) where
  code := retCode
  memory := ⟨List.replicate n.toNat 0, by
    rw [List.length_replicate]
    have := n.toNat_lt
    omega⟩
  exceptions := 0
  procedures := [newProc 0]
  iptr := 0xffffffff
  instns := 0
  assertId := 0
  instnsSinceLastCleanup := 0
  host := { newSys () with io := ⟨[⟨3, true, [.read 40 8 ⟨0, 8⟩], 4, false, false, .null⟩], 1, 1⟩ }

/-- The buffer has gone with the memory, and so have the arguments of an exit callback. -/
theorem stored_requests_inside_retracted :
    activateEvent deadOs 0 .read (pendingVm 44) ≠ .error .deref ∧
      fireEventsOfProc deadOs 1 0 [⟨0, 8⟩] (pendingVm 44) ≠ .error .deref := by
  have hstored := stored_requests_inside deadOs (pendingVm 44)
  have hevt : (VmIoEvt.read 40 8 ⟨0, 8⟩).Inside (pendingVm 64) := by
    refine ⟨?_, ?_⟩
    · show 40 + 8 ≤ 64
      omega
    · show 8 + 32 ≤ 64
      omega
  refine ⟨hstored.1 0 .read _ rfl ⟨_, hevt⟩, hstored.2 1 0 [⟨0, 8⟩] ?_⟩
  intro cb hcb
  rw [List.mem_singleton.1 hcb]
  refine ⟨pendingVm 64, ?_⟩
  show 8 + 56 ≤ 64
  omega

end BvgzVm
