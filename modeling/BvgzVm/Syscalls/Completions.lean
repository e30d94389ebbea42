import BvgzVm.Syscalls.Exits
import BvgzVm.Syscalls.IoQueue

set_option autoImplicit false

/-! # Requests that complete

`activate_event` removes the request it has carried out and leaves the others where they are, and
starts the callback of the request. It starts none if the buffer of a read or a write is gone or if
`make_procedure` refuses the callback, and the request is removed all the same: `Intact` is what has
to be the case when the request is carried out, and `completions_iff` says that nothing else is.
-/

namespace BvgzVm

open Stateful Std.Do SwapRemove

set_option mvcgen.warning false

variable {ω : Type}

attribute [local spec high] setErrorNo_exact getErrno_exact call_exact deref_exact getFd_exact
  storeU64_exact readMemBytes_exact writeMemBytes_exact ub_exact

attribute [local grind =] raise_memory raise_host reaches_raise raise_code InMemory

attribute [local grind →] Same.code Same.memsz Same.procedures Same.io Stored.same Stored.host

/-! ## The handlers -/

/-- What a request needs when it is carried out: the buffer that is read into must be accepted and
have room for what was read, the buffer that is written must be in memory, and the callback of a
`connect` must be inside the code. -/
def Intact (os : Os ω) (fd : VmFd) (vm : Vm (Sys ω)) : VmIoEvt → Prop
  | .read ptr len _ => Reaches vm ptr len ∧ ∀ bytes,
      (os.read fd.fd len.toNat vm.host.world).1 = .ok bytes →
        ptr.toNat + min len.toNat bytes.length ≤ vm.memory.size
  | .write ptr len _ => InMemory vm ptr len.toNat
  | .connect cb => cb.callback.toNat < vm.code.size
  | .accept _ => True

/-- The arguments of the callback of a request are in memory. -/
def VmIoEvt.ArgsInMemory (vm : Vm (Sys ω)) : VmIoEvt → Prop
  | .read _ _ cb | .write _ _ cb => InMemory vm cb.args 32
  | .connect cb | .accept cb => InMemory vm cb.args 16

/-- A request is carried out: it is to be removed, and its callback is started if `ok`. -/
structure Handled (evt : VmIoEvt) (ok : Prop) (vm vm' : Vm (Sys ω)) (r : Activated) : Prop where
  remove : r.remove = true
  io : vm'.host.io = vm.host.io
  started : ok → ∃ p, Runs evt.callback p ∧ vm'.procedures = vm.procedures ++ [p]
  refused : ¬ ok → vm'.procedures = vm.procedures

/-- A callback is started if it is inside the code. -/
@[local spec high] theorem makeFuncProcedure_handled (os : Os ω) (s0 : Vm (Sys ω))
    (cb : VmCallback) :
    ⦃fun vm => ⌜vm = s0⌝⦄ (makeFuncProcedure os cb.callback cb.args 0 : SysM ω Unit)
    ⦃post⟨fun _ vm => ⌜vm.host = s0.host ∧
        (cb.callback.toNat < s0.code.size ∧
            (∃ p, Runs cb p ∧ vm.procedures = s0.procedures ++ [p]) ∨
          s0.code.size ≤ cb.callback.toNat ∧ vm.procedures = s0.procedures)⌝,
      fun _ => ⌜False⌝⟩⦄ := by
  by_cases hcb : cb.callback.toNat < s0.code.size
  · have hstarts := of_exact (makeFuncProcedure_starts os s0 hcb)
    refine exact_of ?_ hstarts.2
    intro a vm h
    rcases hstarts.1 a vm h with ⟨p, hp, rfl⟩
    exact ⟨rfl, Or.inl ⟨hcb, p, hp, rfl⟩⟩
  · have hmake : makeFuncProcedure os cb.callback cb.args 0 s0 =
        .ok ((), s0.raise vmEBadInstnPointer) := by
      unfold makeFuncProcedure
      rw [if_pos (not_lt.1 hcb)]
    refine exact_of ?_ ?_
    · intro a vm h
      rw [hmake] at h
      cases h
      exact ⟨rfl, Or.inr ⟨not_lt.1 hcb, rfl⟩⟩
    · intro e h
      rw [hmake] at h
      cases h

/-- What was written was inside the memory. -/
@[local grind →] theorem Stored.inside {p : ℕ} {bs : List UInt8} {vm vm' : Vm (Sys ω)}
    (h : Stored p bs vm vm') : p + bs.length ≤ vm.memory.size := by
  by_contra hlt
  have hnone := Segment.write_eq_none.2 (not_le.1 hlt)
  rw [h.bytes] at hnone
  cases hnone

@[local spec high] theorem commonIoEvtHandler_inside (s0 : Vm (Sys ω)) (i : ℕ) {ptr len : UInt32}
    {cb : VmCallback} (hargs : InMemory s0 cb.args 32) :
    ⦃fun vm => ⌜vm = s0⌝⦄ (commonIoEvtHandler i ptr len cb : SysM ω _)
    ⦃post⟨fun r vm => ⌜Same s0 vm ∧ vm.host = s0.host ∧ (r = none ∧ ¬ Reaches s0 ptr len ∨
        r = some (ptr.toNat, cb.args.toNat) ∧ Reaches s0 ptr len)⌝, fun _ => ⌜False⌝⟩⦄ := by
  have hreach : Reaches s0 cb.args 32 := hargs.reaches_low
  have hcongr : ∀ vm : Vm (Sys ω), Same s0 vm → (Reaches vm ptr len ↔ Reaches s0 ptr len) :=
    fun vm h => reaches_congr h.memsz ptr len
  unfold commonIoEvtHandler
  mvcgen
  all_goals grind

@[local spec high] theorem transferred_inside (s0 : Vm (Sys ω)) {cbArgs : ℕ}
    (h : cbArgs + 24 ≤ s0.memory.size) (len : Option ℕ) :
    ⦃fun vm => ⌜vm = s0⌝⦄ (transferred cbArgs len : SysM ω Unit)
    ⦃post⟨fun _ vm => ⌜Same s0 vm⌝, fun _ => ⌜False⌝⟩⦄ := by
  unfold transferred
  mvcgen
  all_goals grind

theorem readIoEvtHandler_handled (os : Os ω) (s0 : Vm (Sys ω)) {i : ℕ} {fd : VmFd}
    {ptr len : UInt32} {cb : VmCallback} (hfd : s0.host.io.fds[i]? = some fd)
    (hargs : InMemory s0 cb.args 32) (hcb : cb.callback.toNat < s0.code.size) :
    ⦃fun vm => ⌜vm = s0⌝⦄ readIoEvtHandler os i ptr len cb
    ⦃post⟨fun r vm => ⌜Handled (.read ptr len cb) (Intact os fd s0 (.read ptr len cb)) s0 vm r⌝,
      fun _ => ⌜¬ Intact os fd s0 (.read ptr len cb)⌝⟩⦄ := by
  unfold readIoEvtHandler
  mvcgen
  all_goals grind [Handled, Intact, VmIoEvt.callback]

theorem writeIoEvtHandler_handled (os : Os ω) (s0 : Vm (Sys ω)) {i : ℕ} {fd : VmFd}
    {ptr len : UInt32} {cb : VmCallback} (hfd : s0.host.io.fds[i]? = some fd)
    (hargs : InMemory s0 cb.args 32) (hcb : cb.callback.toNat < s0.code.size) :
    ⦃fun vm => ⌜vm = s0⌝⦄ writeIoEvtHandler os i ptr len cb
    ⦃post⟨fun r vm => ⌜Handled (.write ptr len cb) (Intact os fd s0 (.write ptr len cb)) s0 vm r⌝,
      fun _ => ⌜¬ Intact os fd s0 (.write ptr len cb)⌝⟩⦄ := by
  have hreach : InMemory s0 ptr len.toNat → Reaches s0 ptr len := by
    intro h
    have hlow := h.reaches_low
    rwa [UInt32.ofNat_toNat] at hlow
  unfold writeIoEvtHandler
  mvcgen
  all_goals grind [Handled, Intact, VmIoEvt.callback, Bytes.read, Segment.size]

theorem connectIoEvtHandler_handled (os : Os ω) (s0 : Vm (Sys ω)) (i : ℕ) (fd : VmFd)
    {cb : VmCallback} (hargs : InMemory s0 cb.args 16) :
    ⦃fun vm => ⌜vm = s0⌝⦄ connectIoEvtHandler os i cb
    ⦃post⟨fun r vm => ⌜Handled (.connect cb) (Intact os fd s0 (.connect cb)) s0 vm r⌝,
      fun _ => ⌜False⌝⟩⦄ := by
  have hreach : Reaches s0 cb.args 16 := hargs.reaches_low
  unfold connectIoEvtHandler
  mvcgen
  all_goals grind [Handled, Intact, VmIoEvt.callback]

/-- The callback of a read or a write is inside the code. -/
def VmIoEvt.CallbackInside (vm : Vm (Sys ω)) : VmIoEvt → Prop
  | .read _ _ cb | .write _ _ cb => cb.callback.toNat < vm.code.size
  | .connect _ | .accept _ => True

/-- **The handler of a read, a write or a `connect`** starts the callback exactly if the request is
intact, and always wants the request removed. -/
theorem activate_handled (os : Os ω) (s0 : Vm (Sys ω)) {i : ℕ} {fd : VmFd} {evt : VmIoEvt}
    (hfd : s0.host.io.fds[i]? = some fd) (hevt : ∀ cb, evt ≠ .accept cb)
    (hargs : evt.ArgsInMemory s0) (hcb : evt.CallbackInside s0) :
    ⦃fun vm => ⌜vm = s0⌝⦄ activate os i evt
    ⦃post⟨fun r vm => ⌜Handled evt (Intact os fd s0 evt) s0 vm r⌝,
      fun _ => ⌜¬ Intact os fd s0 evt⌝⟩⦄ := by
  cases evt with
  | read ptr len cb => exact readIoEvtHandler_handled os s0 hfd hargs hcb
  | write ptr len cb => exact writeIoEvtHandler_handled os s0 hfd hargs hcb
  | connect cb =>
      have hconnect := of_exact (connectIoEvtHandler_handled os s0 i fd hargs)
      exact exact_of hconnect.1 (fun e h => (hconnect.2 e h).elim)
  | accept cb => exact absurd rfl (hevt cb)

/-! ## `activate_event` -/

/-- The request is completed: it is removed and the others are kept, and its callback is started,
once and with its arguments. -/
structure CompletedOnce (i : ℕ) (evt : VmIoEvt) (vm vm' : Vm (Sys ω)) : Prop where
  removed : (evt :: slotEvents i vm'.host.io).Perm (slotEvents i vm.host.io)
  started : ∃ p, Runs evt.callback p ∧ vm'.procedures = vm.procedures ++ [p]

/-- The end of `activate_event` takes the request out of its slot. -/
theorem removeEvent_perm {i e : ℕ} {io : VmIo} {fd : VmFd} {evt : VmIoEvt}
    (hfd : io.fds[i]? = some fd) (hevt : fd.events[e]? = some evt) :
    ∃ io', removeEvent i e io = .ok io' ∧
      (evt :: slotEvents i io').Perm (slotEvents i io) := by
  unfold removeEvent
  rw [hfd]
  refine ⟨_, rfl, ?_⟩
  have hlt : i < io.fds.length := (List.getElem?_eq_some_iff.1 hfd).1
  unfold slotEvents
  rw [hfd, List.getElem?_set_self hlt]
  exact swapRemove_perm hevt

/-- **A request is completed exactly if it is intact**, when `activate_event` comes to it. -/
theorem activateEvent_iff (os : Os ω) (vm : Vm (Sys ω)) {i : ℕ} {mask : Select} {fd : VmFd}
    {evt : VmIoEvt} (hfd : vm.host.io.fds[i]? = some fd)
    (hread : fd.readEvents os.evtSize = .ok fd.events)
    (hpending : pendingRequest i mask vm = some evt) (hevt : ∀ cb, evt ≠ .accept cb)
    (hargs : evt.ArgsInMemory vm) (hcb : evt.CallbackInside vm) :
    (∃ r vm', activateEvent os i mask vm = .ok (r, vm') ∧ CompletedOnce i evt vm vm') ↔
      Intact os fd vm evt := by
  have hhandled := of_exact (activate_handled os vm hfd hevt hargs hcb)
  have hfind : fd.events.find? (·.flags = mask) = some evt := by
    unfold pendingRequest at hpending
    rwa [hfd, Option.bind_some] at hpending
  rw [List.find?_eq_bind_findIdx?_getElem?] at hfind
  rcases Option.bind_eq_some_iff.1 hfind with ⟨e, he, hget⟩
  have hgetFd : getFd i vm = .ok (fd, vm) := by
    unfold getFd
    rw [bind_of_ok (get_run vm), hfd]
    rfl
  have hreadEvents : readEvents os i vm = .ok (fd.events, vm) := by
    unfold readEvents
    rw [bind_of_ok hgetFd, hread]
    rfl
  -- what is left is to run the handler and to remove the event
  have hrun : activateEvent os i mask vm = (activate os i evt >>= fun r => do
      if r.remove then onIo' (removeEvent i e)
      return (r.result, r.grew) : SysM ω (UInt32 × Bool)) vm := by
    unfold activateEvent
    rw [bind_of_ok hreadEvents, he]
    dsimp only
    rw [hget]
  rw [hrun]
  rcases removeEvent_perm hfd hget with ⟨io', hremove, hperm⟩
  constructor
  · rintro ⟨r, vm', hok, hdone⟩
    rcases bind_eq_ok.1 hok with ⟨a, vm₁, hactivate, hrest⟩
    have ha := hhandled.1 a vm₁ hactivate
    by_contra hbroken
    rw [if_pos ha.remove] at hrest
    rcases bind_eq_ok.1 hrest with ⟨_, vm₂, honIo, hreturn⟩
    cases hreturn
    have hprocs : vm'.procedures = vm₁.procedures :=
      ((of_exact (onIo'_exact vm₁ (removeEvent i e))).1 _ vm' honIo).1.only.procedures
    rcases hdone.started with ⟨p, -, hp⟩
    rw [hprocs, ha.refused hbroken] at hp
    exact absurd hp (by simp)
  · intro hintact
    cases hactivate : activate os i evt vm with
    | error u => exact absurd hintact (hhandled.2 u hactivate)
    | ok r =>
        rcases r with ⟨a, vm₁⟩
        have ha := hhandled.1 a vm₁ hactivate
        have honIo : onIo' (removeEvent i e) vm₁ =
            .ok ((), vm₁.withSys fun s => { s with io := io' }) := by
          unfold onIo' onIo
          dsimp only
          rw [ha.io, hremove]
          rfl
        refine ⟨(a.result, a.grew), vm₁.withSys fun s => { s with io := io' }, ?_, hperm, ?_⟩
        · rw [bind_of_ok hactivate, if_pos ha.remove, bind_of_ok honIo]
          rfl
        · exact ha.started hintact

/-! ## Blocks of events -/

/-- The events are inside their block, and a block with more than `IO_EVT_ALLOC` entries has room
for an event in each of them. -/
structure BlockFits (evtSize : ℕ) (fd : VmFd) : Prop where
  fits : fd.fits evtSize
  small : evtSize ≤ ioMemSize ∨ fd.allocEvents ≤ ioEvtAlloc

/-- All slots of a table. -/
def BlocksFit (evtSize : ℕ) (io : VmIo) : Prop := ∀ fd ∈ io.fds, BlockFits evtSize fd

theorem BlockFits.congr {evtSize : ℕ} {fd fd' : VmFd} (h : BlockFits evtSize fd)
    (hevents : fd'.events = fd.events) (halloc : fd'.allocEvents = fd.allocEvents) :
    BlockFits evtSize fd' := by
  refine ⟨?_, ?_⟩
  · unfold VmFd.fits
    rw [hevents, halloc]
    exact h.fits
  · rw [halloc]
    exact h.small

theorem ioStep_close_block {evtSize i : ℕ} {io io' : VmIo}
    (h : ioStep evtSize (.close i) io = some io') :
    ∃ fd fd', usedSlot i io = some fd ∧ io'.fds = io.fds.set i fd' ∧ fd'.events = fd.events ∧
      fd'.allocEvents = fd.allocEvents := by
  rcases Option.bind_eq_some_iff.1 h with ⟨fd, hfd, hok⟩
  have hdealloc := Fallible.toOption_eq_some.1 hok
  unfold deallocFd at hdealloc
  rw [(usedSlot_eq_some.1 hfd).1] at hdealloc
  dsimp only at hdealloc
  split at hdealloc
  all_goals
    rcases Fallible.bind_eq_ok.1 hdealloc with ⟨⟨n, data⟩, -, hrest⟩
    rcases ite_eq_iff.1 hrest with ⟨_, herror⟩ | ⟨_, hok'⟩
    · cases herror
    · cases hok'
      exact ⟨fd, _, hfd, rfl, rfl, rfl⟩

theorem ioStep_submit_block {evtSize i : ℕ} {evt : VmIoEvt} {io io' : VmIo}
    (h : ioStep evtSize (.submit i evt) io = some io') :
    ∃ fd fd', usedSlot i io = some fd ∧ io'.fds = io.fds.set i fd' ∧ fd'.used = true ∧
      fd'.eventsFreed = false ∧ fd'.fits evtSize ∧
      fd'.allocEvents = if fd.events.length + 1 > fd.allocEvents then fd.allocEvents + ioEvtAlloc
        else fd.allocEvents := by
  rcases Option.bind_eq_some_iff.1 h with ⟨fd, hfd, hok⟩
  have hused := usedSlot_eq_some.1 hfd
  have halloc := Fallible.toOption_eq_some.1 hok
  unfold allocEvent at halloc
  rw [hused.1] at halloc
  dsimp only at halloc
  rcases ite_eq_iff.1 halloc with ⟨_, herror⟩ | ⟨hfreed, hfits⟩
  · cases herror
  · rcases ite_eq_iff.1 hfits with ⟨hblock, hok'⟩ | ⟨_, herror⟩
    · cases hok'
      exact ⟨fd, _, hfd, rfl, hused.2, Bool.eq_false_iff.2 hfreed, hblock, rfl⟩
    · cases herror

theorem ioStep_complete_block {evtSize i : ℕ} {mask : Select} {io io' : VmIo}
    (h : ioStep evtSize (.complete i mask) io = some io') :
    ∃ fd fd', usedSlot i io = some fd ∧ io'.fds = io.fds.set i fd' ∧ fd'.used = true ∧
      fd'.eventsFreed = fd.eventsFreed ∧ fd'.events.length ≤ fd.events.length ∧
      fd'.allocEvents =
        if fd'.events ≠ [] ∧ fd.allocEvents - fd'.events.length > ioEvtAlloc then
          fd.allocEvents - ioEvtAlloc
        else fd.allocEvents := by
  rcases Option.bind_eq_some_iff.1 h with ⟨fd, hfd, hread⟩
  rcases Option.bind_eq_some_iff.1 hread with ⟨events, hevents, hfirst⟩
  rcases Option.bind_eq_some_iff.1 hfirst with ⟨e, he, hok⟩
  have hused := usedSlot_eq_some.1 hfd
  rw [readEvents_ok (Fallible.toOption_eq_some.1 hevents)] at he
  rcases firstEvent_eq_some he with ⟨evt, hevt, -⟩
  have hlen := length_swapRemove hevt
  have hremove := Fallible.toOption_eq_some.1 hok
  unfold removeEvent at hremove
  rw [hused.1] at hremove
  cases hremove
  exact ⟨fd, _, hfd, rfl, hused.2, rfl, by dsimp only; omega, rfl⟩

/-- The block has room after a request was appended. Where an event is larger than `io_mem_t`, a
block that is full has no entries at all, so it grows to `IO_EVT_ALLOC` entries and never again. -/
theorem BlockFits.submit {evtSize : ℕ} {fd fd' : VmFd} (h : BlockFits evtSize fd)
    (hfits : fd'.fits evtSize)
    (halloc : fd'.allocEvents = if fd.events.length + 1 > fd.allocEvents then
      fd.allocEvents + ioEvtAlloc else fd.allocEvents) : BlockFits evtSize fd' := by
  refine ⟨hfits, ?_⟩
  by_cases hsize : evtSize ≤ ioMemSize
  · exact Or.inl hsize
  · right
    have hsmall := h.small.resolve_left hsize
    have hold := h.fits
    unfold VmFd.fits at hold
    rw [halloc]
    split
    · have hfull : fd.allocEvents ≤ fd.events.length := by omega
      have hzero : fd.allocEvents = 0 := by
        by_contra hne
        have hlt : ioMemSize * fd.allocEvents < fd.events.length * evtSize :=
          calc ioMemSize * fd.allocEvents < evtSize * fd.allocEvents :=
                Nat.mul_lt_mul_of_pos_right (by omega) (by omega)
            _ ≤ evtSize * fd.events.length := Nat.mul_le_mul_left _ hfull
            _ = fd.events.length * evtSize := Nat.mul_comm _ _
        omega
      omega
    · exact hsmall

/-- The block has room after a request was removed, also when it has shrunk. -/
theorem BlockFits.complete {evtSize : ℕ} {fd fd' : VmFd} (h : BlockFits evtSize fd)
    (hlen : fd'.events.length ≤ fd.events.length)
    (halloc : fd'.allocEvents =
      if fd'.events ≠ [] ∧ fd.allocEvents - fd'.events.length > ioEvtAlloc then
        fd.allocEvents - ioEvtAlloc else fd.allocEvents) : BlockFits evtSize fd' := by
  have hsmall : evtSize ≤ ioMemSize ∨ fd'.allocEvents ≤ ioEvtAlloc := by
    rcases h.small with hsize | hold
    · exact Or.inl hsize
    · right
      rw [halloc]
      split <;> omega
  refine ⟨?_, hsmall⟩
  unfold VmFd.fits
  by_cases hshrink : fd'.events ≠ [] ∧ fd.allocEvents - fd'.events.length > ioEvtAlloc
  · rw [if_pos hshrink] at halloc
    have hsize : evtSize ≤ ioMemSize := by
      rcases h.small with hsize | hold
      · exact hsize
      · omega
    calc fd'.events.length * evtSize ≤ fd'.events.length * ioMemSize :=
          Nat.mul_le_mul_left _ hsize
      _ ≤ fd'.allocEvents * ioMemSize := Nat.mul_le_mul_right _ (by omega)
      _ = ioMemSize * fd'.allocEvents := Nat.mul_comm _ _
  · rw [if_neg hshrink] at halloc
    rw [halloc]
    exact (Nat.mul_le_mul_right _ hlen).trans h.fits

theorem BlocksFit.set {evtSize i : ℕ} {io io' : VmIo} {fd' : VmFd} (h : BlocksFit evtSize io)
    (hfds : io'.fds = io.fds.set i fd') (hfd' : BlockFits evtSize fd') : BlocksFit evtSize io' := by
  intro fd hfd
  rw [hfds] at hfd
  rcases List.mem_or_eq_of_mem_set hfd with hold | rfl
  · exact h fd hold
  · exact hfd'

/-- **The blocks have room after every action.** -/
theorem blocksFit_step {evtSize : ℕ} {op : IoOp} {io io' : VmIo} (h : BlocksFit evtSize io)
    (hstep : ioStep evtSize op io = some io') : BlocksFit evtSize io' := by
  have hat : ∀ {i : ℕ} {fd : VmFd}, usedSlot i io = some fd → BlockFits evtSize fd :=
    fun hfd => h _ (List.mem_of_getElem? (usedSlot_eq_some.1 hfd).1)
  cases op with
  | alloc =>
      rcases ioStep_alloc hstep with ⟨i, hok⟩
      rcases allocFd_ok hok with ⟨k, fd, hget, -, hfds, -⟩
      have hgrown : BlocksFit evtSize ⟨io.fds ++ List.replicate k emptyFd, 0, 0⟩ := by
        intro fd' hfd'
        rcases List.mem_append.1 hfd' with hold | hnew
        · exact h fd' hold
        · rw [(List.mem_replicate.1 hnew).2]
          exact ⟨by simp [VmFd.fits, emptyFd], Or.inr (by decide)⟩
      exact hgrown.set hfds ((hgrown fd (List.mem_of_getElem? hget)).congr rfl rfl)
  | update i f onClose data =>
      rcases ioStep_update hstep with ⟨fd, hfd, hfds, -⟩
      exact h.set hfds ((hat hfd).congr rfl rfl)
  | close i =>
      rcases ioStep_close_block hstep with ⟨fd, fd', hfd, hfds, hevents, halloc⟩
      exact h.set hfds ((hat hfd).congr hevents halloc)
  | submit i evt =>
      rcases ioStep_submit_block hstep with ⟨fd, fd', hfd, hfds, -, -, hfits, halloc⟩
      exact h.set hfds ((hat hfd).submit hfits halloc)
  | complete i mask =>
      rcases ioStep_complete_block hstep with ⟨fd, fd', hfd, hfds, -, -, hlen, halloc⟩
      exact h.set hfds ((hat hfd).complete hlen halloc)

/-- The slot is in use and its block of events has not been freed. -/
def OpenSlot (i : ℕ) (io : VmIo) : Prop := ∃ fd, usedSlot i io = some fd ∧ fd.eventsFreed = false

/-- **A slot stays open** until it is closed. -/
theorem openSlot_step {evtSize i : ℕ} {op : IoOp} {io io' : VmIo} (h : OpenSlot i io)
    (hclose : op ≠ .close i) (hstep : ioStep evtSize op io = some io') : OpenSlot i io' := by
  rcases h with ⟨fd, hfd, hfreed⟩
  by_cases hop : op.slot = some i
  · cases op with
    | alloc => cases hop
    | update j f onClose data =>
        cases hop
        rcases ioStep_update hstep with ⟨slot, hslot, hfds, -⟩
        rw [hfd] at hslot
        cases hslot
        exact ⟨_, usedSlot_set hfd hfds (usedSlot_eq_some.1 hfd).2, hfreed⟩
    | close j =>
        cases hop
        exact absurd rfl hclose
    | submit j evt =>
        cases hop
        rcases ioStep_submit_block hstep with ⟨slot, slot', hslot, hfds, hused, hfreed', -⟩
        rw [hfd] at hslot
        cases hslot
        exact ⟨_, usedSlot_set hfd hfds hused, hfreed'⟩
    | complete j mask =>
        cases hop
        rcases ioStep_complete_block hstep with ⟨slot, slot', hslot, hfds, hused, hfreed', -⟩
        rw [hfd] at hslot
        cases hslot
        exact ⟨_, usedSlot_set hfd hfds hused, hfreed'.trans hfreed⟩
  · exact ⟨fd, ioStep_other hfd hop hstep, hfreed⟩

theorem openSlot_run {evtSize i : ℕ} {ops : List IoOp} {io io' : VmIo} (h : OpenSlot i io)
    (hclose : .close i ∉ ops) (hrun : Steps.run (ioStep evtSize) ops io = some io') :
    OpenSlot i io' := by
  induction ops generalizing io with
  | nil =>
      cases hrun
      exact h
  | cons op ops ih =>
      rcases Steps.run_cons.1 hrun with ⟨m, hm, hrest⟩
      rw [List.mem_cons, not_or] at hclose
      exact ih (openSlot_step h (Ne.symm hclose.1) hm) hclose.2 hrest

/-- **No completion is lost or duplicated.** In every history of the table in which a read, a write
or a `connect` is submitted and its handle is not closed, the request is pending until it is
completed, once for each submission. When `activate_event` comes to it and the arguments of its
callback are in memory, it is removed, the other requests are kept, and its callback is started
once and with its arguments, exactly if the request is intact. -/
theorem completions_iff (os : Os ω) {vm : Vm (Sys ω)} {before after : List IoOp} {i : ℕ}
    {evt : VmIoEvt} (hevt : ∀ cb, evt ≠ .accept cb)
    (hvalid : ∀ op ∈ before ++ .submit i evt :: after, op.Valid vm.code.size)
    (hrun : Steps.run (ioStep os.evtSize) (before ++ .submit i evt :: after) emptyIo =
      some vm.host.io)
    (hclose : .close i ∉ after) :
    (∃ io₀, Steps.run (ioStep os.evtSize) before emptyIo = some io₀ ∧
      (completed os.evtSize i (.submit i evt :: after) io₀ ++ slotEvents i vm.host.io).Perm
        (slotEvents i io₀ ++ submitted i (.submit i evt :: after))) ∧
    ∀ mask fd, vm.host.io.fds[i]? = some fd → pendingRequest i mask vm = some evt →
      evt.ArgsInMemory vm →
        ((∃ r vm', activateEvent os i mask vm = .ok (r, vm') ∧ CompletedOnce i evt vm vm') ↔
          Intact os fd vm evt) := by
  rcases Steps.run_append.1 hrun with ⟨io₀, hbefore, hrest⟩
  rcases Steps.run_cons.1 hrest with ⟨io₁, hsubmit, hafter⟩
  rcases ioStep_submit_block hsubmit with ⟨fd₀, fd₁, hfd₀, hfds, hused, hfreed, -, -⟩
  have hslot : (usedSlot i io₀).isSome = true := Option.isSome_of_mem hfd₀
  have hclose' : IoOp.close i ∉ .submit i evt :: after := by
    rw [List.mem_cons, not_or]
    exact ⟨by simp, hclose⟩
  refine ⟨⟨io₀, hbefore, (requests_perm hrest hslot hclose').2⟩, ?_⟩
  intro mask fd hfd hpending hargs
  -- the block of events is there when `activate_event` looks at it
  have hopen : OpenSlot i vm.host.io := by
    have hstart : OpenSlot i io₁ := ⟨fd₁, usedSlot_set hfd₀ hfds hused, hfreed⟩
    exact openSlot_run hstart hclose hafter
  have hfits : BlocksFit os.evtSize vm.host.io :=
    Steps.run_invariant (fun _ _ _ => blocksFit_step) (fun fd hfd => by cases hfd) hrun
  have hread : fd.readEvents os.evtSize = .ok fd.events := by
    rcases hopen with ⟨fd', hfd', hfreed'⟩
    rw [(usedSlot_eq_some.1 hfd').1] at hfd
    cases hfd
    unfold VmFd.readEvents
    split
    · next hnil => rw [hnil]
    · rw [if_neg (by simp [hfreed']), if_pos (hfits fd (List.mem_of_getElem?
        (usedSlot_eq_some.1 hfd').1)).fits]
  have hcb : evt.CallbackInside vm := by
    have hop := hvalid (.submit i evt) (List.mem_append_right _ List.mem_cons_self)
    cases evt with
    | read ptr len cb => exact hop
    | write ptr len cb => exact hop
    | connect cb => trivial
    | accept cb => trivial
  exact activateEvent_iff os vm hfd hread hpending hevt hargs hcb

instance (codesz : ℕ) (op : IoOp) : Decidable (op.Valid codesz) := by
  unfold IoOp.Valid
  split <;> infer_instance

/-- A machine with `n` bytes of memory, after one read was submitted. -/
def requestVm (n : UInt8) : Vm (Sys Unit) :=
  (pendingVm n).withSys fun s => { s with
    io := ⟨⟨3, true, [.read 40 8 ⟨0, 8⟩], 4, false, false, .null⟩ :: List.replicate 4 emptyFd, 1, 1⟩ }

/-- The buffer and the arguments are in memory. -/
theorem completions_iff_read : ∃ r vm', activateEvent deadOs 0 .read (requestVm 64) = .ok (r, vm') ∧
    CompletedOnce 0 (.read 40 8 ⟨0, 8⟩) (requestVm 64) vm' := by
  have hcompletions := @completions_iff Unit deadOs (requestVm 64)
    [.alloc, .update 0 3 false .null] [] 0 (.read 40 8 ⟨0, 8⟩) (by simp) (by decide) (by decide)
    (by decide)
  refine (hcompletions.2 .read _ rfl rfl ?_).2 ⟨by decide, ?_⟩
  · show 8 + 32 ≤ 64
    omega
  · intro bytes h
    cases h

/-- After `mretract` the buffer is gone: the read is removed and nobody is told. -/
theorem completion_lost : ¬ ∀ (os : Os Unit) (vm : Vm (Sys Unit)) (before after : List IoOp) (i : ℕ)
    (evt : VmIoEvt) (mask : Select), (∀ cb, evt ≠ .accept cb) →
      (∀ op ∈ before ++ .submit i evt :: after, op.Valid vm.code.size) →
      Steps.run (ioStep os.evtSize) (before ++ .submit i evt :: after) emptyIo = some vm.host.io →
      .close i ∉ after → pendingRequest i mask vm = some evt → evt.ArgsInMemory vm →
        ∃ r vm', activateEvent os i mask vm = .ok (r, vm') ∧ CompletedOnce i evt vm vm' := by
  intro h
  have hargs : (VmIoEvt.read 40 8 ⟨0, 8⟩).ArgsInMemory (requestVm 44) := show 8 + 32 ≤ 44 by omega
  have hdone := h deadOs (requestVm 44) [.alloc, .update 0 3 false .null] [] 0
    (.read 40 8 ⟨0, 8⟩) .read (by simp) (by decide) (by decide) (by decide) rfl hargs
  have hintact := (activateEvent_iff deadOs (requestVm 44) rfl rfl rfl (by simp) hargs
    (show 0 < 2 by omega)).1 hdone
  exact absurd hintact.1 (by decide)

end BvgzVm
