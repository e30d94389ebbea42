import BvgzVm.Syscalls.IoOps

set_option autoImplicit false

/-! # The block of events of a descriptor

`alloc_event` and `activate_event` size the block of events by `sizeof(io_mem_t)`, which is 16,
while an event takes `sizeof(vm_io_evt_t)`, which is 24. The first four places are 64 bytes, in
which two events lie; so the events are inside the block along the runs in which no third one is
added (`eventsInside_iff`).
-/

namespace BvgzVm

open Steps SwapRemove

/-- `sizeof(vm_io_evt_t)`, where pointers take 8 bytes -/
def vmIoEvtSize : Nat := 24

/-- A call of `alloc_event`, or of `activate_event` that removes the event. -/
inductive QueueOp
  | submit (evt : VmIoEvt)
  | complete (mask : Select)
  deriving DecidableEq, Repr

/-- The action on descriptor `i`. -/
def QueueOp.on (i : Nat) : QueueOp → IoOp
  | .submit evt => .submit i evt
  | .complete mask => .complete i mask

/-- One action on descriptor `i`. -/
def handleStep (i : Nat) (op : QueueOp) (io : VmIo) : Option VmIo :=
  ioStep vmIoEvtSize (op.on i) io

/-- The events are inside their block, before the action and after it, and so is an event that is
added. -/
def RecordsInside (i : Nat) (op : QueueOp) (io : VmIo) : Prop :=
  (∀ fd, usedSlot i io = some fd → fd.fits vmIoEvtSize) ∧
    (∀ evt, op = .submit evt → allocEvent vmIoEvtSize i evt io ≠ .error .block) ∧
      ∀ io' fd', handleStep i op io = some io' → usedSlot i io' = some fd' → fd'.fits vmIoEvtSize

/-- No event is added to two others. -/
def TwoAtMost (i : Nat) (op : QueueOp) (io : VmIo) : Prop :=
  ∀ evt fd, op = .submit evt → usedSlot i io = some fd → fd.events.length < 2

/-- The descriptor is in use, without events and without a block. -/
structure FreshQueue (i : Nat) (io : VmIo) : Prop where
  slot : ∃ fd, usedSlot i io = some fd ∧ fd.events = [] ∧ fd.allocEvents = 0 ∧
    fd.eventsFreed = false

/-- **The invariant**: there are at most two events, and four places once there was one. -/
structure FewEvents (fd : VmFd) : Prop where
  owned : fd.eventsFreed = false
  few : fd.events.length ≤ 2
  places : fd.allocEvents = ioEvtAlloc ∨ fd.events = [] ∧ fd.allocEvents = 0

theorem FewEvents.fits {fd : VmFd} (h : FewEvents fd) : fd.fits vmIoEvtSize := by
  have hfew := h.few
  show fd.events.length * 24 ≤ 16 * fd.allocEvents
  rcases h.places with hfour | ⟨hnil, hzero⟩
  · rw [hfour, show ioEvtAlloc = 4 from rfl]
    omega
  · rw [hnil, hzero]
    exact le_rfl

/-- There are four places for the next event. -/
theorem FewEvents.grown {fd : VmFd} (h : FewEvents fd) :
    (if fd.events.length + 1 > fd.allocEvents then fd.allocEvents + ioEvtAlloc
      else fd.allocEvents) = ioEvtAlloc := by
  have hfew := h.few
  have hfour : ioEvtAlloc = 4 := rfl
  rcases h.places with hplaces | ⟨hnil, hzero⟩
  · rw [hplaces, if_neg (by omega)]
  · rw [hnil, hzero]
    rfl

/-- A third event is put outside the block. -/
theorem submit_iff {i : Nat} {io : VmIo} {fd : VmFd} {evt : VmIoEvt}
    (hslot : usedSlot i io = some fd) (h : FewEvents fd) :
    allocEvent vmIoEvtSize i evt io ≠ .error .block ↔ fd.events.length < 2 := by
  have hget := (usedSlot_eq_some.1 hslot).1
  have hfew := h.few
  have hfits : VmFd.fits vmIoEvtSize
      { fd with events := fd.events ++ [evt], allocEvents := ioEvtAlloc } ↔
        fd.events.length < 2 := by
    show (fd.events ++ [evt]).length * 24 ≤ 16 * 4 ↔ _
    rw [List.length_append, List.length_singleton]
    omega
  unfold allocEvent
  rw [hget]
  dsimp only
  rw [h.grown, if_neg (by rw [h.owned]; exact Bool.false_ne_true), ← hfits]
  constructor
  · intro hblock
    by_contra hout
    exact hblock (if_neg hout)
  · intro hin
    rw [if_pos hin]
    exact fun herror => by cases herror

/-- A submission adds the event, and there are four places then. -/
theorem FewEvents.submit {i : Nat} {io io' : VmIo} {fd : VmFd} {evt : VmIoEvt} (h : FewEvents fd)
    (hslot : usedSlot i io = some fd) (hfew : fd.events.length < 2)
    (hstep : handleStep i (.submit evt) io = some io') :
    ∃ fd', usedSlot i io' = some fd' ∧ FewEvents fd' := by
  rcases Option.bind_eq_some_iff.1 hstep with ⟨fd₁, hfd₁, hok⟩
  obtain rfl := Option.some.inj (hslot.symm.trans hfd₁)
  have hget := usedSlot_eq_some.1 hslot
  have halloc := Fallible.toOption_eq_some.1 hok
  unfold allocEvent at halloc
  rw [hget.1] at halloc
  dsimp only at halloc
  rw [if_neg (by rw [h.owned]; exact Bool.false_ne_true)] at halloc
  rcases ite_eq_iff.1 halloc with ⟨-, hok'⟩ | ⟨-, herror⟩
  · cases hok'
    refine ⟨_, usedSlot_set hslot rfl hget.2, h.owned, ?_, Or.inl h.grown⟩
    show (fd.events ++ [evt]).length ≤ 2
    rw [List.length_append, List.length_singleton]
    omega
  · cases herror

/-- A removal leaves the places as they are. -/
theorem FewEvents.complete {i : Nat} {io io' : VmIo} {fd : VmFd} {mask : Select}
    (h : FewEvents fd) (hslot : usedSlot i io = some fd)
    (hstep : handleStep i (.complete mask) io = some io') :
    ∃ fd', usedSlot i io' = some fd' ∧ FewEvents fd' := by
  rcases Option.bind_eq_some_iff.1 hstep with ⟨fd₁, hfd₁, hread⟩
  obtain rfl := Option.some.inj (hslot.symm.trans hfd₁)
  rcases Option.bind_eq_some_iff.1 hread with ⟨events, hevents, hfirst⟩
  rcases Option.bind_eq_some_iff.1 hfirst with ⟨e, he, hok⟩
  have hget := usedSlot_eq_some.1 hslot
  have hremove := Fallible.toOption_eq_some.1 hok
  unfold removeEvent at hremove
  rw [hget.1] at hremove
  cases hremove
  rw [readEvents_ok (Fallible.toOption_eq_some.1 hevents)] at he
  rcases firstEvent_eq_some he with ⟨evt, hevt, -⟩
  have hlen : (swapRemove fd.events e).length + 1 = fd.events.length := by
    have hperm := (swapRemove_perm hevt).length_eq
    rwa [List.length_cons] at hperm
  have hfew := h.few
  refine ⟨_, usedSlot_set hslot rfl hget.2, h.owned, ?_, ?_⟩
  · show (swapRemove fd.events e).length ≤ 2
    omega
  · rcases h.places with hfour | ⟨hnil, -⟩
    · -- four places are never too many
      refine Or.inl ?_
      show (if _ ∧ fd.allocEvents - _ > ioEvtAlloc then _ else _) = _
      rw [hfour, if_neg (fun hmany => absurd hmany.2 (by omega))]
    · rw [hnil] at hlen
      cases hlen

theorem FewEvents.step {i : Nat} {op : QueueOp} {io io' : VmIo} {fd : VmFd} (h : FewEvents fd)
    (hslot : usedSlot i io = some fd) (hfew : TwoAtMost i op io)
    (hstep : handleStep i op io = some io') : ∃ fd', usedSlot i io' = some fd' ∧ FewEvents fd' := by
  cases op with
  | submit evt => exact h.submit hslot (hfew evt fd rfl hslot) hstep
  | complete mask => exact h.complete hslot hstep

/-- One action keeps the events inside their block just when it does not add a third one. -/
theorem eventsInside_step {i : Nat} {op : QueueOp} {io : VmIo} {fd : VmFd} (h : FewEvents fd)
    (hslot : usedSlot i io = some fd) : RecordsInside i op io ↔ TwoAtMost i op io := by
  have honly : ∀ fd', usedSlot i io = some fd' → fd' = fd := fun fd' hfd' =>
    Option.some.inj (hfd'.symm.trans hslot)
  constructor
  · rintro ⟨-, hsubmit, -⟩ evt fd' hop hfd'
    rw [honly fd' hfd']
    exact (submit_iff hslot h).1 (hsubmit evt hop)
  · intro hfew
    refine ⟨?_, ?_, ?_⟩
    · intro fd' hfd'
      rw [honly fd' hfd']
      exact h.fits
    · intro evt hop
      exact (submit_iff hslot h).2 (hfew evt fd hop hslot)
    · intro io' fd' hstep hfd'
      rcases h.step hslot hfew hstep with ⟨fd'', hfd'', hfew'⟩
      rw [Option.some.inj (hfd'.symm.trans hfd'')]
      exact hfew'.fits

/-- **Along every run** on a descriptor that starts without events, the events are inside their
block just when no event is added to two others. -/
theorem eventsInside_iff {i : Nat} {io : VmIo} (ops : List QueueOp) (hfresh : FreshQueue i io) :
    Along (handleStep i) (RecordsInside i) ops io ↔ Along (handleStep i) (TwoAtMost i) ops io := by
  have hinv : ∃ fd, usedSlot i io = some fd ∧ FewEvents fd := by
    rcases hfresh.slot with ⟨fd, hslot, hnil, hzero, howned⟩
    exact ⟨fd, hslot, howned, by rw [hnil]; exact Nat.zero_le _, Or.inr ⟨hnil, hzero⟩⟩
  refine @along_iff _ _ _ (fun io => ∃ fd, usedSlot i io = some fd ∧ FewEvents fd) _ _ ?_ ?_ _ _
    hinv
  · rintro op s ⟨fd, hslot, h⟩
    exact eventsInside_step h hslot
  · rintro op s s' ⟨fd, hslot, h⟩ hinside hstep
    exact h.step hslot ((eventsInside_step h hslot).1 hinside) hstep

/-- A table with one descriptor. -/
def readHandle : VmIo := ⟨[{ emptyFd with used := true }], 1, 0⟩

/-- A request to read into the byte at `0`. -/
def readOne : VmIoEvt := .read 0 1 ⟨0, 0⟩

theorem readHandle_fresh : FreshQueue 0 readHandle := ⟨⟨_, rfl, rfl, rfl, rfl⟩⟩

theorem eventsInside_iff_two :
    Along (handleStep 0) (RecordsInside 0) [.submit readOne, .submit readOne, .complete .read]
      readHandle ↔
    Along (handleStep 0) (TwoAtMost 0) [.submit readOne, .submit readOne, .complete .read]
      readHandle :=
  eventsInside_iff _ readHandle_fresh

/-- The third of three requests is put outside the block. -/
theorem third_outside : FreshQueue 0 readHandle ∧
    ¬ Along (handleStep 0) (RecordsInside 0) [.submit readOne, .submit readOne, .submit readOne]
      readHandle := by
  refine ⟨readHandle_fresh, fun halong => ?_⟩
  have hsecond := (halong.2 _ rfl).2 _ rfl
  exact hsecond.1.2.1 readOne rfl (by decide)

end BvgzVm
