import BvgzVm.Lib.Except
import BvgzVm.Lib.Steps
import BvgzVm.Syscalls.Tables
import Mathlib.Data.List.Basic

set_option autoImplicit false

/-! # Operations on the table of descriptors

What the system calls and the event loop do to `vm->io`, as actions of a system (`ioStep`): each
of them is one of the functions of `Syscalls/Tables.lean` on a slot that is in use, and an action
that cannot be made is undefined behaviour in the code. Here is what each action changes
(`ioStep_submit`, `ioStep_complete`, …). The books (`booksInv_step`) and the order of the requests of
a handle (`serves`) are proved from these lemmas.
-/

namespace BvgzVm

open Fallible SwapRemove

/-- What is done to the table: `alloc_fd`, filling in the fields of a slot, `dealloc_fd`,
`alloc_event` with the event filled in, and the removal of the first event of a direction at the
end of `activate_event`. -/
inductive IoOp
  | alloc
  | update (i : Nat) (fd : Int32) (onClose : Bool) (data : SockPtr)
  | close (i : Nat)
  | submit (i : Nat) (evt : VmIoEvt)
  | complete (i : Nat) (mask : Select)
  deriving DecidableEq, Repr

/-- The slot an action is about; a slot that is handed out is none of those in use. -/
def IoOp.slot : IoOp → Option Nat
  | .alloc => none
  | .update i _ _ _ | .close i | .submit i _ | .complete i _ => some i

/-- A slot that is in use. -/
def usedSlot (i : Nat) (io : VmIo) : Option VmFd := (io.fds[i]?).filter (·.used)

/-- The event that `activate_event` looks for. -/
def firstEvent (mask : Select) (events : List VmIoEvt) : Option Nat :=
  events.findIdx? (·.flags = mask)

/-- One action. -/
def ioStep (evtSize : Nat) : IoOp → VmIo → Option VmIo
  | .alloc, io => (allocFd io).toOption.map Prod.snd
  | .update i fd onClose data, io =>
      (usedSlot i io).map fun _ => setFd i (fun slot => { slot with fd, onClose, data }) io
  | .close i, io => (usedSlot i io).bind fun _ => (deallocFd evtSize i io).toOption
  | .submit i evt, io => (usedSlot i io).bind fun _ => (allocEvent evtSize i evt io).toOption
  | .complete i mask, io =>
      (usedSlot i io).bind fun fd =>
        (fd.readEvents evtSize).toOption.bind fun events =>
          (firstEvent mask events).bind fun e => (removeEvent i e io).toOption

/-- A table before the first action. -/
def emptyIo : VmIo := ⟨[], 0, 0⟩

/-! ## Slots -/

theorem usedSlot_eq_some {i : Nat} {io : VmIo} {fd : VmFd} :
    usedSlot i io = some fd ↔ io.fds[i]? = some fd ∧ fd.used = true := by
  unfold usedSlot
  rw [Option.filter_eq_some_iff]

theorem readEvents_ok {evtSize : Nat} {fd : VmFd} {events : List VmIoEvt}
    (h : fd.readEvents evtSize = .ok events) : events = fd.events := by
  unfold VmFd.readEvents at h
  split at h
  · next hnil =>
      cases h
      exact hnil.symm
  · split at h
    · cases h
    · split at h
      · cases h
        rfl
      · cases h

/-- The event that is found has the direction that was asked for. -/
theorem firstEvent_eq_some {mask : Select} {events : List VmIoEvt} {e : Nat}
    (h : firstEvent mask events = some e) :
    ∃ evt, events[e]? = some evt ∧ evt.flags = mask ∧
      ∀ evt' ∈ events.take e, evt'.flags ≠ mask := by
  unfold firstEvent at h
  rw [List.findIdx?_eq_some_iff_getElem] at h
  rcases h with ⟨hlt, hmask, hbefore⟩
  refine ⟨events[e], List.getElem?_eq_getElem hlt, of_decide_eq_true hmask, ?_⟩
  intro evt' hevt'
  rcases List.mem_take_iff_getElem.1 hevt' with ⟨j, hj, rfl⟩
  have hlt' : j < e := (Nat.lt_min.1 hj).1
  have := hbefore j hlt'
  simpa using this

/-- A slot whose fields are changed. -/
theorem setFd_fds {i : Nat} {io : VmIo} {fd : VmFd} (f : VmFd → VmFd)
    (h : io.fds[i]? = some fd) : (setFd i f io).fds = io.fds.set i (f fd) := by
  show io.fds.modify i f = _
  rw [List.modify_eq_set_getElem?, h]
  rfl

/-! ## What each action changes -/

/-- **`alloc_fd`** takes a slot that is not in use, one of the old ones or one that it adds. -/
theorem allocFd_ok {io io' : VmIo} {i : Nat} (h : allocFd io = .ok (i, io')) :
    ∃ k fd, (io.fds ++ List.replicate k emptyFd)[i]? = some fd ∧ fd.used = false ∧
      io'.fds = (io.fds ++ List.replicate k emptyFd).set i { fd with used := true, onClose := false } ∧
      io'.nIoEvents = io.nIoEvents := by
  unfold allocFd at h
  -- with or without new slots
  have hgrow : ∃ k, (if io.usedFds = io.fds.length then
      io.fds ++ List.replicate fdAllocStep emptyFd else io.fds)
        = io.fds ++ List.replicate k emptyFd := by
    split
    · exact ⟨fdAllocStep, rfl⟩
    · exact ⟨0, (List.append_nil io.fds).symm⟩
  rcases hgrow with ⟨k, hk⟩
  dsimp only at h
  rw [hk] at h
  split at h
  · cases h
  · next j hj =>
      cases h
      unfold firstUnused at hj
      rcases Option.map_eq_some_iff.1 hj with ⟨n, hn, rfl⟩
      rcases List.findIdx?_eq_some_iff_getElem.1 hn with ⟨hlt, hunused, _⟩
      have hget := List.getElem?_eq_getElem hlt
      rw [List.getElem?_drop] at hget
      refine ⟨k, _, hget, by simpa using hunused, ?_, rfl⟩
      show List.modify _ _ _ = _
      rw [List.modify_eq_set_getElem?, hget]
      rfl

theorem ioStep_alloc {evtSize : Nat} {io io' : VmIo} (h : ioStep evtSize .alloc io = some io') :
    ∃ i, allocFd io = .ok (i, io') := by
  rcases Option.map_eq_some_iff.1 h with ⟨⟨i, io''⟩, hok, rfl⟩
  exact ⟨i, toOption_eq_some.1 hok⟩

theorem ioStep_update {evtSize i : Nat} {fd : Int32} {onClose : Bool} {data : SockPtr}
    {io io' : VmIo} (h : ioStep evtSize (.update i fd onClose data) io = some io') :
    ∃ slot, usedSlot i io = some slot ∧ io'.fds = io.fds.set i { slot with fd, onClose, data } ∧
      io'.nIoEvents = io.nIoEvents := by
  rcases Option.map_eq_some_iff.1 h with ⟨slot, hslot, rfl⟩
  exact ⟨slot, hslot, setFd_fds _ (usedSlot_eq_some.1 hslot).1, rfl⟩

/-- The handler of sockets counts the events and frees the data. -/
theorem netIoCloseHandler_ok {evtSize n : Nat} {fd : VmFd} {data : SockPtr}
    (h : netIoCloseHandler evtSize fd = .ok (n, data)) :
    n = fd.events.length ∧ (data = .null ↔ fd.data = .null) := by
  unfold netIoCloseHandler at h
  rcases bind_eq_ok.1 h with ⟨events, hevents, hdata⟩
  rw [readEvents_ok hevents] at hdata
  cases hd : fd.data with
  | null =>
      rw [hd] at hdata
      cases hdata
      exact ⟨rfl, iff_of_true rfl rfl⟩
  | sock addr =>
      rw [hd] at hdata
      cases hdata
      exact ⟨rfl, iff_of_false (by decide) (by simp)⟩
  | freed =>
      rw [hd] at hdata
      cases hdata

/-- **`dealloc_fd`** leaves the events in the slot. The handler of sockets takes their number off
the counter and leaves a pointer to freed data where there was data. -/
theorem ioStep_close {evtSize i : Nat} {io io' : VmIo}
    (h : ioStep evtSize (.close i) io = some io') :
    ∃ fd fd', usedSlot i io = some fd ∧ io'.fds = io.fds.set i fd' ∧ fd'.used = false ∧
      fd'.events = fd.events ∧ (fd'.data = .null ↔ fd.data = .null) ∧
      io'.nIoEvents =
        io.nIoEvents - UInt32.ofNat (if fd.onClose then fd.events.length else 0) := by
  rcases Option.bind_eq_some_iff.1 h with ⟨fd, hfd, hok⟩
  have hdealloc := toOption_eq_some.1 hok
  unfold deallocFd at hdealloc
  rw [(usedSlot_eq_some.1 hfd).1] at hdealloc
  dsimp only at hdealloc
  by_cases hsock : fd.onClose = true
  · -- a socket: `on_close` is called
    rw [if_pos hsock] at hdealloc
    rcases bind_eq_ok.1 hdealloc with ⟨⟨n, data⟩, hclose, hrest⟩
    have hn := netIoCloseHandler_ok hclose
    dsimp only at hrest
    split at hrest
    · cases hrest
    · cases hrest
      refine ⟨fd, _, hfd, rfl, rfl, rfl, hn.2, ?_⟩
      rw [if_pos hsock, hn.1]
  · rw [if_neg hsock] at hdealloc
    rcases bind_eq_ok.1 hdealloc with ⟨⟨n, data⟩, hclose, hrest⟩
    cases hclose
    dsimp only at hrest
    split at hrest
    · cases hrest
    · cases hrest
      refine ⟨fd, _, hfd, rfl, rfl, rfl, Iff.rfl, ?_⟩
      rw [if_neg hsock]

/-- **`alloc_event`** puts an event behind those of the slot. -/
theorem ioStep_submit {evtSize i : Nat} {evt : VmIoEvt} {io io' : VmIo}
    (h : ioStep evtSize (.submit i evt) io = some io') :
    ∃ fd fd', usedSlot i io = some fd ∧ io'.fds = io.fds.set i fd' ∧ fd'.used = true ∧
      fd'.events = fd.events ++ [evt] ∧ fd'.data = fd.data ∧ io'.nIoEvents = io.nIoEvents + 1 := by
  rcases Option.bind_eq_some_iff.1 h with ⟨fd, hfd, hok⟩
  have hused := usedSlot_eq_some.1 hfd
  have halloc := toOption_eq_some.1 hok
  unfold allocEvent at halloc
  rw [hused.1] at halloc
  dsimp only at halloc
  rcases ite_eq_iff.1 halloc with ⟨_, herror⟩ | ⟨_, hfits⟩
  · cases herror
  · rcases ite_eq_iff.1 hfits with ⟨_, hok'⟩ | ⟨_, herror⟩
    · cases hok'
      exact ⟨fd, _, hfd, rfl, hused.2, rfl, rfl, rfl⟩
    · cases herror

/-- **The end of `activate_event`** removes the first event of the direction. -/
theorem ioStep_complete {evtSize i : Nat} {mask : Select} {io io' : VmIo}
    (h : ioStep evtSize (.complete i mask) io = some io') :
    ∃ fd fd' e, usedSlot i io = some fd ∧ firstEvent mask fd.events = some e ∧
      io'.fds = io.fds.set i fd' ∧ fd'.used = true ∧ fd'.events = swapRemove fd.events e ∧
      fd'.data = fd.data ∧ io'.nIoEvents = io.nIoEvents - 1 := by
  rcases Option.bind_eq_some_iff.1 h with ⟨fd, hfd, hread⟩
  rcases Option.bind_eq_some_iff.1 hread with ⟨events, hevents, hfirst⟩
  rcases Option.bind_eq_some_iff.1 hfirst with ⟨e, he, hok⟩
  have hused := usedSlot_eq_some.1 hfd
  rw [readEvents_ok (toOption_eq_some.1 hevents)] at he
  have hremove := toOption_eq_some.1 hok
  unfold removeEvent at hremove
  rw [hused.1] at hremove
  cases hremove
  exact ⟨fd, _, e, hfd, he, rfl, hused.2, rfl, rfl, rfl⟩

/-- **The other slots** that are in use stay as they are. -/
theorem ioStep_other {evtSize i : Nat} {op : IoOp} {io io' : VmIo} {fd : VmFd}
    (hslot : usedSlot i io = some fd) (hop : op.slot ≠ some i)
    (hstep : ioStep evtSize op io = some io') : usedSlot i io' = some fd := by
  have hget := usedSlot_eq_some.1 hslot
  rw [usedSlot_eq_some]
  refine ⟨?_, hget.2⟩
  have hother : ∀ {j : Nat} {slot : VmFd}, op.slot = some j → io'.fds = io.fds.set j slot →
      io'.fds[i]? = some fd := by
    intro j slot hj hfds
    have hji : j ≠ i := by
      rintro rfl
      exact hop hj
    rw [hfds, List.getElem?_set_ne hji]
    exact hget.1
  cases op with
  | alloc =>
      rcases ioStep_alloc hstep with ⟨j, hok⟩
      rcases allocFd_ok hok with ⟨k, slot, hslot', hunused, hfds, _⟩
      have hgrown : (io.fds ++ List.replicate k emptyFd)[i]? = some fd := by
        rw [List.getElem?_append_left (List.getElem?_eq_some_iff.1 hget.1).1]
        exact hget.1
      -- the slot that is handed out was not in use
      have hji : j ≠ i := by
        rintro rfl
        rw [hgrown] at hslot'
        cases hslot'
        rw [hget.2] at hunused
        cases hunused
      rw [hfds, List.getElem?_set_ne hji]
      exact hgrown
  | update j fd' onClose data =>
      rcases ioStep_update hstep with ⟨slot, _, hfds, _⟩
      exact hother rfl hfds
  | close j =>
      rcases ioStep_close hstep with ⟨slot, slot', _, hfds, _⟩
      exact hother rfl hfds
  | submit j evt =>
      rcases ioStep_submit hstep with ⟨slot, slot', _, hfds, _⟩
      exact hother rfl hfds
  | complete j mask =>
      rcases ioStep_complete hstep with ⟨slot, slot', e, _, _, hfds, _⟩
      exact hother rfl hfds

/-- **The events of a table** are those it had, and those that are submitted. -/
theorem ioStep_events {evtSize : Nat} {op : IoOp} {io io' : VmIo}
    (hstep : ioStep evtSize op io = some io') {slot : VmFd} (hslot : slot ∈ io'.fds)
    {evt : VmIoEvt} (hevt : evt ∈ slot.events) :
    (∃ fd ∈ io.fds, evt ∈ fd.events) ∨ ∃ i, op = .submit i evt := by
  have hset : ∀ {i : Nat} {fd fd' : VmFd}, usedSlot i io = some fd → io'.fds = io.fds.set i fd' →
      slot = fd' ∧ fd ∈ io.fds ∨ slot ∈ io.fds := by
    intro i fd fd' hfd hfds
    rw [hfds] at hslot
    rcases List.mem_or_eq_of_mem_set hslot with hold | hnew
    · exact Or.inr hold
    · exact Or.inl ⟨hnew, List.mem_of_getElem? (usedSlot_eq_some.1 hfd).1⟩
  cases op with
  | alloc =>
      rcases ioStep_alloc hstep with ⟨j, hok⟩
      rcases allocFd_ok hok with ⟨k, fd, hget, _, hfds, _⟩
      have hgrown : ∀ fd' ∈ io.fds ++ List.replicate k emptyFd, evt ∈ fd'.events →
          ∃ fd ∈ io.fds, evt ∈ fd.events := by
        intro fd' hfd' hevt'
        rcases List.mem_append.1 hfd' with hold | hnew
        · exact ⟨fd', hold, hevt'⟩
        · rw [(List.mem_replicate.1 hnew).2] at hevt'
          cases hevt'
      rw [hfds] at hslot
      rcases List.mem_or_eq_of_mem_set hslot with hold | hnew
      · exact Or.inl (hgrown slot hold hevt)
      · rw [hnew] at hevt
        exact Or.inl (hgrown fd (List.mem_of_getElem? hget) hevt)
  | update i f onClose data =>
      rcases ioStep_update hstep with ⟨fd, hfd, hfds, _⟩
      rcases hset hfd hfds with ⟨rfl, hmem⟩ | hold
      · exact Or.inl ⟨fd, hmem, hevt⟩
      · exact Or.inl ⟨slot, hold, hevt⟩
  | close i =>
      rcases ioStep_close hstep with ⟨fd, fd', hfd, hfds, _, hevents, _⟩
      rcases hset hfd hfds with ⟨rfl, hmem⟩ | hold
      · rw [hevents] at hevt
        exact Or.inl ⟨fd, hmem, hevt⟩
      · exact Or.inl ⟨slot, hold, hevt⟩
  | submit i e =>
      rcases ioStep_submit hstep with ⟨fd, fd', hfd, hfds, _, hevents, _⟩
      rcases hset hfd hfds with ⟨rfl, hmem⟩ | hold
      · rw [hevents] at hevt
        rcases List.mem_append.1 hevt with hold | hnew
        · exact Or.inl ⟨fd, hmem, hold⟩
        · rw [List.mem_singleton.1 hnew]
          exact Or.inr ⟨i, rfl⟩
      · exact Or.inl ⟨slot, hold, hevt⟩
  | complete i mask =>
      rcases ioStep_complete hstep with ⟨fd, fd', e, hfd, hfirst, hfds, _, hevents, _⟩
      rcases firstEvent_eq_some hfirst with ⟨evt', hevt', _⟩
      rcases hset hfd hfds with ⟨rfl, hmem⟩ | hold
      · rw [hevents] at hevt
        exact Or.inl ⟨fd, hmem, mem_swapRemove hevt' hevt⟩
      · exact Or.inl ⟨slot, hold, hevt⟩

/-- A slot in use that is changed by an action and stays in use. -/
theorem usedSlot_set {i : Nat} {io io' : VmIo} {fd fd' : VmFd} (hslot : usedSlot i io = some fd)
    (hfds : io'.fds = io.fds.set i fd') (hused : fd'.used = true) :
    usedSlot i io' = some fd' := by
  have hlen : i < io.fds.length :=
    (List.getElem?_eq_some_iff.1 (usedSlot_eq_some.1 hslot).1).1
  rw [usedSlot_eq_some, hfds, List.getElem?_set_self hlen]
  exact ⟨rfl, hused⟩

end BvgzVm
