import BvgzVm.Lib.Slots
import BvgzVm.Syscalls.IoOps

set_option autoImplicit false

/-! # The slots of descriptors

`alloc_fd` looks for a free slot from the start of the table, or behind it if it has just grown.
That there is one, so that `abort()` is not reached, follows from the count of the slots in use
(`SlotsCounted`), which every action on the table keeps (`alloc_handsOut`).
-/

namespace BvgzVm

variable {evtSize : Nat}

/-- `used_fds` is the number of the slots in use. -/
structure SlotsCounted (io : VmIo) : Prop where
  count : io.usedFds = (io.fds.filter (·.used)).length
  bound : io.usedFds ≤ io.fds.length

/-- The slot `i` was free and is in use; the other slots are as before, and new ones are free. -/
structure HandsOut (i : Nat) (io io' : VmIo) : Prop where
  free : ∀ fd, io.fds[i]? = some fd → fd.used = false
  marked : ∃ fd, io'.fds[i]? = some fd ∧ fd.used = true
  kept : ∀ j ≠ i, ∀ fd, io.fds[j]? = some fd → io'.fds[j]? = some fd
  fresh : ∀ j ≠ i, io.fds[j]? = none → ∀ fd, io'.fds[j]? = some fd → fd.used = false

/-! ## Counting -/

theorem usedCount_eq (fds : List VmFd) :
    (fds.filter (·.used)).length = Slots.total (·.used) (fun _ => 1) fds := by
  unfold Slots.total
  rw [List.map_const', List.sum_replicate, smul_eq_mul, Nat.mul_one]

/-- The count, when one slot changes. -/
theorem usedCount_set {fds : List VmFd} {i : Nat} {fd : VmFd} (fd' : VmFd)
    (h : fds[i]? = some fd) :
    ((fds.set i fd').filter (·.used)).length + (if fd.used then 1 else 0) =
      (fds.filter (·.used)).length + (if fd'.used then 1 else 0) := by
  rw [usedCount_eq, usedCount_eq]
  exact Slots.total_set (·.used) (fun _ => 1) fd' h

/-- The count, when free slots are added. -/
theorem usedCount_grow (fds : List VmFd) (k : Nat) :
    ((fds ++ List.replicate k emptyFd).filter (·.used)).length =
      (fds.filter (·.used)).length := by
  rw [usedCount_eq, usedCount_eq]
  exact Slots.total_append_unused (·.used) (fun _ => 1) fds k (show emptyFd.used = false from rfl)

/-- Where not all slots are in use, one is free. -/
theorem exists_unused {fds : List VmFd} (h : (fds.filter (·.used)).length < fds.length) :
    ∃ fd ∈ fds, fd.used = false := by
  by_contra hnone
  have hall : fds.filter (·.used) = fds := by
    rw [List.filter_eq_self]
    intro fd hfd
    by_contra hunused
    exact hnone ⟨fd, hfd, Bool.eq_false_iff.2 hunused⟩
  rw [hall] at h
  exact Nat.lt_irrefl _ h

/-- A free slot in the part of the table that is searched is found. -/
theorem firstUnused_isSome {fds : List VmFd} {start : Nat} {fd : VmFd} (hfd : fd ∈ fds.drop start)
    (hunused : fd.used = false) : ∃ i, firstUnused fds start = some i := by
  have hfound : ((fds.drop start).findIdx? (fun fd => !fd.used)).isSome := by
    rw [List.findIdx?_isSome, List.any_eq_true]
    exact ⟨fd, hfd, by rw [hunused]; rfl⟩
  rcases Option.isSome_iff_exists.1 hfound with ⟨n, hn⟩
  refine ⟨start + n, ?_⟩
  rw [firstUnused, hn, Option.map_some]

/-! ## `alloc_fd` -/

/-- **The search succeeds**, in the old table or in the part that has been added. -/
theorem allocFd_isOk {io : VmIo} (h : SlotsCounted io) : ∃ i io', allocFd io = .ok (i, io') := by
  unfold allocFd
  by_cases hfull : io.usedFds = io.fds.length
  · have hnew : emptyFd ∈
        (io.fds ++ List.replicate fdAllocStep emptyFd).drop io.fds.length := by
      rw [List.drop_left]
      exact List.mem_replicate.2 ⟨by decide, rfl⟩
    rcases firstUnused_isSome hnew rfl with ⟨i, hi⟩
    simp only [hfull, if_true, hi]
    exact ⟨i, _, rfl⟩
  · have hlt : (io.fds.filter (·.used)).length < io.fds.length := by
      have hcount := h.count
      have hbound := h.bound
      omega
    rcases exists_unused hlt with ⟨fd, hfd, hunused⟩
    rcases @firstUnused_isSome io.fds 0 fd hfd hunused with ⟨i, hi⟩
    simp only [hfull, if_false, hi]
    exact ⟨i, _, rfl⟩

theorem handsOut_of_ok {io io' : VmIo} {i : Nat} (h : allocFd io = .ok (i, io')) :
    HandsOut i io io' := by
  rcases allocFd_ok h with ⟨k, fd, hget, hunused, hfds, -⟩
  have hi : i < (io.fds ++ List.replicate k emptyFd).length :=
    (List.getElem?_eq_some_iff.1 hget).1
  constructor
  · intro fd' hfd'
    have hlt := (List.getElem?_eq_some_iff.1 hfd').1
    rw [List.getElem?_append_left hlt, hfd'] at hget
    rw [Option.some.inj hget]
    exact hunused
  · refine ⟨{ fd with used := true, onClose := false }, ?_, rfl⟩
    rw [hfds, List.getElem?_set_self hi]
  · intro j hj fd' hfd'
    have hlt := (List.getElem?_eq_some_iff.1 hfd').1
    rw [hfds, List.getElem?_set_ne hj.symm, List.getElem?_append_left hlt]
    exact hfd'
  · intro j hj hnone fd' hfd'
    rw [hfds, List.getElem?_set_ne hj.symm,
      List.getElem?_append_right (List.getElem?_eq_none_iff.1 hnone)] at hfd'
    rw [(List.mem_replicate.1 (List.mem_of_getElem? hfd')).2]
    rfl

theorem allocFd_usedFds {io io' : VmIo} {i : Nat} (h : allocFd io = .ok (i, io')) :
    io'.usedFds = io.usedFds + 1 := by
  unfold allocFd at h
  dsimp only at h
  split at h
  · cases h
  · cases h
    rfl

/-! ## Runs -/

theorem SlotsCounted.of_count {io : VmIo} (h : io.usedFds = (io.fds.filter (·.used)).length) :
    SlotsCounted io :=
  ⟨h, h ▸ List.length_filter_le _ _⟩

/-- A slot in use changes and stays in use. -/
theorem SlotsCounted.set {io io' : VmIo} {i : Nat} {fd fd' : VmFd} (h : SlotsCounted io)
    (hslot : usedSlot i io = some fd) (hfds : io'.fds = io.fds.set i fd') (hused : fd'.used = true)
    (hcount : io'.usedFds = io.usedFds) : SlotsCounted io' := by
  have hget := usedSlot_eq_some.1 hslot
  have hset := usedCount_set fd' hget.1
  rw [hget.2, hused] at hset
  refine SlotsCounted.of_count ?_
  rw [hcount, h.count, hfds]
  exact (Nat.add_right_cancel hset).symm

/-- What the actions do to the counter. -/
theorem ioStep_usedFds {op : IoOp} {io io' : VmIo} (hstep : ioStep evtSize op io = some io') :
    io'.usedFds = match op with
      | .alloc => io.usedFds + 1
      | .close _ => io.usedFds - 1
      | _ => io.usedFds := by
  cases op with
  | alloc =>
      rcases ioStep_alloc hstep with ⟨i, hok⟩
      exact allocFd_usedFds hok
  | update i fd onClose data =>
      rcases Option.map_eq_some_iff.1 hstep with ⟨slot, -, rfl⟩
      rfl
  | close i =>
      rcases Option.bind_eq_some_iff.1 hstep with ⟨fd, hfd, hok⟩
      have hdealloc := Fallible.toOption_eq_some.1 hok
      unfold deallocFd at hdealloc
      rw [(usedSlot_eq_some.1 hfd).1] at hdealloc
      dsimp only at hdealloc
      split at hdealloc
      · rcases Fallible.bind_eq_ok.1 hdealloc with ⟨⟨n, data⟩, -, hrest⟩
        dsimp only at hrest
        split at hrest
        · cases hrest
        · cases hrest
          rfl
      · rcases Fallible.bind_eq_ok.1 hdealloc with ⟨⟨n, data⟩, -, hrest⟩
        dsimp only at hrest
        split at hrest
        · cases hrest
        · cases hrest
          rfl
  | submit i evt =>
      rcases Option.bind_eq_some_iff.1 hstep with ⟨fd, hfd, hok⟩
      have halloc := Fallible.toOption_eq_some.1 hok
      unfold allocEvent at halloc
      rw [(usedSlot_eq_some.1 hfd).1] at halloc
      dsimp only at halloc
      rcases ite_eq_iff.1 halloc with ⟨-, herror⟩ | ⟨-, hfits⟩
      · cases herror
      · rcases ite_eq_iff.1 hfits with ⟨-, hok'⟩ | ⟨-, herror⟩
        · cases hok'
          rfl
        · cases herror
  | complete i mask =>
      rcases Option.bind_eq_some_iff.1 hstep with ⟨fd, hfd, hread⟩
      rcases Option.bind_eq_some_iff.1 hread with ⟨events, -, hfirst⟩
      rcases Option.bind_eq_some_iff.1 hfirst with ⟨e, -, hok⟩
      have hremove := Fallible.toOption_eq_some.1 hok
      unfold removeEvent at hremove
      rw [(usedSlot_eq_some.1 hfd).1] at hremove
      cases hremove
      rfl

/-- **One action keeps the count**, whatever it does to the other fields of a slot. -/
theorem SlotsCounted.step {op : IoOp} {io io' : VmIo} (h : SlotsCounted io)
    (hstep : ioStep evtSize op io = some io') : SlotsCounted io' := by
  have hcount := ioStep_usedFds hstep
  cases op with
  | alloc =>
      rcases ioStep_alloc hstep with ⟨i, hok⟩
      rcases allocFd_ok hok with ⟨k, fd, hget, hunused, hfds, -⟩
      have hset := usedCount_set { fd with used := true, onClose := false } hget
      rw [hunused, usedCount_grow, ← hfds] at hset
      refine SlotsCounted.of_count ?_
      have hold := h.count
      dsimp only at hcount
      simp only [Bool.false_eq_true, if_false, if_true] at hset
      omega
  | update i f onClose data =>
      rcases ioStep_update hstep with ⟨slot, hslot, hfds, -⟩
      exact h.set hslot hfds (usedSlot_eq_some.1 hslot).2 hcount
  | close i =>
      rcases ioStep_close hstep with ⟨fd, fd', hslot, hfds, hunused, -⟩
      have hget := usedSlot_eq_some.1 hslot
      have hset := usedCount_set fd' hget.1
      rw [hunused, hget.2, ← hfds] at hset
      refine SlotsCounted.of_count ?_
      have hold := h.count
      dsimp only at hcount
      simp only [Bool.false_eq_true, if_false, if_true] at hset
      omega
  | submit i evt =>
      rcases ioStep_submit hstep with ⟨fd, fd', hslot, hfds, hused, -⟩
      exact h.set hslot hfds hused hcount
  | complete i mask =>
      rcases ioStep_complete hstep with ⟨fd, fd', e, hslot, -, hfds, hused, -⟩
      exact h.set hslot hfds hused hcount

/-- **Along every run** of `alloc_fd`, of `dealloc_fd` on slots in use, and of whatever else is done
to such slots, the count is right, and `alloc_fd` returns a free slot and takes no other one. -/
theorem alloc_handsOut {ops : List IoOp} {io : VmIo}
    (hrun : Steps.run (ioStep evtSize) ops emptyIo = some io) :
    SlotsCounted io ∧ ∃ i io', allocFd io = .ok (i, io') ∧ HandsOut i io io' := by
  have hcounted : SlotsCounted io :=
    Steps.run_invariant (fun _ _ _ h hstep => SlotsCounted.step h hstep) ⟨rfl, le_rfl⟩ hrun
  rcases allocFd_isOk hcounted with ⟨i, io', hok⟩
  exact ⟨hcounted, i, io', hok, handsOut_of_ok hok⟩

/-- The table after six slots were handed out and the third was given back. -/
def sixSlots : List IoOp := List.replicate 6 .alloc ++ [.close 2]

theorem alloc_handsOut_six : ∃ io, Steps.run (ioStep 24) sixSlots emptyIo = some io ∧
    SlotsCounted io ∧ ∃ i io', allocFd io = .ok (i, io') ∧ HandsOut i io io' := by
  have hsome : (Steps.run (ioStep 24) sixSlots emptyIo).isSome := by decide
  rcases Option.isSome_iff_exists.1 hsome with ⟨io, hrun⟩
  exact ⟨io, hrun, alloc_handsOut hrun⟩

end BvgzVm
