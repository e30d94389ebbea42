import BvgzVm.Lib.Slots
import BvgzVm.Syscalls.IoOps

set_option autoImplicit false

/-! # The count of pending requests

`vm->io.n_io_events` is to be the number of the events in the slots that are in use
(`Balanced`), and `alloc_fd` is to hand out slots without events and socket data. `dealloc_fd`
keeps the counter right for sockets only, whose close handler takes the events off it, and it
leaves the events and a pointer to freed data in the slot. So the books are kept exactly along the
runs that do not close a file with pending requests, do not add a request to `2^32 - 1` others and
do not hand out a slot in which something was left (`ioBooks_iff`).
-/

namespace BvgzVm

open SwapRemove

/-- The requests in the slots that are in use. -/
def pendingEvents (io : VmIo) : Nat := Slots.total (·.used) (·.events.length) io.fds

/-- The counter is right, and `has_pending_io_events` tells whether there is a request. -/
structure Balanced (io : VmIo) : Prop where
  count : io.nIoEvents.toNat = pendingEvents io
  pending : io.hasPending = true ↔ ∃ fd ∈ io.fds, fd.used = true ∧ fd.events ≠ []

/-- Nothing of an earlier owner is in the slot. -/
def VmFd.Clean (fd : VmFd) : Prop := fd.events = [] ∧ fd.data = .null

instance (fd : VmFd) : Decidable fd.Clean := inferInstanceAs (Decidable (_ ∧ _))

/-! ## What is left in slots

The history of a table is kept beside it: the slots that were given back with events or socket
data in them. -/

/-- A table and the slots with leftovers. -/
structure IoHist where
  io : VmIo
  left : List Nat
  deriving DecidableEq, Repr

/-- The slots with leftovers after an action. -/
def leftAfter (op : IoOp) (h : IoHist) : List Nat :=
  match op with
  | .close i =>
      match h.io.fds[i]? with
      | none => h.left
      | some fd => if fd.Clean then h.left else i :: h.left
  | _ => h.left

/-- An action with its history. -/
def ioHistStep (evtSize : Nat) (op : IoOp) (h : IoHist) : Option IoHist :=
  (ioStep evtSize op h.io).map fun io => ⟨io, leftAfter op h⟩

/-- A machine without descriptors. -/
def emptyIoHist : IoHist := ⟨emptyIo, []⟩

/-- The action, if it is made, keeps the books, and a slot that is handed out is clean. -/
def BooksKept (evtSize : Nat) (op : IoOp) (h : IoHist) : Prop :=
  ∀ io', ioStep evtSize op h.io = some io' → Balanced io' ∧
    ∀ i, op = .alloc → allocFd h.io = .ok (i, io') → ∃ fd, io'.fds[i]? = some fd ∧ fd.Clean

/-- The action finds nothing in the slot it hands out, does not close a file with requests, and
has room for one more request in the counter. -/
def Careful (op : IoOp) (h : IoHist) : Prop :=
  match op with
  | .alloc => ∀ i io', allocFd h.io = .ok (i, io') → i ∉ h.left
  | .close i => ∀ fd, h.io.fds[i]? = some fd → fd.onClose = true ∨ fd.events = []
  | .submit _ _ => h.io.nIoEvents ≠ 0xffffffff
  | _ => True

/-- The action, if it is made, is careful. -/
def Undisturbed (evtSize : Nat) (op : IoOp) (h : IoHist) : Prop :=
  (ioStep evtSize op h.io).isSome = true → Careful op h

/-- **The invariant**: the counter is right, and the slots with leftovers are those of the history,
none of them in use. -/
structure BooksInv (h : IoHist) : Prop where
  count : h.io.nIoEvents.toNat = pendingEvents h.io
  bound : ∀ i ∈ h.left, i < h.io.fds.length
  left : ∀ i fd, h.io.fds[i]? = some fd → (i ∈ h.left ↔ fd.used = false ∧ ¬ fd.Clean)

/-! ## The counter -/

/-- The counter tells whether there is a request. -/
theorem balanced_iff {io : VmIo} : Balanced io ↔ io.nIoEvents.toNat = pendingEvents io := by
  constructor
  · intro h
    exact h.count
  · intro hcount
    refine ⟨hcount, ?_⟩
    have hpos : io.hasPending = true ↔ 0 < io.nIoEvents.toNat := by
      rw [VmIo.hasPending, decide_eq_true_iff, gt_iff_lt, UInt32.lt_iff_toNat_lt]
      rfl
    rw [hpos, hcount, pendingEvents, Slots.total_pos_iff]
    simp only [List.length_pos_iff]

/-- The requests, when a slot that is in use changes and stays in use. -/
theorem pendingEvents_set {io io' : VmIo} {i : Nat} {fd fd' : VmFd}
    (hslot : usedSlot i io = some fd) (hfds : io'.fds = io.fds.set i fd') (hused : fd'.used = true) :
    pendingEvents io' + fd.events.length = pendingEvents io + fd'.events.length := by
  have hget := usedSlot_eq_some.1 hslot
  have hset := Slots.total_set (·.used) (fun fd : VmFd => fd.events.length) fd' hget.1
  rw [Slots.weight_of_used _ _ hget.2, Slots.weight_of_used _ _ hused, ← hfds] at hset
  exact hset

/-- The requests, when a slot is given back. -/
theorem pendingEvents_unset {io io' : VmIo} {i : Nat} {fd fd' : VmFd}
    (hslot : usedSlot i io = some fd) (hfds : io'.fds = io.fds.set i fd')
    (hused : fd'.used = false) : pendingEvents io' + fd.events.length = pendingEvents io := by
  have hget := usedSlot_eq_some.1 hslot
  have hset := Slots.total_set (·.used) (fun fd : VmFd => fd.events.length) fd' hget.1
  rw [Slots.weight_of_used _ _ hget.2, Slots.weight_of_unused _ _ hused, ← hfds] at hset
  exact hset

/-- The requests, when a slot is handed out: what was left in it counts. -/
theorem pendingEvents_alloc {io io' : VmIo} {i k : Nat} {fd fd' : VmFd}
    (hget : (io.fds ++ List.replicate k emptyFd)[i]? = some fd) (hunused : fd.used = false)
    (hfds : io'.fds = (io.fds ++ List.replicate k emptyFd).set i fd') (hused : fd'.used = true) :
    pendingEvents io' = pendingEvents io + fd'.events.length := by
  have hset := Slots.total_set (·.used) (fun fd : VmFd => fd.events.length) fd' hget
  rw [Slots.weight_of_unused _ _ hunused, Slots.weight_of_used _ _ hused, ← hfds,
    Slots.total_append_unused _ _ _ _ (show emptyFd.used = false from rfl)] at hset
  exact hset

/-! ## One action -/

variable {evtSize : Nat}

/-- Handing out a slot keeps the books if nothing was left in it. -/
theorem booksKept_alloc {h : IoHist} (hinv : BooksInv h) {i : Nat} {io' : VmIo}
    (hok : allocFd h.io = .ok (i, io')) :
    (Balanced io' ∧ ∃ fd, io'.fds[i]? = some fd ∧ fd.Clean) ↔ i ∉ h.left := by
  rcases allocFd_ok hok with ⟨k, fd, hget, hunused, hfds, hcount⟩
  have hpending := pendingEvents_alloc hget hunused hfds rfl
  have hlen : i < (h.io.fds ++ List.replicate k emptyFd).length :=
    (List.getElem?_eq_some_iff.1 hget).1
  have hget' : io'.fds[i]? = some { fd with used := true, onClose := false } := by
    rw [hfds, List.getElem?_set_self hlen]
  -- the slot has leftovers when it is in the history
  have hleft : i ∈ h.left ↔ ¬ fd.Clean := by
    by_cases hold : i < h.io.fds.length
    · rw [List.getElem?_append_left hold] at hget
      rw [hinv.left i fd hget]
      exact and_iff_right hunused
    · rw [List.getElem?_append_right (Nat.le_of_not_lt hold)] at hget
      have hempty : fd = emptyFd := (List.mem_replicate.1 (List.mem_of_getElem? hget)).2
      refine iff_of_false (fun hi => hold (hinv.bound i hi)) ?_
      rw [hempty]
      decide
  rw [hleft, not_not, balanced_iff, hcount, hinv.count, hpending]
  constructor
  · rintro ⟨_, fd', hfd', hclean⟩
    rw [hget'] at hfd'
    cases hfd'
    exact hclean
  · intro hclean
    refine ⟨?_, _, hget', hclean⟩
    show _ = pendingEvents h.io + fd.events.length
    rw [hclean.1]
    rfl

/-- Giving a slot back keeps the books if it is a socket or has no requests. -/
theorem booksKept_close {h : IoHist} (hinv : BooksInv h) {i : Nat} {io' : VmIo}
    (hok : ioStep evtSize (.close i) h.io = some io') :
    Balanced io' ↔ ∀ fd, h.io.fds[i]? = some fd → fd.onClose = true ∨ fd.events = [] := by
  rcases ioStep_close hok with ⟨fd, fd', hslot, hfds, hunused, _, _, hcount⟩
  have hget := (usedSlot_eq_some.1 hslot).1
  have hpending := pendingEvents_unset hslot hfds hunused
  have hinv' := hinv.count
  have hfd : (∀ slot, h.io.fds[i]? = some slot → slot.onClose = true ∨ slot.events = []) ↔
      (fd.onClose = true ∨ fd.events = []) := by
    rw [hget]
    simp
  rw [balanced_iff, hfd, hcount]
  by_cases hsock : fd.onClose = true
  · rw [if_pos hsock, Slots.toNat_sub_ofNat (by omega)]
    exact iff_of_true (by omega) (Or.inl hsock)
  · rw [if_neg hsock, Slots.toNat_sub_ofNat (Nat.zero_le _), ← List.length_eq_zero_iff]
    constructor
    · intro heq
      exact Or.inr (by omega)
    · rintro (hsock' | hnil)
      · exact absurd hsock' hsock
      · omega

/-- A new request keeps the books if the counter does not wrap around. -/
theorem booksKept_submit {h : IoHist} (hinv : BooksInv h) {i : Nat} {evt : VmIoEvt} {io' : VmIo}
    (hok : ioStep evtSize (.submit i evt) h.io = some io') :
    Balanced io' ↔ h.io.nIoEvents ≠ 0xffffffff := by
  rcases ioStep_submit hok with ⟨fd, fd', hslot, hfds, hused, hevents, _, hcount⟩
  have hpending := pendingEvents_set hslot hfds hused
  rw [hevents, List.length_append, List.length_singleton] at hpending
  rw [balanced_iff, ← Slots.toNat_add_one_iff, hcount, hinv.count]
  omega

/-- A request that is done is taken off. -/
theorem booksKept_complete {h : IoHist} (hinv : BooksInv h) {i : Nat} {mask : Select} {io' : VmIo}
    (hok : ioStep evtSize (.complete i mask) h.io = some io') : Balanced io' := by
  rcases ioStep_complete hok with ⟨fd, fd', e, hslot, hfirst, hfds, hused, hevents, _, hcount⟩
  rcases firstEvent_eq_some hfirst with ⟨evt, hevt, _⟩
  have hpending := pendingEvents_set hslot hfds hused
  have hlen := length_swapRemove hevt
  have hinv' := hinv.count
  rw [hevents] at hpending
  rw [balanced_iff, hcount]
  have hsub := Slots.toNat_sub_ofNat (c := h.io.nIoEvents) (n := 1) (by omega)
  change (h.io.nIoEvents - 1).toNat = _ at hsub
  omega

/-- Filling in the fields of a slot does not touch the books. -/
theorem booksKept_update {h : IoHist} (hinv : BooksInv h) {i : Nat} {fd : Int32} {onClose : Bool}
    {data : SockPtr} {io' : VmIo}
    (hok : ioStep evtSize (.update i fd onClose data) h.io = some io') : Balanced io' := by
  rcases ioStep_update hok with ⟨slot, hslot, hfds, hcount⟩
  have hpending := pendingEvents_set hslot hfds (usedSlot_eq_some.1 hslot).2
  have hinv' := hinv.count
  rw [balanced_iff, hcount]
  change pendingEvents io' + slot.events.length = _ + slot.events.length at hpending
  omega

/-- **An action keeps the books exactly if it is undisturbed.** -/
theorem booksKept_iff {h : IoHist} (hinv : BooksInv h) (op : IoOp) :
    BooksKept evtSize op h ↔ Undisturbed evtSize op h := by
  -- an action that is not made has nothing to keep
  cases hstep : ioStep evtSize op h.io with
  | none =>
      refine iff_of_true ?_ ?_
      · intro io' hio'
        rw [hstep] at hio'
        cases hio'
      · intro hsome
        rw [hstep] at hsome
        cases hsome
  | some io' =>
      have hkept : BooksKept evtSize op h ↔ Balanced io' ∧
          ∀ i, op = .alloc → allocFd h.io = .ok (i, io') →
            ∃ fd, io'.fds[i]? = some fd ∧ fd.Clean := by
        unfold BooksKept
        rw [hstep]
        simp
      have hsome : (ioStep evtSize op h.io).isSome = true := by rw [hstep]; rfl
      rw [hkept, Undisturbed, imp_iff_right hsome]
      cases op with
      | alloc =>
          rcases ioStep_alloc hstep with ⟨i, hok⟩
          have hbooks := booksKept_alloc hinv hok
          rw [Careful, hok]
          constructor
          · rintro ⟨hbal, hclean⟩ j io'' hj
            cases hj
            exact hbooks.1 ⟨hbal, hclean i rfl rfl⟩
          · intro hleft
            have hboth := hbooks.2 (hleft i io' rfl)
            refine ⟨hboth.1, ?_⟩
            intro j _ hj
            cases hj
            exact hboth.2
      | update i fd onClose data =>
          exact iff_of_true ⟨booksKept_update hinv hstep, fun _ hop => by cases hop⟩ trivial
      | close i =>
          rw [Careful, ← booksKept_close hinv hstep]
          exact and_iff_left (fun _ hop => by cases hop)
      | submit i evt =>
          rw [Careful, ← booksKept_submit hinv hstep]
          exact and_iff_left (fun _ hop => by cases hop)
      | complete i mask =>
          exact iff_of_true ⟨booksKept_complete hinv hstep, fun _ hop => by cases hop⟩ trivial

/-! ## The history -/

/-- The history, when one slot of a table that may have grown changes. -/
theorem left_set {h : IoHist} (hinv : BooksInv h) {io' : VmIo} {left : List Nat} {k i : Nat}
    {fd fd' : VmFd} (hget : (h.io.fds ++ List.replicate k emptyFd)[i]? = some fd)
    (hfds : io'.fds = (h.io.fds ++ List.replicate k emptyFd).set i fd')
    (hother : ∀ j, j ≠ i → (j ∈ left ↔ j ∈ h.left))
    (hself : i ∈ left ↔ fd'.used = false ∧ ¬ fd'.Clean) :
    (∀ j ∈ left, j < io'.fds.length) ∧
      ∀ j fd, io'.fds[j]? = some fd → (j ∈ left ↔ fd.used = false ∧ ¬ fd.Clean) := by
  have hlen : i < (h.io.fds ++ List.replicate k emptyFd).length :=
    (List.getElem?_eq_some_iff.1 hget).1
  rw [hfds, List.length_set]
  constructor
  · intro j hj
    by_cases hji : j = i
    · rw [hji]
      exact hlen
    · have := hinv.bound j ((hother j hji).1 hj)
      rw [List.length_append]
      omega
  · intro j slot hslot
    by_cases hji : j = i
    · rw [hji, List.getElem?_set_self hlen] at hslot
      cases hslot
      rw [hji]
      exact hself
    · rw [List.getElem?_set_ne (Ne.symm hji)] at hslot
      rw [hother j hji]
      by_cases hold : j < h.io.fds.length
      · rw [List.getElem?_append_left hold] at hslot
        exact hinv.left j slot hslot
      · rw [List.getElem?_append_right (Nat.le_of_not_lt hold)] at hslot
        have hempty : slot = emptyFd := (List.mem_replicate.1 (List.mem_of_getElem? hslot)).2
        refine iff_of_false (fun hj => hold (hinv.bound j hj)) ?_
        rw [hempty]
        decide

/-- A slot that is in use and stays in use. -/
theorem left_used {h : IoHist} (hinv : BooksInv h) {io' : VmIo} {i : Nat} {fd fd' : VmFd}
    (hslot : usedSlot i h.io = some fd) (hfds : io'.fds = h.io.fds.set i fd')
    (hused : fd'.used = true) :
    (∀ j ∈ h.left, j < io'.fds.length) ∧
      ∀ j slot, io'.fds[j]? = some slot → (j ∈ h.left ↔ slot.used = false ∧ ¬ slot.Clean) := by
  have hget := usedSlot_eq_some.1 hslot
  have hself : i ∈ h.left ↔ fd'.used = false ∧ ¬ fd'.Clean := by
    rw [hinv.left i fd hget.1, hget.2, hused]
    simp
  refine @left_set h hinv io' h.left 0 i fd fd' ?_ ?_ (fun _ _ => Iff.rfl) hself
  · rw [List.replicate_zero, List.append_nil]
    exact hget.1
  · rw [List.replicate_zero, List.append_nil]
    exact hfds

/-- **The invariant is kept** by an action that keeps the books. -/
theorem booksInv_step {h h' : IoHist} (hinv : BooksInv h) {op : IoOp}
    (hkept : BooksKept evtSize op h) (hstep : ioHistStep evtSize op h = some h') :
    BooksInv h' := by
  rcases Option.map_eq_some_iff.1 hstep with ⟨io', hio', rfl⟩
  have hbal := (hkept io' hio').1
  have hleft : (∀ j ∈ leftAfter op h, j < io'.fds.length) ∧
      ∀ j fd, io'.fds[j]? = some fd → (j ∈ leftAfter op h ↔ fd.used = false ∧ ¬ fd.Clean) := by
    cases op with
    | alloc =>
        rcases ioStep_alloc hio' with ⟨i, hok⟩
        rcases allocFd_ok hok with ⟨k, fd, hget, hunused, hfds, _⟩
        -- the slot was not in the history, since it is clean
        have hi : i ∉ h.left := (booksKept_alloc hinv hok).1 ⟨hbal, (hkept io' hio').2 i rfl hok⟩
        refine left_set hinv hget hfds (fun _ _ => Iff.rfl) (iff_of_false hi ?_)
        simp
    | update i fd onClose data =>
        rcases ioStep_update hio' with ⟨slot, hslot, hfds, _⟩
        exact left_used hinv hslot hfds (usedSlot_eq_some.1 hslot).2
    | close i =>
        rcases ioStep_close hio' with ⟨fd, fd', hslot, hfds, hunused, hevents, hdata, _⟩
        have hget := usedSlot_eq_some.1 hslot
        have hclean : fd'.Clean ↔ fd.Clean := by
          unfold VmFd.Clean
          rw [hevents, hdata]
        have hi : i ∉ h.left := by
          rw [hinv.left i fd hget.1, hget.2]
          simp
        refine @left_set h hinv io' _ 0 i fd fd' ?_ ?_ ?_ ?_
        · rw [List.replicate_zero, List.append_nil]
          exact hget.1
        · rw [List.replicate_zero, List.append_nil]
          exact hfds
        · intro j hj
          simp only [leftAfter, hget.1]
          split
          · exact Iff.rfl
          · rw [List.mem_cons, or_iff_right hj]
        · simp only [leftAfter, hget.1, hunused, hclean]
          by_cases hc : fd.Clean
          · simp [hc, hi]
          · simp [hc]
    | submit i evt =>
        rcases ioStep_submit hio' with ⟨fd, fd', hslot, hfds, hused, _⟩
        exact left_used hinv hslot hfds hused
    | complete i mask =>
        rcases ioStep_complete hio' with ⟨fd, fd', e, hslot, _, hfds, hused, _⟩
        exact left_used hinv hslot hfds hused
  exact ⟨balanced_iff.1 hbal, hleft.1, hleft.2⟩

theorem booksInv_empty : BooksInv emptyIoHist := by
  refine ⟨rfl, ?_, ?_⟩
  · intro i hi
    cases hi
  · intro i fd hfd
    cases hfd

/-! ## Every sequence of actions -/

/-- **The books are kept** along a run exactly if each of its actions is undisturbed: no file is
closed with requests pending, no request is added to `2^32 - 1` others, and no slot is handed out
again that was given back with requests or socket data in it. -/
theorem ioBooks_iff (evtSize : Nat) (ops : List IoOp) :
    Steps.Along (ioHistStep evtSize) (BooksKept evtSize) ops emptyIoHist ↔
      Steps.Along (ioHistStep evtSize) (Undisturbed evtSize) ops emptyIoHist :=
  Steps.along_iff (fun op _ hinv => booksKept_iff hinv op)
    (fun _ _ _ hinv hkept hstep => booksInv_step hinv hkept hstep) booksInv_empty

/-- A file is closed while a read is pending: the counter stays at one, without a slot in use. -/
theorem ioBooks_closedFile :
    ¬ Steps.Along (ioHistStep 24) (BooksKept 24)
      [.alloc, .submit 0 (.read 0 8 ⟨0, 8⟩), .close 0] emptyIoHist := by
  intro h
  have hclose := (((h.2 _ rfl).2 _ rfl).1 _ rfl).1.count
  exact absurd hclose (by decide)

end BvgzVm
