import BvgzVm.Syscalls.IoOps

set_option autoImplicit false

/-! # The requests of a handle

While a handle is open, its slot holds the requests that were submitted and not completed: none is
lost and none is completed twice (`requests_perm`). The requests of a direction are completed in
the order in which they were submitted as long as the event that takes the place of a completed
one does not jump over a request of its own direction (`requests_inOrder`).
-/

namespace BvgzVm

open SwapRemove

/-! ## Submitted, pending and completed requests -/

/-- The events in a slot. -/
def slotEvents (i : Nat) (io : VmIo) : List VmIoEvt := ((io.fds[i]?).map (·.events)).getD []

/-- The request that an action submits on a handle. -/
def submittedBy (i : Nat) : IoOp → List VmIoEvt
  | .submit j evt => if j = i then [evt] else []
  | _ => []

/-- The request of a handle that an action completes. -/
def completedBy (i : Nat) (op : IoOp) (io : VmIo) : List VmIoEvt :=
  match op with
  | .complete j mask =>
      if j = i then
        match firstEvent mask (slotEvents i io) with
        | none => []
        | some e => ((slotEvents i io)[e]?).toList
      else []
  | _ => []

/-- The requests that are submitted on a handle, in order. -/
def submitted (i : Nat) (ops : List IoOp) : List VmIoEvt := ops.flatMap (submittedBy i)

/-- The requests of a handle that are completed in a run, in order. -/
def completed (evtSize i : Nat) : List IoOp → VmIo → List VmIoEvt
  | [], _ => []
  | op :: ops, io =>
      completedBy i op io ++
        match ioStep evtSize op io with
        | none => []
        | some io' => completed evtSize i ops io'

/-- The requests of a direction. -/
def ofDirection (d : Select) (events : List VmIoEvt) : List VmIoEvt :=
  events.filter (·.flags = d)

/-- A completion on the handle `i` lets no request of the direction `d` jump over another one:
the last event, which takes the place of the completed one, has the other direction or is behind
no other request of its own. -/
def KeepsOrder (i : Nat) (d : Select) (op : IoOp) (io : VmIo) : Prop :=
  ∀ mask a evt m y, op = .complete i mask → slotEvents i io = a ++ evt :: (m ++ [y]) →
    firstEvent mask (slotEvents i io) = some a.length → y.flags = d →
      ∀ x ∈ m, x.flags = d → x = y

/-! ## One action -/

variable {evtSize i : Nat}

theorem slotEvents_of_used {io : VmIo} {fd : VmFd} (h : usedSlot i io = some fd) :
    slotEvents i io = fd.events := by
  unfold slotEvents
  rw [(usedSlot_eq_some.1 h).1]
  rfl

/-- What an action on a handle that stays open does to its events: it leaves them, appends a
request or removes one. -/
inductive Serves (i : Nat) (op : IoOp) (io io' : VmIo) : Prop
  | idle (hcompleted : completedBy i op io = []) (hsubmitted : submittedBy i op = [])
      (hevents : slotEvents i io' = slotEvents i io)
  | submit (evt : VmIoEvt) (hcompleted : completedBy i op io = [])
      (hsubmitted : submittedBy i op = [evt])
      (hevents : slotEvents i io' = slotEvents i io ++ [evt])
  | complete (mask : Select) (e : Nat) (evt : VmIoEvt) (hop : op = .complete i mask)
      (hfirst : firstEvent mask (slotEvents i io) = some e)
      (hevt : (slotEvents i io)[e]? = some evt) (hcompleted : completedBy i op io = [evt])
      (hsubmitted : submittedBy i op = [])
      (hevents : slotEvents i io' = swapRemove (slotEvents i io) e)

/-- **A handle that is not closed stays open**, and its events change in one of three ways. -/
theorem serves {op : IoOp} {io io' : VmIo} (hslot : (usedSlot i io).isSome = true)
    (hclose : op ≠ .close i) (hstep : ioStep evtSize op io = some io') :
    (usedSlot i io').isSome = true ∧ Serves i op io io' := by
  rcases Option.isSome_iff_exists.1 hslot with ⟨fd, hfd⟩
  have hevents := slotEvents_of_used hfd
  by_cases hop : op.slot = some i
  · cases op with
    | alloc => cases hop
    | update j fd' onClose data =>
        cases hop
        rcases ioStep_update hstep with ⟨slot, hslot', hfds, _⟩
        rw [hfd] at hslot'
        cases hslot'
        have hused := usedSlot_set hfd hfds (usedSlot_eq_some.1 hfd).2
        refine ⟨Option.isSome_of_mem hused, .idle rfl rfl ?_⟩
        rw [slotEvents_of_used hused, hevents]
    | close j =>
        cases hop
        exact absurd rfl hclose
    | submit j evt =>
        cases hop
        rcases ioStep_submit hstep with ⟨slot, slot', hslot', hfds, hused', hevents', _⟩
        rw [hfd] at hslot'
        cases hslot'
        have hused := usedSlot_set hfd hfds hused'
        refine ⟨Option.isSome_of_mem hused, .submit evt rfl ?_ ?_⟩
        · exact if_pos rfl
        · rw [slotEvents_of_used hused, hevents, hevents']
    | complete j mask =>
        cases hop
        rcases ioStep_complete hstep with ⟨slot, slot', e, hslot', hfirst, hfds, hused', hevents', _⟩
        rw [hfd] at hslot'
        cases hslot'
        rw [← hevents] at hfirst hevents'
        have hused := usedSlot_set hfd hfds hused'
        rcases firstEvent_eq_some hfirst with ⟨evt, hevt, _⟩
        refine ⟨Option.isSome_of_mem hused, .complete mask e evt rfl hfirst hevt ?_ rfl ?_⟩
        · simp only [completedBy, if_pos, hfirst, hevt, Option.toList_some]
        · rw [slotEvents_of_used hused, hevents']
  · have hused := ioStep_other hfd hop hstep
    refine ⟨Option.isSome_of_mem hused, .idle ?_ ?_ ?_⟩
    · cases op with
      | complete j mask => exact if_neg (fun hj => hop (congrArg some hj))
      | _ => rfl
    · cases op with
      | submit j evt => exact if_neg (fun hj => hop (congrArg some hj))
      | _ => rfl
    · rw [slotEvents_of_used hused, hevents]

/-- No request gets lost or is completed twice by an action. -/
theorem Serves.perm {op : IoOp} {io io' : VmIo} (h : Serves i op io io') :
    (completedBy i op io ++ slotEvents i io').Perm (slotEvents i io ++ submittedBy i op) := by
  cases h with
  | idle hcompleted hsubmitted hevents =>
      rw [hcompleted, hsubmitted, hevents, List.append_nil]
      exact List.Perm.refl _
  | submit evt hcompleted hsubmitted hevents =>
      rw [hcompleted, hsubmitted, hevents]
      exact List.Perm.refl _
  | complete mask e evt hop hfirst hevt hcompleted hsubmitted hevents =>
      rw [hcompleted, hsubmitted, hevents, List.append_nil]
      exact swapRemove_perm hevt

/-- The events in front of the first one of a direction have the other direction. -/
theorem ofDirection_front {mask d : Select} {events a r : List VmIoEvt} {evt : VmIoEvt}
    (hfirst : firstEvent mask events = some a.length) (ha : events = a ++ evt :: r) :
    ofDirection d [evt] ++ ofDirection d a = ofDirection d a ++ ofDirection d [evt] := by
  rcases firstEvent_eq_some hfirst with ⟨evt', hevt', hmask, hbefore⟩
  rw [ha, List.getElem?_append_right (le_refl _), Nat.sub_self, List.getElem?_cons_zero] at hevt'
  cases hevt'
  rw [ha, List.take_left] at hbefore
  by_cases hd : evt.flags = d
  · have hnil : ofDirection d a = [] := by
      refine List.filter_eq_nil_iff.2 ?_
      intro x hx
      have hne := hbefore x hx
      rw [← hmask, hd] at hne
      simpa using hne
    rw [hnil, List.append_nil, List.nil_append]
  · have hnil : ofDirection d [evt] = [] := List.filter_cons_of_neg (by simpa using hd)
    rw [hnil, List.append_nil, List.nil_append]

/-- **An action takes requests of a direction from the front** and puts them at the end, if no
event jumps over one of its own direction. -/
theorem Serves.inOrder {op : IoOp} {io io' : VmIo} (h : Serves i op io io') {d : Select}
    (horder : KeepsOrder i d op io) :
    ofDirection d (completedBy i op io) ++ ofDirection d (slotEvents i io') =
      ofDirection d (slotEvents i io) ++ ofDirection d (submittedBy i op) := by
  cases h with
  | idle hcompleted hsubmitted hevents =>
      rw [hcompleted, hsubmitted, hevents]
      exact (List.append_nil _).symm
  | submit evt hcompleted hsubmitted hevents =>
      rw [hcompleted, hsubmitted, hevents]
      exact List.filter_append _ _
  | complete mask e evt hop hfirst hevt hcompleted hsubmitted hevents =>
      rw [hcompleted, hsubmitted, hevents]
      show _ = _ ++ []
      rw [List.append_nil]
      rcases split_at_entry hevt with ⟨a, ha, rfl⟩ | ⟨a, m, y, ha, rfl⟩
      · -- the completed event is the last one
        have hfront := ofDirection_front (d := d) (r := []) hfirst ha
        rw [ha, swapRemove_last, hfront]
        exact (List.filter_append _ _).symm
      · have hjump := horder mask a evt m y hop ha hfirst
        have hmoved := filter_swapRemove (·.flags = d) (a := a) (m := m) (y := y) (by
          intro hy x hx hxd
          exact hjump (of_decide_eq_true hy) x hx (of_decide_eq_true hxd))
        rw [ha, swapRemove_mid]
        calc ofDirection d [evt] ++ ofDirection d (a ++ y :: m)
            = ofDirection d [evt] ++ (ofDirection d a ++ ofDirection d (m ++ [y])) := by
              exact congrArg (ofDirection d [evt] ++ ·) hmoved
          _ = ofDirection d a ++ (ofDirection d [evt] ++ ofDirection d (m ++ [y])) := by
              rw [← List.append_assoc, ofDirection_front hfirst ha, List.append_assoc]
          _ = ofDirection d (a ++ evt :: (m ++ [y])) := by
              unfold ofDirection
              rw [← List.filter_append, ← List.filter_append]
              rfl

/-! ## Every sequence of actions -/

theorem completed_cons {op : IoOp} {ops : List IoOp} {io io' : VmIo}
    (h : ioStep evtSize op io = some io') :
    completed evtSize i (op :: ops) io = completedBy i op io ++ completed evtSize i ops io' := by
  rw [completed, h]

/-- **No request is lost and none is completed twice**: while a handle is open, the requests that
were pending or are submitted are those that are completed or are pending at the end. -/
theorem requests_perm {ops : List IoOp} {io io' : VmIo}
    (hrun : Steps.run (ioStep evtSize) ops io = some io')
    (hslot : (usedSlot i io).isSome = true) (hclose : .close i ∉ ops) :
    (usedSlot i io').isSome = true ∧
      (completed evtSize i ops io ++ slotEvents i io').Perm
        (slotEvents i io ++ submitted i ops) := by
  induction ops generalizing io with
  | nil =>
      cases hrun
      exact ⟨hslot, List.perm_append_comm⟩
  | cons op ops ih =>
      rcases Steps.run_cons.1 hrun with ⟨m, hm, hrest⟩
      rw [List.mem_cons, not_or] at hclose
      have hserves := serves hslot (Ne.symm hclose.1) hm
      have hih := ih hrest hserves.1 hclose.2
      refine ⟨hih.1, ?_⟩
      rw [completed_cons hm, submitted, List.flatMap_cons, List.append_assoc]
      calc (completedBy i op io ++ (completed evtSize i ops m ++ slotEvents i io')).Perm
            (completedBy i op io ++ (slotEvents i m ++ submitted i ops)) := hih.2.append_left _
        _ |>.Perm ((slotEvents i io ++ submittedBy i op) ++ submitted i ops) := by
            rw [← List.append_assoc]
            exact hserves.2.perm.append_right _
        _ |>.Perm (slotEvents i io ++ (submittedBy i op ++ submitted i ops)) := by
            rw [List.append_assoc]

/-- **The requests of a direction are completed in the order of their submission** in every run
in which no event jumps over a request of its own direction. -/
theorem requests_inOrder {evtSize i : Nat} {d : Select} {ops : List IoOp} {io io' : VmIo}
    (hrun : Steps.run (ioStep evtSize) ops io = some io')
    (hslot : (usedSlot i io).isSome = true) (hclose : .close i ∉ ops)
    (horder : Steps.Along (ioStep evtSize) (KeepsOrder i d) ops io) :
    ofDirection d (completed evtSize i ops io) ++ ofDirection d (slotEvents i io') =
      ofDirection d (slotEvents i io) ++ ofDirection d (submitted i ops) := by
  induction ops generalizing io with
  | nil =>
      cases hrun
      exact (List.append_nil _).symm
  | cons op ops ih =>
      rcases Steps.run_cons.1 hrun with ⟨m, hm, hrest⟩
      rw [List.mem_cons, not_or] at hclose
      have hserves := serves hslot (Ne.symm hclose.1) hm
      have hih := ih hrest hserves.1 hclose.2 (horder.2 m hm)
      have hstep := hserves.2.inOrder horder.1
      rw [completed_cons hm, submitted, List.flatMap_cons]
      unfold ofDirection at *
      rw [List.filter_append, List.filter_append, List.append_assoc, hih, ← List.append_assoc,
        hstep, List.append_assoc]
      rfl

/-- Two events leave the order as it is: there is none to jump over. -/
theorem keepsOrder_of_two {d : Select} (op : IoOp) {io : VmIo}
    (h : (slotEvents i io).length ≤ 2) : KeepsOrder i d op io := by
  intro mask a evt m y _ ha _ _ x hx
  have hlen := congrArg List.length ha
  simp only [List.length_append, List.length_cons, List.length_nil] at hlen
  have hm : m.length = 0 := by omega
  rw [List.length_eq_zero_iff.1 hm] at hx
  cases hx

/-- A write of eight bytes. -/
def writeAt (ptr : UInt32) : VmIoEvt := .write ptr 8 ⟨0, 0⟩

/-- A table with one open handle. -/
def oneHandle : VmIo := ⟨⟨0, true, [], 0, false, false, .null⟩ :: List.replicate 4 emptyFd, 1, 0⟩

/-- Two writes are completed in the order in which they were submitted. -/
theorem requests_inOrder_twoWrites :
    ofDirection .write (completed 24 0 [.submit 0 (writeAt 0), .submit 0 (writeAt 8),
      .complete 0 .write] oneHandle) ++ [writeAt 8] = [writeAt 0, writeAt 8] := by
  have horder : Steps.Along (ioStep 24) (KeepsOrder 0 .write)
      [.submit 0 (writeAt 0), .submit 0 (writeAt 8), .complete 0 .write] oneHandle := by
    refine ⟨keepsOrder_of_two _ (by decide), ?_⟩
    intro io₁ h₁
    cases h₁
    refine ⟨keepsOrder_of_two _ (by decide), ?_⟩
    intro io₂ h₂
    cases h₂
    exact ⟨keepsOrder_of_two _ (by decide), fun _ _ => trivial⟩
  exact requests_inOrder rfl (by decide) (by decide) horder

/-- Three writes and the completion of two of them. -/
def threeWrites : List IoOp :=
  [.submit 0 (writeAt 0), .submit 0 (writeAt 8), .submit 0 (writeAt 16), .complete 0 .write,
    .complete 0 .write]

/-- Where an event takes 12 bytes, the third of the writes is completed before the second. -/
theorem requests_outOfOrder :
    (Steps.run (ioStep 12) threeWrites oneHandle).isSome = true ∧
      completed 12 0 threeWrites oneHandle = [writeAt 0, writeAt 16] ∧
      ¬ completed 12 0 threeWrites oneHandle <+: submitted 0 threeWrites := by
  have hcompleted : completed 12 0 threeWrites oneHandle = [writeAt 0, writeAt 16] := by decide
  refine ⟨by decide, hcompleted, ?_⟩
  rw [hcompleted]
  decide

end BvgzVm
