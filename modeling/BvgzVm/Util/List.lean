import BvgzVm.Lib.DList

set_option autoImplicit false

/-! # The linked list of `util/list.c`

The list functions on a heap of nodes, statement by statement: every dereference of a link may
fail, and a link is read again where the C code reads it again. `listUnlink_spec` and
`listAppend_spec` say what they do to a well-formed list at any position, `listTail_eq` that the
walk to the tail ends there.
-/

namespace BvgzVm

open DList

variable {α : Type}

/-- `list_make_node`: `a` is the address `malloc` returned. -/
def listMakeNode (h : Heap α) (a : Nat) (data : α) : Heap α :=
  Function.update h a (some ⟨none, none, data⟩)

/-- `list_unlink` -/
def listUnlink (h : Heap α) (node : Nat) : Option (Heap α) := do
  let n ← h node
  let h ← setNextOf h n.prev n.next
  let n ← h node
  setPrevOf h n.next n.prev

/-- `list_destroy_node`: unlink and `free`. -/
def listDestroyNode (h : Heap α) (node : Nat) : Option (Heap α) := do
  let h ← listUnlink h node
  some (Function.update h node none)

/-- `list_append` -/
def listAppend (h : Heap α) (list : Option Nat) (node : Nat) : Option (Heap α × Nat) :=
  match list with
  | none => some (h, node)
  | some l => do
      let ln ← h l
      let h ← setNext h node ln.next
      let ln ← h l
      let h ← setPrevOf h ln.next (some node)
      let h ← setNext h l (some node)
      let h ← setPrev h node (some l)
      some (h, l)

/-- `list_tail`, for at most `fuel` nodes. -/
def listTail (h : Heap α) : Nat → Nat → Option Nat
  | 0, _ => none
  | fuel + 1, a => do
      let n ← h a
      match n.next with
      | none => some a
      | some b => listTail h fuel b

/-! ## What they do to a well-formed list -/

/-- **Unlinking.** The neighbours of the node are joined; the node keeps its own links. -/
theorem listUnlink_spec {h : Heap α} {pre post : List (Nat × α)} {x : Nat} {d : α}
    (hc : Chain h none (pre ++ (x, d) :: post) none)
    (hnd : (addrs (pre ++ (x, d) :: post)).Nodup) :
    ∃ h', listUnlink h x = some h' ∧ Chain h' none (pre ++ post) none ∧ h' x = h x ∧
      ∀ b ∉ addrs (pre ++ post), h' b = h b := by
  rw [chain_append] at hc
  obtain ⟨hpre, hx, hpost⟩ := hc
  rw [addrs_append, addrs_cons, List.nodup_append, List.nodup_cons] at hnd
  obtain ⟨hndpre, ⟨hxpost, hndpost⟩, hdisj⟩ := hnd
  have hxpre : x ∉ addrs pre := fun hm => hdisj x hm x (by simp) rfl
  obtain ⟨h1, he1, hpre1, hf1⟩ := hpre.setNext_last hndpre (headOr post none)
  have hx1 : h1 x = h x := hf1 x hxpre
  have hpost1 : Chain h1 (some x) post none := hpost.congr (fun b hb =>
    hf1 b (fun hm => hdisj b hm b (by simp [hb]) rfl))
  obtain ⟨h2, he2, hpost2, hf2⟩ := hpost1.setPrev_head hndpost (lastOr none pre)
  have hpre2 : Chain h2 none pre (headOr post none) := hpre1.congr (fun b hb =>
    hf2 b (fun hm => hdisj b hb b (by simp [hm]) rfl))
  refine ⟨h2, ?_, (chain_append _ _ _ _ _).2 ⟨hpre2, hpost2⟩, ?_, fun b hb => ?_⟩
  · simp only [listUnlink, hx, Option.bind_eq_bind, Option.bind_some, he1, hx1, he2]
  · rw [hf2 x hxpost, hx1]
  · rw [addrs_append, List.mem_append, not_or] at hb
    rw [hf2 b hb.2, hf1 b hb.1]

/-- **Appending.** A node outside the list, whatever its links are, is put right after `l`. -/
theorem listAppend_spec {h : Heap α} {pre post : List (Nat × α)} {l m : Nat} {dl dm : α}
    {pm nm : Option Nat} (hc : Chain h none (pre ++ (l, dl) :: post) none)
    (hnd : (addrs (pre ++ (l, dl) :: post)).Nodup)
    (hm : m ∉ addrs (pre ++ (l, dl) :: post)) (hnode : h m = some ⟨pm, nm, dm⟩) :
    ∃ h', listAppend h (some l) m = some (h', l) ∧
      Chain h' none (pre ++ (l, dl) :: (m, dm) :: post) none ∧
      ∀ b ∉ addrs (pre ++ (l, dl) :: post), b ≠ m → h' b = h b := by
  rw [chain_append] at hc
  obtain ⟨hpre, hl, hpost⟩ := hc
  rw [addrs_append, addrs_cons, List.nodup_append, List.nodup_cons] at hnd
  obtain ⟨hndpre, ⟨hlpost, hndpost⟩, hdisj⟩ := hnd
  rw [addrs_append, addrs_cons, List.mem_append, List.mem_cons, not_or, not_or] at hm
  obtain ⟨hmpre, hml, hmpost⟩ := hm
  have hlpre : l ∉ addrs pre := fun hin => hdisj l hin l (by simp) rfl
  -- `node->next = list->next`
  set h1 := Function.update h m (some ⟨pm, headOr post none, dm⟩) with hh1
  have hf1 : ∀ b, b ≠ m → h1 b = h b := fun b hb => Function.update_of_ne hb _ _
  have he1 : setNext h m (headOr post none) = some h1 := by
    rw [setNext, hnode, Option.map_some]
  have hl1 : h1 l = some ⟨lastOr none pre, headOr post none, dl⟩ := by rw [hf1 l (Ne.symm hml), hl]
  have hpost1 : Chain h1 (some l) post none := hpost.congr (fun b hb => hf1 b (by
    rintro rfl
    exact hmpost hb))
  -- `list->next->prev = node`
  obtain ⟨h2, he2, hpost2, hf2⟩ := hpost1.setPrev_head hndpost (some m)
  have hleft1 : Chain h1 none (pre ++ [(l, dl)]) (headOr post none) :=
    (chain_append _ _ _ _ _).2
      ⟨hpre.congr (fun b hb => hf1 b (by rintro rfl; exact hmpre hb)), hl1, trivial⟩
  have hleft2 : Chain h2 none (pre ++ [(l, dl)]) (headOr post none) := by
    refine hleft1.congr (fun b hb => hf2 b (fun hin => ?_))
    rw [addrs_append, List.mem_append, addrs_cons, addrs_nil, List.mem_singleton] at hb
    rcases hb with hb | rfl
    · exact hdisj b hb b (by simp [hin]) rfl
    · exact hlpost hin
  -- `list->next = node`
  have hndleft : (addrs (pre ++ [(l, dl)])).Nodup := by
    rw [addrs_append, addrs_cons, addrs_nil]
    exact List.nodup_append.2 ⟨hndpre, by simp, fun a ha b hb hab => by
      rw [List.mem_singleton] at hb
      rw [hab, hb] at ha
      exact hlpre ha⟩
  obtain ⟨h3, he3, hleft3, hf3⟩ := hleft2.setNext_last hndleft (some m)
  have hlast : lastOr none (pre ++ [(l, dl)]) = some l := by rw [lastOr_append]; rfl
  rw [hlast] at he3
  have hnotleft : ∀ b, b ∉ addrs pre → b ≠ l → b ∉ addrs (pre ++ [(l, dl)]) := by
    intro b h1b h2b hin
    rw [addrs_append, List.mem_append, addrs_cons, addrs_nil, List.mem_singleton] at hin
    exact hin.elim h1b h2b
  have hm3 : h3 m = some ⟨pm, headOr post none, dm⟩ := by
    rw [hf3 m (hnotleft m hmpre hml), hf2 m hmpost, hh1, Function.update_self]
  -- `node->prev = list`
  set h4 := Function.update h3 m (some ⟨some l, headOr post none, dm⟩) with hh4
  have hf4 : ∀ b, b ≠ m → h4 b = h3 b := fun b hb => Function.update_of_ne hb _ _
  have he4 : setPrev h3 m (some l) = some h4 := by rw [setPrev, hm3, Option.map_some]
  refine ⟨h4, ?_, ?_, fun b hb hbm => ?_⟩
  · simp only [listAppend, hl, Option.bind_eq_bind, Option.bind_some, he1, hl1, he2]
    rw [show setNext h2 l (some m) = some h3 from he3, Option.bind_some, he4, Option.bind_some]
  · have hleft4 : Chain h4 none (pre ++ [(l, dl)]) (some m) := hleft3.congr (fun b hb => by
      refine hf4 b ?_
      rintro rfl
      exact hnotleft b hmpre hml hb)
    have hpost4 : Chain h4 (some m) post none := hpost2.congr (fun b hb => by
      have hbm : b ≠ m := by
        rintro rfl
        exact hmpost hb
      have hbl : b ≠ l := by
        rintro rfl
        exact hlpost hb
      rw [hf4 b hbm, hf3 b (hnotleft b (fun hin => hdisj b hin b (by simp [hb]) rfl) hbl)])
    have hm4 : h4 m = some ⟨some l, headOr post none, dm⟩ := by rw [hh4, Function.update_self]
    have hsplit : pre ++ (l, dl) :: (m, dm) :: post = (pre ++ [(l, dl)]) ++ (m, dm) :: post := by
      simp
    rw [hsplit, chain_append, hlast]
    exact ⟨hleft4, hm4, hpost4⟩
  · rw [addrs_append, addrs_cons, List.mem_append, List.mem_cons, not_or, not_or] at hb
    rw [hf4 b hbm, hf3 b (hnotleft b hb.1 hb.2.1), hf2 b hb.2.2, hf1 b hbm]

/-- **The walk to the tail** ends at the last node, given fuel for every node. -/
theorem listTail_eq {h : Heap α} {p : Option Nat} {a : Nat} {d : α} {t : List (Nat × α)}
    (hc : Chain h p ((a, d) :: t) none) (fuel : Nat) (hfuel : t.length < fuel) :
    listTail h fuel a = lastOr (some a) t := by
  induction t generalizing p a d fuel with
  | nil =>
      obtain ⟨f, rfl⟩ := Nat.exists_eq_succ_of_ne_zero (by omega : fuel ≠ 0)
      simp only [listTail, hc.node, headOr, Option.bind_eq_bind, Option.bind_some]
      rfl
  | cons c t ih =>
      obtain ⟨b, e⟩ := c
      obtain ⟨f, rfl⟩ := Nat.exists_eq_succ_of_ne_zero (by omega : fuel ≠ 0)
      rw [List.length_cons] at hfuel
      simp only [listTail, hc.node, headOr, Option.bind_eq_bind, Option.bind_some]
      exact ih hc.2 f (by omega)

end BvgzVm
