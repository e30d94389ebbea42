import BvgzVm.Util.List

set_option autoImplicit false

/-! # Inserting, removing and walking

The functions of `util/list.c` as operations on the sequence of a well-formed list
(`listFunctions_spec`). The walks are given fuel, and end with any that is larger than the list.
-/

namespace BvgzVm

open DList

variable {α : Type}

/-- `list_prepend` -/
def listPrepend (h : Heap α) (list : Option Nat) (node : Nat) : Option (Heap α × Nat) :=
  match list with
  | none => some (h, node)
  | some l => do
      let ln ← h l
      let h ← setPrev h node ln.prev
      let ln ← h l
      let h ← setNextOf h ln.prev (some node)
      let h ← setPrev h l (some node)
      let h ← setNext h node (some l)
      some (h, node)

/-- The loop of `list_size`, for at most `fuel` nodes. -/
def listSizeLoop (h : Heap α) : Nat → Option Nat → UInt32 → Option UInt32
  | 0, _, _ => none
  | _ + 1, none, size => some size
  | fuel + 1, some a, size => do
      let n ← h a
      listSizeLoop h fuel n.next (size + 1)

/-- `list_size` -/
def listSize (h : Heap α) (fuel : Nat) (head : Option Nat) : Option UInt32 :=
  listSizeLoop h fuel head 0

/-- `list_head`, for at most `fuel` nodes. -/
def listHead (h : Heap α) : Nat → Nat → Option Nat
  | 0, _ => none
  | fuel + 1, a => do
      let n ← h a
      match n.prev with
      | none => some a
      | some b => listHead h fuel b

/-! ## Inserting -/

/-- **Prepending.** A node outside the list, whatever its links are, is put right before `l`. -/
theorem listPrepend_spec {h : Heap α} {pre post : List (Nat × α)} {l m : Nat} {dl dm : α}
    {pm nm : Option Nat} (hc : Chain h none (pre ++ (l, dl) :: post) none)
    (hnd : (addrs (pre ++ (l, dl) :: post)).Nodup)
    (hm : m ∉ addrs (pre ++ (l, dl) :: post)) (hnode : h m = some ⟨pm, nm, dm⟩) :
    ∃ h', listPrepend h (some l) m = some (h', m) ∧
      Chain h' none (pre ++ (m, dm) :: (l, dl) :: post) none := by
  rw [chain_append] at hc
  obtain ⟨hpre, hright⟩ := hc
  rw [addrs_append, List.nodup_append] at hnd
  obtain ⟨hndpre, hndright, hdisj⟩ := hnd
  rw [addrs_append, List.mem_append, not_or] at hm
  obtain ⟨hmpre, hmright⟩ := hm
  have hl : h l = some ⟨lastOr none pre, headOr post none, dl⟩ := hright.node
  have hml : m ≠ l := fun heq => hmright (by simp [heq])
  have hlpre : l ∉ addrs pre := fun hin => hdisj l hin l (by simp) rfl
  -- `node->prev = list->prev`
  set h1 := Function.update h m (some ⟨lastOr none pre, nm, dm⟩) with hh1
  have hf1 : ∀ b, b ≠ m → h1 b = h b := fun b hb => Function.update_of_ne hb _ _
  have he1 : setPrev h m (lastOr none pre) = some h1 := by rw [setPrev, hnode, Option.map_some]
  have hl1 : h1 l = h l := hf1 l (Ne.symm hml)
  have hpre1 : Chain h1 none pre (some l) := hpre.congr (fun b hb => hf1 b (by
    rintro rfl
    exact hmpre hb))
  -- `list->prev->next = node`
  obtain ⟨h2, he2, hpre2, hf2⟩ := hpre1.setNext_last hndpre (some m)
  have hright2 : Chain h2 (lastOr none pre) ((l, dl) :: post) none := hright.congr (fun b hb => by
    rw [hf2 b (fun hin => hdisj b hin b hb rfl), hf1 b (by rintro rfl; exact hmright hb)])
  -- `list->prev = node`
  obtain ⟨h3, he3, hright3, hf3⟩ := hright2.setPrev_head hndright (some m)
  have hm3 : h3 m = some ⟨lastOr none pre, nm, dm⟩ := by
    rw [hf3 m hmright, hf2 m hmpre, hh1, Function.update_self]
  -- `node->next = list`
  set h4 := Function.update h3 m (some ⟨lastOr none pre, some l, dm⟩) with hh4
  have hf4 : ∀ b, b ≠ m → h4 b = h3 b := fun b hb => Function.update_of_ne hb _ _
  have he4 : setNext h3 m (some l) = some h4 := by rw [setNext, hm3, Option.map_some]
  refine ⟨h4, ?_, ?_⟩
  · have hl2 : setPrev h2 l (some m) = some h3 := he3
    simp only [listPrepend, hl, Option.bind_eq_bind, Option.bind_some, he1, hl1, he2, hl2, he4]
  · have hpre4 : Chain h4 none pre (some m) := hpre2.congr (fun b hb => by
      rw [hf4 b (by rintro rfl; exact hmpre hb), hf3 b (fun hin => hdisj b hb b hin rfl)])
    have hright4 : Chain h4 (some m) ((l, dl) :: post) none := hright3.congr (fun b hb =>
      hf4 b (by rintro rfl; exact hmright hb))
    have hm4 : h4 m = some ⟨lastOr none pre, some l, dm⟩ := by rw [hh4, Function.update_self]
    rw [chain_append]
    exact ⟨hpre4, hm4, hright4⟩

/-! ## Walking -/

/-- The loop counts the nodes, modulo `2 ^ 32`. -/
theorem listSizeLoop_eq {h : Heap α} {p : Option Nat} {xs : List (Nat × α)}
    (hc : Chain h p xs none) (fuel : Nat) (hfuel : xs.length < fuel) (size : UInt32) :
    listSizeLoop h fuel (headOr xs none) size = some (size + UInt32.ofNat xs.length) := by
  induction xs generalizing p fuel size with
  | nil =>
      obtain ⟨f, rfl⟩ := Nat.exists_eq_succ_of_ne_zero (by omega : fuel ≠ 0)
      exact congrArg some (UInt32.add_zero size).symm
  | cons c t ih =>
      obtain ⟨a, d⟩ := c
      obtain ⟨f, rfl⟩ := Nat.exists_eq_succ_of_ne_zero (by omega : fuel ≠ 0)
      rw [List.length_cons] at hfuel
      rw [show headOr ((a, d) :: t) none = some a from rfl]
      simp only [listSizeLoop, hc.node, Option.bind_eq_bind, Option.bind_some]
      rw [ih hc.2 f (by omega) (size + 1), List.length_cons, Nat.add_comm t.length 1,
        UInt32.ofNat_add, ← UInt32.add_assoc]
      rfl

/-- **The walk to the head** ends at the first node, given fuel for every node before it. -/
theorem listHead_eq {h : Heap α} {nx : Option Nat} {pre : List (Nat × α)} {a : Nat} {d : α}
    (hc : Chain h none (pre ++ [(a, d)]) nx) (fuel : Nat) (hfuel : pre.length < fuel) :
    listHead h fuel a = headOr (pre ++ [(a, d)]) none := by
  induction pre using List.reverseRecOn generalizing a d nx fuel with
  | nil =>
      obtain ⟨f, rfl⟩ := Nat.exists_eq_succ_of_ne_zero (by omega : fuel ≠ 0)
      have ha : h a = some ⟨none, nx, d⟩ := hc.1
      simp only [listHead, ha, Option.bind_eq_bind, Option.bind_some]
      rfl
  | append_singleton pre c ih =>
      obtain ⟨b, e⟩ := c
      obtain ⟨f, rfl⟩ := Nat.exists_eq_succ_of_ne_zero (by omega : fuel ≠ 0)
      rw [List.length_append, List.length_singleton] at hfuel
      rw [chain_append] at hc
      have hlast : lastOr none (pre ++ [(b, e)]) = some b := by rw [lastOr_append]; rfl
      have ha : h a = some ⟨some b, nx, d⟩ := by rw [← hlast]; exact hc.2.1
      simp only [listHead, ha, Option.bind_eq_bind, Option.bind_some]
      rw [ih hc.1 f (by omega), headOr_append (pre ++ [(b, e)])]
      cases pre <;> rfl

/-! ## The functions on a well-formed list -/

/-- The cells are a well-formed list, from the first one on. -/
def WellFormed (h : Heap α) (xs : List (Nat × α)) : Prop := IsList h (headOr xs none) xs

/-- **The list functions**, at any node of a well-formed list: a node from outside is put right
behind or right before it, it is taken out, and the walks end at both ends. The size is counted
modulo `2 ^ 32`. -/
theorem listFunctions_spec {h : Heap α} {pre post : List (Nat × α)} {n : Nat} {d : α}
    (hlist : WellFormed h (pre ++ (n, d) :: post)) :
    (∀ m node, m ∉ addrs (pre ++ (n, d) :: post) → h m = some node →
      (∃ h', listAppend h (some n) m = some (h', n) ∧
        WellFormed h' (pre ++ (n, d) :: (m, node.data) :: post)) ∧
      ∃ h', listPrepend h (some n) m = some (h', m) ∧
        WellFormed h' (pre ++ (m, node.data) :: (n, d) :: post)) ∧
    (∃ h', listUnlink h n = some h' ∧ WellFormed h' (pre ++ post)) ∧
    ∀ fuel, (pre ++ (n, d) :: post).length < fuel →
      listHead h fuel n = headOr (pre ++ (n, d) :: post) none ∧
      listTail h fuel n = lastOr none (pre ++ (n, d) :: post) ∧
      listSize h fuel (some n) = some (UInt32.ofNat ((n, d) :: post).length) := by
  obtain ⟨-, hc, hnd⟩ := hlist
  refine ⟨?_, ?_, ?_⟩
  · rintro m ⟨pm, nm, dm⟩ hm hnode
    constructor
    · obtain ⟨h', hrun, hc', -⟩ := listAppend_spec hc hnd hm hnode
      refine ⟨h', hrun, rfl, hc', ?_⟩
      have hsplit : addrs (pre ++ (n, d) :: (m, dm) :: post) =
          addrs (pre ++ [(n, d)]) ++ m :: addrs post := by simp
      rw [hsplit, List.nodup_middle, ← addrs_append, List.append_assoc]
      exact List.nodup_cons.2 ⟨hm, hnd⟩
    · obtain ⟨h', hrun, hc'⟩ := listPrepend_spec hc hnd hm hnode
      refine ⟨h', hrun, rfl, hc', ?_⟩
      rw [addrs_append, addrs_cons, List.nodup_middle, ← addrs_append]
      exact List.nodup_cons.2 ⟨hm, hnd⟩
  · obtain ⟨h', hrun, hc', -⟩ := listUnlink_spec hc hnd
    refine ⟨h', hrun, rfl, hc', ?_⟩
    rw [addrs_append, addrs_cons, List.nodup_middle, ← addrs_append] at hnd
    exact (List.nodup_cons.1 hnd).2
  · intro fuel hfuel
    rw [List.length_append, List.length_cons] at hfuel
    have hright : Chain h (lastOr none pre) ((n, d) :: post) none := ((chain_append _ _ _ _ _).1 hc).2
    refine ⟨?_, ?_, ?_⟩
    · -- the nodes up to this one
      have hsplit : pre ++ (n, d) :: post = (pre ++ [(n, d)]) ++ post := by simp
      rw [hsplit] at hc ⊢
      rw [listHead_eq ((chain_append _ _ _ _ _).1 hc).1 fuel (by omega), headOr_append _ post]
      cases pre <;> rfl
    · rw [listTail_eq hright fuel (by omega), lastOr_append]
      rfl
    · have hsize := listSizeLoop_eq hright fuel (by rw [List.length_cons]; omega) 0
      rw [UInt32.zero_add] at hsize
      exact hsize

/-- A list of three nodes, and a node outside with links into it. -/
def threeHeap : Heap Unit
  | 0 => some ⟨none, some 1, ()⟩
  | 1 => some ⟨some 0, some 2, ()⟩
  | 2 => some ⟨some 1, none, ()⟩
  | 3 => some ⟨some 0, some 1, ()⟩
  | _ => none

theorem listFunctions_spec_three :
    (∃ h', listPrepend threeHeap (some 1) 3 = some (h', 3) ∧
        WellFormed h' [(0, ()), (3, ()), (1, ()), (2, ())]) ∧
      ∃ h', listUnlink threeHeap 1 = some h' ∧ WellFormed h' [(0, ()), (2, ())] := by
  have hlist : WellFormed threeHeap ([(0, ())] ++ (1, ()) :: [(2, ())]) :=
    ⟨rfl, ⟨rfl, rfl, rfl, trivial⟩, by decide⟩
  have hspec := listFunctions_spec hlist
  exact ⟨(hspec.1 3 ⟨some 0, some 1, ()⟩ (by decide) rfl).2, hspec.2.1⟩

/-! ### A list of `2 ^ 32` nodes -/

/-- The nodes `0`, `1`, .., `k - 1`, in this order. -/
def rowHeap (k : Nat) : Heap Unit := fun a =>
  if a < k then
    some ⟨if a = 0 then none else some (a - 1), if a + 1 = k then none else some (a + 1), ()⟩
  else none

theorem rowHeap_chain (k n : Nat) (a : Nat) (ha : a + n = k) :
    Chain (rowHeap k) (if a = 0 then none else some (a - 1))
      ((List.range' a n).map (fun b => (b, ()))) none := by
  induction n generalizing a with
  | zero => trivial
  | succ n ih =>
      have hnext : headOr ((List.range' (a + 1) n).map (fun b => (b, ()))) none =
          if a + 1 = k then none else some (a + 1) := by
        cases n with
        | zero => rw [if_pos (by omega)]; rfl
        | succ n => rw [if_neg (by omega)]; rfl
      have hrest := ih (a + 1) (by omega)
      rw [if_neg (Nat.succ_ne_zero a), Nat.add_sub_cancel] at hrest
      rw [List.range'_succ, List.map_cons]
      refine ⟨?_, hrest⟩
      rw [hnext, rowHeap, if_pos (by omega)]

theorem rowHeap_wellFormed (k : Nat) :
    WellFormed (rowHeap k) ((List.range' 0 k).map (fun b => (b, ()))) := by
  refine ⟨rfl, rowHeap_chain k k 0 (Nat.zero_add k), ?_⟩
  rw [addrs, List.map_map]
  exact (List.map_id (List.range' 0 k)).symm ▸ List.nodup_range'

/-- The size of a list of `2 ^ 32` nodes is `0`. -/
theorem listSize_wraps :
    WellFormed (rowHeap (2 ^ 32)) ((List.range' 0 (2 ^ 32)).map (fun b => (b, ()))) ∧
    ((List.range' 0 (2 ^ 32)).map (fun b => (b, ()))).length = 2 ^ 32 ∧
    ∀ fuel, 2 ^ 32 < fuel → listSize (rowHeap (2 ^ 32)) fuel (some 0) = some 0 := by
  have hlist := rowHeap_wellFormed (2 ^ 32)
  have hlen : ((List.range' 0 (2 ^ 32)).map (fun b => (b, ()))).length = 2 ^ 32 := by
    rw [List.length_map, List.length_range']
  refine ⟨hlist, hlen, fun fuel hfuel => ?_⟩
  have hhead : ∀ k, 0 < k → headOr ((List.range' 0 k).map (fun b => (b, ()))) none = some 0 := by
    intro k hk
    obtain ⟨j, rfl⟩ := Nat.exists_eq_succ_of_ne_zero hk.ne'
    rfl
  have hsize := listSizeLoop_eq hlist.chain fuel (by rw [hlen]; exact hfuel) 0
  rw [hlen, hhead _ (by decide)] at hsize
  exact hsize

end BvgzVm
