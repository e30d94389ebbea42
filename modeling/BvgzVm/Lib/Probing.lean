import Mathlib.Tactic

set_option autoImplicit false

/-! # Open addressing with a bounded probe sequence

A table is a list of slots, and a key is looked for in the `chain` slots from its `home` on, around
the end of the list. A slot that is given up becomes free, and a search goes on behind it. So a
table stands for a map as long as every entry is in reach of its home and no key has two slots
(`Valid`), and an entry may be stored in the first slot that is free or has its key if the key is
not in the table yet or no slot in front of an entry is free (`Packed`).
-/

namespace Probing

variable {K V : Type}

/-- The slots of a table; `none` is a free one. -/
abbrev Slots (K V : Type) := List (Option (K × V))

/-! ## The search -/

/-- The first of `c` slots from `i` on that passes `p`. -/
def search (slots : Slots K V) (p : Option (K × V) → Bool) : Nat → Nat → Option Nat
  | 0, _ => none
  | c + 1, i =>
      if slots[i]?.any p then some i else search slots p c ((i + 1) % slots.length)

theorem place_succ (n i d : Nat) : ((i + 1) % n + d) % n = (i + (d + 1)) % n := by
  calc ((i + 1) % n + d) % n = (i + 1 + d) % n := Nat.mod_add_mod _ _ _
    _ = (i + (d + 1)) % n := by rw [Nat.add_assoc, Nat.add_comm 1 d]

/-- The slot that is found is the first one of the sequence to pass. -/
theorem search_eq_some {slots : Slots K V} {p : Option (K × V) → Bool} {c i j : Nat}
    (hi : i < slots.length) :
    search slots p c i = some j ↔
      ∃ d < c, j = (i + d) % slots.length ∧ slots[j]?.any p = true ∧
        ∀ e < d, slots[(i + e) % slots.length]?.any p = false := by
  induction c generalizing i with
  | zero =>
      rw [search]
      constructor
      · intro h
        cases h
      · rintro ⟨d, hd, -⟩
        omega
  | succ c ih =>
      have hnext : (i + 1) % slots.length < slots.length := Nat.mod_lt _ (by omega)
      have hzero : (i + 0) % slots.length = i := by rw [Nat.add_zero, Nat.mod_eq_of_lt hi]
      rw [search]
      by_cases hp : slots[i]?.any p = true
      · rw [if_pos hp]
        constructor
        · intro h
          obtain rfl := Option.some.inj h
          exact ⟨0, by omega, hzero.symm, hp, by omega⟩
        · rintro ⟨d, -, hj, -, hbefore⟩
          -- a later place would have this one in front of it
          have hd : d = 0 := by
            by_contra hne
            have := hbefore 0 (by omega)
            rw [hzero, hp] at this
            cases this
          rw [hj, hd, hzero]
      · rw [if_neg hp, ih hnext]
        constructor
        · rintro ⟨d, hd, hj, hpass, hbefore⟩
          refine ⟨d + 1, by omega, by rw [hj, place_succ], hpass, ?_⟩
          intro e he
          cases e with
          | zero => rw [hzero]; simpa using hp
          | succ e =>
              rw [← place_succ]
              exact hbefore e (by omega)
        · rintro ⟨d, hd, hj, hpass, hbefore⟩
          cases d with
          | zero =>
              rw [hzero] at hj
              rw [hj] at hpass
              exact absurd hpass hp
          | succ d =>
              refine ⟨d, by omega, by rw [hj, place_succ], hpass, ?_⟩
              intro e he
              rw [place_succ]
              exact hbefore (e + 1) (by omega)

/-- Nothing is found if no slot of the sequence passes. -/
theorem search_eq_none {slots : Slots K V} {p : Option (K × V) → Bool} {c i : Nat}
    (hi : i < slots.length) :
    search slots p c i = none ↔ ∀ d < c, slots[(i + d) % slots.length]?.any p = false := by
  constructor
  · intro h d hd
    -- the first place that passes would have been found
    by_contra hpass
    have hex : ∃ d, d < c ∧ slots[(i + d) % slots.length]?.any p = true :=
      ⟨d, hd, by simpa using hpass⟩
    have hfirst := Nat.find_spec hex
    have hfound := (search_eq_some hi).2
      ⟨Nat.find hex, hfirst.1, rfl, hfirst.2, fun e he => by
        have hmin := Nat.find_min hex he
        simp only [not_and, Bool.not_eq_true] at hmin
        exact hmin (by omega)⟩
    rw [h] at hfound
    cases hfound
  · intro h
    cases hs : search slots p c i with
    | none => rfl
    | some j =>
        obtain ⟨d, hd, rfl, hpass, -⟩ := (search_eq_some hi).1 hs
        rw [h d hd] at hpass
        cases hpass

/-! ## What a table holds -/

/-- The table has the entry. -/
def Holds (slots : Slots K V) (k : K) (v : V) : Prop :=
  ∃ j : Nat, slots[j]? = some (some (k, v))

/-- Every entry is in reach of its home, and no key has two slots. -/
structure Valid (chain : Nat) (home : K → Nat) (slots : Slots K V) : Prop where
  inside : ∀ k, home k < slots.length
  reach : ∀ {j : Nat} {k : K} {v : V}, slots[j]? = some (some (k, v)) →
    ∃ d < chain, j = (home k + d) % slots.length
  unique : ∀ {i j : Nat} {k : K} {v w : V}, slots[i]? = some (some (k, v)) →
    slots[j]? = some (some (k, w)) → i = j

/-- No slot between the home of an entry and its slot is free. -/
def Packed (chain : Nat) (home : K → Nat) (slots : Slots K V) : Prop :=
  ∀ (j : Nat) (k : K) (v : V), slots[j]? = some (some (k, v)) →
    ∃ d < chain, j = (home k + d) % slots.length ∧
      ∀ e < d, slots[(home k + e) % slots.length]? ≠ some none

variable {chain : Nat} {home : K → Nat} {slots : Slots K V}

/-- A table without entries. -/
theorem valid_free {n : Nat} (hinside : ∀ k, home k < n) :
    Valid chain home (List.replicate n none : Slots K V) where
  inside := by simpa using hinside
  reach := by
    intro j k v h
    rw [List.getElem?_replicate] at h
    split at h <;> cases h
  unique := by
    intro i j k v w h
    rw [List.getElem?_replicate] at h
    split at h <;> cases h

theorem packed_free (n : Nat) : Packed chain home (List.replicate n none : Slots K V) := by
  intro j k v h
  rw [List.getElem?_replicate] at h
  split at h <;> cases h

theorem not_holds_free {n : Nat} {k : K} {v : V} :
    ¬ Holds (List.replicate n none : Slots K V) k v := by
  rintro ⟨j, h⟩
  rw [List.getElem?_replicate] at h
  split at h <;> cases h

/-- The entries, in the order of their slots. -/
def entries (slots : Slots K V) : List (K × V) := slots.filterMap id

/-- The number of entries. -/
def used (slots : Slots K V) : Nat := slots.countP Option.isSome

theorem length_entries (slots : Slots K V) : (entries slots).length = used slots := by
  rw [entries, used, List.length_filterMap_eq_countP]
  rfl

theorem mem_entries {k : K} {v : V} : (k, v) ∈ entries slots ↔ Holds slots k v := by
  rw [entries, List.mem_filterMap, Holds]
  constructor
  · rintro ⟨slot, hslot, rfl⟩
    exact List.mem_iff_getElem?.1 hslot
  · rintro ⟨j, hj⟩
    exact ⟨_, List.mem_iff_getElem?.2 ⟨j, hj⟩, rfl⟩

/-- No key occurs twice. -/
theorem Valid.nodup_entries (h : Valid chain home slots) :
    ((entries slots).map Prod.fst).Nodup := by
  rw [List.Nodup, List.pairwise_map, entries, List.pairwise_filterMap,
    List.pairwise_iff_getElem]
  rintro i j hi hj hlt ⟨k, v⟩ hv ⟨k', w⟩ hw heq
  obtain rfl : k = k' := heq
  have hiv : slots[i]? = some (some (k, v)) := List.getElem?_eq_some_iff.2 ⟨hi, hv⟩
  have hjw : slots[j]? = some (some (k, w)) := List.getElem?_eq_some_iff.2 ⟨hj, hw⟩
  exact absurd (h.unique hiv hjw) (by omega)

theorem used_free (n : Nat) : used (List.replicate n none : Slots K V) = 0 := by
  rw [used, List.countP_replicate, Option.isSome_none, if_neg Bool.false_ne_true]

/-! ## Finding, storing and giving up -/

variable [DecidableEq K]

/-- The slot has the key. -/
def hasKey (k : K) (slot : Option (K × V)) : Bool := slot.any (fun e => e.1 = k)

/-- The slot is free or has the key. -/
def takes (k : K) (slot : Option (K × V)) : Bool := slot.all (fun e => e.1 = k)

/-- The slot of a key. -/
def find (chain : Nat) (home : K → Nat) (slots : Slots K V) (k : K) : Option Nat :=
  search slots (hasKey k) chain (home k)

/-- The slot that an entry of the key is stored in. -/
def room (chain : Nat) (home : K → Nat) (slots : Slots K V) (k : K) : Option Nat :=
  search slots (takes k) chain (home k)

theorem any_hasKey {k : K} {j : Nat} :
    slots[j]?.any (hasKey k) = true ↔ ∃ v, slots[j]? = some (some (k, v)) := by
  cases h : slots[j]? with
  | none => simp
  | some slot =>
      cases slot with
      | none => simp [hasKey]
      | some e =>
          obtain ⟨k', v⟩ := e
          simp [hasKey, eq_comm]

theorem any_takes {k : K} {j : Nat} :
    slots[j]?.any (takes k) = true ↔
      slots[j]? = some none ∨ ∃ v, slots[j]? = some (some (k, v)) := by
  cases h : slots[j]? with
  | none => simp
  | some slot =>
      cases slot with
      | none => simp [takes]
      | some e =>
          obtain ⟨k', v⟩ := e
          simp [takes, eq_comm]

/-- A key is found where it is. -/
theorem Valid.find_eq_some (h : Valid chain home slots) {k : K} {j : Nat} :
    find chain home slots k = some j ↔ ∃ v, slots[j]? = some (some (k, v)) := by
  constructor
  · intro hfind
    obtain ⟨d, -, -, hpass, -⟩ := (search_eq_some (h.inside k)).1 hfind
    exact any_hasKey.1 hpass
  · rintro ⟨v, hj⟩
    cases hfind : find chain home slots k with
    | none =>
        obtain ⟨d, hd, rfl⟩ := h.reach hj
        have hno := (search_eq_none (h.inside k)).1 hfind d hd
        rw [any_hasKey.2 ⟨v, hj⟩] at hno
        cases hno
    | some i =>
        obtain ⟨d, -, -, hpass, -⟩ := (search_eq_some (h.inside k)).1 hfind
        obtain ⟨w, hi⟩ := any_hasKey.1 hpass
        rw [h.unique hi hj]

theorem Valid.find_eq_none (h : Valid chain home slots) {k : K} :
    find chain home slots k = none ↔ ∀ v, ¬ Holds slots k v := by
  constructor
  · rintro hfind v ⟨j, hj⟩
    rw [h.find_eq_some.2 ⟨v, hj⟩] at hfind
    cases hfind
  · intro hno
    cases hfind : find chain home slots k with
    | none => rfl
    | some j =>
        obtain ⟨v, hj⟩ := h.find_eq_some.1 hfind
        exact absurd ⟨j, hj⟩ (hno v)

/-- A slot that is going to be stored in is the one of the key, if the key has one and no slot in
front of it is free. -/
theorem room_of_mem (h : Valid chain home slots) (hpacked : Packed chain home slots) {k : K}
    {i j : Nat} {v : V} (hj : room chain home slots k = some j)
    (hi : slots[i]? = some (some (k, v))) : i = j := by
  obtain ⟨d, hd, rfl, hpass, hbefore⟩ := (search_eq_some (h.inside k)).1 hj
  obtain ⟨e, he, rfl, hused⟩ := hpacked i k v hi
  rcases any_takes.1 hpass with hfree | ⟨w, hw⟩
  · -- the free slot is not in front of the key, and the key is not in front of the free slot
    rcases Nat.lt_trichotomy d e with hlt | rfl | hlt
    · exact absurd hfree (hused d hlt)
    · rfl
    · have hno := hbefore e hlt
      rw [any_takes.2 (Or.inr ⟨v, hi⟩)] at hno
      cases hno
  · exact h.unique hi hw

section Store

variable {k : K} {j : Nat} (v : V)

theorem room_lt (hinside : ∀ k, home k < slots.length)
    (hj : room chain home slots k = some j) : j < slots.length := by
  obtain ⟨d, -, rfl, -⟩ := (search_eq_some (hinside k)).1 hj
  exact Nat.mod_lt _ (Nat.zero_lt_of_lt (hinside k))

/-- The slots after a store. -/
theorem getElem?_store (hinside : ∀ k, home k < slots.length)
    (hj : room chain home slots k = some j) (i : Nat) :
    (slots.set j (some (k, v)))[i]? = if j = i then some (some (k, v)) else slots[i]? := by
  rw [List.getElem?_set, if_pos (room_lt hinside hj)]

/-- No other slot has the key. -/
theorem other_slots (h : Valid chain home slots)
    (hnew : (∀ w, ¬ Holds slots k w) ∨ Packed chain home slots)
    (hj : room chain home slots k = some j) {i : Nat} {w : V}
    (hi : slots[i]? = some (some (k, w))) : i = j := by
  rcases hnew with habsent | hpacked
  · exact absurd ⟨i, hi⟩ (habsent w)
  · exact room_of_mem h hpacked hj hi

/-- **A store keeps the table valid**, if the key is new or the table is packed. -/
theorem Valid.store (h : Valid chain home slots)
    (hnew : (∀ w, ¬ Holds slots k w) ∨ Packed chain home slots)
    (hj : room chain home slots k = some j) :
    Valid chain home (slots.set j (some (k, v))) where
  inside := by simpa using h.inside
  reach := by
    intro i k' w hi
    rw [List.length_set]
    rw [getElem?_store v h.inside hj] at hi
    split at hi
    · next hij =>
        cases hi
        obtain ⟨d, hd, hplace, -⟩ := (search_eq_some (h.inside k)).1 hj
        exact ⟨d, hd, by rw [← hij, hplace]⟩
    · exact h.reach hi
  unique := by
    intro i i' k' w w' hi hi'
    rw [getElem?_store v h.inside hj] at hi hi'
    split at hi
    · next hij =>
        cases hi
        split at hi'
        · next hij' => rw [← hij, ← hij']
        · next hne => exact absurd (other_slots h hnew hj hi').symm hne
    · next hne =>
        split at hi'
        · cases hi'
          exact absurd (other_slots h hnew hj hi).symm hne
        · exact h.unique hi hi'

/-- **What a table holds after a store.** -/
theorem Valid.holds_store (h : Valid chain home slots)
    (hnew : (∀ w, ¬ Holds slots k w) ∨ Packed chain home slots)
    (hj : room chain home slots k = some j) {k' : K} {w : V} :
    Holds (slots.set j (some (k, v))) k' w ↔ if k' = k then w = v else Holds slots k' w := by
  have hget := getElem?_store v h.inside hj
  by_cases hk : k' = k
  · rw [if_pos hk]
    constructor
    · rintro ⟨i, hi⟩
      rw [hget] at hi
      split at hi
      · cases hi
        rfl
      · next hne =>
          rw [hk] at hi
          exact absurd (other_slots h hnew hj hi).symm hne
    · rintro rfl
      exact ⟨j, by rw [hget, if_pos rfl, hk]⟩
  · rw [if_neg hk]
    constructor
    · rintro ⟨i, hi⟩
      rw [hget] at hi
      split at hi
      · cases hi
        exact absurd rfl hk
      · exact ⟨i, hi⟩
    · rintro ⟨i, hi⟩
      refine ⟨i, ?_⟩
      rw [hget, if_neg, hi]
      -- the slot that was taken had no other key
      rintro rfl
      obtain ⟨d, -, -, hpass, -⟩ := (search_eq_some (h.inside k)).1 hj
      rcases any_takes.1 hpass with hfree | ⟨w', hw'⟩
      · rw [hfree] at hi
        cases hi
      · rw [hw'] at hi
        cases hi
        exact hk rfl

theorem packed_store (hinside : ∀ k, home k < slots.length) (h : Packed chain home slots)
    (hj : room chain home slots k = some j) :
    Packed chain home (slots.set j (some (k, v))) := by
  have hget := getElem?_store v hinside hj
  intro i k' w hi
  rw [hget] at hi
  rw [List.length_set]
  -- a slot that was used still is
  have hstill (n : Nat) (hn : slots[n]? ≠ some none) :
      (slots.set j (some (k, v)))[n]? ≠ some none := by
    rw [hget]
    split
    · simp
    · exact hn
  split at hi
  · next hij =>
      cases hi
      obtain ⟨d, hd, hplace, -, hbefore⟩ := (search_eq_some (hinside k)).1 hj
      refine ⟨d, hd, by rw [← hij, hplace], ?_⟩
      intro e he
      apply hstill
      intro hfree
      have hno := hbefore e he
      rw [any_takes.2 (Or.inl hfree)] at hno
      cases hno
  · obtain ⟨d, hd, hplace, hused⟩ := h i k' w hi
    exact ⟨d, hd, hplace, fun e he => hstill _ (hused e he)⟩

/-- A store adds at most one entry. -/
theorem used_store_le (hinside : ∀ k, home k < slots.length)
    (hj : room chain home slots k = some j) :
    used (slots.set j (some (k, v))) ≤ used slots + 1 := by
  rw [used, List.countP_set (room_lt hinside hj), used]
  split <;> simp

/-- A key that is new takes a slot that is free. -/
theorem Valid.used_store_new (h : Valid chain home slots) (hnew : ∀ w, ¬ Holds slots k w)
    (hj : room chain home slots k = some j) :
    used (slots.set j (some (k, v))) = used slots + 1 := by
  have hlt := room_lt h.inside hj
  obtain ⟨d, -, -, hpass, -⟩ := (search_eq_some (h.inside k)).1 hj
  have hfree : slots[j] = none := by
    rcases any_takes.1 hpass with hfree | ⟨w, hw⟩
    · exact (List.getElem?_eq_some_iff.1 hfree).2
    · exact absurd ⟨j, hw⟩ (hnew w)
  rw [used, List.countP_set hlt, hfree, used]
  rfl

end Store

/-- **Giving up the slot of a key.** -/
theorem Valid.erase (h : Valid chain home slots) {k : K} {j : Nat}
    (hj : find chain home slots k = some j) :
    Valid chain home (slots.set j none) ∧
      ∀ k' w, Holds (slots.set j none) k' w ↔ k' ≠ k ∧ Holds slots k' w := by
  obtain ⟨v, hv⟩ := h.find_eq_some.1 hj
  have hlt : j < slots.length := (List.getElem?_eq_some_iff.1 hv).1
  have hget (i : Nat) : (slots.set j none)[i]? = if j = i then some none else slots[i]? := by
    rw [List.getElem?_set, if_pos hlt]
  have hold {i : Nat} {k' : K} {w : V} (hi : (slots.set j none)[i]? = some (some (k', w))) :
      j ≠ i ∧ slots[i]? = some (some (k', w)) := by
    rw [hget] at hi
    split at hi
    · cases hi
    · next hne => exact ⟨hne, hi⟩
  refine ⟨⟨by simpa using h.inside, ?_, ?_⟩, ?_⟩
  · intro i k' w hi
    rw [List.length_set]
    exact h.reach (hold hi).2
  · intro i i' k' w w' hi hi'
    exact h.unique (hold hi).2 (hold hi').2
  · intro k' w
    constructor
    · rintro ⟨i, hi⟩
      refine ⟨?_, i, (hold hi).2⟩
      rintro rfl
      exact (hold hi).1 (h.unique hv (hold hi).2)
    · rintro ⟨hne, i, hi⟩
      refine ⟨i, ?_⟩
      rw [hget, if_neg, hi]
      rintro rfl
      rw [hv] at hi
      cases hi
      exact hne rfl

theorem Valid.used_erase (h : Valid chain home slots) {k : K} {j : Nat}
    (hj : find chain home slots k = some j) : used (slots.set j none) + 1 = used slots := by
  obtain ⟨v, hv⟩ := h.find_eq_some.1 hj
  obtain ⟨hlt, hget⟩ := List.getElem?_eq_some_iff.1 hv
  have hpos : 0 < used slots := List.countP_pos_iff.2 ⟨_, List.mem_of_getElem? hv, rfl⟩
  have hset : used (slots.set j none) = used slots - 1 := by
    rw [used, List.countP_set hlt, hget, used]
    rfl
  omega

end Probing
