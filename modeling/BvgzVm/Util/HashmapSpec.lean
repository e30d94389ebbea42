import BvgzVm.Asm.Result
import BvgzVm.Debug.Lines
import BvgzVm.Lib.Steps
import BvgzVm.Util.Hashmap

set_option autoImplicit false

/-! # What the hash table stands for

Over a run of `hmap_put` and `hmap_remove` the table stands for the map that the operations describe
(`hmap_refines`), and `hmap_iterate` comes to each of its entries once. A removed key leaves a free
slot in front of others, and a later `hmap_put` of such a key would store it a second time; so after
a removal the keys that are put have to be new.
-/

namespace BvgzVm

open CLib Probing

variable {V : Type}

/-! ## Rehashing ends -/

/-- Putting the entries back uses up no more than there is. -/
theorem rehashLoop_room {put : HashmapMap V → CStr → V → MapStatus × HashmapMap V}
    (hput : ∀ m k v, (put m k v).2.room ≤ m.room) (curr : List (Option (CStr × V)))
    (m : HashmapMap V) : (rehashLoop put curr m).2.room ≤ m.room := by
  induction curr generalizing m with
  | nil => exact Nat.le_refl _
  | cons slot curr ih =>
      cases slot with
      | none => exact ih m
      | some e =>
          rw [rehashLoop]
          have hle := hput m e.1 e.2
          split
          · next m' heq =>
              rw [heq] at hle
              exact (ih m').trans hle
          · next heq =>
              rw [heq] at hle
              exact hle

theorem hmapPutWith_room (n : ℕ) (m : HashmapMap V) (k : CStr) (v : V) :
    (hmapPutWith n m k v).2.room ≤ m.room := by
  induction n generalizing m k v with
  | zero =>
      rw [hmapPutWith]
      split <;> exact Nat.le_refl _
  | succ n ih =>
      rw [hmapPutWith]
      split
      · exact Nat.le_refl _
      · have hle : (hashmapRehash (hmapPutWith n) m).2.room ≤ m.room := by
          unfold hashmapRehash
          split
          · exact Nat.le_refl _
          · exact (rehashLoop_room ih _ _).trans (Nat.sub_le _ _)
        split
        · next heq =>
            rw [heq] at hle
            exact hle
        · next _ m' _ heq =>
            rw [heq] at hle
            exact (ih m' k v).trans hle

/-- Two functions that agree while there is no more room than `r`. -/
theorem rehashLoop_congr {put put' : HashmapMap V → CStr → V → MapStatus × HashmapMap V} {r : ℕ}
    (hroom : ∀ m k v, (put m k v).2.room ≤ m.room)
    (hput : ∀ m k v, m.room ≤ r → put m k v = put' m k v) (curr : List (Option (CStr × V)))
    {m : HashmapMap V} (hm : m.room ≤ r) : rehashLoop put curr m = rehashLoop put' curr m := by
  induction curr generalizing m with
  | nil => rfl
  | cons slot curr ih =>
      cases slot with
      | none => exact ih hm
      | some e =>
          rw [rehashLoop, rehashLoop, ← hput m e.1 e.2 hm]
          have hle := hroom m e.1 e.2
          split
          · next m' heq =>
              rw [heq] at hle
              exact ih (hle.trans hm)
          · rfl

/-- **The number of rehashes is enough** if it is not below that of the tables that are left: then
it decides nothing. -/
theorem hmapPutWith_enough {n n' : ℕ} {m : HashmapMap V} (k : CStr) (v : V) (hn : m.room ≤ n)
    (hn' : m.room ≤ n') : hmapPutWith n m k v = hmapPutWith n' m k v := by
  have hnone {n : ℕ} {m : HashmapMap V} {k : CStr} {v : V} (hm : m.room = 0)
      (hfull : hashmapHash m k = none) : hmapPutWith n m k v = (.omem, m) := by
    cases n with
    | zero => simp only [hmapPutWith, hfull]
    | succ n => simp only [hmapPutWith, hfull, hashmapRehash, if_pos hm]
  induction n generalizing n' m k v with
  | zero =>
      cases hfull : hashmapHash m k with
      | some index => cases n' <;> simp only [hmapPutWith, hfull]
      | none => rw [hnone (by omega) hfull, hnone (by omega) hfull]
  | succ n ih =>
      cases hfull : hashmapHash m k with
      | some index => cases n' <;> simp only [hmapPutWith, hfull]
      | none =>
          by_cases hm : m.room = 0
          · rw [hnone hm hfull, hnone hm hfull]
          · -- the table that is used up is missing in both
            obtain ⟨n', rfl⟩ : ∃ j, n' = j + 1 := ⟨n' - 1, by omega⟩
            have hrehash : hashmapRehash (hmapPutWith n) m = hashmapRehash (hmapPutWith n') m := by
              unfold hashmapRehash
              rw [if_neg hm, if_neg hm]
              refine rehashLoop_congr (r := m.room - 1) (hmapPutWith_room n) ?_ m.data
                (Nat.le_refl _)
              intro m' k' v' hm'
              exact ih k' v' (by omega) (by omega)
            have hroom : (hashmapRehash (hmapPutWith n') m).2.room ≤ m.room - 1 := by
              unfold hashmapRehash
              rw [if_neg hm]
              exact rehashLoop_room (hmapPutWith_room n') _ _
            simp only [hmapPutWith, hfull, hrehash]
            split
            · rfl
            · next _ m' _ heq =>
                rw [heq] at hroom
                have hle : m'.room ≤ m.room - 1 := hroom
                exact ih k v (by omega) (by omega)

/-- Putting entries back stores them or runs out of memory. -/
theorem rehashLoop_status {put : HashmapMap V → CStr → V → MapStatus × HashmapMap V}
    (hput : ∀ m k v, (put m k v).1 ≠ .missing) (curr : List (Option (CStr × V)))
    (m : HashmapMap V) : (rehashLoop put curr m).1 ≠ .missing := by
  induction curr generalizing m with
  | nil => exact MapStatus.noConfusion
  | cons slot curr ih =>
      cases slot with
      | none => exact ih m
      | some e =>
          rw [rehashLoop]
          have hne := hput m e.1 e.2
          split
          · next m' _ => exact ih m'
          · next heq =>
              rw [heq] at hne
              exact hne

theorem hmapPutWith_status (n : ℕ) (m : HashmapMap V) (k : CStr) (v : V) :
    (hmapPutWith n m k v).1 ≠ .missing := by
  induction n generalizing m k v with
  | zero =>
      rw [hmapPutWith]
      split <;> exact MapStatus.noConfusion
  | succ n ih =>
      rw [hmapPutWith]
      split
      · exact MapStatus.noConfusion
      · split
        · exact MapStatus.noConfusion
        · next m' _ _ => exact ih m' k v

/-! ## What the operations store -/

/-- The entries are in reach of their homes, no key occurs twice, and `size`, which is at most half
of the slots, covers them. -/
structure HashmapMap.Sound (m : HashmapMap V) : Prop where
  valid : Valid maxChainLength (hashmapHashInt m.data.length) m.data
  used_le : used m.data ≤ m.size
  half : 2 * m.size ≤ m.data.length

/-- No slot in front of an entry is free. -/
abbrev HashmapMap.Packed (m : HashmapMap V) : Prop :=
  Probing.Packed maxChainLength (hashmapHashInt m.data.length) m.data

/-- The map has no entry of the key. -/
abbrev HashmapMap.Lacks (m : HashmapMap V) (k : CStr) : Prop := ∀ w, ¬ Holds m.data k w

/-- `m'` is `m` with the value of `k` stored. -/
structure EntryStored (m : HashmapMap V) (k : CStr) (v : V) (m' : HashmapMap V) : Prop where
  sound : m'.Sound
  holds : ∀ k' w, Holds m'.data k' w ↔ if k' = k then w = v else Holds m.data k' w
  packed : m.Packed → m'.Packed
  exact : m.Lacks k → m.size = used m.data → m'.size = used m'.data
  grown : m'.data.length * 2 ^ m'.room = m.data.length * 2 ^ m.room

theorem hashmapHash_eq {m : HashmapMap V} {k : CStr} {index : ℕ}
    (h : hashmapHash m k = some index) :
    Probing.room maxChainLength (hashmapHashInt m.data.length) m.data k = some index ∧
      2 * (m.size + 1) ≤ m.data.length := by
  unfold hashmapHash at h
  split at h
  · cases h
  · next hhalf => exact ⟨h, by omega⟩

/-- The entry is stored where `hashmap_hash` finds a place. -/
theorem stored_at {m : HashmapMap V} {k : CStr} {index : ℕ} (v : V) (hm : m.Sound)
    (hnew : m.Lacks k ∨ m.Packed) (h : hashmapHash m k = some index) :
    EntryStored m k v { m with data := m.data.set index (some (k, v)), size := m.size + 1 } := by
  obtain ⟨hroom, hhalf⟩ := hashmapHash_eq h
  have hlen : (m.data.set index (some (k, v))).length = m.data.length := List.length_set
  have hle := used_store_le v hm.valid.inside hroom
  refine ⟨⟨?_, hle.trans (Nat.succ_le_succ hm.used_le), ?_⟩,
    fun k' w => hm.valid.holds_store v hnew hroom, ?_, ?_, ?_⟩
  · rw [hlen]
    exact hm.valid.store v hnew hroom
  · rw [hlen]
    exact hhalf
  · intro hpacked
    rw [HashmapMap.Packed, hlen]
    exact packed_store v hm.valid.inside hpacked hroom
  · intro hlacks hsize
    rw [hm.valid.used_store_new v hlacks hroom, ← hsize]
  · rw [hlen]

/-- A table without entries. -/
theorem sound_free {n : ℕ} (hn : 0 < n) (room : ℕ) :
    HashmapMap.Sound (⟨List.replicate n none, 0, room⟩ : HashmapMap V) := by
  have hinside (k : CStr) : hashmapHashInt n k < n := Nat.mod_lt _ hn
  refine ⟨?_, (used_free n).le, Nat.zero_le _⟩
  rw [List.length_replicate]
  exact valid_free hinside

/-- The table that a rehash fills: it is packed, its `size` is the number of its entries, and
these are those of `m` and of the slots. -/
structure Refilled (m : HashmapMap V) (curr : List (Option (CStr × V))) (m' : HashmapMap V) :
    Prop where
  sound : m'.Sound
  packed : m'.Packed
  exact : m'.size = used m'.data
  holds : ∀ k v, Holds m'.data k v ↔ Holds m.data k v ∨ some (k, v) ∈ curr
  grown : m'.data.length * 2 ^ m'.room = m.data.length * 2 ^ m.room

/-- **The loop of a rehash** refills the table, if no key of the slots occurs twice. -/
theorem rehashLoop_spec {put : HashmapMap V → CStr → V → MapStatus × HashmapMap V}
    (hput : ∀ {m k v m'}, HashmapMap.Sound m → m.Lacks k ∨ m.Packed → put m k v = (.ok, m') →
      EntryStored m k v m')
    {curr : List (Option (CStr × V))} {m m' : HashmapMap V} (hm : m.Sound) (hpacked : m.Packed)
    (hexact : m.size = used m.data) (hnodup : ((entries curr).map Prod.fst).Nodup)
    (hnew : ∀ e ∈ entries curr, m.Lacks e.1) (h : rehashLoop put curr m = (.ok, m')) :
    Refilled m curr m' := by
  induction curr generalizing m with
  | nil =>
      obtain rfl : m = m' := congrArg Prod.snd h
      exact ⟨hm, hpacked, hexact, by simp, rfl⟩
  | cons slot curr ih =>
      cases slot with
      | none =>
          obtain ⟨hs, hp, he, hh, hg⟩ := ih hm hpacked hexact hnodup hnew h
          exact ⟨hs, hp, he, by simpa using hh, hg⟩
      | some e =>
          obtain ⟨k, v⟩ := e
          have hentries : entries (some (k, v) :: curr) = (k, v) :: entries curr := rfl
          rw [hentries, List.map_cons, List.nodup_cons] at hnodup
          rw [hentries] at hnew
          rw [rehashLoop] at h
          split at h
          · next m₁ heq =>
              -- the keys behind this one are still missing in the table that has it
              have hlacks : m.Lacks k := hnew _ List.mem_cons_self
              have hst := hput hm (Or.inl hlacks) heq
              have hnew₁ : ∀ e ∈ entries curr, m₁.Lacks e.1 := by
                intro e he w hw
                have hne : e.1 ≠ k := by
                  intro hk
                  exact hnodup.1 (List.mem_map.2 ⟨e, he, hk⟩)
                rw [hst.holds, if_neg hne] at hw
                exact hnew e (List.mem_cons_of_mem _ he) w hw
              obtain ⟨hs, hp, he, hh, hg⟩ := ih hst.sound (hst.packed hpacked)
                (hst.exact hlacks hexact) hnodup.2 hnew₁ h
              refine ⟨hs, hp, he, ?_, hg.trans hst.grown⟩
              intro k' w
              rw [hh, hst.holds, List.mem_cons, Option.some.injEq, Prod.mk.injEq]
              split
              · next hk =>
                  -- the key was not in the table before
                  subst hk
                  have hno := hlacks w
                  tauto
              · next hk => tauto
          · next hne heq =>
              exact absurd (congrArg Prod.fst h) (by simpa using hne)

/-- **`hmap_put` stores the entry**, wherever the table has to grow for it, if the key is new or
the table is packed. The induction is on the rehashes. -/
theorem hmapPutWith_spec (n : ℕ) {m m' : HashmapMap V} {k : CStr} {v : V} (hm : m.Sound)
    (hnew : m.Lacks k ∨ m.Packed) (h : hmapPutWith n m k v = (.ok, m')) : EntryStored m k v m' := by
  induction n generalizing m k v m' with
  | zero =>
      rw [hmapPutWith] at h
      split at h
      · next index hindex =>
          obtain rfl := congrArg Prod.snd h
          exact stored_at v hm hnew hindex
      · cases h
  | succ n ih =>
      rw [hmapPutWith] at h
      split at h
      · next index hindex =>
          obtain rfl := congrArg Prod.snd h
          exact stored_at v hm hnew hindex
      · unfold hashmapRehash at h
        by_cases hroom : m.room = 0
        · rw [if_pos hroom] at h
          cases h
        · rw [if_neg hroom] at h
          have hlen : 0 < m.data.length := Nat.zero_lt_of_lt (hm.valid.inside k)
          split at h
          · cases h
          · next status m₁ hne heq =>
              obtain rfl : status = .ok := by
                cases status with
                | ok => rfl
                | omem => exact absurd rfl hne
                | missing =>
                    exact absurd (congrArg Prod.fst heq)
                      (rehashLoop_status (hmapPutWith_status n) _ _)
              obtain ⟨hs, hp, he, hh, hg⟩ := rehashLoop_spec ih (sound_free (by omega) _)
                (by rw [HashmapMap.Packed, List.length_replicate]; exact packed_free _)
                (used_free _).symm hm.valid.nodup_entries (fun _ _ _ => not_holds_free) heq
              -- the larger table was free before, so it has the old entries and no others
              have hsame (k' : CStr) (w : V) : Holds m₁.data k' w ↔ Holds m.data k' w := by
                rw [hh]
                constructor
                · rintro (hno | hmem)
                  · exact absurd hno not_holds_free
                  · exact List.mem_iff_getElem?.1 hmem
                · intro hold
                  exact Or.inr (List.mem_iff_getElem?.2 hold)
              obtain ⟨hs', hh', hp', he', hg'⟩ := ih hs (Or.inr hp) h
              refine ⟨hs', ?_, fun _ => hp' hp, ?_, ?_⟩
              · intro k' w
                rw [hh', hsame]
              · intro hlacks _
                exact he' (fun w hw => hlacks w ((hsame k w).1 hw)) he
              · -- twice the slots, and one doubling less to come
                rw [hg', hg, List.length_replicate]
                obtain ⟨r, hr⟩ : ∃ r, m.room = r + 1 := ⟨m.room - 1, by omega⟩
                rw [hr, Nat.add_sub_cancel, pow_succ]
                ring

/-! ## What the operations find -/

/-- `hmap_get` finds what the table holds. -/
theorem hmapGet_eq {m : HashmapMap V} (hm : m.Sound) {k : CStr} {v : V} :
    hmapGet m k = some v ↔ Holds m.data k v := by
  unfold hmapGet hashmapFind
  constructor
  · intro h
    obtain ⟨curr, hcurr, hv⟩ := Option.bind_eq_some_iff.1 h
    obtain ⟨w, hw⟩ := hm.valid.find_eq_some.1 hcurr
    rw [hw] at hv
    cases hv
    exact ⟨curr, hw⟩
  · rintro ⟨curr, hcurr⟩
    rw [hm.valid.find_eq_some.2 ⟨v, hcurr⟩, Option.bind_some, hcurr]
    rfl

/-- `hmap_remove` gives up the slot of the key, if it has one. -/
theorem hmapRemove_spec {m : HashmapMap V} (hm : m.Sound) (k : CStr) :
    (hmapRemove m k).2.Sound ∧
      (∀ k' w, Holds (hmapRemove m k).2.data k' w ↔ k' ≠ k ∧ Holds m.data k' w) ∧
      ((hmapRemove m k).1 = .ok ↔ ∃ v, Holds m.data k v) ∧
      (m.size = used m.data → (hmapRemove m k).2.size = used (hmapRemove m k).2.data) := by
  unfold hmapRemove hashmapFind
  split
  · next curr hcurr =>
      obtain ⟨v, hv⟩ := hm.valid.find_eq_some.1 hcurr
      obtain ⟨hvalid, hholds⟩ := hm.valid.erase hcurr
      have hused := hm.valid.used_erase hcurr
      have hle := hm.used_le
      have hhalf := hm.half
      refine ⟨⟨?_, ?_, ?_⟩, hholds, iff_of_true rfl ⟨v, curr, hv⟩, ?_⟩
      · show Valid maxChainLength (hashmapHashInt (m.data.set curr none).length) _
        rw [List.length_set]
        exact hvalid
      · show used (m.data.set curr none) ≤ m.size - 1
        omega
      · show 2 * (m.size - 1) ≤ (m.data.set curr none).length
        rw [List.length_set]
        omega
      · intro hsize
        show m.size - 1 = used (m.data.set curr none)
        omega
  · next hnone =>
      have hlacks := hm.valid.find_eq_none.1 hnone
      refine ⟨hm, ?_, iff_of_false MapStatus.noConfusion ?_, id⟩
      · intro k' w
        constructor
        · intro hw
          refine ⟨?_, hw⟩
          rintro rfl
          exact hlacks w hw
        · exact And.right
      · rintro ⟨v, hv⟩
        exact hlacks v hv

/-- `hmap_iterate` comes to the entries: where there are some, `size` is not `0`. -/
theorem hmapIterate_eq {m : HashmapMap V} (hm : m.Sound) : hmapIterate m = entries m.data := by
  unfold hmapIterate hmapSize
  split
  · next hzero =>
      have hle := hm.used_le
      rw [hzero, ← length_entries, Nat.le_zero, List.length_eq_zero_iff] at hle
      exact hle.symm
  · rfl

/-! ## Runs -/

/-- An operation that changes a table. -/
inductive MapOp (V : Type)
  | put (key : CStr) (value : V)
  | remove (key : CStr)

/-- The operation on the table; a `hmap_put` that runs out of memory has no successor. -/
def MapOp.step : MapOp V → HashmapMap V → Option (HashmapMap V)
  | .put k v, m => if (hmapPut m k v).1 = .ok then some (hmapPut m k v).2 else none
  | .remove k, m => some (hmapRemove m k).2

/-- The operation on the map that the table stands for. -/
def MapOp.apply (f : CStr → Option V) : MapOp V → CStr → Option V
  | .put k v => Function.update f k (some v)
  | .remove k => Function.update f k none

/-- The map after the operations. -/
def mapAfter (ops : List (MapOp V)) : CStr → Option V := ops.foldl MapOp.apply (fun _ => none)

/-- The operation does not remove anything. -/
def MapOp.isPut : MapOp V → Bool
  | .put _ _ => true
  | .remove _ => false

/-- Once a key has been removed, all keys that are put are new. -/
def PutsNew (ops : List (MapOp V)) : Prop :=
  ∀ pre k v post, ops = pre ++ .put k v :: post →
    mapAfter pre k = none ∨ pre.all MapOp.isPut = true

/-- All keys that are put are new. -/
def AllNew (ops : List (MapOp V)) : Prop :=
  ∀ pre k v post, ops = pre ++ .put k v :: post → mapAfter pre k = none

/-- What holds of the table after the operations. -/
structure Hashed (room : ℕ) (ops : List (MapOp V)) (m : HashmapMap V) : Prop where
  sound : m.Sound
  holds : ∀ k v, Holds m.data k v ↔ mapAfter ops k = some v
  packed : ops.all MapOp.isPut = true → m.Packed
  exact : AllNew ops → m.size = used m.data
  grown : m.data.length * 2 ^ m.room = initialSize * 2 ^ room

theorem mapAfter_append (ops : List (MapOp V)) (op : MapOp V) :
    mapAfter (ops ++ [op]) = op.apply (mapAfter ops) := by
  rw [mapAfter, List.foldl_append]
  rfl

theorem PutsNew.init {ops : List (MapOp V)} {op : MapOp V} (h : PutsNew (ops ++ [op])) :
    PutsNew ops := by
  intro pre k v post hops
  exact h pre k v (post ++ [op]) (by rw [hops, List.append_assoc, List.cons_append])

theorem AllNew.init {ops : List (MapOp V)} {op : MapOp V} (h : AllNew (ops ++ [op])) :
    AllNew ops := by
  intro pre k v post hops
  exact h pre k v (post ++ [op]) (by rw [hops, List.append_assoc, List.cons_append])

/-- Where nothing is removed, any key may be put. -/
theorem putsNew_map {α : Type} {key : α → CStr} {value : α → V} (l : List α) :
    PutsNew (l.map (fun a => MapOp.put (key a) (value a))) := by
  intro pre k v post hops
  refine Or.inr (List.all_eq_true.2 ?_)
  intro op hop
  have hmem : op ∈ l.map (fun a => MapOp.put (key a) (value a)) := by
    rw [hops]
    exact List.mem_append_left _ hop
  obtain ⟨a, -, rfl⟩ := List.mem_map.1 hmem
  rfl

theorem hashed_create (room : ℕ) : Hashed room [] (hmapCreate room : HashmapMap V) where
  sound := sound_free (by decide) room
  holds := fun k v => iff_of_false not_holds_free (by simp [mapAfter])
  packed := fun _ => by
    rw [HashmapMap.Packed, hmapCreate, List.length_replicate]
    exact packed_free _
  exact := fun _ => (used_free _).symm
  grown := by rw [hmapCreate, List.length_replicate]

/-- **One operation.** -/
theorem Hashed.step {room : ℕ} {ops : List (MapOp V)} {op : MapOp V} {m m' : HashmapMap V}
    (h : Hashed room ops m) (hnew : PutsNew (ops ++ [op])) (hstep : op.step m = some m') :
    Hashed room (ops ++ [op]) m' := by
  have hlacks {k : CStr} (hk : mapAfter ops k = none) : m.Lacks k := by
    intro w hw
    rw [h.holds, hk] at hw
    cases hw
  cases op with
  | put k v =>
      rw [MapOp.step] at hstep
      split at hstep
      · next hok =>
          obtain rfl := Option.some.inj hstep
          have hfresh : m.Lacks k ∨ m.Packed := (hnew ops k v [] rfl).imp hlacks h.packed
          have hst : EntryStored m k v (hmapPut m k v).2 :=
            hmapPutWith_spec m.room h.sound hfresh (Prod.ext hok rfl)
          refine ⟨hst.sound, ?_, ?_, ?_, hst.grown.trans h.grown⟩
          · intro k' w
            rw [hst.holds, mapAfter_append, MapOp.apply, Function.update_apply]
            split
            · rw [Option.some.injEq, eq_comm]
            · exact h.holds k' w
          · intro hall
            rw [List.all_append, Bool.and_eq_true] at hall
            exact hst.packed (h.packed hall.1)
          · intro hall
            exact hst.exact (hlacks (hall ops k v [] rfl)) (h.exact hall.init)
      · cases hstep
  | remove k =>
      obtain rfl := Option.some.inj hstep
      obtain ⟨hsound, hholds, -, hexact⟩ := hmapRemove_spec h.sound k
      refine ⟨hsound, ?_, ?_, fun hall => hexact (h.exact hall.init), ?_⟩
      · intro k' w
        rw [hholds, mapAfter_append, MapOp.apply, Function.update_apply]
        split
        · next hk => exact iff_of_false (fun hh => hh.1 hk) (fun heq => by cases heq)
        · next hk => rw [h.holds, and_iff_right hk]
      · intro hall
        rw [List.all_append, Bool.and_eq_true] at hall
        exact absurd hall.2 Bool.false_ne_true
      · rw [← h.grown]
        unfold hmapRemove
        split
        · rw [List.length_set]
        · rfl

/-- **A run of operations.** The induction is on the last one. -/
theorem hashed_run {room : ℕ} {ops : List (MapOp V)} {m : HashmapMap V} (hnew : PutsNew ops)
    (hrun : Steps.run MapOp.step ops (hmapCreate room) = some m) : Hashed room ops m := by
  induction ops using List.reverseRecOn generalizing m with
  | nil =>
      obtain rfl := Option.some.inj hrun
      exact hashed_create room
  | append_singleton ops op ih =>
      obtain ⟨m₁, hm₁, hlast⟩ := Steps.run_append.1 hrun
      obtain ⟨m₂, hm₂, hnil⟩ := Steps.run_cons.1 hlast
      obtain rfl := Option.some.inj hnil
      exact (ih hnew.init hm₁).step hnew hm₂

/-- **The hash table stands for the map of its operations**: `hmap_get` finds the value that was
put last, `hmap_remove` succeeds exactly if there is one, and `hmap_iterate` comes to every entry
once. -/
theorem hmap_refines {room : ℕ} {ops : List (MapOp V)} {m : HashmapMap V} (hnew : PutsNew ops)
    (hrun : Steps.run MapOp.step ops (hmapCreate room) = some m) :
    (∀ k, hmapGet m k = mapAfter ops k) ∧
      (∀ k, (hmapRemove m k).1 = .ok ↔ mapAfter ops k ≠ none) ∧
      ((hmapIterate m).map Prod.fst).Nodup ∧
      ∀ k v, (k, v) ∈ hmapIterate m ↔ mapAfter ops k = some v := by
  have h := hashed_run hnew hrun
  refine ⟨?_, ?_, ?_, ?_⟩
  · intro k
    apply Option.ext
    intro v
    rw [hmapGet_eq h.sound, h.holds]
  · intro k
    rw [(hmapRemove_spec h.sound k).2.2.1, Option.ne_none_iff_exists']
    exact exists_congr (h.holds k)
  · rw [hmapIterate_eq h.sound]
    exact h.sound.valid.nodup_entries
  · intro k v
    rw [hmapIterate_eq h.sound, mem_entries, h.holds]

/-- A key that has been removed is put again, behind another one. -/
def putAgain : List (MapOp ℕ) := [.put ['a'] 1, .put ['b'] 2, .remove ['a'], .put ['a'] 3]

theorem hmap_refines_putAgain :
    ∃ m : HashmapMap ℕ, (∀ k, hmapGet m k = mapAfter putAgain k) ∧
      (∀ k, (hmapRemove m k).1 = .ok ↔ mapAfter putAgain k ≠ none) ∧
      ((hmapIterate m).map Prod.fst).Nodup ∧
      ∀ k v, (k, v) ∈ hmapIterate m ↔ mapAfter putAgain k = some v := by
  have hnew : PutsNew putAgain := by
    intro pre k v post hops
    unfold putAgain at hops
    rcases pre with _ | ⟨o₁, _ | ⟨o₂, _ | ⟨o₃, _ | ⟨o₄, pre⟩⟩⟩⟩
    · exact Or.inl rfl
    · obtain ⟨rfl, -⟩ := List.cons.inj hops
      exact Or.inr rfl
    · simp at hops
    · simp only [List.cons_append, List.nil_append, List.cons.injEq, MapOp.put.injEq] at hops
      obtain ⟨rfl, rfl, rfl, ⟨rfl, rfl⟩, -⟩ := hops
      exact Or.inl rfl
    · simp at hops
  have hsome : (Steps.run MapOp.step putAgain (hmapCreate 0)).isSome = true := by decide +kernel
  obtain ⟨m, hrun⟩ := Option.isSome_iff_exists.1 hsome
  exact ⟨m, hmap_refines hnew hrun⟩

theorem AllNew.putsNew {ops : List (MapOp V)} (h : AllNew ops) : PutsNew ops :=
  fun pre k v post hops => Or.inl (h pre k v post hops)

/-- **The counters of the table.** If every key that is put is new, `hmap_size` is the number of
the entries. However often the table has grown, it is at most half full, and its size is the first
one doubled as often as `calloc` has granted a table. -/
theorem hmapSize_counts {room : ℕ} {ops : List (MapOp V)} {m : HashmapMap V} (hnew : AllNew ops)
    (hrun : Steps.run MapOp.step ops (hmapCreate room) = some m) :
    hmapSize m = (hmapIterate m).length ∧ 2 * hmapSize m ≤ m.data.length ∧
      m.data.length * 2 ^ m.room = initialSize * 2 ^ room := by
  have h := hashed_run hnew.putsNew hrun
  refine ⟨?_, h.sound.half, h.grown⟩
  rw [hmapIterate_eq h.sound, length_entries]
  exact h.exact hnew

theorem hmapSize_counts_one :
    ∃ m : HashmapMap ℕ, hmapSize m = (hmapIterate m).length ∧ 2 * hmapSize m ≤ m.data.length ∧
      m.data.length * 2 ^ m.room = initialSize * 2 ^ 22 := by
  have hnew : AllNew [MapOp.put ['a'] 1] := by
    intro pre k v post hops
    rcases pre with _ | ⟨o, pre⟩
    · rfl
    · simp at hops
  have hsome : (Steps.run MapOp.step [MapOp.put ['a'] 1] (hmapCreate 22)).isSome = true := by
    decide +kernel
  obtain ⟨m, hrun⟩ := Option.isSome_iff_exists.1 hsome
  exact ⟨m, hmapSize_counts hnew hrun⟩

/-! ## The label table -/

/-- The labels put into the table one by one. -/
def putLabels (puts : List (CStr × Label)) : LabelMap :=
  puts.foldl (fun m e => m.put e.1 e.2) []

theorem putLabels_get (puts : List (CStr × Label)) (k : CStr) :
    (putLabels puts).get k = mapAfter (puts.map (fun e => MapOp.put e.1 e.2)) k := by
  induction puts using List.reverseRecOn with
  | nil => rfl
  | append_singleton puts e ih =>
      have hput : putLabels (puts ++ [e]) = (putLabels puts).put e.1 e.2 := by
        rw [putLabels, List.foldl_append]
        rfl
      rw [hput, LabelMap.get_put, ih, List.map_append, List.map_singleton, mapAfter_append,
        MapOp.apply, Function.update_apply]

/-- **The label table of the assembler** behaves as the map by which it is modelled: the same labels
are found, and `hmap_iterate` comes to them in one of the orders allowed for it. -/
theorem labelMap_hashed {room : ℕ} {puts : List (CStr × Label)} {m : HashmapMap Label}
    (hrun : Steps.run MapOp.step (puts.map (fun e => MapOp.put e.1 e.2)) (hmapCreate room) =
      some m) :
    (∀ k, hmapGet m k = (putLabels puts).get k) ∧
      ∃ order : VisitOrder (putLabels puts), order.entries = hmapIterate m := by
  have h := hashed_run (putsNew_map puts) hrun
  refine ⟨?_, ⟨hmapIterate m, ?_, ?_⟩, rfl⟩
  · intro k
    apply Option.ext
    intro v
    rw [hmapGet_eq h.sound, h.holds, putLabels_get]
  · rw [hmapIterate_eq h.sound]
    exact h.sound.valid.nodup_entries
  · intro k v
    rw [hmapIterate_eq h.sound, mem_entries, h.holds, putLabels_get]

/-- Two labels, the first of which is put a second time. -/
def threePuts : List (CStr × Label) :=
  [(['a'], ⟨⟨0, []⟩, 1, 0, false⟩), (['b'], ⟨⟨0, []⟩, 2, 0, false⟩),
    (['a'], ⟨⟨0, []⟩, 3, 8, true⟩)]

theorem labelMap_hashed_three :
    ∃ m : HashmapMap Label, (∀ k, hmapGet m k = (putLabels threePuts).get k) ∧
      ∃ order : VisitOrder (putLabels threePuts), order.entries = hmapIterate m := by
  have hsome : (Steps.run MapOp.step (threePuts.map (fun e => MapOp.put e.1 e.2))
      (hmapCreate 0)).isSome = true := by
    decide +kernel
  obtain ⟨m, hrun⟩ := Option.isSome_iff_exists.1 hsome
  exact ⟨m, labelMap_hashed hrun⟩

end BvgzVm
