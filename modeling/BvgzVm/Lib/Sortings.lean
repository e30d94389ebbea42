import Mathlib.Data.List.Sort
import Mathlib.Tactic

set_option autoImplicit false

/-! # Sorting by a key

`IsSorting key l s` says what is known of a list that has been sorted by a routine of which nothing
else is known: it is a permutation of `l`, and its keys do not decrease. There is always one
(`exists_sorting`), and with distinct keys only one (`IsSorting.unique`). Otherwise there are two
entries with one key next to each other (`exists_tie`), and they may as well come in the other
order (`IsSorting.swap`).
-/

namespace Sortings

variable {α κ : Type} [LinearOrder κ] {key : α → κ}

/-- `s` is `l`, sorted by the key. -/
structure IsSorting (key : α → κ) (l s : List α) : Prop where
  perm : s.Perm l
  ordered : s.Pairwise (fun a b => key a ≤ key b)

theorem exists_sorting (key : α → κ) (l : List α) : ∃ s, IsSorting key l s := by
  refine ⟨l.mergeSort (fun a b => decide (key a ≤ key b)), List.mergeSort_perm _ _, ?_⟩
  have htrans : ∀ a b c : α, decide (key a ≤ key b) = true → decide (key b ≤ key c) = true →
      decide (key a ≤ key c) = true := by
    intro a b c hab hbc
    exact decide_eq_true ((of_decide_eq_true hab).trans (of_decide_eq_true hbc))
  have htotal : ∀ a b : α, (decide (key a ≤ key b) || decide (key b ≤ key a)) = true := by
    intro a b
    rw [Bool.or_eq_true, decide_eq_true_iff, decide_eq_true_iff]
    exact le_total (key a) (key b)
  exact (List.pairwise_mergeSort htrans htotal l).imp fun h => of_decide_eq_true h

/-- **With distinct keys** there is one way to sort. -/
theorem IsSorting.unique {l s s' : List α} (hkeys : (l.map key).Nodup) (h : IsSorting key l s)
    (h' : IsSorting key l s') : s = s' := by
  refine List.Perm.eq_of_pairwise ?_ h.ordered h'.ordered (h.perm.trans h'.perm.symm)
  intro a b ha hb hab hba
  exact List.inj_on_of_nodup_map hkeys (h.perm.mem_iff.1 ha) (h'.perm.mem_iff.1 hb)
    (le_antisymm hab hba)

/-- **Entries with one key** come next to each other. The induction is on the sorted list. -/
theorem exists_tie {s : List α} (hordered : s.Pairwise (fun a b => key a ≤ key b))
    (hkeys : ¬ (s.map key).Nodup) :
    ∃ pre a b post, s = pre ++ a :: b :: post ∧ key a = key b := by
  induction s with
  | nil => exact absurd List.nodup_nil hkeys
  | cons a s ih =>
      rw [List.pairwise_cons] at hordered
      by_cases hrest : (s.map key).Nodup
      · -- the first entry has the key of another one, and so that of the second
        rw [List.map_cons, List.nodup_cons, not_and_or, not_not] at hkeys
        rcases hkeys with hmem | hnodup
        · rcases List.mem_map.1 hmem with ⟨x, hx, hkey⟩
          cases s with
          | nil => cases hx
          | cons b s =>
              refine ⟨[], a, b, s, rfl, ?_⟩
              have hle := hordered.1 b List.mem_cons_self
              rcases List.mem_cons.1 hx with rfl | hx
              · exact hkey.symm
              · have hge := (List.pairwise_cons.1 hordered.2).1 x hx
                rw [hkey] at hge
                exact le_antisymm hle hge
        · exact absurd hrest hnodup
      · rcases ih hordered.2 hrest with ⟨pre, b, c, post, rfl, hkey⟩
        exact ⟨a :: pre, b, c, post, rfl, hkey⟩

/-- **A tie** may be broken either way. -/
theorem IsSorting.swap {l pre post : List α} {a b : α}
    (h : IsSorting key l (pre ++ a :: b :: post)) (hkey : key a = key b) :
    IsSorting key l (pre ++ b :: a :: post) := by
  constructor
  · exact ((List.Perm.swap a b post).append_left pre).trans h.perm
  · have hordered := h.ordered
    rw [List.pairwise_append, List.pairwise_cons, List.pairwise_cons] at hordered ⊢
    rcases hordered with ⟨hpre, ⟨ha, hb, hpost⟩, hcross⟩
    refine ⟨hpre, ⟨?_, ?_, hpost⟩, ?_⟩
    · intro x hx
      rcases List.mem_cons.1 hx with rfl | hx
      · exact hkey.ge
      · exact hb x hx
    · intro x hx
      exact ha x (List.mem_cons_of_mem b hx)
    · intro x hx y hy
      refine hcross x hx y ?_
      simp only [List.mem_cons] at hy ⊢
      tauto

end Sortings
