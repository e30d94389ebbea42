import Mathlib.Data.List.Perm.Basic
import Mathlib.Tactic

set_option autoImplicit false

/-! # Removing from an array by moving its last entry

`swapRemove l e` overwrites the entry `e` with the last one and drops the last one. The entries
that are left are those of `l` without the entry `e` (`swapRemove_perm`), but the last one has
jumped over those behind `e`. Among the entries of a kind the order is kept if the one that moves
jumps over none of them (`filter_swapRemove`).
-/

namespace SwapRemove

variable {α : Type}

/-- The array without the entry `e`, whose place the last entry takes. -/
def swapRemove (l : List α) (e : Nat) : List α :=
  match l.getLast? with
  | none => []
  | some y => if e + 1 = l.length then l.dropLast else (l.set e y).dropLast

/-- Removing the last entry. -/
theorem swapRemove_last (l : List α) (x : α) : swapRemove (l ++ [x]) l.length = l := by
  simp [swapRemove]

/-- Removing an entry that is not the last one. -/
theorem swapRemove_mid (a m : List α) (x y : α) :
    swapRemove (a ++ x :: (m ++ [y])) a.length = a ++ y :: m := by
  have hlast : (a ++ x :: (m ++ [y])).getLast? = some y := by
    rw [← List.cons_append, ← List.append_assoc, List.getLast?_concat]
  have hne : ¬ a.length + 1 = (a ++ x :: (m ++ [y])).length := by simp
  unfold swapRemove
  rw [hlast]
  dsimp only
  rw [if_neg hne, List.set_append_right _ _ (le_refl _), Nat.sub_self, List.set_cons_zero,
    ← List.cons_append, ← List.append_assoc, List.dropLast_concat]

/-- The two ways in which an entry lies in an array. -/
theorem split_at_entry {l : List α} {e : Nat} {x : α} (h : l[e]? = some x) :
    (∃ a, l = a ++ [x] ∧ a.length = e) ∨
      ∃ a m y, l = a ++ x :: (m ++ [y]) ∧ a.length = e := by
  have he : e < l.length := (List.getElem?_eq_some_iff.1 h).1
  have hx : l[e] = x := (List.getElem?_eq_some_iff.1 h).2
  have hlen : (l.take e).length = e := by
    rw [List.length_take]
    omega
  have hsplit : l = l.take e ++ x :: l.drop (e + 1) := by
    rw [← hx, List.cons_getElem_drop_succ, List.take_append_drop]
  rcases List.eq_nil_or_concat (l.drop (e + 1)) with hnil | ⟨m, y, hm⟩
  · rw [hnil] at hsplit
    exact Or.inl ⟨_, hsplit, hlen⟩
  · rw [hm, List.concat_eq_append] at hsplit
    exact Or.inr ⟨_, _, _, hsplit, hlen⟩

/-- **What is left** are the other entries. -/
theorem swapRemove_perm {l : List α} {e : Nat} {x : α} (h : l[e]? = some x) :
    (x :: swapRemove l e).Perm l := by
  rcases split_at_entry h with ⟨a, rfl, rfl⟩ | ⟨a, m, y, rfl, rfl⟩
  · rw [swapRemove_last]
    exact (List.perm_append_singleton x a).symm
  · rw [swapRemove_mid]
    calc
      (x :: (a ++ y :: m)).Perm (a ++ x :: y :: m) := List.perm_middle.symm
      _ |>.Perm (a ++ x :: (m ++ [y])) :=
        ((List.perm_append_singleton y m).symm.cons x).append_left a

theorem length_swapRemove {l : List α} {e : Nat} {x : α} (h : l[e]? = some x) :
    (swapRemove l e).length + 1 = l.length := (swapRemove_perm h).length_eq

/-- The entries in front stay where they are. -/
theorem take_swapRemove {l : List α} {e : Nat} {x : α} (h : l[e]? = some x) :
    (swapRemove l e).take e = l.take e := by
  rcases split_at_entry h with ⟨a, rfl, rfl⟩ | ⟨a, m, y, rfl, rfl⟩
  · rw [swapRemove_last, List.take_length, List.take_left]
  · rw [swapRemove_mid, List.take_left, List.take_left]

theorem mem_swapRemove {l : List α} {e : Nat} {x y : α} (h : l[e]? = some x)
    (hy : y ∈ swapRemove l e) : y ∈ l :=
  (swapRemove_perm h).mem_iff.1 (List.mem_cons_of_mem x hy)

/-- A value in front of its own copies. -/
theorem cons_eq_append_singleton {m : List α} {y : α} (h : ∀ x ∈ m, x = y) :
    y :: m = m ++ [y] := by
  rw [List.eq_replicate_of_mem h, ← List.replicate_succ, List.replicate_succ']

/-- **The order is kept** among the entries of a kind, if the last entry is not of that kind or
jumps over none of it but its copies. -/
theorem filter_swapRemove (p : α → Bool) {a m : List α} {y : α}
    (h : p y = true → ∀ x ∈ m, p x = true → x = y) :
    (a ++ y :: m).filter p = a.filter p ++ (m ++ [y]).filter p := by
  rw [List.filter_append, List.filter_append]
  by_cases hy : p y = true
  · have hcopies : ∀ x ∈ m.filter p, x = y := by
      intro x hx
      rcases List.mem_filter.1 hx with ⟨hmem, hpx⟩
      exact h hy x hmem hpx
    rw [List.filter_cons_of_pos hy, cons_eq_append_singleton hcopies, List.filter_cons_of_pos hy]
    rfl
  · rw [List.filter_cons_of_neg hy, List.filter_cons_of_neg hy]
    simp

end SwapRemove
