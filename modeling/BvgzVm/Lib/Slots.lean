import Mathlib.Tactic

set_option autoImplicit false

/-! # Sums over the slots in use

A table is a list of slots of which some are in use. `total used f l` is the sum of `f` over the
slots in use; with `f = 1` it is their number. A table changes one slot at a time (`total_set`) and
grows by slots that are not in use (`total_append_unused`). A counter of 32 bits that follows such
a sum must not wrap around (`toNat_add_one_iff`).
-/

namespace Slots

variable {α : Type} (used : α → Bool) (f : α → Nat)

/-- The sum over the slots in use. -/
def total (l : List α) : Nat := ((l.filter used).map f).sum

/-- What one slot adds to the sum. -/
def weight (x : α) : Nat := if used x then f x else 0

theorem weight_of_used {x : α} (h : used x = true) : weight used f x = f x := if_pos h

theorem weight_of_unused {x : α} (h : used x = false) : weight used f x = 0 := by
  unfold weight
  rw [h]
  rfl

theorem total_nil : total used f [] = 0 := rfl

theorem total_cons (x : α) (l : List α) : total used f (x :: l) = weight used f x + total used f l := by
  unfold total weight
  by_cases h : used x = true
  · rw [List.filter_cons_of_pos h, if_pos h, List.map_cons, List.sum_cons]
  · rw [List.filter_cons_of_neg h, if_neg h, Nat.zero_add]

theorem total_append (l l' : List α) :
    total used f (l ++ l') = total used f l + total used f l' := by
  unfold total
  rw [List.filter_append, List.map_append, List.sum_append]

/-- **One slot changes.** -/
theorem total_set {l : List α} {i : Nat} {x : α} (y : α) (h : l[i]? = some x) :
    total used f (l.set i y) + weight used f x = total used f l + weight used f y := by
  induction l generalizing i with
  | nil => cases h
  | cons a l ih =>
      cases i with
      | zero =>
          cases h
          rw [List.set_cons_zero, total_cons, total_cons]
          omega
      | succ i =>
          have hi := ih (i := i) h
          rw [List.set_cons_succ, total_cons, total_cons]
          omega

/-- New slots that are not in use do not count. -/
theorem total_append_unused (l : List α) (k : Nat) {a : α} (ha : used a = false) :
    total used f (l ++ List.replicate k a) = total used f l := by
  have hnone : total used f (List.replicate k a) = 0 := by
    unfold total
    rw [List.filter_replicate, ha]
    rfl
  rw [total_append, hnone, Nat.add_zero]

/-- The sum is positive when a slot in use adds to it. -/
theorem total_pos_iff {l : List α} : 0 < total used f l ↔ ∃ x ∈ l, used x = true ∧ 0 < f x := by
  unfold total
  rw [List.sum_pos_iff_exists_pos_nat]
  constructor
  · rintro ⟨n, hn, hpos⟩
    rcases List.mem_map.1 hn with ⟨x, hx, rfl⟩
    rcases List.mem_filter.1 hx with ⟨hmem, hused⟩
    exact ⟨x, hmem, hused, hpos⟩
  · rintro ⟨x, hmem, hused, hpos⟩
    exact ⟨f x, List.mem_map_of_mem (List.mem_filter.2 ⟨hmem, hused⟩), hpos⟩

/-! ## Counters of 32 bits -/

/-- Numbers that are taken off the counter. -/
theorem toNat_sub_ofNat {c : UInt32} {n : Nat} (h : n ≤ c.toNat) :
    (c - UInt32.ofNat n).toNat = c.toNat - n := by
  have hn : (UInt32.ofNat n).toNat = n := UInt32.toNat_ofNat_of_lt' (Nat.lt_of_le_of_lt h c.toNat_lt)
  rw [UInt32.toNat_sub_of_le _ _ (UInt32.le_iff_toNat_le.2 (by rw [hn]; exact h)), hn]

/-- A number that is added to the counter. -/
theorem toNat_add_one_iff {c : UInt32} : (c + 1).toNat = c.toNat + 1 ↔ c ≠ 0xffffffff := by
  have hlt := c.toNat_lt
  rw [UInt32.toNat_add, show (1 : UInt32).toNat = 1 from rfl]
  rw [← UInt32.toNat_inj.ne, show (0xffffffff : UInt32).toNat = 2 ^ 32 - 1 from rfl]
  omega

end Slots
