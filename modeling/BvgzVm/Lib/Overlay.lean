import Mathlib.Tactic

set_option autoImplicit false

/-! # Laying finite pieces over a sequence

`overlay f off l` is the sequence `f` with the elements of `l` from index `off` on. Pieces that are
laid one after the other leave, at every index, the element of the last piece that covers it.
-/

namespace Overlay

variable {α : Type}

/-- The sequence `f` with `l` from `off` on. -/
def overlay (f : ℕ → α) (off : ℕ) (l : List α) : ℕ → α :=
  fun i => if off ≤ i then (l[i - off]?).getD (f i) else f i

@[simp] theorem overlay_nil (f : ℕ → α) (off : ℕ) : overlay f off [] = f := by
  funext i
  simp [overlay]

theorem overlay_before {f : ℕ → α} {off i : ℕ} (l : List α) (h : i < off) :
    overlay f off l i = f i := if_neg (by omega)

theorem overlay_behind {f : ℕ → α} {off i : ℕ} {l : List α} (h : off + l.length ≤ i) :
    overlay f off l i = f i := by
  rw [overlay, if_pos (by omega), List.getElem?_eq_none (by omega), Option.getD_none]

theorem overlay_inside {f : ℕ → α} {off i : ℕ} {l : List α} {a : α} (h : off ≤ i)
    (ha : l[i - off]? = some a) : overlay f off l i = a := by
  rw [overlay, if_pos h, ha, Option.getD_some]

/-- **A piece in two parts**: they are laid side by side. -/
theorem overlay_append (f : ℕ → α) (off : ℕ) (l m : List α) :
    overlay f off (l ++ m) = overlay (overlay f off l) (off + l.length) m := by
  funext i
  by_cases hi : off + l.length ≤ i
  · rw [overlay, overlay, if_pos (by omega), if_pos hi, List.getElem?_append_right (by omega),
      overlay_behind hi, Nat.sub_sub]
  · rw [overlay_before m (by omega), overlay, overlay]
    by_cases hoff : off ≤ i
    · rw [if_pos hoff, if_pos hoff, List.getElem?_append_left (by omega)]
    · rw [if_neg hoff, if_neg hoff]

/-- The element that a piece puts at `i`. -/
def at? (off : ℕ) (l : List α) (i : ℕ) : Option α := if off ≤ i then l[i - off]? else none

theorem overlay_eq_getD (f : ℕ → α) (off : ℕ) (l : List α) (i : ℕ) :
    overlay f off l i = (at? off l i).getD (f i) := by
  unfold overlay at?
  by_cases h : off ≤ i
  · rw [if_pos h, if_pos h]
  · rw [if_neg h, if_neg h, Option.getD_none]

/-- **A piece that is there already.** -/
theorem overlay_eq_self {f : ℕ → α} {off : ℕ} {l : List α}
    (h : ∀ k a, l[k]? = some a → f (off + k) = a) : overlay f off l = f := by
  funext i
  rw [overlay_eq_getD]
  cases hat : at? off l i with
  | none => rfl
  | some a =>
      unfold at? at hat
      split at hat
      · next hoff =>
          have hsame := h (i - off) a hat
          rw [Nat.add_sub_of_le hoff] at hsame
          exact hsame.symm
      · cases hat

/-- The pieces laid over `f`, the first one first. -/
def overlays (f : ℕ → α) (ps : List (ℕ × List α)) : ℕ → α :=
  ps.foldl (fun f p => overlay f p.1 p.2) f

@[simp] theorem overlays_nil (f : ℕ → α) : overlays f [] = f := rfl

@[simp] theorem overlays_cons (f : ℕ → α) (p : ℕ × List α) (ps : List (ℕ × List α)) :
    overlays f (p :: ps) = overlays (overlay f p.1 p.2) ps := rfl

/-- **The last piece wins**: an element is the one of a piece that no later piece covers, or the
one that was there before. -/
theorem overlays_cases (f : ℕ → α) (ps : List (ℕ × List α)) (i : ℕ) :
    (overlays f ps i = f i ∧ ∀ p ∈ ps, at? p.1 p.2 i = none) ∨
      ∃ (k : ℕ) (p : ℕ × List α), ps[k]? = some p ∧
        at? p.1 p.2 i = some (overlays f ps i) ∧
        ∀ (j : ℕ) (q : ℕ × List α), k < j → ps[j]? = some q → at? q.1 q.2 i = none := by
  induction ps generalizing f with
  | nil => exact Or.inl ⟨rfl, fun p hp => by cases hp⟩
  | cons p ps ih =>
      rcases ih (overlay f p.1 p.2) with ⟨hval, hnone⟩ | ⟨k, q, hq, hval, hlater⟩
      · -- no later piece covers `i`: it depends on the first one
        rw [overlays_cons, hval, overlay_eq_getD]
        cases hat : at? p.1 p.2 i with
        | none =>
            refine Or.inl ⟨rfl, ?_⟩
            intro q hq
            rcases List.mem_cons.1 hq with rfl | hq
            · exact hat
            · exact hnone q hq
        | some a =>
            refine Or.inr ⟨0, p, rfl, hat, ?_⟩
            intro j q hj hq
            cases j with
            | zero => omega
            | succ j =>
                rw [List.getElem?_cons_succ] at hq
                exact hnone q (List.mem_of_getElem? hq)
      · refine Or.inr ⟨k + 1, q, by rw [List.getElem?_cons_succ, hq], hval, ?_⟩
        intro j r hj hr
        cases j with
        | zero => omega
        | succ j =>
            rw [List.getElem?_cons_succ] at hr
            exact hlater j r (by omega) hr

/-- **Pieces that agree** where they overlap are all there, whatever their order. -/
theorem overlays_of_agree {f : ℕ → α} {ps : List (ℕ × List α)}
    (hagree : ∀ p ∈ ps, ∀ q ∈ ps, ∀ i a b, at? p.1 p.2 i = some a → at? q.1 q.2 i = some b → a = b)
    {p : ℕ × List α} (hp : p ∈ ps) {i : ℕ} {a : α} (ha : at? p.1 p.2 i = some a) :
    overlays f ps i = a := by
  rcases overlays_cases f ps i with ⟨-, hnone⟩ | ⟨k, q, hq, hval, -⟩
  · rw [hnone p hp] at ha
    cases ha
  · exact hagree q (List.mem_of_getElem? hq) p hp i _ a hval ha

/-- Where no piece is, nothing changes. -/
theorem overlays_outside {f : ℕ → α} {ps : List (ℕ × List α)} {i : ℕ}
    (h : ∀ p ∈ ps, at? p.1 p.2 i = none) : overlays f ps i = f i := by
  rcases overlays_cases f ps i with ⟨hval, -⟩ | ⟨k, q, hq, hval, -⟩
  · exact hval
  · rw [h q (List.mem_of_getElem? hq)] at hval
    cases hval

theorem at?_map {β : Type} (g : α → β) (off : ℕ) (l : List α) (i : ℕ) :
    at? off (l.map g) i = (at? off l i).map g := by
  unfold at?
  by_cases h : off ≤ i
  · rw [if_pos h, if_pos h, List.getElem?_map]
  · rw [if_neg h, if_neg h, Option.map_none]

theorem at?_eq_none {off i : ℕ} {l : List α} : at? off l i = none ↔ ¬ (off ≤ i ∧ i < off + l.length) := by
  unfold at?
  by_cases h : off ≤ i
  · rw [if_pos h, List.getElem?_eq_none_iff]
    omega
  · rw [if_neg h]
    exact iff_of_true rfl (fun hin => h hin.1)

end Overlay
