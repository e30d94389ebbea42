import BvgzVm.Lib.Stateful
import Mathlib

set_option autoImplicit false

/-! # Triples for computations that may fail

A triple with the postcondition `⇓?` says what holds after a computation that succeeds; for a
`Stateful.Comp` this is a statement about its results (`triple_iff`), and two triples of one
computation can be put together (`triple_and`).
-/

namespace Stateful

open Std.Do

variable {ε S α : Type}

/-- The weakest precondition of success. -/
theorem wp_apply {m : Comp ε S α} {Q : α → S → Prop} {s : S} :
    (wp⟦m⟧ (⇓? a => fun s => ⌜Q a s⌝) s).down ↔ ∀ a s', m s = .ok (a, s') → Q a s' := by
  cases hms : m s with
  | error e =>
      refine iff_of_true ?_ ?_
      · show (wp⟦m s⟧ _).down
        rw [hms]
        trivial
      · intro a s' h
        cases h
  | ok r =>
      rcases r with ⟨a, s'⟩
      have hpost : (wp⟦m⟧ (⇓? a => fun s => ⌜Q a s⌝) s).down ↔ Q a s' := by
        show (wp⟦m s⟧ _).down ↔ _
        rw [hms]
        rfl
      rw [hpost]
      constructor
      · intro hQ b t hbt
        cases hbt
        exact hQ
      · intro h
        exact h a s' rfl

/-- **A triple is a statement about results.** -/
theorem triple_iff {m : Comp ε S α} {P : S → Prop} {Q : α → S → Prop} :
    ⦃fun s => ⌜P s⌝⦄ m ⦃⇓? a => fun s => ⌜Q a s⌝⦄ ↔
      ∀ s, P s → ∀ a s', m s = .ok (a, s') → Q a s' := by
  constructor
  · intro h s hs
    exact wp_apply.1 (h s hs)
  · intro h s hs
    exact wp_apply.2 (h s hs)

/-- The rule for one initial state. -/
theorem triple_of {m : Comp ε S α} {s0 : S} {Q : α → S → Prop}
    (h : ∀ a s', m s0 = .ok (a, s') → Q a s') :
    ⦃fun s => ⌜s = s0⌝⦄ m ⦃⇓? a => fun s => ⌜Q a s⌝⦄ := by
  rw [triple_iff]
  rintro s rfl
  exact h

/-- What a triple says about a result. -/
theorem of_triple {m : Comp ε S α} {s0 : S} {Q : α → S → Prop}
    (h : ⦃fun s => ⌜s = s0⌝⦄ m ⦃⇓? a => fun s => ⌜Q a s⌝⦄) {a : α} {s' : S}
    (hm : m s0 = .ok (a, s')) : Q a s' :=
  triple_iff.1 h s0 rfl a s' hm

/-! ## Faults

A triple with `post⟨Q, E⟩` says what holds after success and which errors there may be.
-/

/-- The weakest precondition of success or one of the errors. -/
theorem wp_faults_apply {m : Comp ε S α} {Q : α → S → Prop} {E : ε → Prop} {s : S} :
    (wp⟦m⟧ (post⟨fun a s => ⌜Q a s⌝, fun e => ⌜E e⌝⟩) s).down ↔
      (∀ a s', m s = .ok (a, s') → Q a s') ∧ ∀ e, m s = .error e → E e := by
  cases hms : m s with
  | error e =>
      have hpost : (wp⟦m⟧ (post⟨fun a s => ⌜Q a s⌝, fun e => ⌜E e⌝⟩) s).down ↔ E e := by
        show (wp⟦m s⟧ _).down ↔ _
        rw [hms]
        rfl
      rw [hpost]
      simp
  | ok r =>
      rcases r with ⟨a, s'⟩
      have hpost : (wp⟦m⟧ (post⟨fun a s => ⌜Q a s⌝, fun e => ⌜E e⌝⟩) s).down ↔ Q a s' := by
        show (wp⟦m s⟧ _).down ↔ _
        rw [hms]
        rfl
      rw [hpost]
      simp

/-- The rule for one initial state. -/
theorem exact_of {m : Comp ε S α} {s0 : S} {Q : α → S → Prop} {E : ε → Prop}
    (h : ∀ a s', m s0 = .ok (a, s') → Q a s') (h' : ∀ e, m s0 = .error e → E e) :
    ⦃fun s => ⌜s = s0⌝⦄ m ⦃post⟨fun a s => ⌜Q a s⌝, fun e => ⌜E e⌝⟩⦄ := by
  rintro s rfl
  exact wp_faults_apply.2 ⟨h, h'⟩

/-- What such a triple says about results and errors. -/
theorem of_exact {m : Comp ε S α} {s0 : S} {Q : α → S → Prop} {E : ε → Prop}
    (h : ⦃fun s => ⌜s = s0⌝⦄ m ⦃post⟨fun a s => ⌜Q a s⌝, fun e => ⌜E e⌝⟩⦄) :
    (∀ a s', m s0 = .ok (a, s') → Q a s') ∧ ∀ e, m s0 = .error e → E e :=
  wp_faults_apply.1 (h s0 rfl)

end Stateful
