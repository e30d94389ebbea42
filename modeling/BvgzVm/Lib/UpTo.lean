import BvgzVm.Lib.Except

set_option autoImplicit false

/-! # Refinement up to giving up

`UpTo give R x y`: the computation `x` does what `y` says, with results related by `R` and with the
same errors, unless it fails with an error of its own, `give`, which says nothing. The rules follow
the ways to build a computation.
-/

namespace Fallible

variable {ε α β γ δ : Type}

/-- `x` gives up, or ends like `y`. -/
inductive UpTo (give : ε) (R : α → β → Prop) : Except ε α → Except ε β → Prop
  | gaveUp (y : Except ε β) : UpTo give R (.error give) y
  | ok {a : α} {b : β} : R a b → UpTo give R (.ok a) (.ok b)
  | error (e : ε) : UpTo give R (.error e) (.error e)

variable {give : ε} {R : α → β → Prop} {S : γ → δ → Prop}

theorem UpTo.mono {R' : α → β → Prop} {x : Except ε α} {y : Except ε β} (h : UpTo give R x y)
    (hR : ∀ a b, R a b → R' a b) : UpTo give R' x y := by
  cases h with
  | gaveUp => exact .gaveUp y
  | ok hab => exact .ok (hR _ _ hab)
  | error e => exact .error e

theorem UpTo.refl (give : ε) (x : Except ε α) : UpTo give Eq x x := by
  cases x with
  | error e => exact .error e
  | ok a => exact .ok rfl

/-- **Sequences**: related results are handed on. -/
theorem UpTo.bind {x : Except ε α} {y : Except ε β} {f : α → Except ε γ} {g : β → Except ε δ}
    (h : UpTo give R x y) (hf : ∀ a b, R a b → UpTo give S (f a) (g b)) :
    UpTo give S (x >>= f) (y >>= g) := by
  cases h with
  | gaveUp => exact .gaveUp _
  | ok hab => exact hf _ _ hab
  | error e => exact .error e

/-- A first step that the other computation does not have. -/
theorem UpTo.bind_left {x : Except ε α} {b : β} {f : α → Except ε γ} {y : Except ε δ}
    (h : UpTo give R x (.ok b)) (hf : ∀ a, R a b → UpTo give S (f a) y) :
    UpTo give S (x >>= f) y := by
  cases h with
  | gaveUp => exact .gaveUp _
  | ok hab => exact hf _ hab

theorem UpTo.ite {c : Prop} [Decidable c] {x x' : Except ε α} {y y' : Except ε β}
    (h : UpTo give R x y) (h' : UpTo give R x' y') :
    UpTo give R (if c then x else x') (if c then y else y') := by
  by_cases hc : c
  · rwa [if_pos hc, if_pos hc]
  · rwa [if_neg hc, if_neg hc]

/-- A computation that ends well has not given up. -/
theorem UpTo.of_ok {x : Except ε α} {y : Except ε β} (h : UpTo give R x y) {a : α}
    (hx : x = .ok a) : ∃ b, y = .ok b ∧ R a b := by
  subst hx
  cases h with
  | ok hab => exact ⟨_, rfl, hab⟩

/-- One that does not give up ends like the other. -/
theorem UpTo.of_ne {x : Except ε α} {y : Except ε β} (h : UpTo give R x y)
    (hx : x ≠ .error give) :
    (∃ a b, x = .ok a ∧ y = .ok b ∧ R a b) ∨ ∃ e, x = .error e ∧ y = .error e := by
  cases h with
  | gaveUp => exact absurd rfl hx
  | ok hab => exact Or.inl ⟨_, _, rfl, rfl, hab⟩
  | error e => exact Or.inr ⟨e, rfl, rfl⟩

/-- Computations that are related whichever error says nothing end alike, errors included. -/
theorem UpTo.rel_toOption {x : Except ε α} {y : Except ε β} {e e' : ε} (hne : e ≠ e')
    (h : ∀ give, UpTo give R x y) : Option.Rel R x.toOption y.toOption := by
  have hother : ∃ give, x ≠ .error give := by
    by_cases hx : x = .error e
    · refine ⟨e', ?_⟩
      intro hx'
      rw [hx] at hx'
      exact hne (Except.error.inj hx')
    · exact ⟨e, hx⟩
  rcases hother with ⟨give, hgive⟩
  rcases (h give).of_ne hgive with ⟨a, b, rfl, rfl, hab⟩ | ⟨f, rfl, rfl⟩
  · exact .some hab
  · exact .none

theorem exists_of_rel {a : α} {y : Option β} (h : Option.Rel R (some a) y) :
    ∃ b, y = some b ∧ R a b := by
  cases h with
  | some hab => exact ⟨_, rfl, hab⟩

theorem exists_of_rel_right {x : Option α} {b : β} (h : Option.Rel R x (some b)) :
    ∃ a, x = some a ∧ R a b := by
  cases h with
  | some hab => exact ⟨_, rfl, hab⟩

/-- Related results are handed on. -/
theorem rel_bind {x : Option α} {y : Option β} {f : α → Option γ} {g : β → Option δ}
    (h : Option.Rel R x y) (hf : ∀ a b, R a b → Option.Rel S (f a) (g b)) :
    Option.Rel S (x.bind f) (y.bind g) := by
  cases h with
  | some hab => exact hf _ _ hab
  | none => exact .none

end Fallible
