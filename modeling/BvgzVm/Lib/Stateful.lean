import BvgzVm.Lib.Except

set_option autoImplicit false

/-! # Computations on a state that may fail

`Comp ε S α` takes a state and fails or returns a value with a new state.
-/

namespace Stateful

variable {ε S α β : Type}

/-- A computation on a state that may fail. -/
abbrev Comp (ε S α : Type) := StateT S (Except ε) α

/-! ## How a computation succeeds -/

theorem bind_eq_ok {m : Comp ε S α} {f : α → Comp ε S β} {b : β} {s s'' : S} :
    (m >>= f) s = .ok (b, s'') ↔ ∃ a s', m s = .ok (a, s') ∧ f a s' = .ok (b, s'') := by
  show ((m s) >>= fun r => f r.1 r.2) = _ ↔ _
  rw [Fallible.bind_eq_ok]
  constructor
  · rintro ⟨⟨a, s'⟩, hm, hf⟩
    exact ⟨a, s', hm, hf⟩
  · rintro ⟨a, s', hm, hf⟩
    exact ⟨(a, s'), hm, hf⟩

/-- The first part of a sequence, carried out. -/
theorem bind_of_ok {m : Comp ε S α} {f : α → Comp ε S β} {a : α} {s s' : S}
    (h : m s = .ok (a, s')) : (m >>= f) s = f a s' := by
  show ((m s) >>= fun r => f r.1 r.2) = _
  rw [h]
  rfl

/-- A failure ends a sequence. -/
theorem bind_of_error {m : Comp ε S α} {f : α → Comp ε S β} {e : ε} {s : S}
    (h : m s = .error e) : (m >>= f) s = .error e := by
  show ((m s) >>= fun r => f r.1 r.2) = _
  rw [h]
  rfl

/-- A sequence fails only where one of its parts does. -/
theorem bind_ne_error {m : Comp ε S α} {f : α → Comp ε S β} {e : ε} {s : S}
    (hm : m s ≠ .error e) (hf : ∀ a s', m s = .ok (a, s') → f a s' ≠ .error e) :
    (m >>= f) s ≠ .error e := by
  cases hrun : m s with
  | error e' =>
      rw [bind_of_error hrun]
      rintro ⟨⟩
      exact hm hrun
  | ok r =>
      rcases r with ⟨a, s'⟩
      rw [bind_of_ok hrun]
      exact hf a s' hrun

theorem get_run (s : S) : (get : Comp ε S S) s = .ok (s, s) := rfl

end Stateful
