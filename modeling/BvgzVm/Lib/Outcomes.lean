import Mathlib.Tactic

set_option autoImplicit false

/-! # Systems that come to an end

A step of a deterministic system leads to the next state or ends with a result; where there is no
step, the system has no meaning (`Step`). `Leads` says what a system comes to, and is the meaning
of a triple: the rules `Triple.conseq`, `Triple.seq` and `triple_step` put the triples of a
program together. `Ends` says with what a system ends.

Two systems are compared with a simulation that may leave out steps of the first one
(`Simulation`). As long as the first one has a meaning, so has the second one, and it ends
exactly if the first one does, with a related result.
-/

namespace Outcomes

/-- The next state, or the result; `none` where the system has no meaning. -/
abbrev Step (S R : Type) := S → Option (S ⊕ R)

variable {S T R R' : Type}

/-- The system comes from a state to one of the states in `Q`. -/
inductive Leads (step : Step S R) (Q : S → Prop) : S → Prop
  | here {s : S} (h : Q s) : Leads step Q s
  | next {s s' : S} (h : step s = some (.inl s')) (rest : Leads step Q s') : Leads step Q s

/-- The system ends with this result. -/
inductive Ends (step : Step S R) : S → R → Prop
  | done {s : S} {r : R} (h : step s = some (.inr r)) : Ends step s r
  | next {s s' : S} {r : R} (h : step s = some (.inl s')) (rest : Ends step s' r) : Ends step s r

/-- Every state the system comes to has a meaning. -/
def Defined (step : Step S R) (s : S) : Prop := ∀ s', Leads step (· = s') s → step s' ≠ none

section System

variable {step : Step S R} {P P' Q Q' : S → Prop} {s s' : S} {r r' : R}

theorem Defined.self (h : Defined step s) : step s ≠ none := h s (.here rfl)

theorem Defined.next (h : Defined step s) (hstep : step s = some (.inl s')) : Defined step s' :=
  fun u hu => h u (.next hstep hu)

/-- A system ends with one result only. -/
theorem Ends.unique (h : Ends step s r) (h' : Ends step s r') : r = r' := by
  induction h with
  | done hs =>
      cases h' with
      | done hs' =>
          rw [hs] at hs'
          exact Sum.inr.inj (Option.some.inj hs')
      | next hs' _ =>
          rw [hs] at hs'
          cases hs'
  | next hs _ ih =>
      cases h' with
      | done hs' =>
          rw [hs] at hs'
          cases hs'
      | next hs' rest =>
          rw [hs] at hs'
          obtain rfl := Sum.inl.inj (Option.some.inj hs')
          exact ih rest

/-- A system that ends has a meaning until then. -/
theorem Ends.defined (h : Ends step s r) : Defined step s := by
  induction h with
  | done hs =>
      intro u hu
      cases hu with
      | here h =>
          rw [← h, hs]
          simp
      | next hs' _ =>
          rw [hs] at hs'
          cases hs'
  | next hs _ ih =>
      intro u hu
      cases hu with
      | here h =>
          rw [← h, hs]
          simp
      | next hs' rest =>
          rw [hs] at hs'
          obtain rfl := Sum.inl.inj (Option.some.inj hs')
          exact ih u rest

/-- A system that comes to a state ends as it does from there. -/
theorem Leads.ends {F : R → Prop} (h : Leads step Q s)
    (hQ : ∀ s', Q s' → ∃ r, Ends step s' r ∧ F r) : ∃ r, Ends step s r ∧ F r := by
  induction h with
  | here h => exact hQ _ h
  | next hs _ ih =>
      rcases ih with ⟨r, hr, hF⟩
      exact ⟨r, .next hs hr, hF⟩

/-! ## Triples -/

/-- From every state in `P` the system comes to one in `Q`. -/
def Triple (step : Step S R) (P Q : S → Prop) : Prop := ∀ s, P s → Leads step Q s

theorem Leads.bind (h : Leads step P s) (hQ : Triple step P Q) : Leads step Q s := by
  induction h with
  | here h => exact hQ _ h
  | next hs _ ih => exact .next hs ih

/-- The rule for one step. -/
theorem triple_step (h : ∀ s, P s → ∃ s', step s = some (.inl s') ∧ Q s') : Triple step P Q := by
  intro s hs
  rcases h s hs with ⟨s', hstep, hQ⟩
  exact .next hstep (.here hQ)

/-- The rule for one part after the other. -/
theorem Triple.seq (h : Triple step P Q) (h' : Triple step Q Q') : Triple step P Q' :=
  fun s hs => (h s hs).bind h'

/-- The rule of consequence. -/
theorem Triple.conseq (h : Triple step P Q) (hP : ∀ s, P' s → P s) (hQ : ∀ s, Q s → Q' s) :
    Triple step P' Q' :=
  fun s hs => (h s (hP s hs)).bind fun s' hs' => .here (hQ s' hs')

end System

/-! ## Simulations -/

/-- A step of the first system is left out, and takes a measure down, or is one of the second
system, which ends when the first one does. -/
structure Simulation (step : Step S R) (step' : Step T R') (Rel : S → T → Prop)
    (Same : R → R' → Prop) (measure : S → ℕ) : Prop where
  next : ∀ s t s', Rel s t → step s = some (.inl s') →
    (Rel s' t ∧ measure s' < measure s) ∨ ∃ t', step' t = some (.inl t') ∧ Rel s' t'
  done : ∀ s t r, Rel s t → step s = some (.inr r) → ∃ r', Ends step' t r' ∧ Same r r'

section Simulation

variable {step : Step S R} {step' : Step T R'} {Rel : S → T → Prop} {Same : R → R' → Prop}
  {measure : S → ℕ} {s : S} {t : T}

/-- **The second system ends** when the first one does. -/
theorem Simulation.ends (hsim : Simulation step step' Rel Same measure) {r : R}
    (h : Ends step s r) (hrel : Rel s t) : ∃ r', Ends step' t r' ∧ Same r r' := by
  induction h generalizing t with
  | done hs => exact hsim.done _ t _ hrel hs
  | next hs _ ih =>
      rcases hsim.next _ t _ hrel hs with ⟨hrel', -⟩ | ⟨t', ht, hrel'⟩
      · exact ih hrel'
      · rcases ih hrel' with ⟨r', hr', hsame⟩
        exact ⟨r', .next ht hr', hsame⟩

/-- After the steps that are left out, the first system ends or takes the step of the second. -/
theorem Simulation.visible (hsim : Simulation step step' Rel Same measure)
    (hdef : Defined step s) (hrel : Rel s t) :
    (∃ r r', Ends step s r ∧ Ends step' t r' ∧ Same r r') ∨
      ∃ s' t', Defined step s' ∧ (∀ r, Ends step s' r → Ends step s r) ∧
        step' t = some (.inl t') ∧ Rel s' t' := by
  induction hm : measure s using Nat.strong_induction_on generalizing s with
  | _ m ih =>
      cases hs : step s with
      | none => exact absurd hs hdef.self
      | some out =>
          cases out with
          | inr r =>
              rcases hsim.done s t r hrel hs with ⟨r', hr', hsame⟩
              exact Or.inl ⟨r, r', .done hs, hr', hsame⟩
          | inl s' =>
              rcases hsim.next s t s' hrel hs with ⟨hrel', hlt⟩ | ⟨t', ht, hrel'⟩
              · rw [hm] at hlt
                rcases ih _ hlt (hdef.next hs) hrel' rfl with
                  ⟨r, r', hr, hr', hsame⟩ | ⟨u, t', hu, hback, ht, hrel''⟩
                · exact Or.inl ⟨r, r', .next hs hr, hr', hsame⟩
                · exact Or.inr ⟨u, t', hu, fun r hr => .next hs (hback r hr), ht, hrel''⟩
              · exact Or.inr ⟨s', t', hdef.next hs, fun r hr => .next hs hr, ht, hrel'⟩

/-- **The first system ends** when the second one does. -/
theorem Simulation.ends_of (hsim : Simulation step step' Rel Same measure) {r' : R'}
    (h : Ends step' t r') (hdef : Defined step s) (hrel : Rel s t) :
    ∃ r, Ends step s r ∧ Same r r' := by
  induction h generalizing s with
  | done ht =>
      rcases hsim.visible hdef hrel with ⟨r, r₁, hr, hr₁, hsame⟩ | ⟨_, t', -, -, ht', -⟩
      · rw [hr₁.unique (.done ht)] at hsame
        exact ⟨r, hr, hsame⟩
      · rw [ht] at ht'
        cases ht'
  | next ht rest ih =>
      rcases hsim.visible hdef hrel with ⟨r, r₁, hr, hr₁, hsame⟩ | ⟨s', t', hs', hback, ht', hrel'⟩
      · rw [hr₁.unique (.next ht rest)] at hsame
        exact ⟨r, hr, hsame⟩
      · rw [ht] at ht'
        obtain rfl := Sum.inl.inj (Option.some.inj ht')
        rcases ih hs' hrel' with ⟨r, hr, hsame⟩
        exact ⟨r, hback r hr, hsame⟩

/-- **The second system has a meaning** as long as the first one has. -/
theorem Simulation.defined (hsim : Simulation step step' Rel Same measure)
    (hdef : Defined step s) (hrel : Rel s t) : Defined step' t := by
  intro u hu
  induction hu generalizing s with
  | @here t hu =>
      subst hu
      rcases hsim.visible hdef hrel with ⟨-, r', -, hr', -⟩ | ⟨-, t', -, -, ht, -⟩
      · exact hr'.defined.self
      · rw [ht]
        simp
  | @next t t₁ ht rest ih =>
      rcases hsim.visible hdef hrel with ⟨-, r', -, hr', -⟩ | ⟨s', t', hs', -, ht', hrel'⟩
      · exact (hr'.defined.next ht) u rest
      · rw [ht] at ht'
        obtain rfl := Sum.inl.inj (Option.some.inj ht')
        exact ih hs' hrel'

end Simulation

end Outcomes
