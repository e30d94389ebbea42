import BvgzVm.Lib.Steps

set_option autoImplicit false

/-! # Waiting in a queue

A system has a queue, and what is at its head has the turn. A step keeps the head, which it may
change, or ends its turn and takes it away; those who wait keep their order, and others come behind
them (`Turn`). Then who waits at place `i` is not touched before its turn: it stands at the place
`i - n` after `n` turns have ended, as long as `n < i` (`place_of_run`), and at the head when `i`
have (`head_of_run`).

Places are counted and values are never compared, so that equal entries of the queue are told apart.
-/

namespace Turns

variable {α A S : Type}

/-- What a step does to a queue: the head's turn has ended or not, those behind the head stay as
they are, and others come behind them. -/
def Turn : Bool → List α → List α → Prop
  | true, l, l' => l.tail <+: l'
  | false, l, l' => l = [] ∨ ∃ a, a :: l.tail <+: l'

/-! ## One step -/

theorem turn_nil (ended : Bool) (l : List α) : Turn ended [] l := by
  cases ended with
  | false => exact Or.inl rfl
  | true => exact List.nil_prefix

/-- The head is replaced. -/
theorem turn_head (a b : α) (l : List α) : Turn false (a :: l) (b :: l) :=
  Or.inr ⟨b, List.prefix_rfl⟩

theorem turn_refl (l : List α) : Turn false l l := by
  cases l with
  | nil => exact turn_nil false []
  | cons a l => exact turn_head a a l

/-- The head leaves. -/
theorem turn_leave (a : α) (l : List α) : Turn true (a :: l) l := List.prefix_rfl

/-- The head goes to the end. -/
theorem turn_rotate (a : α) (l : List α) : Turn true (a :: l) (l ++ [a]) := List.prefix_append _ _

/-- Others come. -/
theorem Turn.append {ended : Bool} {l l' l'' : List α} (h : Turn ended l l')
    (hgrows : l' <+: l'') : Turn ended l l'' := by
  cases ended with
  | true => exact List.IsPrefix.trans h hgrows
  | false =>
      rcases h with hnil | ⟨a, ha⟩
      · exact Or.inl hnil
      · exact Or.inr ⟨a, ha.trans hgrows⟩

/-- A step from a queue with more at its end. -/
theorem Turn.of_prefix {ended : Bool} {l l' l'' : List α} (hgrows : l <+: l')
    (h : Turn ended l' l'') : Turn ended l l'' := by
  cases l with
  | nil => exact turn_nil ended l''
  | cons a l =>
      obtain ⟨more, rfl⟩ := hgrows
      have htail : (a :: l).tail <+: (a :: l ++ more).tail := List.prefix_append l more
      cases ended with
      | true => exact htail.trans h
      | false =>
          rcases h with hnil | ⟨b, hb⟩
          · cases hnil
          · exact Or.inr ⟨b, ((List.cons_prefix_cons).2 ⟨rfl, htail⟩).trans hb⟩

/-- A step from a queue that differs in its head only. -/
theorem Turn.of_tail {ended : Bool} {l l' l'' : List α} (hne : l' ≠ [])
    (htail : l'.tail = l.tail) (h : Turn ended l' l'') : Turn ended l l'' := by
  cases ended with
  | true =>
      rw [Turn, ← htail]
      exact h
  | false =>
      rcases h with hnil | ⟨a, ha⟩
      · exact absurd hnil hne
      · rw [htail] at ha
        exact Or.inr ⟨a, ha⟩

/-- An entry of a list is an entry of what it is the beginning of. -/
theorem getElem?_of_prefix {l l' : List α} (h : l <+: l') {i : ℕ} {q : α}
    (hq : l[i]? = some q) : l'[i]? = some q := by
  obtain ⟨more, rfl⟩ := h
  rw [List.getElem?_append_left (List.getElem?_eq_some_iff.1 hq).1]
  exact hq

/-- **Who waits** keeps its place while the turn goes on, and moves up by one when it ends. -/
theorem Turn.place {ended : Bool} {l l' : List α} (h : Turn ended l l') {i : ℕ} {q : α}
    (hq : l[i + 1]? = some q) : l'[i + 1 - ended.toNat]? = some q := by
  have htail : l.tail[i]? = some q := by
    rw [List.getElem?_tail]
    exact hq
  cases ended with
  | true => exact getElem?_of_prefix h htail
  | false =>
      rcases h with rfl | ⟨a, ha⟩
      · cases hq
      · exact getElem?_of_prefix ha htail

/-! ## Runs -/

/-- How many turns end in a run, where `ends` says in the state before a step whether it ends
one. -/
def turnsEnded (step : A → S → Option S) (ends : A → S → Bool) : List A → S → ℕ
  | [], _ => 0
  | a :: as, s =>
      match step a s with
      | none => 0
      | some s' => (ends a s).toNat + turnsEnded step ends as s'

theorem turnsEnded_cons {step : A → S → Option S} {a : A} {s m : S} (hm : step a s = some m)
    (ends : A → S → Bool) (as : List A) :
    turnsEnded step ends (a :: as) s = (ends a s).toNat + turnsEnded step ends as m := by
  rw [turnsEnded, hm]

section Runs

variable {step : A → S → Option S} {ends : A → S → Bool} {queue : S → List α}

/-- **Who waits keeps waiting**, and has moved up by as many places as turns have ended. The
induction is on the run. -/
theorem place_of_run (hturn : ∀ a s s', step a s = some s' → Turn (ends a s) (queue s) (queue s'))
    {as : List A} {s s' : S} (hrun : Steps.run step as s = some s') {i : ℕ} {q : α}
    (hq : (queue s)[i]? = some q) (hlt : turnsEnded step ends as s < i) :
    (queue s')[i - turnsEnded step ends as s]? = some q := by
  induction as generalizing s i with
  | nil =>
      obtain rfl := Option.some.inj hrun
      exact hq
  | cons a as ih =>
      obtain ⟨m, hm, hrest⟩ := Steps.run_cons.1 hrun
      rw [turnsEnded_cons hm] at hlt ⊢
      obtain ⟨i, rfl⟩ := Nat.exists_eq_add_one_of_ne_zero (Nat.ne_zero_of_lt hlt)
      have hup := (hturn a s m hm).place hq
      rw [← Nat.sub_sub]
      exact ih hrest hup (by omega)

/-- **Who waits has its turn** when as many turns have ended as there are places in front of it. -/
theorem head_of_run (hturn : ∀ a s s', step a s = some s' → Turn (ends a s) (queue s) (queue s'))
    {as : List A} {s s' : S} (hrun : Steps.run step as s = some s') {i : ℕ} {q : α}
    (hq : (queue s)[i]? = some q) (hle : i ≤ turnsEnded step ends as s) :
    ∃ k m, k ≤ as.length ∧ Steps.run step (as.take k) s = some m ∧
      turnsEnded step ends (as.take k) s = i ∧ (queue m)[0]? = some q := by
  induction as generalizing s i with
  | nil =>
      obtain rfl := Nat.le_zero.1 hle
      exact ⟨0, s, Nat.le_refl _, rfl, rfl, hq⟩
  | cons a as ih =>
      obtain ⟨m, hm, hrest⟩ := Steps.run_cons.1 hrun
      rw [turnsEnded_cons hm] at hle
      cases i with
      | zero => exact ⟨0, s, Nat.zero_le _, rfl, rfl, hq⟩
      | succ i =>
          have hone : (ends a s).toNat ≤ 1 := Bool.toNat_le _
          obtain ⟨k, m', hk, hrun', hended, hhead⟩ :=
            ih hrest ((hturn a s m hm).place hq) (by omega)
          refine ⟨k + 1, m', Nat.succ_le_succ hk, ?_, ?_, hhead⟩
          · rw [List.take_succ_cons, Steps.run_cons]
            exact ⟨m, hm, hrun'⟩
          · rw [List.take_succ_cons, turnsEnded_cons hm, hended]
            omega

end Runs

end Turns
