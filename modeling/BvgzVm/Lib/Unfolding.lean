import Mathlib.Logic.Relation

set_option autoImplicit false

/-! # Recursive texts

A text consists of items, and some of the items call another text. `unfold` puts the texts that are
called in their places, to a given depth, and has no value if a text is missing or the depth is
reached. It has a value at some depth exactly if there is no endless chain of calls and every text
that is called, by however many others in between, is there (`unfold_isSome_iff`).
-/

namespace Unfolding

open Relation

variable {N E : Type}

/-- The items of a text, where `f` gives the texts that are called. -/
def joinAll (f : N → Option (List E)) : List (E × Option N) → Option (List E)
  | [] => some []
  | (e, none) :: items => (joinAll f items).map (e :: ·)
  | (e, some n) :: items =>
      (f n).bind fun es => (joinAll f items).map fun rest => e :: (es ++ rest)

/-- The text `n` with the texts in it, to the depth `k`. -/
def unfold (body : N → Option (List (E × Option N))) : Nat → N → Option (List E)
  | 0, _ => none
  | k + 1, n => (body n).bind (joinAll (unfold body k))

/-- `n` calls `m`. -/
def Calls (body : N → Option (List (E × Option N))) (n m : N) : Prop :=
  ∃ items, body n = some items ∧ some m ∈ items.map Prod.snd

section Join

variable {f g : N → Option (List E)}

theorem joinAll_isSome_iff {items : List (E × Option N)} :
    (joinAll f items).isSome ↔ ∀ n, some n ∈ items.map Prod.snd → (f n).isSome := by
  induction items with
  | nil => simp [joinAll]
  | cons item items ih =>
      rcases item with ⟨e, _ | n⟩
      · simp [joinAll, ih]
      · cases hf : f n with
        | none => simp [joinAll, hf]
        | some es => simp [joinAll, hf, ih]

/-- What is there for `f` is the same for `g`. -/
theorem joinAll_mono (hfg : ∀ n es, f n = some es → g n = some es) {items : List (E × Option N)}
    {es : List E} (h : joinAll f items = some es) : joinAll g items = some es := by
  induction items generalizing es with
  | nil => exact h
  | cons item items ih =>
      rcases item with ⟨e, _ | n⟩
      · rw [joinAll, Option.map_eq_some_iff] at h ⊢
        obtain ⟨rest, hrest, rfl⟩ := h
        exact ⟨rest, ih hrest, rfl⟩
      · rw [joinAll, Option.bind_eq_some_iff] at h ⊢
        obtain ⟨called, hcalled, h⟩ := h
        refine ⟨called, hfg n called hcalled, ?_⟩
        rw [Option.map_eq_some_iff] at h ⊢
        obtain ⟨rest, hrest, rfl⟩ := h
        exact ⟨rest, ih hrest, rfl⟩

end Join

variable {body : N → Option (List (E × Option N))}

theorem unfold_succ {k : Nat} {n : N} {es : List E} :
    unfold body (k + 1) n = some es ↔
      ∃ items, body n = some items ∧ joinAll (unfold body k) items = some es :=
  Option.bind_eq_some_iff

/-- A greater depth does not change the value. -/
theorem unfold_mono {k : Nat} {n : N} {es : List E} (h : unfold body k n = some es) (j : Nat) :
    unfold body (k + j) n = some es := by
  induction k generalizing n es with
  | zero => cases h
  | succ k ih =>
      obtain ⟨items, hitems, hjoin⟩ := unfold_succ.1 h
      rw [Nat.succ_add]
      exact unfold_succ.2 ⟨items, hitems, joinAll_mono (fun m es hm => ih hm) hjoin⟩

/-- The value does not depend on the depth. -/
theorem unfold_unique {k k' : Nat} {n : N} {es es' : List E} (h : unfold body k n = some es)
    (h' : unfold body k' n = some es') : es = es' := by
  have hk := unfold_mono h k'
  have hk' := unfold_mono h' k
  rw [Nat.add_comm k' k, hk] at hk'
  exact Option.some.inj hk'

/-- One depth is enough for finitely many texts. -/
theorem exists_depth (items : List (E × Option N))
    (h : ∀ n, some n ∈ items.map Prod.snd → ∃ k, (unfold body k n).isSome) :
    ∃ k, ∀ n, some n ∈ items.map Prod.snd → (unfold body k n).isSome := by
  induction items with
  | nil => exact ⟨0, fun n hn => by cases hn⟩
  | cons item items ih =>
      obtain ⟨k, hk⟩ := ih fun n hn => h n (List.mem_cons_of_mem _ hn)
      have hmono : ∀ {n k} (j : Nat), (unfold body k n).isSome →
          (unfold body (k + j) n).isSome := by
        intro n k j hn
        obtain ⟨es, hes⟩ := Option.isSome_iff_exists.1 hn
        rw [unfold_mono hes j]
        rfl
      rcases item with ⟨e, _ | m⟩
      · refine ⟨k, fun n hn => hk n ?_⟩
        simpa using hn
      · obtain ⟨j, hj⟩ := h m List.mem_cons_self
        refine ⟨k + j, fun n hn => ?_⟩
        rcases List.mem_cons.1 hn with heq | hn
        · rw [Option.some.inj heq, Nat.add_comm]
          exact hmono k hj
        · exact hmono j (hk n hn)

/-- **Which texts have a value**: no chain of calls is endless, and no text is missing. -/
theorem unfold_isSome_iff {n : N} :
    (∃ k, (unfold body k n).isSome) ↔
      Acc (flip (Calls body)) n ∧ ∀ m, ReflTransGen (Calls body) n m → (body m).isSome := by
  constructor
  · rintro ⟨k, hk⟩
    induction k generalizing n with
    | zero => cases hk
    | succ k ih =>
        obtain ⟨es, hes⟩ := Option.isSome_iff_exists.1 hk
        obtain ⟨items, hitems, hjoin⟩ := unfold_succ.1 hes
        have hcalled : ∀ m, Calls body n m → (unfold body k m).isSome := by
          rintro m ⟨items', hitems', hm⟩
          rw [hitems] at hitems'
          obtain rfl := Option.some.inj hitems'
          exact joinAll_isSome_iff.1 (by rw [hjoin]; rfl) m hm
        refine ⟨Acc.intro n fun m hm => (ih (hcalled m hm)).1, fun m hm => ?_⟩
        rcases hm.cases_head with rfl | ⟨m', hm', hrest⟩
        · rw [hitems]
          rfl
        · exact (ih (hcalled m' hm')).2 m hrest
  · rintro ⟨hacc, hthere⟩
    induction hacc with
    | intro n _ ih =>
        obtain ⟨items, hitems⟩ := Option.isSome_iff_exists.1 (hthere n .refl)
        have hcalled : ∀ m, some m ∈ items.map Prod.snd → ∃ k, (unfold body k m).isSome := by
          intro m hm
          have hcall : Calls body n m := ⟨items, hitems, hm⟩
          exact ih m hcall fun m' hm' => hthere m' (.head hcall hm')
        obtain ⟨k, hk⟩ := exists_depth items hcalled
        refine ⟨k + 1, ?_⟩
        rw [unfold, hitems]
        exact joinAll_isSome_iff.2 hk

end Unfolding
