import Mathlib.Tactic

set_option autoImplicit false

/-! # Doubly linked lists in a heap

A heap maps addresses to nodes with a `prev` and a `next` link. `Chain h p xs nx` says that the
cells `xs`, listed with their addresses, are linked in this order in `h`, that the first one
points back to `p` and the last one forward to `nx`. A chain splits at every position
(`chain_append`), and writing a link at one of its two ends redirects that end and leaves the
rest of the heap alone (`Chain.setNext_last`, `Chain.setPrev_head`). Pointer surgery inside a
list is an instance of these three rules.
-/

namespace DList

variable {α : Type}

/-- A list cell; a null link is `none`. -/
structure Node (α : Type) where
  prev : Option Nat
  next : Option Nat
  data : α
  deriving DecidableEq

/-- The cells that are allocated, by address. -/
abbrev Heap (α : Type) := Nat → Option (Node α)

/-- The address of the first cell, or the given link if there is none. -/
def headOr : List (Nat × α) → Option Nat → Option Nat
  | [], nx => nx
  | (a, _) :: _, _ => some a

/-- The address of the last cell, or the given link if there is none. -/
def lastOr : Option Nat → List (Nat × α) → Option Nat
  | p, [] => p
  | _, (a, _) :: t => lastOr (some a) t

/-- The addresses of the cells of a list. -/
def addrs (xs : List (Nat × α)) : List Nat := xs.map Prod.fst

@[simp] theorem addrs_nil : addrs ([] : List (Nat × α)) = [] := rfl

@[simp] theorem addrs_cons (c : Nat × α) (xs : List (Nat × α)) :
    addrs (c :: xs) = c.1 :: addrs xs := rfl

@[simp] theorem addrs_append (xs ys : List (Nat × α)) : addrs (xs ++ ys) = addrs xs ++ addrs ys :=
  List.map_append

theorem headOr_append (xs ys : List (Nat × α)) (nx : Option Nat) :
    headOr (xs ++ ys) nx = headOr xs (headOr ys nx) := by
  cases xs <;> rfl

theorem lastOr_append (p : Option Nat) (xs ys : List (Nat × α)) :
    lastOr p (xs ++ ys) = lastOr (lastOr p xs) ys := by
  induction xs generalizing p with
  | nil => rfl
  | cons c t ih => exact ih (some c.1)

/-! ## Chains -/

/-- The cells `xs` are linked in order, from `p` on the left to `nx` on the right. -/
def Chain (h : Heap α) : Option Nat → List (Nat × α) → Option Nat → Prop
  | _, [], _ => True
  | p, (a, d) :: t, nx => h a = some ⟨p, headOr t nx, d⟩ ∧ Chain h (some a) t nx

/-- `xs` is a well-formed list of the heap whose head pointer is `hd`: the head has no `prev`,
the tail no `next`, the links are mutual, and no address occurs twice. -/
structure IsList (h : Heap α) (hd : Option Nat) (xs : List (Nat × α)) : Prop where
  head : hd = headOr xs none
  chain : Chain h none xs none
  nodup : (addrs xs).Nodup

/-- **A chain splits at every position.** -/
theorem chain_append (h : Heap α) (p : Option Nat) (xs ys : List (Nat × α)) (nx : Option Nat) :
    Chain h p (xs ++ ys) nx ↔ Chain h p xs (headOr ys nx) ∧ Chain h (lastOr p xs) ys nx := by
  induction xs generalizing p with
  | nil => simp [Chain, lastOr]
  | cons c t ih =>
      obtain ⟨a, d⟩ := c
      rw [List.cons_append, Chain, Chain, lastOr, ih (some a), headOr_append, and_assoc]

theorem Chain.node {h : Heap α} {p nx : Option Nat} {a : Nat} {d : α} {t : List (Nat × α)}
    (hc : Chain h p ((a, d) :: t) nx) : h a = some ⟨p, headOr t nx, d⟩ := hc.1

/-- A chain only depends on its own cells. -/
theorem Chain.congr {h h' : Heap α} {p nx : Option Nat} {xs : List (Nat × α)}
    (hc : Chain h p xs nx) (heq : ∀ a ∈ addrs xs, h' a = h a) : Chain h' p xs nx := by
  induction xs generalizing p with
  | nil => trivial
  | cons c t ih =>
      obtain ⟨a, d⟩ := c
      refine ⟨?_, ih hc.2 (fun b hb => heq b (List.mem_cons_of_mem _ hb))⟩
      rw [heq a (by simp)]
      exact hc.1

/-! ## Writing links -/

/-- `a->next = v`; fails on an address that is not allocated. -/
def setNext (h : Heap α) (a : Nat) (v : Option Nat) : Option (Heap α) :=
  (h a).map (fun n => Function.update h a (some { n with next := v }))

/-- `a->prev = v`. -/
def setPrev (h : Heap α) (a : Nat) (v : Option Nat) : Option (Heap α) :=
  (h a).map (fun n => Function.update h a (some { n with prev := v }))

/-- `if (p) p->next = v`. -/
def setNextOf (h : Heap α) : Option Nat → Option Nat → Option (Heap α)
  | none, _ => some h
  | some a, v => setNext h a v

/-- `if (p) p->prev = v`. -/
def setPrevOf (h : Heap α) : Option Nat → Option Nat → Option (Heap α)
  | none, _ => some h
  | some a, v => setPrev h a v

/-- **Redirecting the right end.** -/
theorem Chain.setNext_last {h : Heap α} {nx : Option Nat} {xs : List (Nat × α)}
    (hc : Chain h none xs nx) (hnd : (addrs xs).Nodup) (v : Option Nat) :
    ∃ h', setNextOf h (lastOr none xs) v = some h' ∧ Chain h' none xs v ∧
      ∀ b ∉ addrs xs, h' b = h b := by
  rcases List.eq_nil_or_concat xs with rfl | ⟨t, ⟨a, d⟩, rfl⟩
  · exact ⟨h, rfl, trivial, fun _ _ => rfl⟩
  · rw [List.concat_eq_append] at hc hnd ⊢
    rw [addrs_append, addrs_cons, addrs_nil, List.nodup_append] at hnd
    rw [chain_append] at hc
    obtain ⟨hct, hca⟩ := hc
    have hlast : lastOr none (t ++ [(a, d)]) = some a := by rw [lastOr_append]; rfl
    rw [hlast]
    refine ⟨_, by rw [setNextOf, setNext, hca.node, Option.map_some], ?_, fun b hb => ?_⟩
    · rw [chain_append]
      refine ⟨hct.congr (fun b hb => ?_), by simp [Function.update_self, headOr], trivial⟩
      have hne : b ≠ a := hnd.2.2 b hb a (by simp)
      exact Function.update_of_ne hne _ _
    · have hne : b ≠ a := by
        rintro rfl
        exact hb (by simp)
      exact Function.update_of_ne hne _ _

/-- **Redirecting the left end.** -/
theorem Chain.setPrev_head {h : Heap α} {p : Option Nat} {xs : List (Nat × α)}
    (hc : Chain h p xs none) (hnd : (addrs xs).Nodup) (v : Option Nat) :
    ∃ h', setPrevOf h (headOr xs none) v = some h' ∧ Chain h' v xs none ∧
      ∀ b ∉ addrs xs, h' b = h b := by
  cases xs with
  | nil => exact ⟨h, rfl, trivial, fun _ _ => rfl⟩
  | cons c t =>
      obtain ⟨a, d⟩ := c
      rw [addrs_cons, List.nodup_cons] at hnd
      refine ⟨_, by rw [headOr, setPrevOf, setPrev, hc.node, Option.map_some], ?_, fun b hb => ?_⟩
      · refine ⟨by simp [Function.update_self], hc.2.congr (fun b hb => ?_)⟩
        have hne : b ≠ a := by
          rintro rfl
          exact hnd.1 hb
        exact Function.update_of_ne hne _ _
      · have hne : b ≠ a := by
          rintro rfl
          exact hb (by simp)
        exact Function.update_of_ne hne _ _

end DList
