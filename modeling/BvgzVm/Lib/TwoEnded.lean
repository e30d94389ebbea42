import BvgzVm.Lib.Bytes
import Mathlib.Algebra.BigOperators.Group.List.Basic

set_option autoImplicit false

/-! # Blocks that are filled from both ends

Strings are put into a block from its end on towards the front, each with a terminator, and their
addresses, of four bytes each, from the front on; a zero address comes after the last one and is
moved on with each string. An entry takes five bytes more than its string (`entrySize`). Which
entries are taken is decided one after the other (`greedy`), and what is in the block afterwards is
said by `packInto_spec`: the zero address needs four bytes more.
-/

namespace TwoEnded

open Bytes

/-! ## Sizes -/

/-- The bytes an entry takes: its address, and its string with the terminator. -/
def entrySize (s : List UInt8) : Nat := s.length + 5

/-- The bytes that the entries take. -/
def total (ss : List (List UInt8)) : Nat := (ss.map entrySize).sum

/-- The bytes that the strings take. -/
def strings (ss : List (List UInt8)) : Nat := (ss.map (fun s => s.length + 1)).sum

@[simp] theorem total_nil : total [] = 0 := rfl

@[simp] theorem total_cons (s : List UInt8) (ss : List (List UInt8)) :
    total (s :: ss) = s.length + 5 + total ss := rfl

@[simp] theorem strings_nil : strings [] = 0 := rfl

@[simp] theorem strings_cons (s : List UInt8) (ss : List (List UInt8)) :
    strings (s :: ss) = s.length + 1 + strings ss := rfl

theorem total_eq (ss : List (List UInt8)) : total ss = 4 * ss.length + strings ss := by
  induction ss with
  | nil => rfl
  | cons s ss ih =>
      rw [total_cons, strings_cons, List.length_cons, ih]
      omega

/-! ## Which entries are taken -/

/-- The entries that are taken into `room` bytes, `used` of them being taken: each one that fits. -/
def greedy (room : Nat) : Nat → List (List UInt8) → List (List UInt8)
  | _, [] => []
  | used, s :: ss =>
      if used + entrySize s ≤ room then s :: greedy room (used + entrySize s) ss
      else greedy room used ss

theorem greedy_sublist (room used : Nat) (ss : List (List UInt8)) :
    (greedy room used ss).Sublist ss := by
  induction ss generalizing used with
  | nil => exact List.Sublist.refl []
  | cons s ss ih =>
      rw [greedy]
      split
      · exact (ih _).cons_cons s
      · exact (ih _).cons s

theorem greedy_le {room used : Nat} (h : used ≤ room) (ss : List (List UInt8)) :
    used + total (greedy room used ss) ≤ room := by
  induction ss generalizing used with
  | nil => exact h
  | cons s ss ih =>
      rw [greedy]
      split
      · rename_i hfits
        have hle := ih hfits
        have hsize : entrySize s = s.length + 5 := rfl
        rw [total_cons]
        omega
      · exact ih h

/-- **Every entry is taken** just when all of them fit. -/
theorem greedy_eq_self {room used : Nat} {ss : List (List UInt8)} :
    greedy room used ss = ss ↔ ss = [] ∨ used + total ss ≤ room := by
  induction ss generalizing used with
  | nil => simp [greedy]
  | cons s ss ih =>
      rw [greedy, total_cons]
      by_cases hfits : used + entrySize s ≤ room
      · rw [if_pos hfits, List.cons.injEq, ih]
        unfold entrySize at hfits ⊢
        cases ss with
        | nil =>
            rw [total_nil]
            exact iff_of_true ⟨rfl, Or.inl rfl⟩ (Or.inr (by omega))
        | cons s' ss =>
            simp only [true_and, reduceCtorEq, false_or]
            omega
      · rw [if_neg hfits]
        refine iff_of_false ?_ ?_
        · intro heq
          have hle := (greedy_sublist room used ss).length_le
          rw [heq, List.length_cons] at hle
          omega
        · unfold entrySize at hfits
          rintro (hnil | hle)
          · cases hnil
          · omega

/-! ## Filling -/

/-- The block at `base` with strings put in front of its byte `e`, and their addresses from
address `k` on. -/
def packInto (base : Nat) : Nat → Nat → List (List UInt8) → List UInt8 → Option (List UInt8)
  | _, _, [], buf => some buf
  | k, e, s :: ss, buf => do
      let buf ← write buf (base + (e - (s.length + 1))) (s ++ [0])
      let buf ← write buf (base + 4 * k) (toLE 4 (base + (e - (s.length + 1))))
      let buf ← write buf (base + 4 * (k + 1)) (toLE 4 0)
      packInto base (k + 1) (e - (s.length + 1)) ss buf

/-- The addresses of the strings, from address `k` on. -/
def Addresses (base : Nat) (buf : List UInt8) : Nat → Nat → List (List UInt8) → Prop
  | _, _, [] => True
  | k, e, s :: ss =>
      read buf (base + 4 * k) 4 = some (toLE 4 (base + (e - (s.length + 1)))) ∧
        Addresses base buf (k + 1) (e - (s.length + 1)) ss

/-- The strings in front of byte `e`. -/
def Strings (base : Nat) (buf : List UInt8) : Nat → List (List UInt8) → Prop
  | _, [] => True
  | e, s :: ss =>
      read buf (base + (e - (s.length + 1))) (s.length + 1) = some (s ++ [0]) ∧
        Strings base buf (e - (s.length + 1)) ss

/-- What is in the block afterwards. -/
structure Filled (base k e : Nat) (ss : List (List UInt8)) (buf buf' : List UInt8) : Prop where
  length : buf'.length = buf.length
  rest : ∀ o w, (o + w ≤ base + 4 * k ∨ base + 4 * (k + ss.length) + 4 ≤ o) →
    (o + w ≤ base + (e - strings ss) ∨ base + e ≤ o) → read buf' o w = read buf o w
  addresses : Addresses base buf' k e ss
  zero : ss ≠ [] → read buf' (base + 4 * (k + ss.length)) 4 = some (toLE 4 0)
  strings : 4 * (k + ss.length) + 4 + strings ss ≤ e → Strings base buf' e ss

/-- **A block that is filled** has the addresses and a zero address, and, with room for the latter,
the strings. The induction is on the strings. -/
theorem packInto_spec {base k e : Nat} {ss : List (List UInt8)} {buf buf' : List UInt8}
    (h : packInto base k e ss buf = some buf') (hroom : 4 * k + total ss ≤ e) :
    Filled base k e ss buf buf' := by
  induction ss generalizing k e buf with
  | nil =>
      obtain rfl := Option.some.inj h
      exact ⟨rfl, fun _ _ _ _ => rfl, trivial, fun hne => absurd rfl hne, fun _ => trivial⟩
  | cons s ss ih =>
      rw [total_cons, total_eq] at hroom
      rw [packInto] at h
      rcases Option.bind_eq_some_iff.1 h with ⟨buf₁, h₁, h⟩
      rcases Option.bind_eq_some_iff.1 h with ⟨buf₂, h₂, h⟩
      rcases Option.bind_eq_some_iff.1 h with ⟨buf₃, h₃, h⟩
      have hlen : (s ++ [0]).length = s.length + 1 := by simp
      have hfilled := ih h (by rw [total_eq]; omega)
      -- what the three stores leave of a range
      have hthree : ∀ o w, (o + w ≤ base + (e - (s.length + 1)) ∨ base + e ≤ o) →
          (o + w ≤ base + 4 * k ∨ base + 4 * (k + 1) + 4 ≤ o) → read buf₃ o w = read buf o w := by
        intro o w hstring haddress
        rw [read_write_disjoint h₃ (by rw [length_toLE]; omega),
          read_write_disjoint h₂ (by rw [length_toLE]; omega),
          read_write_disjoint h₁ (by rw [hlen]; omega)]
      constructor
      · rw [hfilled.length, write_length h₃, write_length h₂, write_length h₁]
      · intro o w haddress hstring
        rw [List.length_cons] at haddress
        rw [strings_cons] at hstring
        rw [hfilled.rest o w (by omega) (by omega), hthree o w (by omega) (by omega)]
      · refine ⟨?_, hfilled.addresses⟩
        have hown := read_write_same h₂
        rw [length_toLE] at hown
        rw [hfilled.rest _ _ (by omega) (by omega),
          read_write_disjoint h₃ (by rw [length_toLE]; omega), hown]
      · intro _
        cases ss with
        | nil =>
            obtain rfl := Option.some.inj h
            have hown := read_write_same h₃
            rwa [length_toLE] at hown
        | cons s' ss =>
            have hzero := hfilled.zero (List.cons_ne_nil s' ss)
            rwa [List.length_cons (a := s), Nat.add_comm _ 1, ← Nat.add_assoc]
      · intro hlarge
        rw [List.length_cons, strings_cons] at hlarge
        refine ⟨?_, hfilled.strings (by omega)⟩
        have hown := read_write_same h₁
        rw [hlen] at hown
        rw [hfilled.rest _ _ (by omega) (by omega),
          read_write_disjoint h₃ (by rw [length_toLE]; omega),
          read_write_disjoint h₂ (by rw [length_toLE]; omega), hown]

/-- There is room for everything if there is for the zero address. -/
theorem packInto_isSome {base k e : Nat} {ss : List (List UInt8)} {buf : List UInt8}
    (hroom : 4 * k + total ss ≤ e) (hend : base + e ≤ buf.length)
    (hzero : base + 4 * (k + ss.length) + 4 ≤ buf.length) :
    ∃ buf', packInto base k e ss buf = some buf' := by
  induction ss generalizing k e buf with
  | nil => exact ⟨buf, rfl⟩
  | cons s ss ih =>
      rw [total_cons] at hroom
      rw [List.length_cons] at hzero
      have hwrite : ∀ {buf bs : List UInt8} {off : Nat}, off + bs.length ≤ buf.length →
          ∃ buf', write buf off bs = some buf' ∧ buf'.length = buf.length := by
        intro buf bs off hle
        rcases Option.isSome_iff_exists.1 (write_isSome.2 hle) with ⟨buf', hbuf'⟩
        exact ⟨buf', hbuf', write_length hbuf'⟩
      rcases @hwrite buf (s ++ [0]) (base + (e - (s.length + 1)))
        (by rw [List.length_append, List.length_singleton]; omega) with ⟨buf₁, h₁, hlen₁⟩
      rcases @hwrite buf₁ (toLE 4 (base + (e - (s.length + 1)))) (base + 4 * k)
        (by rw [length_toLE]; omega) with ⟨buf₂, h₂, hlen₂⟩
      rcases @hwrite buf₂ (toLE 4 0) (base + 4 * (k + 1))
        (by rw [length_toLE]; omega) with ⟨buf₃, h₃, hlen₃⟩
      rcases @ih (k + 1) (e - (s.length + 1)) buf₃ (by omega) (by omega) (by omega) with
        ⟨buf', hbuf'⟩
      refine ⟨buf', ?_⟩
      rw [packInto, h₁, Option.bind_eq_bind, Option.bind_some, h₂, Option.bind_some, h₃,
        Option.bind_some, hbuf']

/-- An entry of a block: its address, and its string where the address says. -/
theorem entry_of_filled {base k e i : Nat} {s : List UInt8} {ss : List (List UInt8)}
    {buf : List UInt8} (haddresses : Addresses base buf k e ss) (hstrings : Strings base buf e ss)
    (hroom : strings ss ≤ e) (hs : ss[i]? = some s) :
    ∃ p, read buf (base + 4 * (k + i)) 4 = some (toLE 4 (base + p)) ∧
      p + s.length + 1 ≤ e ∧ read buf (base + p) (s.length + 1) = some (s ++ [0]) := by
  induction ss generalizing k e i with
  | nil => cases hs
  | cons s' ss ih =>
      rw [strings_cons] at hroom
      cases i with
      | zero =>
          obtain rfl := Option.some.inj hs
          exact ⟨_, haddresses.1, by omega, hstrings.1⟩
      | succ i =>
          rcases ih haddresses.2 hstrings.2 (by omega) hs with ⟨p, hp, hle, hread⟩
          refine ⟨p, ?_, by omega, hread⟩
          rwa [show k + (i + 1) = k + 1 + i by omega]

/-- The address of the last entry: the front of the strings. -/
theorem last_address {base k e : Nat} {ss : List (List UInt8)} {buf : List UInt8}
    (h : Addresses base buf k e ss) (hne : ss ≠ []) :
    read buf (base + 4 * (k + (ss.length - 1))) 4 = some (toLE 4 (base + (e - strings ss))) := by
  induction ss generalizing k e with
  | nil => exact absurd rfl hne
  | cons s ss ih =>
      rw [List.length_cons, strings_cons, Nat.add_sub_cancel]
      cases ss with
      | nil => exact h.1
      | cons s' ss =>
          have hlast := ih h.2 (List.cons_ne_nil s' ss)
          rw [List.length_cons, Nat.add_sub_cancel] at hlast
          rw [List.length_cons, Nat.sub_add_eq, show k + (ss.length + 1) = k + 1 + ss.length by omega]
          exact hlast

end TwoEnded
