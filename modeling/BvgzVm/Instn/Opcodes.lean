import BvgzVm.Instn.Defs
import BvgzVm.Lib.Sortings
import Mathlib.Data.String.Basic

set_option autoImplicit false

/-! # The opcodes of a table

`setup_instn_defs` sorts the table by name and takes the positions as opcodes. `qsort` is free to
put the rows of one name in any order, so that the opcodes are determined just when no two rows
have the same name (`opcodes_iff`); in `instn_defs.inc` most names have two.
-/

namespace BvgzVm

open Sortings

variable {H : Type}

/-- A table that `setup_instn_defs` may leave behind, for some routine that sorts by
`compare_instn_def`. -/
def SetupFrom (t t' : List (InstnDef H)) : Prop :=
  ∃ s, IsSorting (·.name) t s ∧ t' = assignOpcodes 0 s

/-- Each instruction, given by its name and its operand count, has one opcode in both tables. -/
def SameOpcodes (t t' : List (InstnDef H)) : Prop :=
  ∀ d ∈ t, ∀ d' ∈ t', d.name = d'.name → d.argCount = d'.argCount → d.opcode = d'.opcode

/-- What is decoded with one table is what is decoded with the other. -/
def SameInstns (t t' : List (InstnDef H)) : Prop :=
  ∀ k : Nat, (t[k]?).map (fun d => (d.name, d.argCount)) =
    (t'[k]?).map (fun d => (d.name, d.argCount))

/-- Any two runs of `setup_instn_defs` lead to the same opcodes, and so does a second run on the
table of the first one. -/
def OpcodesDetermined (t : List (InstnDef H)) : Prop :=
  ∀ t₁ t₂, SetupFrom t t₁ → SetupFrom t t₂ ∨ SetupFrom t₁ t₂ → SameOpcodes t₁ t₂ ∧ SameInstns t₁ t₂

/-! ## Rows without their opcodes -/

/-- The row as it is written in `instn_defs.inc`. -/
def InstnDef.clear (d : InstnDef H) : InstnDef H := { d with opcode := 0 }

theorem assignOpcodes_clear (n : Nat) (l : List (InstnDef H)) :
    assignOpcodes n (l.map InstnDef.clear) = assignOpcodes n l := by
  induction l generalizing n with
  | nil => rfl
  | cons d l ih =>
      rw [List.map_cons, assignOpcodes, assignOpcodes, ih]
      rfl

theorem clear_assignOpcodes (n : Nat) (l : List (InstnDef H)) :
    (assignOpcodes n l).map InstnDef.clear = l.map InstnDef.clear := by
  induction l generalizing n with
  | nil => rfl
  | cons d l ih =>
      rw [assignOpcodes, List.map_cons, List.map_cons, ih]
      rfl

theorem names_clear (l : List (InstnDef H)) :
    (l.map InstnDef.clear).map (·.name) = l.map (·.name) := by
  rw [List.map_map]
  rfl

theorem names_assignOpcodes (n : Nat) (l : List (InstnDef H)) :
    (assignOpcodes n l).map (·.name) = l.map (·.name) := by
  rw [← names_clear, clear_assignOpcodes, names_clear]

/-- The rows of a sorted table, without their opcodes, are sorted. -/
theorem sorting_clear {t s : List (InstnDef H)} (h : IsSorting (·.name) t s) :
    IsSorting (·.name) (t.map InstnDef.clear) (s.map InstnDef.clear) :=
  ⟨h.perm.map _, List.pairwise_map.2 h.ordered⟩

/-- Where a row of the sorted table gets its opcode from: a counter of 8 bits. -/
theorem mem_assignOpcodes {n : Nat} (hn : n < 256) (pre post : List (InstnDef H))
    (d : InstnDef H) :
    { d with opcode := (n + pre.length) % 256 } ∈ assignOpcodes n (pre ++ d :: post) := by
  induction pre generalizing n with
  | nil =>
      rw [List.length_nil, Nat.add_zero, Nat.mod_eq_of_lt hn]
      exact List.mem_cons_self
  | cons e pre ih =>
      have hmem := ih (Nat.mod_lt (n + 1) (by decide))
      rw [Nat.mod_add_mod, Nat.add_assoc, Nat.add_comm 1 pre.length] at hmem
      exact List.mem_cons_of_mem _ hmem

/-! ## Distinct names -/

/-- **With distinct names**, every run leads to the same table. -/
theorem setup_unique {t t₁ t₂ : List (InstnDef H)} (hnames : (t.map (·.name)).Nodup)
    (h₁ : SetupFrom t t₁) (h₂ : SetupFrom t t₂ ∨ SetupFrom t₁ t₂) : t₁ = t₂ := by
  rcases h₁ with ⟨s₁, hs₁, rfl⟩
  have hclear : (s₁.map InstnDef.clear).Perm (t.map InstnDef.clear) := hs₁.perm.map _
  -- the second run sorts the same rows
  have hsecond : ∃ s₂, IsSorting (·.name) (t.map InstnDef.clear) (s₂.map InstnDef.clear) ∧
      t₂ = assignOpcodes 0 s₂ := by
    rcases h₂ with ⟨s₂, hs₂, rfl⟩ | ⟨s₂, hs₂, rfl⟩
    · exact ⟨s₂, sorting_clear hs₂, rfl⟩
    · have hsorted := sorting_clear hs₂
      rw [clear_assignOpcodes] at hsorted
      exact ⟨s₂, ⟨hsorted.perm.trans hclear, hsorted.ordered⟩, rfl⟩
  rcases hsecond with ⟨s₂, hs₂, rfl⟩
  have heq := IsSorting.unique (by rw [names_clear]; exact hnames) (sorting_clear hs₁) hs₂
  calc assignOpcodes 0 s₁ = assignOpcodes 0 (s₁.map InstnDef.clear) :=
        (assignOpcodes_clear 0 s₁).symm
    _ = assignOpcodes 0 (s₂.map InstnDef.clear) := by rw [heq]
    _ = assignOpcodes 0 s₂ := assignOpcodes_clear 0 s₂

/-- The names are distinct where the opcodes are determined: a tie could be broken otherwise. -/
theorem nodup_of_determined {t : List (InstnDef H)} (h : OpcodesDetermined t) :
    (t.map (·.name)).Nodup := by
  rcases exists_sorting (·.name) t with ⟨s, hs⟩
  have hperm : (s.map (·.name)).Perm (t.map (·.name)) := hs.perm.map _
  rw [← hperm.nodup_iff]
  by_contra hnames
  rcases exists_tie hs.ordered hnames with ⟨pre, a, b, post, rfl, hkey⟩
  have hsame := (h _ _ ⟨_, hs, rfl⟩ (Or.inl ⟨_, hs.swap hkey, rfl⟩)).1
  have hfirst := mem_assignOpcodes (show 0 < 256 by decide) pre (b :: post) a
  have hsecond := mem_assignOpcodes (show 0 < 256 by decide) (pre ++ [b]) post a
  rw [List.append_assoc, List.singleton_append] at hsecond
  have heq := hsame _ hfirst _ hsecond rfl rfl
  rw [List.length_append, List.length_singleton] at heq
  dsimp only at heq
  omega

/-- **The opcodes are determined** by the table just when no two rows have the same name. -/
theorem opcodes_iff (t : List (InstnDef H)) : OpcodesDetermined t ↔ (t.map (·.name)).Nodup := by
  constructor
  · exact nodup_of_determined
  · intro hnames t₁ t₂ h₁ h₂
    obtain rfl := setup_unique hnames h₁ h₂
    refine ⟨?_, fun k => rfl⟩
    rcases h₁ with ⟨s, hs, rfl⟩
    have hnames' : ((assignOpcodes 0 s).map (·.name)).Nodup := by
      rw [names_assignOpcodes]
      exact (hs.perm.map _).nodup_iff.2 hnames
    intro d hd d' hd' hname _
    rw [List.inj_on_of_nodup_map hnames' hd hd' hname]

/-- The tables of the model are those that `setup_instn_defs` may leave behind. -/
theorem InstnTable.setupFrom (T : InstnTable) : SetupFrom instnDefsInc T.entries :=
  ⟨T.sorted, ⟨T.perm, T.ordered⟩, rfl⟩

/-- `instn_defs.inc` has rows with the same name, such as `add`. -/
theorem instnDefsInc_undetermined : ¬ OpcodesDetermined instnDefsInc := fun h =>
  absurd (nodup_of_determined h) (by decide)

end BvgzVm
