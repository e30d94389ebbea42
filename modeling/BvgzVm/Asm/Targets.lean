import BvgzVm.Asm.GenCorrect

set_option autoImplicit false

/-! # What a label stands for

A data label stands for its address. A code label stands for the first emitted instruction at or
after the place where it is defined, and for the end of the code when there is none
(`labelAddress`, stated on the instructions that `parse_to_bytecode` returns). The generator
encodes this address as soon as there is such an instruction (`resolveLabel_eq`).
-/

namespace BvgzVm

open CLib

variable {T : InstnTable}

/-- The first emitted instruction at or after index `idx`. -/
def firstEmitted (debugMode : Bool) (l : List (PrsInstn T)) (idx : Nat) : Option (PrsInstn T) :=
  (l.drop idx).find? (PrsInstn.emitted debugMode)

/-- The address of a label, `l` being the instructions with their addresses. -/
def labelAddress (debugMode : Bool) (l : List (PrsInstn T)) (codesz : UInt32) (label : Label) :
    UInt32 :=
  if label.isMemRef then label.offset
  else match firstEmitted debugMode l label.offset.toNat with
    | some i => i.memOffset
    | none => codesz

/-- Every label of an emitted instruction is defined, a code label with an emitted instruction at
or after it. -/
def PrsResult.LabelsEmitted (p : PrsResult T) (debugMode : Bool) : Prop :=
  ∀ i ∈ p.instns, i.emitted debugMode = true → ∀ k, i.mentions k →
    ∃ label, p.labels.get k = some label ∧
      (label.isMemRef = false → (firstEmitted debugMode p.instns label.offset.toNat).isSome)

variable {debugMode : Bool} {l : List (PrsInstn T)} {idx : Nat}

theorem firstEmitted_isSome :
    (firstEmitted debugMode l idx).isSome = (l.drop idx).any (PrsInstn.emitted debugMode) := by
  rw [firstEmitted, Bool.eq_iff_iff, List.find?_isSome, List.any_eq_true]

theorem firstEmitted_lt (h : (firstEmitted debugMode l idx).isSome = true) : idx < l.length := by
  by_contra hge
  rw [firstEmitted, List.drop_of_length_le (by omega)] at h
  simp at h

theorem PrsResult.LabelsEmitted.inside {p : PrsResult T} (h : p.LabelsEmitted debugMode) :
    p.CodeLabelsInside debugMode := by
  intro i hi hie k hk label hget hcode
  rcases h i hi hie k hk with ⟨label', hget', hsome⟩
  rw [hget] at hget'
  obtain rfl := Option.some.inj hget'
  exact firstEmitted_lt (hsome hcode)

/-! ## In the returned instructions -/

/-- Addresses do not change which instructions are emitted. -/
theorem map_emitted_placed (k : Nat) :
    (placed debugMode l k).map (PrsInstn.emitted debugMode) =
      l.map (PrsInstn.emitted debugMode) := by
  apply List.ext_getElem?
  intro j
  rw [List.getElem?_map, getElem?_placed, List.getElem?_map]
  cases l[j]? <;> rfl

theorem any_drop_placed (k : Nat) :
    ((placed debugMode l k).drop idx).any (PrsInstn.emitted debugMode) =
      (l.drop idx).any (PrsInstn.emitted debugMode) := by
  have hmap (m : List (PrsInstn T)) : (m.drop idx).any (PrsInstn.emitted debugMode) =
      ((m.map (PrsInstn.emitted debugMode)).drop idx).any id := by
    rw [← List.map_drop, List.any_map]
    rfl
  rw [hmap, map_emitted_placed, ← hmap]

theorem any_drop_take_placed (k n : Nat) :
    (((placed debugMode l k).take n).drop idx).any (PrsInstn.emitted debugMode) =
      ((l.take n).drop idx).any (PrsInstn.emitted debugMode) := by
  have hmap (m : List (PrsInstn T)) : ((m.take n).drop idx).any (PrsInstn.emitted debugMode) =
      (((m.map (PrsInstn.emitted debugMode)).take n).drop idx).any id := by
    rw [← List.map_take, ← List.map_drop, List.any_map]
    rfl
  rw [hmap, map_emitted_placed, ← hmap]

/-- The first emitted instruction is the instruction at some index, and nothing is emitted before
it. -/
theorem firstEmitted_eq_some {i : PrsInstn T} (h : firstEmitted debugMode l idx = some i) :
    ∃ n, idx ≤ n ∧ l[n]? = some i ∧ i.emitted debugMode = true ∧
      ((l.take n).drop idx).any (PrsInstn.emitted debugMode) = false := by
  rw [firstEmitted, List.find?_eq_some_iff_getElem] at h
  rcases h with ⟨hie, m, hm, hget, hbefore⟩
  have hm' := hm
  rw [List.length_drop] at hm'
  refine ⟨idx + m, Nat.le_add_right _ _, ?_, hie, ?_⟩
  · rw [← hget, List.getElem_drop, List.getElem?_eq_getElem (by omega)]
  · rw [List.any_eq_false]
    intro y hy
    rw [List.drop_take, Nat.add_sub_cancel_left] at hy
    rcases List.mem_iff_getElem.1 hy with ⟨j, hj, rfl⟩
    rw [List.length_take] at hj
    rw [List.getElem_take]
    simpa using hbefore j (by omega)

/-- The address of an index is the size of what is emitted before it. -/
theorem toNat_addressAt (hsize : codeSize debugMode l ≤ maxCodeSize)
    (h : (firstEmitted debugMode l idx).isSome = true) :
    (addressAt debugMode l idx).toNat = codeSize debugMode (l.take idx) := by
  rw [firstEmitted_isSome] at h
  rw [addressAt, placedAddress, List.take_length, if_pos h]
  apply UInt32.toNat_ofNat_of_lt'
  have hle : codeSize debugMode (l.take idx) ≤ codeSize debugMode l := codeSize_take_le_all idx
  unfold maxCodeSize at hsize
  show codeSize debugMode (l.take idx) < 2 ^ 32
  omega

/-- An emitted instruction is found at its own index. -/
theorem firstEmitted_self {i : PrsInstn T} {n : Nat} (hn : l[n]? = some i)
    (hie : i.emitted debugMode = true) : (firstEmitted debugMode l n).isSome = true := by
  rw [firstEmitted_isSome, List.any_eq_true]
  refine ⟨i, ?_, hie⟩
  apply List.mem_of_getElem? (i := 0)
  rw [List.getElem?_drop, Nat.add_zero, hn]

/-- Something is emitted behind the address. -/
theorem codeSize_take_lt (h : (firstEmitted debugMode l idx).isSome = true) :
    codeSize debugMode (l.take idx) < codeSize debugMode l := by
  rcases Option.isSome_iff_exists.1 h with ⟨i, hi⟩
  rcases firstEmitted_eq_some hi with ⟨n, hle, hget, hie, -⟩
  have hsucc : codeSize debugMode (l.take (n + 1)) = codeSize debugMode (l.take n) + i.size := by
    rw [codeSize_take_succ hget, hie, if_pos rfl]
  calc codeSize debugMode (l.take idx)
      ≤ codeSize debugMode (l.take n) := codeSize_take_le hle
    _ < codeSize debugMode (l.take (n + 1)) := by
        have := i.size_pos
        omega
    _ ≤ codeSize debugMode l := codeSize_take_le_all (n + 1)

/-- **The next emitted instruction** has the address of the index. -/
theorem firstEmitted_placed {i : PrsInstn T}
    (h : firstEmitted debugMode (placed debugMode l l.length) idx = some i) :
    i.memOffset = addressAt debugMode l idx := by
  rcases firstEmitted_eq_some h with ⟨n, hle, hget, hie, hskip⟩
  rw [any_drop_take_placed] at hskip
  have hsome : (firstEmitted debugMode l idx).isSome = true := by
    rw [firstEmitted_isSome, ← any_drop_placed l.length, ← firstEmitted_isSome, h]
    rfl
  rw [getElem?_placed, Option.map_eq_some_iff] at hget
  rcases hget with ⟨x, hx, rfl⟩
  have hnext := firstEmitted_self hx hie
  rw [firstEmitted_isSome] at hnext hsome
  rw [PrsInstn.setOffset_memOffset, addressAt, placedAddress, placedAddress, List.take_length,
    if_pos hnext, if_pos hsome, codeSize_take_of_skipped hle hskip]

/-- **What is encoded for a label** whose instruction is emitted is its address. -/
theorem resolveLabel_eq {labels : LabelMap} {k : CStr} {label : Label} (codesz : UInt32)
    (hget : labels.get k = some label)
    (h : label.isMemRef = false → (firstEmitted debugMode l label.offset.toNat).isSome = true) :
    resolveLabel debugMode labels l k =
      labelAddress debugMode (placed debugMode l l.length) codesz label := by
  rw [resolveLabel, hget, labelAddress]
  cases hmem : label.isMemRef with
  | true => simp [hmem]
  | false =>
      simp only [hmem, Bool.false_eq_true, if_false]
      have hsome := h hmem
      rw [firstEmitted_isSome, ← any_drop_placed l.length, ← firstEmitted_isSome] at hsome
      rcases Option.isSome_iff_exists.1 hsome with ⟨i, hi⟩
      rw [hi]
      exact (firstEmitted_placed hi).symm

end BvgzVm
