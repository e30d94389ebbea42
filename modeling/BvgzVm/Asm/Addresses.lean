import BvgzVm.Asm.Layout

set_option autoImplicit false

/-! # The addresses the generator assigns

An instruction that is emitted gets its address at once and hands it down to the skipped ones
before it (`backfill_placed`); an instruction that is skipped has none for the time being
(`placed_succ_skipped`). So after `i` instructions the addresses are `placed debugMode l i`.
-/

namespace BvgzVm

variable {T : InstnTable}

/-- The largest buffer whose size is a 32-bit multiple of the block size. -/
def maxCodeSize : Nat := 2 ^ 32 - 256

variable {debugMode : Bool} {l : List (PrsInstn T)} {i j : Nat} {x : PrsInstn T}

/-! ## One more instruction -/

theorem take_succ_eq (h : l[i]? = some x) : l.take (i + 1) = l.take i ++ [x] := by
  rw [List.take_add_one, h, Option.toList_some]

theorem codeSize_take_succ (h : l[i]? = some x) :
    codeSize debugMode (l.take (i + 1)) =
      codeSize debugMode (l.take i) + if x.emitted debugMode then x.size else 0 := by
  rw [take_succ_eq h, codeSize_append]
  congr 1
  unfold codeSize
  cases hx : x.emitted debugMode <;> simp [hx]

theorem placedAddress_of_le (h : i ≤ j) : placedAddress debugMode l i j = noOffset := by
  have hnil : (l.take i).drop j = [] := by
    rw [List.drop_eq_nil_iff, List.length_take]
    omega
  rw [placedAddress, hnil, List.any_nil, if_neg (by simp)]

/-- The instructions from `j` on that have been looked at after one more. -/
theorem drop_take_succ (h : l[i]? = some x) :
    (l.take (i + 1)).drop j = (l.take i).drop j ++ [x].drop (j - i) := by
  have hi : i < l.length := (List.getElem?_eq_some_iff.1 h).1
  rw [take_succ_eq h, List.drop_append, List.length_take, Nat.min_eq_left (by omega)]

theorem placedAddress_succ_of_any (h : l[i]? = some x)
    (hany : ((l.take i).drop j).any (PrsInstn.emitted debugMode) = true) :
    placedAddress debugMode l (i + 1) j = placedAddress debugMode l i j := by
  rw [placedAddress, placedAddress, drop_take_succ h, List.any_append, hany, Bool.true_or]

theorem placedAddress_succ_skipped (h : l[i]? = some x) (hx : x.emitted debugMode = false) :
    placedAddress debugMode l (i + 1) j = placedAddress debugMode l i j := by
  have hrest : ([x].drop (j - i)).any (PrsInstn.emitted debugMode) = false := by
    cases j - i with
    | zero => simp [hx]
    | succ k => simp
  rw [placedAddress, placedAddress, drop_take_succ h, List.any_append, hrest, Bool.or_false]

theorem placedAddress_succ_emitted (h : l[i]? = some x) (hx : x.emitted debugMode = true)
    (hj : j ≤ i) :
    placedAddress debugMode l (i + 1) j = UInt32.ofNat (codeSize debugMode (l.take j)) := by
  have hany : ((l.take (i + 1)).drop j).any (PrsInstn.emitted debugMode) = true := by
    rw [drop_take_succ h, Nat.sub_eq_zero_of_le hj, List.drop_zero, List.any_append]
    simp [hx]
  rw [placedAddress, if_pos hany]

/-- Before the end of the buffer no address looks like an address that is not known. -/
theorem ofNat_ne_noOffset {n : Nat} (h : n ≤ maxCodeSize) : UInt32.ofNat n ≠ noOffset := by
  intro heq
  unfold maxCodeSize at h
  have htoNat : (UInt32.ofNat n).toNat = n := UInt32.toNat_ofNat_of_lt' (by
    show n < 2 ^ 32
    omega)
  rw [heq] at htoNat
  have : noOffset.toNat = 2 ^ 32 - 1 := rfl
  omega

/-! ## The loop downwards -/

theorem backfill_of_known {m : List (PrsInstn T)} {y : PrsInstn T} (o : UInt32)
    (hy : m[j]? = some y) (hknown : y.memOffset ≠ noOffset) : backfill o (j + 1) m = m := by
  rw [backfill, hy]
  exact if_neg hknown

theorem backfill_of_unknown {m : List (PrsInstn T)} {y : PrsInstn T} (o : UInt32)
    (hy : m[j]? = some y) (hunknown : y.memOffset = noOffset) :
    backfill o (j + 1) m = backfill o j (m.set j (y.setOffset o)) := by
  rw [backfill, hy]
  exact if_pos hunknown

/-- **The loop over the instructions before the current one** brings their addresses up to
date. -/
theorem backfill_spec (h : l[i]? = some x) (hx : x.emitted debugMode = true)
    (hsize : codeSize debugMode (l.take i) ≤ maxCodeSize) {k : Nat} (hk : k ≤ i)
    {m : List (PrsInstn T)} {address : Nat → UInt32}
    (hm : ∀ j : Nat, m[j]? = l[j]?.map (fun y => y.setOffset (address j)))
    (haddr : ∀ j, j < k → address j = placedAddress debugMode l i j) (j : Nat) :
    (backfill (UInt32.ofNat (codeSize debugMode (l.take i))) k m)[j]? =
      l[j]?.map (fun y => y.setOffset
        (if j < k then placedAddress debugMode l (i + 1) j else address j)) := by
  induction k generalizing m address with
  | zero =>
      rw [backfill, hm j]
      simp
  | succ k ih =>
      have hlen : k < l.length := by
        have := (List.getElem?_eq_some_iff.1 h).1
        omega
      have hkm : m[k]? = some (l[k].setOffset (address k)) := by
        rw [hm k, List.getElem?_eq_getElem hlen, Option.map_some]
      by_cases hany : ((l.take i).drop k).any (PrsInstn.emitted debugMode) = true
      · -- an instruction between `k` and `i` was emitted: everything up to `k` has its address
        have hold : placedAddress debugMode l i k ≠ noOffset := by
          rw [placedAddress, if_pos hany]
          exact ofNat_ne_noOffset (le_trans (codeSize_take_le (by omega)) hsize)
        rw [← haddr k (by omega)] at hold
        rw [backfill_of_known _ hkm hold, hm j]
        by_cases hj : j < k + 1
        · have hany' : ((l.take i).drop j).any (PrsInstn.emitted debugMode) = true := by
            rw [List.any_eq_true] at hany ⊢
            rcases hany with ⟨y, hy, hye⟩
            refine ⟨y, ?_, hye⟩
            rw [show k = j + (k - j) by omega, ← List.drop_drop] at hy
            exact List.mem_of_mem_drop hy
          simp only [if_pos hj]
          rw [haddr j hj, placedAddress_succ_of_any h hany']
        · simp only [if_neg hj]
      · -- instruction `k` has no address yet and gets that of instruction `i`
        have hnone : address k = noOffset := by
          rw [haddr k (by omega), placedAddress, if_neg hany]
        have hnew : placedAddress debugMode l (i + 1) k =
            UInt32.ofNat (codeSize debugMode (l.take i)) := by
          rw [placedAddress_succ_emitted h hx (by omega),
            codeSize_take_of_skipped (show k ≤ i by omega) (by simpa using hany)]
        rw [backfill_of_unknown _ hkm hnone, PrsInstn.setOffset_setOffset, ← hnew]
        have hset (j : Nat) : (m.set k (l[k].setOffset (placedAddress debugMode l (i + 1) k)))[j]? =
            l[j]?.map (fun y => y.setOffset
              (if j = k then placedAddress debugMode l (i + 1) k else address j)) := by
          rw [List.getElem?_set]
          by_cases hjk : k = j
          · subst hjk
            rw [if_pos rfl, if_pos (List.getElem?_eq_some_iff.1 hkm).1,
              List.getElem?_eq_getElem hlen, Option.map_some, if_pos rfl]
          · rw [if_neg hjk, hm j]
            simp only [if_neg (Ne.symm hjk)]
        rw [hnew] at hset ⊢
        rw [ih (by omega) hset (fun j hj => by
          rw [if_neg (show ¬ j = k by omega), haddr j (by omega)])]
        rcases Nat.lt_trichotomy j k with hj | rfl | hj
        · simp only [if_pos hj, if_pos (show j < k + 1 by omega)]
        · simp only [Nat.lt_irrefl, if_false, if_true, if_pos (Nat.lt_succ_self j), hnew]
        · simp only [if_neg (show ¬ j < k by omega), if_neg (show ¬ j < k + 1 by omega),
            if_neg (show ¬ j = k by omega)]

/-- The addresses after an emitted instruction. -/
theorem backfill_placed (h : l[i]? = some x) (hx : x.emitted debugMode = true)
    (hsize : codeSize debugMode (l.take i) ≤ maxCodeSize) :
    backfill (UInt32.ofNat (codeSize debugMode (l.take i))) i
      ((placed debugMode l i).set i
        (x.setOffset (UInt32.ofNat (codeSize debugMode (l.take i))))) =
      placed debugMode l (i + 1) := by
  have hlen : i < l.length := (List.getElem?_eq_some_iff.1 h).1
  have hset (j : Nat) : ((placed debugMode l i).set i
      (x.setOffset (UInt32.ofNat (codeSize debugMode (l.take i)))))[j]? =
      l[j]?.map (fun y => y.setOffset
        (if j = i then UInt32.ofNat (codeSize debugMode (l.take i))
          else placedAddress debugMode l i j)) := by
    rw [List.getElem?_set, length_placed]
    by_cases hij : i = j
    · subst hij
      rw [if_pos rfl, if_pos hlen, h, Option.map_some, if_pos rfl]
    · rw [if_neg hij, getElem?_placed]
      simp only [if_neg (Ne.symm hij)]
  apply List.ext_getElem?
  intro j
  rw [backfill_spec h hx hsize (le_refl i) hset (fun j hj => if_neg (by omega)), getElem?_placed]
  rcases Nat.lt_trichotomy j i with hj | rfl | hj
  · simp only [if_pos hj]
  · simp only [Nat.lt_irrefl, if_false, if_true, placedAddress_succ_emitted h hx (le_refl j)]
  · simp only [if_neg (show ¬ j < i by omega), if_neg (show ¬ j = i by omega)]
    rw [placedAddress_of_le (show i ≤ j by omega), placedAddress_of_le (show i + 1 ≤ j by omega)]

/-- The addresses after an instruction that is skipped. -/
theorem placed_succ_skipped (h : l[i]? = some x) (hx : x.emitted debugMode = false) :
    placed debugMode l (i + 1) = placed debugMode l i := by
  apply List.ext_getElem?
  intro j
  rw [getElem?_placed, getElem?_placed, placedAddress_succ_skipped h hx]

end BvgzVm
