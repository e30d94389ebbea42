import BvgzVm.Lib.CString
import Mathlib.Data.List.Induction
import Mathlib.Data.List.TakeWhile

set_option autoImplicit false

/-! # Numerals

What a row of digits stands for, and what `strtoull` makes of one. Read in base 8, decimal digits
stand for less than they are written for, unless they stand for a single digit
(`digitsValue_octal`).
-/

namespace CLib

/-! ## Digits -/

theorem isDigit_iff {base : Nat} {c : Char} :
    isDigit base c = true ↔ ∃ d, digit c = some d ∧ d < base := by
  unfold isDigit
  cases digit c with
  | none => simp
  | some d => simp

theorem isDigit_mono {b b' : Nat} (h : b ≤ b') {c : Char} (hc : isDigit b c = true) :
    isDigit b' c = true := by
  rcases isDigit_iff.1 hc with ⟨d, hd, hlt⟩
  exact isDigit_iff.2 ⟨d, hd, Nat.lt_of_lt_of_le hlt h⟩

/-- The value of a digit. -/
def digitValue (c : Char) : Nat := (digit c).getD 0

theorem digitValue_lt {base : Nat} {c : Char} (h : isDigit base c = true) :
    digitValue c < base := by
  rcases isDigit_iff.1 h with ⟨d, hd, hlt⟩
  rwa [digitValue, hd]

theorem isDigit_of_lt {b base : Nat} {c : Char} (h : isDigit base c = true)
    (hlt : digitValue c < b) : isDigit b c = true := by
  rcases isDigit_iff.1 h with ⟨d, hd, -⟩
  rw [digitValue, hd] at hlt
  exact isDigit_iff.2 ⟨d, hd, hlt⟩

theorem digitsValue_concat (base : Nat) (ds : CStr) (c : Char) :
    digitsValue base (ds ++ [c]) = digitsValue base ds * base + digitValue c := by
  rw [digitsValue, List.foldl_append]
  rfl

/-- A digit is at most the whole number. -/
theorem digitValue_le {base : Nat} (hbase : 0 < base) {ds : CStr} {c : Char} (h : c ∈ ds) :
    digitValue c ≤ digitsValue base ds := by
  induction ds using List.reverseRecOn with
  | nil => cases h
  | append_singleton ds d ih =>
      rw [digitsValue_concat]
      rcases List.mem_append.1 h with hmem | hlast
      · calc digitValue c
            ≤ digitsValue base ds := ih hmem
          _ ≤ digitsValue base ds * base := Nat.le_mul_of_pos_right _ hbase
          _ ≤ digitsValue base ds * base + digitValue d := Nat.le_add_right _ _
      · rw [List.mem_singleton.1 hlast]
        exact Nat.le_add_left _ _

/-- **A number read in base 8** is at most the one in base 10, and the same just when it is a
single digit. -/
theorem digitsValue_octal {ds : CStr} (h : ∀ c ∈ ds, isDigit 8 c = true) :
    digitsValue 8 ds ≤ digitsValue 10 ds ∧
      (digitsValue 8 ds = digitsValue 10 ds ↔ digitsValue 10 ds < 8) := by
  induction ds using List.reverseRecOn with
  | nil => decide
  | append_singleton ds c ih =>
      have hc := digitValue_lt (h c (List.mem_append_right ds List.mem_cons_self))
      rcases ih fun d hd => h d (List.mem_append_left [c] hd) with ⟨hle, -⟩
      rw [digitsValue_concat, digitsValue_concat]
      omega

/-- A decimal number below 8 has octal digits only. -/
theorem isDigit_octal_of_lt {ds : CStr} (h : ∀ c ∈ ds, isDigit 10 c = true)
    (hlt : digitsValue 10 ds < 8) : ∀ c ∈ ds, isDigit 8 c = true := by
  intro c hc
  have hle := @digitValue_le 10 (by omega) ds c hc
  exact isDigit_of_lt (h c hc) (Nat.lt_of_le_of_lt hle hlt)

/-! ## `strtoull` -/

/-- A digit is neither a blank nor a sign. -/
theorem digit_start {c : Char} (h : isDigit 16 c = true) :
    isspace c = false ∧ c ≠ '-' ∧ c ≠ '+' ∧ c ≠ '*' ∧ c ≠ '&' := by
  refine ⟨?_, ?_, ?_, ?_, ?_⟩
  · by_contra hspace
    rw [Bool.not_eq_false, isspace] at hspace
    simp only [Bool.or_eq_true, decide_eq_true_eq, or_assoc] at hspace
    rcases hspace with rfl | rfl | rfl | rfl | rfl | rfl <;> exact absurd h (by decide)
  all_goals
    rintro rfl
    exact absurd h (by decide)

/-- The digits of `strtoull`, behind what `strtoBase` takes away. -/
theorem strtoull_digits {s ds rest : CStr} {base b : Nat} (hne : ds ≠ [])
    (hdigits : ∀ c ∈ ds, isDigit b c = true)
    (hrest : ∀ c, rest.head? = some c → isDigit b c = false)
    (hstart : ∀ c, s.head? = some c → isDigit 16 c = true)
    (hbase : strtoBase base s = (b, ds ++ rest)) :
    strtoull s base =
      ⟨if 2 ^ 64 ≤ digitsValue b ds then 0xffffffffffffffff else UInt64.ofNat (digitsValue b ds),
        rest, decide (2 ^ 64 ≤ digitsValue b ds)⟩ := by
  have hspace : s.dropWhile isspace = s := by
    cases s with
    | nil => rfl
    | cons c s =>
        exact List.dropWhile_cons_of_neg (by rw [(digit_start (hstart c rfl)).1]; decide)
  have hsign : strtoSign s = (false, s) := by
    cases s with
    | nil => rfl
    | cons c s =>
        rcases digit_start (hstart c rfl) with ⟨-, hminus, hplus, -⟩
        unfold strtoSign
        split
        · rename_i heq
          exact absurd (List.cons.inj heq).1 hminus
        · rename_i heq
          exact absurd (List.cons.inj heq).1 hplus
        · rfl
  have htake : (ds ++ rest).takeWhile (isDigit b) = ds := by
    rw [List.takeWhile_append_of_pos hdigits]
    cases rest with
    | nil => simp
    | cons c rest => rw [List.takeWhile_cons_of_neg (by simp [hrest c rfl]), List.append_nil]
  unfold strtoull
  rw [hspace, hsign]
  simp only [hbase, htake]
  rw [if_neg hne, List.drop_left]
  by_cases hlarge : 2 ^ 64 ≤ digitsValue b ds
  · rw [if_pos hlarge, if_pos hlarge, decide_eq_true hlarge]
  · rw [if_neg hlarge, if_neg hlarge, decide_eq_false hlarge, if_neg Bool.false_ne_true]

theorem strtoBase_hex {ds : CStr} (hne : ds ≠ []) (hdigits : ∀ c ∈ ds, isDigit 16 c = true) :
    strtoBase 16 ('0' :: 'x' :: ds) = (16, ds) := by
  cases ds with
  | nil => exact absurd rfl hne
  | cons d ds =>
      show (if _ then _ else _) = _
      exact if_pos ⟨Or.inr rfl, Or.inl rfl, hdigits d List.mem_cons_self⟩

/-- A base other than 0 and 16 takes nothing away. -/
theorem strtoBase_ten (s : CStr) : strtoBase 10 s = (10, s) := by
  unfold strtoBase
  split
  · rw [if_neg (by omega), if_neg (by omega)]
  · exact if_neg (by omega)
  · exact if_neg (by omega)

theorem strtoBase_decimal {c : Char} (hc : c ≠ '0') (ds : CStr) :
    strtoBase 0 (c :: ds) = (10, c :: ds) := by
  unfold strtoBase
  split
  · rename_i heq
    exact absurd (List.cons.inj heq).1 hc
  · rename_i heq
    exact absurd (List.cons.inj heq).1 hc
  · exact if_pos rfl

/-- **A leading zero** makes the number an octal one. -/
theorem strtoBase_octal {ds : CStr} (hdigits : ∀ c ∈ ds, isDigit 10 c = true) :
    strtoBase 0 ('0' :: ds) = (8, '0' :: ds) := by
  match ds, hdigits with
  | [], _ => rfl
  | [_], _ => rfl
  | c :: d :: ds, hdigits =>
      have hc := hdigits c List.mem_cons_self
      have hx : ¬ (c = 'x' ∨ c = 'X') := by
        rintro (rfl | rfl)
        · exact absurd hc (by decide)
        · exact absurd hc (by decide)
      show (if _ then _ else if _ then _ else _) = _
      rw [if_neg (fun h => hx h.2.1), if_pos rfl]

end CLib
