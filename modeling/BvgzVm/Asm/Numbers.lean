import BvgzVm.Asm.Lookup
import BvgzVm.Lib.Numerals

set_option autoImplicit false

/-! # Numeric operands

`parse_arg` leaves the base of a number that does not start with `0x` to `strtoull`, so a leading
zero makes it an octal one. A number is rejected if `strtoull` has set `errno`, which is never
cleared, and returns its largest value, and a negative one if it is at least `INT64_MAX`; a
reference is not compared with the 32 bits it has room for. `number_iff` says which operands are
accepted and read as they should.
-/

namespace BvgzVm

open CLib

variable {T : InstnTable}

/-! ## Operands that are written as numbers -/

/-- A row of digits to a base. -/
abbrev Digits (base : ℕ) := {ds : CStr // ds ≠ [] ∧ ∀ c ∈ ds, isDigit base c = true}

/-- A number as it is written. -/
inductive Numeral
  | hex (ds : Digits 16)
  | dec (ds : Digits 10)

def Numeral.text : Numeral → CStr
  | .hex ds => '0' :: 'x' :: ds.1
  | .dec ds => ds.1

/-- The number that is meant. -/
def Numeral.value : Numeral → ℕ
  | .hex ds => digitsValue 16 ds.1
  | .dec ds => digitsValue 10 ds.1

/-- The digits of a decimal number that starts with a zero. -/
def Numeral.zeroLed : Numeral → Option (Digits 10)
  | .hex _ => none
  | .dec ds => if ds.1.head? = some '0' then some ds else none

/-- What comes before the number of an operand. -/
inductive Sign
  | plus
  | minus
  | star
  deriving DecidableEq

def Sign.text : Sign → CStr
  | .plus => []
  | .minus => ['-']
  | .star => ['*']

/-- The number fits into the operand. -/
def Sign.Fits : Sign → ℕ → Prop
  | .plus, v => v < 2 ^ 64
  | .minus, v => v ≤ 2 ^ 63
  | .star, v => v < 2 ^ 32

/-- The operand stands for the number; the width of an immediate is lossless. -/
def Sign.Yields (v : ℕ) (a : PrsArg) : Sign → Prop
  | .plus => ∃ w fits, a = .imm w (UInt64.ofNat v) fits ∧
      (UInt64.ofNat v).toNat % 256 ^ w.bytes = (UInt64.ofNat v).toNat
  | .minus => ∃ w fits, a = .imm w (-UInt64.ofNat v) fits ∧
      (-UInt64.ofNat v).toNat % 256 ^ w.bytes = (-UInt64.ofNat v).toNat
  | .star => a = .refNum (UInt64.ofNat v)

/-- An operand is accepted just when its number fits, and then stands for this number. -/
structure NumberLaw (filename : FileName) (lineno : UInt32) (argIndex : ℕ) (sign : Sign)
    (num : Numeral) (s : Prs T) : Prop where
  accepted : sign.Fits num.value →
    ∃ a, (parseArg filename lineno (sign.text ++ num.text) argIndex s).1 = some a ∧
      sign.Yields num.value a
  rejected : ¬ sign.Fits num.value →
    (parseArg filename lineno (sign.text ++ num.text) argIndex s).1 = none

/-- What `parse_arg` rejects as an overflow, for a number `n` as it is read. -/
def Sign.TooLarge (n : ℕ) (erange : Bool) (sign : Sign) : Prop :=
  2 ^ 64 ≤ n ∨ (n = 2 ^ 64 - 1 ∧ erange = true) ∨ (sign = .minus ∧ 2 ^ 63 - 1 ≤ n)

instance (n : ℕ) (erange : Bool) (sign : Sign) : Decidable (sign.TooLarge n erange) :=
  inferInstanceAs (Decidable (_ ∨ _))

/-- The numbers without a leading zero for which the checks of `parse_arg` are right. -/
def Sign.InRange (v : ℕ) (erange : Bool) : Sign → Prop
  | .plus => ¬ (v = 2 ^ 64 - 1 ∧ erange = true)
  | .minus => v ≠ 2 ^ 63 - 1 ∧ v ≠ 2 ^ 63
  | .star => v < 2 ^ 32 ∨ 2 ^ 64 ≤ v ∨ (v = 2 ^ 64 - 1 ∧ erange = true)

/-- The operands that are read as they should. With a leading zero it is a number below 8, or one
that does not fit and is no octal number or too large as one. -/
def Sign.Reads (num : Numeral) (erange : Bool) (sign : Sign) : Prop :=
  match num.zeroLed with
  | none => sign.InRange num.value erange
  | some ds => num.value < 8 ∨
      ¬ sign.Fits num.value ∧
        ((∃ c ∈ ds.1, isDigit 8 c = false) ∨ sign.TooLarge (digitsValue 8 ds.1) erange)

/-! ## What `parse_arg` reads -/

/-- The number that `strtoull` reads, and what it leaves. -/
def Numeral.scan : Numeral → ℕ × CStr
  | .hex ds => (digitsValue 16 ds.1, [])
  | .dec ds =>
      if ds.1.head? = some '0' then
        (digitsValue 8 (ds.1.takeWhile (isDigit 8)), ds.1.dropWhile (isDigit 8))
      else (digitsValue 10 ds.1, [])

/-- The operand for the number `n`. -/
def Sign.arg (n : ℕ) : Sign → PrsArg
  | .plus => immArg false (UInt64.ofNat n)
  | .minus => immArg true (-UInt64.ofNat n)
  | .star => .refNum (UInt64.ofNat n)

theorem Numeral.text_start (num : Numeral) : ∃ c cs, num.text = c :: cs ∧ isDigit 16 c = true := by
  cases num with
  | hex ds => exact ⟨'0', 'x' :: ds.1, rfl, by decide⟩
  | dec ds =>
      rcases ds with ⟨ds, hne, hdigits⟩
      cases ds with
      | nil => exact absurd rfl hne
      | cons c cs => exact ⟨c, cs, rfl, isDigit_mono (by omega) (hdigits c List.mem_cons_self)⟩

/-- **`strtoull`** on a number, with the base that `parse_arg` chooses. -/
theorem strtoull_numeral (num : Numeral) :
    strtoull num.text (if ['0', 'x'].isPrefixOf num.text then 16 else 0) =
      ⟨if 2 ^ 64 ≤ num.scan.1 then 0xffffffffffffffff else UInt64.ofNat num.scan.1, num.scan.2,
        decide (2 ^ 64 ≤ num.scan.1)⟩ := by
  have hstart : ∀ c, num.text.head? = some c → isDigit 16 c = true := by
    rcases num.text_start with ⟨c, cs, htext, hc⟩
    rw [htext]
    rintro _ ⟨⟩
    exact hc
  cases num with
  | hex ds =>
      rcases ds with ⟨ds, hne, hdigits⟩
      refine strtoull_digits hne hdigits (by simp [Numeral.scan]) hstart ?_
      rw [Numeral.scan, List.append_nil]
      exact strtoBase_hex hne hdigits
  | dec ds =>
      rcases ds with ⟨ds, hne, hdigits⟩
      have hbase : ['0', 'x'].isPrefixOf (Numeral.dec ⟨ds, hne, hdigits⟩).text = false := by
        rw [Bool.eq_false_iff]
        intro hprefix
        rcases List.isPrefixOf_iff_prefix.1 hprefix with ⟨t, ht⟩
        have hx : 'x' ∈ ds := by
          have hds : ds = '0' :: 'x' :: t := ht.symm
          rw [hds]
          simp
        exact absurd (hdigits 'x' hx) (by decide)
      rw [hbase, if_neg Bool.false_ne_true]
      cases ds with
      | nil => exact absurd rfl hne
      | cons c cs =>
          by_cases hzero : c = '0'
          · subst hzero
            have hscan : (Numeral.dec ⟨'0' :: cs, hne, hdigits⟩).scan =
                (digitsValue 8 (('0' :: cs).takeWhile (isDigit 8)),
                  ('0' :: cs).dropWhile (isDigit 8)) := by
              rw [Numeral.scan]
              exact if_pos rfl
            rw [hscan]
            refine strtoull_digits (b := 8) ?_ ?_ ?_ hstart ?_
            · rw [List.takeWhile_cons_of_pos (by decide)]
              exact List.cons_ne_nil _ _
            · exact fun d hd => List.mem_takeWhile_imp hd
            · intro d hd
              have hnot := List.head?_dropWhile_not (isDigit 8) ('0' :: cs)
              rw [hd] at hnot
              exact hnot
            · rw [List.takeWhile_append_dropWhile]
              exact strtoBase_octal fun d hd => hdigits d (List.mem_cons_of_mem _ hd)
          · have hscan : (Numeral.dec ⟨c :: cs, hne, hdigits⟩).scan =
                (digitsValue 10 (c :: cs), []) := if_neg (by simpa using hzero)
            rw [hscan]
            refine strtoull_digits (b := 10) (List.cons_ne_nil c cs) hdigits (by simp) hstart ?_
            rw [List.append_nil]
            exact strtoBase_decimal hzero cs

/-- The prefixes of the operand. -/
theorem parseArg_sign (filename : FileName) (lineno : UInt32) (argIndex : ℕ) (sign : Sign)
    (num : Numeral) (s : Prs T) :
    ∃ r, r = strtoull num.text (if ['0', 'x'].isPrefixOf num.text then 16 else 0) ∧
      parseArg filename lineno (sign.text ++ num.text) argIndex s =
        finishArg filename lineno (sign.text ++ num.text) argIndex (decide (sign = .minus))
          (decide (sign = .star)) false num.text r (s.setErange r) := by
  refine ⟨_, rfl, ?_⟩
  rcases num.text_start with ⟨c, cs, htext, hc⟩
  rcases digit_start hc with ⟨-, hminus, -, hstar, hamp⟩
  rw [htext]
  cases sign with
  | plus => simp [parseArg, Sign.text, argPrefix, hminus, hstar, hamp]
  | minus => simp [parseArg, Sign.text, argPrefix, hstar, hamp]
  | star => simp [parseArg, Sign.text, argPrefix, hamp]

/-- Some digit is always read. -/
theorem Numeral.scan_lt (num : Numeral) : num.scan.2.length < num.text.length := by
  cases num with
  | hex ds => exact Nat.succ_pos _
  | dec ds =>
      rcases ds with ⟨ds, hne, hdigits⟩
      rw [Numeral.scan, Numeral.text]
      by_cases hzero : ds.head? = some '0'
      · rw [if_pos hzero]
        cases ds with
        | nil => exact absurd rfl hne
        | cons c cs =>
            obtain rfl : c = '0' := Option.some.inj hzero
            rw [List.dropWhile_cons_of_pos (by decide), List.length_cons]
            exact Nat.lt_succ_of_le (List.dropWhile_suffix _).length_le
      · rw [if_neg hzero]
        exact List.length_pos_iff.2 hne

/-- The check for an overflow, with the value and `errno` of `strtoull`. -/
theorem overflow_iff (sign : Sign) (n : ℕ) (erange : Bool) :
    ((if 2 ^ 64 ≤ n then 0xffffffffffffffff else UInt64.ofNat n) = 0xffffffffffffffff ∧
          (erange || decide (2 ^ 64 ≤ n)) = true ∨
        int64MaxLess1 < (if 2 ^ 64 ≤ n then 0xffffffffffffffff else UInt64.ofNat n) ∧
          decide (sign = .minus) = true) ↔
      sign.TooLarge n erange := by
  unfold Sign.TooLarge
  by_cases hlarge : 2 ^ 64 ≤ n
  · rw [if_pos hlarge, decide_eq_true hlarge, Bool.or_true]
    exact iff_of_true (Or.inl ⟨rfl, rfl⟩) (Or.inl hlarge)
  · have hvalue : (UInt64.ofNat n).toNat = n :=
      UInt64.toNat_ofNat_of_lt' (Nat.lt_of_not_le hlarge)
    have hmax : UInt64.ofNat n = 0xffffffffffffffff ↔ n = 2 ^ 64 - 1 := by
      rw [← UInt64.toNat_inj, hvalue]
      rfl
    have hmin : int64MaxLess1 < UInt64.ofNat n ↔ 2 ^ 63 - 1 ≤ n := by
      rw [UInt64.lt_iff_toNat_lt, hvalue]
      show 2 ^ 63 - 2 < n ↔ _
      omega
    rw [if_neg hlarge, hmax, hmin]
    simp only [hlarge, decide_false, Bool.or_false, false_or, decide_eq_true_eq]
    rw [and_comm (a := 2 ^ 63 - 1 ≤ n)]

/-- **What `parse_arg` makes of a number.** -/
theorem parseArg_numeral (filename : FileName) (lineno : UInt32) (argIndex : ℕ) (sign : Sign)
    (num : Numeral) (s : Prs T) :
    (parseArg filename lineno (sign.text ++ num.text) argIndex s).1 =
      if sign.TooLarge num.scan.1 s.erange ∨ num.scan.2 ≠ [] then none
      else some (sign.arg num.scan.1) := by
  rcases parseArg_sign filename lineno argIndex sign num s with ⟨r, hr, hparse⟩
  rw [strtoull_numeral] at hr
  have hrest : r.rest = num.scan.2 := congrArg Strto.rest hr
  have hover : (r.value = 0xffffffffffffffff ∧ (s.setErange r).erange = true ∨
      int64MaxLess1 < r.value ∧ decide (sign = .minus) = true) ↔
        sign.TooLarge num.scan.1 s.erange := by
    rw [← overflow_iff, hr]
    rfl
  rw [hparse, finishArg]
  by_cases hlarge : sign.TooLarge num.scan.1 s.erange
  · rw [if_pos (hover.2 hlarge), if_pos (Or.inl hlarge)]
  · have hvalue : r.value = UInt64.ofNat num.scan.1 := by
      rw [hr]
      exact if_neg fun h => hlarge (Or.inl h)
    have hlabel : ¬ r.rest.length = num.text.length := by
      rw [hrest]
      exact Nat.ne_of_lt num.scan_lt
    rw [if_neg (fun h => hlarge (hover.1 h))]
    simp only [if_neg hlabel]
    by_cases hend : num.scan.2 = []
    · have hright : ¬ (sign.TooLarge num.scan.1 s.erange ∨ num.scan.2 ≠ []) := by
        rw [not_or, not_not]
        exact ⟨hlarge, hend⟩
      rw [if_neg hright, if_neg (by rw [hrest]; exact fun h => h hend), hvalue]
      cases sign with
      | plus => rfl
      | minus => rfl
      | star => rfl
    · rw [if_pos (by rw [hrest]; exact hend), if_pos (Or.inr hend)]

/-! ## When it is right -/

theorem immArg_value (negative : Bool) (x : UInt64) :
    ∃ w fits, immArg negative x = .imm w x fits := by
  unfold immArg
  split
  case isTrue h => exact ⟨_, h.2, rfl⟩
  case isFalse =>
    split
    case isTrue h => exact ⟨_, h.2, rfl⟩
    case isFalse =>
      split
      case isTrue h => exact ⟨_, h.2, rfl⟩
      case isFalse => exact ⟨.w8, x.toNat_lt, rfl⟩

theorem ofNat_inj {n v : ℕ} (hn : n < 2 ^ 64) (hv : v < 2 ^ 64) :
    UInt64.ofNat n = UInt64.ofNat v ↔ n = v := by
  constructor
  · intro h
    have hnat := congrArg UInt64.toNat h
    rwa [UInt64.toNat_ofNat_of_lt' hn, UInt64.toNat_ofNat_of_lt' hv] at hnat
  · rintro rfl
    rfl

/-- An operand stands for the number that is read. -/
theorem Sign.yields_iff (sign : Sign) {n v : ℕ} (hn : n < 2 ^ 64) (hv : v < 2 ^ 64) :
    sign.Yields v (sign.arg n) ↔ n = v := by
  rw [← ofNat_inj hn hv]
  cases sign with
  | plus =>
      rcases immArg_value false (UInt64.ofNat n) with ⟨w, fits, harg⟩
      rw [Sign.arg, Sign.Yields, harg]
      constructor
      · rintro ⟨w', fits', heq, -⟩
        exact (PrsArg.imm.inj heq).2
      · intro heq
        rw [← heq]
        exact ⟨w, fits, rfl, Nat.mod_eq_of_lt fits⟩
  | minus =>
      rcases immArg_value true (-UInt64.ofNat n) with ⟨w, fits, harg⟩
      rw [Sign.arg, Sign.Yields, harg]
      constructor
      · rintro ⟨w', fits', heq, -⟩
        exact UInt64.neg_inj.1 (PrsArg.imm.inj heq).2
      · intro heq
        rw [← heq]
        exact ⟨w, fits, rfl, Nat.mod_eq_of_lt fits⟩
  | star =>
      constructor
      · intro heq
        exact PrsArg.refNum.inj heq
      · intro heq
        exact congrArg PrsArg.refNum heq

theorem Sign.Fits.lt {sign : Sign} {v : ℕ} (h : sign.Fits v) : v < 2 ^ 64 := by
  cases sign with
  | plus => exact h
  | minus => exact Nat.lt_of_le_of_lt h (by decide)
  | star => exact Nat.lt_trans h (by decide)

theorem Sign.inRange_iff (sign : Sign) (v : ℕ) (erange : Bool) :
    sign.InRange v erange ↔ (sign.Fits v ↔ ¬ sign.TooLarge v erange) := by
  have herange : erange = true ∨ erange = false := by
    cases erange with
    | true => exact Or.inl rfl
    | false => exact Or.inr rfl
  cases sign with
  | plus =>
      rcases herange with h | h
      · simp only [Sign.InRange, Sign.Fits, Sign.TooLarge, h, reduceCtorEq, false_and, or_false,
          and_true]
        omega
      · simp only [Sign.InRange, Sign.Fits, Sign.TooLarge, h, reduceCtorEq, false_and, or_false,
          and_false, not_false_eq_true, true_iff]
        omega
  | minus =>
      rcases herange with h | h
      · simp only [Sign.InRange, Sign.Fits, Sign.TooLarge, h, and_true, true_and]
        omega
      · simp only [Sign.InRange, Sign.Fits, Sign.TooLarge, h, reduceCtorEq, and_false, false_or,
          true_and]
        omega
  | star =>
      rcases herange with h | h
      · simp only [Sign.InRange, Sign.Fits, Sign.TooLarge, h, reduceCtorEq, false_and, or_false,
          and_true]
        omega
      · simp only [Sign.InRange, Sign.Fits, Sign.TooLarge, h, reduceCtorEq, false_and, or_false,
          and_false]
        omega

/-- The law, for the number that is read. -/
theorem numberLaw_iff (filename : FileName) (lineno : UInt32) (argIndex : ℕ) (sign : Sign)
    (num : Numeral) (s : Prs T) :
    NumberLaw filename lineno argIndex sign num s ↔
      (sign.Fits num.value → ¬ sign.TooLarge num.scan.1 s.erange ∧ num.scan.2 = [] ∧
        num.scan.1 = num.value) ∧
      (¬ sign.Fits num.value → sign.TooLarge num.scan.1 s.erange ∨ num.scan.2 ≠ []) := by
  have hparse := parseArg_numeral filename lineno argIndex sign num s
  have hread : ¬ sign.TooLarge num.scan.1 s.erange → num.scan.1 < 2 ^ 64 := by
    intro h
    exact Nat.lt_of_not_le fun hle => h (Or.inl hle)
  constructor
  · rintro ⟨haccepted, hrejected⟩
    refine ⟨fun hfits => ?_, fun hfits => ?_⟩
    · rcases haccepted hfits with ⟨a, ha, hyields⟩
      rw [hparse] at ha
      split at ha
      · cases ha
      · rename_i hok
        rw [not_or, not_not] at hok
        obtain rfl := Option.some.inj ha
        exact ⟨hok.1, hok.2, (sign.yields_iff (hread hok.1) hfits.lt).1 hyields⟩
    · by_contra hok
      have hnone := hrejected hfits
      rw [hparse, if_neg hok] at hnone
      cases hnone
  · rintro ⟨haccepted, hrejected⟩
    refine ⟨fun hfits => ?_, fun hfits => ?_⟩
    · rcases haccepted hfits with ⟨hsmall, hend, hvalue⟩
      refine ⟨sign.arg num.scan.1, ?_, (sign.yields_iff (hread hsmall) hfits.lt).2 hvalue⟩
      rw [hparse, if_neg (by rw [not_or, not_not]; exact ⟨hsmall, hend⟩)]
    · rw [hparse, if_pos (hrejected hfits)]

/-- **A numeric operand is accepted just when it fits, and read right, just when** it is in the
range that `parse_arg` checks and has no leading zero that changes it. -/
theorem number_iff (filename : FileName) (lineno : UInt32) (argIndex : ℕ) (sign : Sign)
    (num : Numeral) (s : Prs T) :
    NumberLaw filename lineno argIndex sign num s ↔ sign.Reads num s.erange := by
  rw [numberLaw_iff]
  unfold Sign.Reads
  cases hzero : num.zeroLed with
  | none =>
      have hscan : num.scan = (num.value, []) := by
        cases num with
        | hex ds => rfl
        | dec ds =>
            rw [Numeral.zeroLed] at hzero
            split at hzero
            · cases hzero
            · rename_i hhead
              rw [Numeral.scan, if_neg hhead]
              rfl
      rw [hscan, Sign.inRange_iff]
      simp only [and_true, ne_eq, not_true_eq_false, or_false]
      constructor
      · rintro ⟨hsmall, hlarge⟩
        exact ⟨hsmall, fun h => by_contra fun hfits => h (hlarge hfits)⟩
      · intro h
        exact ⟨h.1, fun hfits => by_contra fun hlarge => hfits (h.2 hlarge)⟩
  | some ds =>
      obtain ⟨rfl, hscan⟩ : num = .dec ds ∧ num.scan =
          (digitsValue 8 (ds.1.takeWhile (isDigit 8)), ds.1.dropWhile (isDigit 8)) := by
        cases num with
        | hex ds => cases hzero
        | dec ds' =>
            rw [Numeral.zeroLed] at hzero
            split at hzero
            · rename_i hhead
              obtain rfl := Option.some.inj hzero
              refine ⟨rfl, ?_⟩
              rw [Numeral.scan, if_pos hhead]
            · cases hzero
      have hend : ds.1.dropWhile (isDigit 8) = [] ↔ ∀ c ∈ ds.1, isDigit 8 c = true :=
        List.dropWhile_eq_nil_iff
      have htake : (∀ c ∈ ds.1, isDigit 8 c = true) → ds.1.takeWhile (isDigit 8) = ds.1 :=
        List.takeWhile_eq_self_iff.2
      have hother : ¬ (∀ c ∈ ds.1, isDigit 8 c = true) ↔ ∃ c ∈ ds.1, isDigit 8 c = false := by
        simp
      rw [hscan]
      show _ ↔ digitsValue 10 ds.1 < 8 ∨ ¬ sign.Fits (digitsValue 10 ds.1) ∧ _
      constructor
      · rintro ⟨haccepted, hrejected⟩
        by_cases hfits : sign.Fits (digitsValue 10 ds.1)
        · rcases haccepted hfits with ⟨-, hall, hvalue⟩
          rw [htake (hend.1 hall)] at hvalue
          exact Or.inl ((digitsValue_octal (hend.1 hall)).2.1 hvalue)
        · refine Or.inr ⟨hfits, ?_⟩
          by_cases hall : ∀ c ∈ ds.1, isDigit 8 c = true
          · rcases hrejected hfits with hlarge | hrest
            · rw [htake hall] at hlarge
              exact Or.inr hlarge
            · exact absurd (hend.2 hall) hrest
          · exact Or.inl (hother.1 hall)
      · rintro (hsmall | ⟨hfits, hrejected⟩)
        · -- a single digit, which is the same in base 8
          have hall := isDigit_octal_of_lt ds.2.2 hsmall
          have hvalue := (digitsValue_octal hall).2.2 hsmall
          rw [htake hall]
          refine ⟨fun _ => ⟨?_, hend.2 hall, hvalue⟩, fun hfits => absurd ?_ hfits⟩
          · rw [hvalue]
            unfold Sign.TooLarge
            omega
          · show sign.Fits (digitsValue 10 ds.1)
            cases sign with
            | plus => exact Nat.lt_trans hsmall (by decide)
            | minus => exact Nat.le_of_lt (Nat.lt_trans hsmall (by decide))
            | star => exact Nat.lt_trans hsmall (by decide)
        · refine ⟨fun h => absurd h hfits, fun _ => ?_⟩
          by_cases hall : ∀ c ∈ ds.1, isDigit 8 c = true
          · rcases hrejected with hother' | hlarge
            · exact absurd hall (hother.2 hother')
            · rw [htake hall]
              exact Or.inl hlarge
          · exact Or.inr fun hnil => hall (hend.1 hnil)

/-- `010` is read as 8. -/
theorem number_octal : ¬ NumberLaw ⟨0, []⟩ 1 0 .plus
    (.dec ⟨"010".toList, by decide, forall_mem_of_all (by decide)⟩) (initParse false : Prs stableTable) := by
  rintro ⟨haccepted, -⟩
  have hfits : digitsValue 10 "010".toList < 2 ^ 64 := by decide
  rcases haccepted hfits with ⟨a, ha, w, fits, heq, -⟩
  rw [heq] at ha
  have hread : ((parseArg ⟨0, []⟩ 1 "010".toList 0 (initParse false : Prs stableTable)).1) =
      some (.imm .w1 8 (by decide)) := by decide +kernel
  have hsame := hread.symm.trans ha
  cases hsame

end BvgzVm
