import BvgzVm.Asm.DataTokens
import BvgzVm.Asm.Numbers

set_option autoImplicit false

/-! # The options of a directive

An offset and a size may follow the data of a directive, each at most once. The loop of
`parse_preproc_data` reports a second offset and a second size, but looks at the offset for both:
`optionOrder_iff` says for which rows of options what it reports is right.
-/

namespace BvgzVm

open CLib Fallible

variable {T : InstnTable}

/-! ## Options as they are written -/

/-- An option with its number. -/
inductive OptionSpec
  | offset (num : Numeral)
  | size (num : Numeral)

def OptionSpec.num : OptionSpec → Numeral
  | .offset num | .size num => num

def OptionSpec.text : OptionSpec → CStr
  | .offset num => ':' :: num.text
  | .size num => '/' :: num.text

def OptionSpec.isOffset : OptionSpec → Bool
  | .offset _ => true
  | .size _ => false

/-- A text of options, each with a blank behind it, up to the end of the line or a comment. -/
inductive WrittenAs : CStr → List OptionSpec → Prop
  | done {blanks rest : CStr} (hblanks : ∀ c ∈ blanks, isspace c = true)
      (hrest : rest = [] ∨ rest.head? = some ';') : WrittenAs (blanks ++ rest) []
  | option {blanks : CStr} (x : OptionSpec) {c : Char} {text : CStr} {os : List OptionSpec}
      (hblanks : ∀ c ∈ blanks, isspace c = true) (hc : isspace c = true)
      (htext : WrittenAs text os) : WrittenAs (blanks ++ (x.text ++ c :: text)) (x :: os)

/-- The line of a directive with a label, data and options. -/
def IsDirectiveWith (line : CStr) (label : Option CStr) (data : CStr) (os : List OptionSpec) :
    Prop :=
  ∃ h : DataHead, dataHead line = .ok (some h) ∧ dataLabel h.line h.label = .ok label ∧
    strAt h.line h.data = some data ∧ h.next ≤ h.line.length ∧ WrittenAs (h.line.drop h.next) os

/-- There are at most one offset and at most one size. -/
def AtMostOne (os : List OptionSpec) : Prop :=
  os.countP OptionSpec.isOffset ≤ 1 ∧ os.countP (fun x => !x.isOffset) ≤ 1

instance (os : List OptionSpec) : Decidable (AtMostOne os) := inferInstanceAs (Decidable (_ ∧ _))

section Law

variable (env : PrsEnv) (filename : FileName) (lineno : UInt32) (includePaths : List CStr)

/-- What the loop over the options of a line reports. -/
def OptionErrors (line : CStr) (s : Prs T) (reports : ℕ → ℕ → Prop) : Prop :=
  ∀ (h : DataHead) (line' : CStr) (o : DataOptions) (s' : Prs T), dataHead line = .ok (some h) →
    dataOptions filename lineno (h.line.length + 1) h.next h.line ⟨notGiven, notGiven⟩ s =
      .ok (line', o, s') → reports s.result.errors s'.result.errors

/-- An offset and a size may be written in either order, one of each is accepted, and more are
reported. The order is about a line that is written in the documented order, with the offset first:
the same options the other way round are the same directive. A line with the size first is the other
side of this and has no law of its own here. -/
structure OptionsLaw (line : CStr) (label : Option CStr) (data : CStr) (os : List OptionSpec)
    (s : Prs T) : Prop where
  order : ∀ m n, os = [.offset m, .size n] → ∀ line' : CStr,
    IsDirectiveWith line' label data [.size n, .offset m] →
      parsePreprocData env filename lineno line includePaths s =
        parsePreprocData env filename lineno line' includePaths s
  accepted : AtMostOne os → OptionErrors filename lineno line s (fun before after => after = before)
  repeated : ¬ AtMostOne os → OptionErrors filename lineno line s (fun before after => before < after)

end Law

/-! ## What the loop reports -/

def Numeral.isDec : Numeral → Bool
  | .hex _ => false
  | .dec _ => true

/-- The number that an option is read as. -/
def Numeral.number : Numeral → UInt32
  | .hex _ => 0
  | .dec ds =>
      if 2 ^ 64 ≤ digitsValue 10 ds.1 then notGiven else UInt32.ofNat (digitsValue 10 ds.1)

/-- The numbers are decimal, and an offset that is not the last option has the value that stands for
no offset. -/
def Unreported (os : List OptionSpec) : Prop :=
  (∀ x ∈ os, x.num.isDec = true) ∧
    ∀ num, OptionSpec.offset num ∈ os.dropLast → num.number = notGiven

/-- The offset behind an option. -/
def OptionSpec.offsetAfter (off : UInt32) : OptionSpec → UInt32
  | .offset num => num.number
  | .size _ => off

/-- Nothing is reported, the offset being `off`. -/
def Clean : UInt32 → List OptionSpec → Prop
  | _, [] => True
  | off, x :: os => off = notGiven ∧ x.num.isDec = true ∧ Clean (x.offsetAfter off) os

theorem clean_iff (off : UInt32) (os : List OptionSpec) :
    Clean off os ↔ (os ≠ [] → off = notGiven) ∧ Unreported os := by
  induction os generalizing off with
  | nil => simp [Clean, Unreported]
  | cons x os ih =>
      rw [Clean, ih]
      unfold Unreported
      cases os with
      | nil => simp
      | cons y os =>
          rw [List.dropLast_cons_of_ne_nil (List.cons_ne_nil y os)]
          simp only [ne_eq, reduceCtorEq, not_false_eq_true, forall_const, List.mem_cons]
          constructor
          · rintro ⟨hoff, hdec, hafter, hall, hlast⟩
            refine ⟨hoff, ?_, ?_⟩
            · rintro z (rfl | hz)
              · exact hdec
              · exact hall z hz
            · rintro num (rfl | hnum)
              · exact hafter
              · exact hlast num hnum
          · rintro ⟨hoff, hall, hlast⟩
            refine ⟨hoff, hall x (Or.inl rfl), ?_, fun z hz => hall z (Or.inr hz),
              fun num hnum => hlast num (Or.inr hnum)⟩
            cases x with
            | offset num => exact hlast num (Or.inl rfl)
            | size num => exact hoff

section Numbers

variable (filename : FileName) (lineno : UInt32)

theorem strtoull_dec (ds : Digits 10) :
    (strtoull ds.1 10).rest = [] ∧
      UInt32.ofNat (strtoull ds.1 10).value.toNat = (Numeral.dec ds).number := by
  rcases ds with ⟨ds, hne, hdigits⟩
  have hstart : ∀ c, ds.head? = some c → isDigit 16 c = true := by
    intro c hc
    exact isDigit_mono (by omega) (hdigits c (List.mem_of_mem_head? hc))
  have hbase : strtoBase 10 ds = (10, ds ++ []) := by rw [List.append_nil, strtoBase_ten]
  rw [strtoull_digits hne hdigits (by simp) hstart hbase]
  refine ⟨rfl, ?_⟩
  rw [Numeral.number]
  by_cases hlarge : 2 ^ 64 ≤ digitsValue 10 ds
  · rw [if_pos hlarge, if_pos hlarge]
    show UInt32.ofNat (0xffffffffffffffff : UInt64).toNat = notGiven
    decide
  · rw [if_neg hlarge, if_neg hlarge, UInt64.toNat_ofNat_of_lt' (Nat.lt_of_not_le hlarge)]

theorem strtoull_hex (ds : Digits 16) :
    (strtoull ('0' :: 'x' :: ds.1) 10).rest = 'x' :: ds.1 := by
  refine congrArg Strto.rest
    (strtoull_digits (List.cons_ne_nil '0' []) (forall_mem_of_all (by decide)) ?_ ?_
      (strtoBase_ten _))
  · rintro c ⟨⟩
    decide
  · rintro c ⟨⟩
    decide

/-- **A number of an option**: one in hex is reported. -/
theorem parsePreprocDataNo_numeral (num : Numeral) (dataName : CStr) (s : Prs T) :
    (parsePreprocDataNo filename lineno num.text dataName s).1 = num.number ∧
      (num.isDec = true → (parsePreprocDataNo filename lineno num.text dataName s).2 =
        s.setErange (strtoull num.text 10)) ∧
      (num.isDec = false → (parsePreprocDataNo filename lineno num.text dataName s).2.result.errors =
        s.result.errors + 1) := by
  unfold parsePreprocDataNo
  dsimp only
  cases num with
  | hex ds =>
      have hrest := strtoull_hex ds
      rw [Numeral.text, if_neg (by rw [hrest]; simp)]
      refine ⟨rfl, fun h => Bool.noConfusion h, fun _ => ?_⟩
      rw [errors_error]
      rfl
  | dec ds =>
      rcases strtoull_dec ds with ⟨hrest, hnumber⟩
      rw [Numeral.text, if_pos (Or.inl hrest)]
      exact ⟨hnumber, fun _ => rfl, fun h => Bool.noConfusion h⟩

/-- What the loop does with an option. -/
def OptionSpec.read (x : OptionSpec) (o : DataOptions) (s : Prs T) : DataOptions × Prs T :=
  match x with
  | .offset num => offsetOption filename lineno num.text o s
  | .size num => sizeOption filename lineno num.text o s

/-- **An option is reported** if the offset is given or the number is not decimal. -/
theorem OptionSpec.read_spec (x : OptionSpec) (o : DataOptions) (s : Prs T) :
    (x.read filename lineno o s).1.offset = x.offsetAfter o.offset ∧
      s.result.errors ≤ (x.read filename lineno o s).2.result.errors ∧
      ((x.read filename lineno o s).2.result.errors = s.result.errors ↔
        o.offset = notGiven ∧ x.num.isDec = true) := by
  -- the errors of the number, behind those of a second option
  have hnumber : ∀ (num : Numeral) (message dataName : CStr) (p : Prs T),
      p = (if o.offset = notGiven then s else s.error filename lineno message) →
      s.result.errors ≤ (parsePreprocDataNo filename lineno num.text dataName p).2.result.errors ∧
        ((parsePreprocDataNo filename lineno num.text dataName p).2.result.errors =
            s.result.errors ↔ o.offset = notGiven ∧ num.isDec = true) := by
    rintro num message dataName p rfl
    rcases parsePreprocDataNo_numeral filename lineno num dataName
      (if o.offset = notGiven then s else s.error filename lineno message) with ⟨-, hdec, hhex⟩
    by_cases hgiven : o.offset = notGiven
    · rw [if_pos hgiven] at hdec hhex ⊢
      cases hnum : num.isDec with
      | true =>
          have herr : (s.setErange (strtoull num.text 10)).result.errors = s.result.errors := rfl
          rw [hdec hnum, herr]
          exact ⟨le_rfl, iff_of_true rfl ⟨hgiven, rfl⟩⟩
      | false =>
          rw [hhex hnum]
          exact ⟨Nat.le_succ _, iff_of_false (by omega) (fun h => Bool.noConfusion h.2)⟩
    · rw [if_neg hgiven] at hdec hhex ⊢
      have herr := errors_error s filename lineno message
      cases hnum : num.isDec with
      | true =>
          have hsame : ((s.error filename lineno message).setErange
              (strtoull num.text 10)).result.errors = s.result.errors + 1 := herr
          rw [hdec hnum, hsame]
          exact ⟨Nat.le_succ _, iff_of_false (by omega) (fun h => hgiven h.1)⟩
      | false =>
          rw [hhex hnum, herr]
          exact ⟨by omega, iff_of_false (by omega) (fun h => hgiven h.1)⟩
  cases x with
  | offset num =>
      have hspec := hnumber num "multiple offset definitions".toList "offset".toList _ rfl
      have hvalue := (parsePreprocDataNo_numeral filename lineno num "offset".toList
        (if o.offset = notGiven then s
          else s.error filename lineno "multiple offset definitions".toList)).1
      refine ⟨hvalue, ?_⟩
      unfold OptionSpec.read offsetOption
      dsimp only
      generalize parsePreprocDataNo filename lineno num.text "offset".toList _ = r at hspec ⊢
      split
      · rw [errors_warn]
        exact hspec
      · exact hspec
  | size num => exact ⟨rfl, hnumber num "multiple size definitions".toList "size".toList _ rfl⟩

theorem readOptions_text (inside : Bool) (x : OptionSpec) (ws : List CStr) (o : DataOptions)
    (s : Prs T) :
    readOptions filename lineno inside (x.text :: ws) o s =
      readOptions filename lineno inside ws (x.read filename lineno o s).1
        (x.read filename lineno o s).2 := by
  cases x with
  | offset num => rw [OptionSpec.text, readOptions]; rfl
  | size num => rw [OptionSpec.text, readOptions]; rfl

/-- **The loop over the options** reports nothing just when they are clean. The induction is on the
options. -/
theorem readOptions_clean (os : List OptionSpec) (o : DataOptions) (s : Prs T) :
    ∃ r, readOptions filename lineno true (os.map OptionSpec.text) o s = .ok r ∧
      s.result.errors ≤ r.2.result.errors ∧
      (r.2.result.errors = s.result.errors ↔ Clean o.offset os) := by
  induction os generalizing o s with
  | nil => exact ⟨(o, s), rfl, le_rfl, iff_of_true rfl trivial⟩
  | cons x os ih =>
      rcases x.read_spec filename lineno o s with ⟨hoffset, hle, hiff⟩
      rcases ih (x.read filename lineno o s).1 (x.read filename lineno o s).2
        with ⟨r, hr, hle', hiff'⟩
      rw [hoffset] at hiff'
      refine ⟨r, ?_, Nat.le_trans hle hle', ?_⟩
      · rw [List.map_cons, readOptions_text]
        exact hr
      · rw [Clean, ← and_assoc, ← hiff, ← hiff']
        omega

end Numbers

/-! ## The text of the options -/

theorem isTokenChar_digit {c : Char} (h : isDigit 16 c = true) : isTokenChar c = true := by
  have hnul : c ≠ nul := by
    rintro rfl
    exact absurd h (by decide)
  have hcomment : c ≠ ';' := by
    rintro rfl
    exact absurd h (by decide)
  simp [isTokenChar, hnul, (digit_start h).1, hcomment]

theorem OptionSpec.text_token (x : OptionSpec) : ∀ c ∈ x.text, isTokenChar c = true := by
  have hnumber : ∀ num : Numeral, ∀ c ∈ num.text, isTokenChar c = true := by
    intro num c hc
    cases num with
    | hex ds =>
        rcases List.mem_cons.1 hc with rfl | hc
        · decide
        · rcases List.mem_cons.1 hc with rfl | hc
          · decide
          · exact isTokenChar_digit (ds.2.2 c hc)
    | dec ds => exact isTokenChar_digit (isDigit_mono (by omega) (ds.2.2 c hc))
  intro c hc
  cases x with
  | offset num =>
      rcases List.mem_cons.1 hc with rfl | hc
      · decide
      · exact hnumber num c hc
  | size num =>
      rcases List.mem_cons.1 hc with rfl | hc
      · decide
      · exact hnumber num c hc

/-- **The tokens of a text of options** are the options. -/
theorem optionTokens_written {text : CStr} {os : List OptionSpec} (h : WrittenAs text os) :
    optionTokens [] text = (os.map OptionSpec.text, true) := by
  induction h with
  | @done blanks rest hblanks hrest =>
      rw [← optionTokens_blanks, List.dropWhile_append_of_pos hblanks]
      cases rest with
      | nil => rfl
      | cons c rest =>
          obtain rfl : c = ';' := by
            rcases hrest with hnil | hhead
            · cases hnil
            · exact Option.some.inj hhead
          rfl
  | @option blanks x c text os hblanks hc htext ih =>
      have hnot : isTokenChar c = false := by simp [isTokenChar, hc]
      have hspace : ∀ d ∈ x.text.head?, isspace d = false := by
        intro d hd
        have htoken := x.text_token d (List.mem_of_mem_head? hd)
        rw [isTokenChar] at htoken
        simp only [Bool.and_eq_true, Bool.not_eq_true'] at htoken
        exact htoken.2.1
      have hdrop : (x.text ++ c :: text).dropWhile isspace = x.text ++ c :: text := by
        cases x with
        | offset num => exact List.dropWhile_cons_of_neg (by decide)
        | size num => exact List.dropWhile_cons_of_neg (by decide)
      rw [← optionTokens_blanks, List.dropWhile_append_of_pos hblanks, hdrop, optionTokens_eq]
      have htake : tokenOf (x.text ++ c :: text) = x.text := by
        rw [tokenOf, hdrop, List.takeWhile_append_of_pos x.text_token,
          List.takeWhile_cons_of_neg (by simp [hnot]), List.append_nil]
      have hbehind : behindToken (x.text ++ c :: text) = c :: text := by
        rw [behindToken, hdrop, List.dropWhile_append_of_pos x.text_token,
          List.dropWhile_cons_of_neg (by simp [hnot])]
      have hne : x.text ≠ [] := by
        cases x with
        | offset num => exact List.cons_ne_nil _ _
        | size num => exact List.cons_ne_nil _ _
      rw [htake, if_neg hne, hbehind, textBehind, tokensFrom, ih]
      rfl

/-- **A directive with options**, on the line and on its text. -/
theorem IsDirectiveWith.reads {line data : CStr} {label : Option CStr} {os : List OptionSpec}
    (h : IsDirectiveWith line label data os) :
    ∃ head text, dataHead line = .ok (some head) ∧ head.next ≤ head.line.length ∧
      head.line.drop head.next = text ∧ 6 ≤ line.length ∧
      readSpec (line.drop 6) = some ⟨label, data, some text⟩ ∧
      optionTokens [] text = (os.map OptionSpec.text, true) := by
  rcases h with ⟨head, hhead, hlabel, hdata, hnext, hwritten⟩
  have hlen : 6 ≤ line.length := by
    by_contra hshort
    rw [dataHead_short hshort] at hhead
    cases hhead
  refine ⟨head, _, hhead, hnext, rfl, hlen, ?_, optionTokens_written hwritten⟩
  rcases dataHead_reads hlen with ⟨hnone, -⟩ |
    ⟨head', label', token, behind, hsome, hspec, hreads, -⟩
  · rw [hnone] at hhead
    cases hhead
  · obtain rfl : head = head' := by
      rw [hsome] at hhead
      cases hhead
      rfl
    have hlabel' := (hreads.label head.line rfl rfl).symm.trans hlabel
    have hdata' := (hreads.data head.line rfl rfl).symm.trans hdata
    rw [readSpec, hspec]
    rcases hreads.options with ⟨-, hoptions⟩ | ⟨hlt, -⟩
    · show some (readData label' token behind) = _
      cases hread : readData label' token behind with
      | mk l d text =>
          rw [hread] at hlabel' hdata' hoptions
          have hl : l = label := Except.ok.inj hlabel'
          have hd : d = data := Option.some.inj hdata'
          have ht : text = some (head.line.drop head.next) := hoptions
          rw [hl, hd, ht]
    · exact absurd hnext (Nat.not_le.2 hlt)

/-- What the loop over the options of a directive reports. -/
theorem optionErrors_iff {line data : CStr} {label : Option CStr} {os : List OptionSpec}
    (filename : FileName) (lineno : UInt32) (h : IsDirectiveWith line label data os) (s : Prs T) :
    ∃ errors, s.result.errors ≤ errors ∧ (errors = s.result.errors ↔ Unreported os) ∧
      ∀ reports : ℕ → ℕ → Prop,
        OptionErrors filename lineno line s reports ↔ reports s.result.errors errors := by
  rcases h.reads with ⟨head, text, hhead, hnext, htext, -, -, htokens⟩
  rcases readOptions_clean filename lineno os ⟨notGiven, notGiven⟩ s with ⟨r, hr, hle, hiff⟩
  rcases dataOptions_eq filename lineno (head.line.length + 1) hnext (by omega)
    ⟨notGiven, notGiven⟩ s with ⟨line', -, -, hrun⟩
  rw [htext, htokens, hr] at hrun
  rw [clean_iff] at hiff
  refine ⟨r.2.result.errors, hle, hiff.trans ⟨And.right, fun h => ⟨fun _ => rfl, h⟩⟩, ?_⟩
  intro reports
  constructor
  · intro hreports
    exact hreports head line' r.1 r.2 hhead hrun
  · intro hreports head' line'' o s' hhead' hrun'
    obtain rfl : head = head' := by
      rw [hhead] at hhead'
      cases hhead'
      rfl
    rw [hrun] at hrun'
    have hresult := Except.ok.inj hrun'
    have hs : r.2 = s' := congrArg (fun r => r.2.2) hresult
    rw [← hs]
    exact hreports

/-! ## When it is right -/

section Order

variable (env : PrsEnv) (filename : FileName) (lineno : UInt32) (includePaths : List CStr)

theorem offsetOption_clean {num : Numeral} (hdec : num.isDec = true)
    (hnumber : num.number = notGiven) {o : DataOptions} (ho : o.offset = notGiven) (s : Prs T) :
    offsetOption filename lineno num.text o s =
      ({ o with offset := notGiven }, s.setErange (strtoull num.text 10)) := by
  rcases parsePreprocDataNo_numeral filename lineno num "offset".toList s with ⟨hvalue, hstate, -⟩
  have hpair : parsePreprocDataNo filename lineno num.text "offset".toList s =
      (notGiven, s.setErange (strtoull num.text 10)) := by
    rw [← hstate hdec, ← hnumber, ← hvalue]
  unfold offsetOption
  dsimp only
  rw [if_pos ho, hpair]
  dsimp only
  rw [if_neg]
  -- no offset is larger
  rintro ⟨-, hlt⟩
  have hle := (s.setErange (strtoull num.text 10)).result.memsz.toNat_lt
  rw [UInt32.lt_iff_toNat_lt] at hlt
  change 4294967295 < _ at hlt
  omega

theorem sizeOption_clean {num : Numeral} (hdec : num.isDec = true) {o : DataOptions}
    (ho : o.offset = notGiven) (s : Prs T) :
    sizeOption filename lineno num.text o s =
      ({ o with size := num.number }, s.setErange (strtoull num.text 10)) := by
  rcases parsePreprocDataNo_numeral filename lineno num "size".toList s with ⟨hvalue, hstate, -⟩
  have hpair : parsePreprocDataNo filename lineno num.text "size".toList s =
      (num.number, s.setErange (strtoull num.text 10)) := by
    rw [← hstate hdec, ← hvalue]
  unfold sizeOption
  dsimp only
  rw [if_pos ho, hpair]

theorem setErange_comm (s : Prs T) (r r' : Strto) :
    (s.setErange r).setErange r' = (s.setErange r').setErange r := by
  unfold Prs.setErange
  dsimp only
  rw [Bool.or_assoc, Bool.or_comm r.erange, ← Bool.or_assoc]

/-- **An offset and a size that are not reported** are read alike in both orders. -/
theorem readOptions_swap {m n : Numeral} (h : Unreported [.offset m, .size n]) (s : Prs T) :
    readOptions filename lineno true ([.offset m, .size n].map OptionSpec.text)
        ⟨notGiven, notGiven⟩ s =
      readOptions filename lineno true ([.size n, .offset m].map OptionSpec.text)
        ⟨notGiven, notGiven⟩ s := by
  have hm : m.isDec = true := h.1 (.offset m) (by simp)
  have hn : n.isDec = true := h.1 (.size n) (by simp)
  have hnumber : m.number = notGiven := h.2 m (by simp)
  rw [List.map_cons, List.map_cons, List.map_nil, List.map_cons, List.map_cons, List.map_nil,
    readOptions_text, readOptions_text, readOptions_text, readOptions_text]
  unfold OptionSpec.read
  dsimp only
  rw [offsetOption_clean filename lineno hm hnumber rfl, sizeOption_clean filename lineno hn rfl,
    sizeOption_clean filename lineno hn rfl, offsetOption_clean filename lineno hm hnumber rfl,
    setErange_comm]

/-- What is reported about the options is right. -/
def OptionsRight (os : List OptionSpec) : Prop := AtMostOne os ↔ Unreported os

/-- **An offset and a size are taken in either order and each at most once, just when** what the
code looks at tells this: with at most one of each, the numbers are decimal and the offset comes
last or has the value that stands for no offset; with more, this is not so. -/
theorem optionOrder_iff {line data : CStr} {label : Option CStr} {os : List OptionSpec}
    (h : IsDirectiveWith line label data os) (s : Prs T) :
    OptionsLaw env filename lineno includePaths line label data os s ↔ OptionsRight os := by
  rcases optionErrors_iff filename lineno h s with ⟨errors, hle, herrors, hreports⟩
  constructor
  · rintro ⟨-, haccepted, hrepeated⟩
    refine ⟨fun hone => ?_, fun hclean => ?_⟩
    · exact herrors.1 ((hreports _).1 (haccepted hone))
    · by_contra hmore
      have hlt := (hreports _).1 (hrepeated hmore)
      rw [herrors.2 hclean] at hlt
      exact lt_irrefl _ hlt
  · intro hright
    refine ⟨?_, fun hone => ?_, fun hmore => ?_⟩
    · rintro m n rfl line' hline'
      have hclean := hright.1 ⟨le_refl 1, le_refl 1⟩
      rcases h.reads with ⟨-, text, -, -, -, hlen, hspec, htokens⟩
      rcases hline'.reads with ⟨-, text', -, -, -, hlen', hspec', htokens'⟩
      rw [parsePreprocData_eq env filename lineno hlen, hspec,
        parsePreprocData_eq env filename lineno hlen', hspec']
      unfold applySpec
      simp only [tokensFrom, htokens, htokens']
      rw [readOptions_swap filename lineno hclean]
    · exact (hreports _).2 (herrors.2 (hright.1 hone))
    · refine (hreports _).2 ?_
      exact lt_of_le_of_ne hle fun heq => hmore (hright.2 (herrors.1 heq.symm))

end Order

/-- `0`, as a decimal number. -/
def zeroNum : Numeral := .dec ⟨['0'], by decide, forall_mem_of_all (by decide)⟩

/-- `8`, as a decimal number. -/
def eightNum : Numeral := .dec ⟨['8'], by decide, forall_mem_of_all (by decide)⟩

/-- Two options behind the data `0x1`. -/
theorem isDirectiveWith_pair (x y : OptionSpec) {line : CStr} {h : DataHead}
    (hhead : dataHead line = .ok (some h)) (hlabel : dataLabel h.line h.label = .ok none)
    (hdata : strAt h.line h.data = some "0x1".toList) (hnext : h.next ≤ h.line.length)
    (htext : h.line.drop h.next = x.text ++ ' ' :: (y.text ++ ['\n'])) :
    IsDirectiveWith line none "0x1".toList [x, y] := by
  refine ⟨h, hhead, hlabel, hdata, hnext, ?_⟩
  have hend : WrittenAs ([] ++ []) [] := .done (by simp) (Or.inl rfl)
  have hsecond : WrittenAs ([] ++ (y.text ++ '\n' :: ([] ++ []))) [y] :=
    .option y (by simp) (by decide) hend
  have hfirst : WrittenAs ([] ++ (x.text ++ ' ' :: ([] ++ (y.text ++ '\n' :: ([] ++ []))))) [x, y] :=
    .option x (by simp) (by decide) hsecond
  rw [htext]
  exact hfirst

/-- A size and an offset behind it, which is not reported. -/
theorem optionOrder_iff_reversed :
    OptionsLaw noFiles ⟨0, []⟩ 1 [] "%data 0x1 /8 :0\n".toList none "0x1".toList
        [.size eightNum, .offset zeroNum] (initParse false : Prs stableTable) ↔
      OptionsRight [.size eightNum, .offset zeroNum] :=
  optionOrder_iff noFiles ⟨0, []⟩ 1 []
    (isDirectiveWith_pair _ _ rfl rfl rfl (by decide) rfl) (initParse false)

/-- In the documented order, a size behind an offset is reported as a second one. -/
theorem optionOrder_documented :
    ¬ OptionsLaw noFiles ⟨0, []⟩ 1 [] "%data 0x1 :0 /8\n".toList none "0x1".toList
        [.offset zeroNum, .size eightNum] (initParse false : Prs stableTable) := by
  intro hlaw
  have hline : IsDirectiveWith "%data 0x1 :0 /8\n".toList none "0x1".toList
      [.offset zeroNum, .size eightNum] :=
    isDirectiveWith_pair _ _ rfl rfl rfl (by decide) rfl
  rcases optionErrors_iff ⟨0, []⟩ 1 hline (initParse false : Prs stableTable)
    with ⟨errors, -, herrors, hreports⟩
  have hsame := (hreports _).1 (hlaw.accepted ⟨le_refl 1, le_refl 1⟩)
  exact absurd ((herrors.1 hsame).2 zeroNum (by simp)) (by decide)

end BvgzVm
