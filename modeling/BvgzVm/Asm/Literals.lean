import BvgzVm.Asm.DataTokens
import BvgzVm.Asm.Lookup

set_option autoImplicit false

/-! # String literals

Two functions scan a string literal. `parse_string_literal` looks for the closing quote and asks
whether the character before a quote is a backslash; `add_str_to_memory` decodes the literal with a
flag that it does not clear at every escaped character. Known escapes are decoded right
(`literal_iff`), and both functions end at the same quote where they agree which quotes are escaped
(`quote_iff`).
-/

namespace BvgzVm

open CLib Fallible Overlay

variable {T : InstnTable}

/-! ## Literals -/

/-- A character that stands for itself. -/
abbrev PlainChar := {c : Char // (0 < c.toNat ∧ c.toNat < 256) ∧ c ≠ '\\' ∧ c ≠ '"'}

/-- A character behind a backslash. -/
abbrev EscapedChar := {c : Char // 0 < c.toNat ∧ c.toNat < 256}

/-- The parts of a literal. -/
inductive LiteralItem
  | plain (c : PlainChar)
  | escape (c : EscapedChar)

/-- How a part is written. -/
def LiteralItem.text : LiteralItem → CStr
  | .plain c => [c.1]
  | .escape c => ['\\', c.1]

/-- The byte that a part stands for. -/
def LiteralItem.byte : LiteralItem → UInt8
  | .plain c => BvgzVm.byte c.1
  | .escape c => (escaped c.1).getD (BvgzVm.byte c.1)

@[simp] theorem LiteralItem.byte_escape (c : EscapedChar) :
    (LiteralItem.escape c).byte = (escaped c.1).getD (BvgzVm.byte c.1) := rfl

/-- The literal between its quotes. -/
def literalText (items : List LiteralItem) : CStr := items.flatMap LiteralItem.text

/-- The bytes of a literal, with the terminator. -/
def literalBytes (items : List LiteralItem) : List UInt8 := items.map LiteralItem.byte ++ [0]

/-- The character has a case in the `switch` of `add_str_to_memory`. -/
def IsKnownEscape (c : Char) : Prop := c = '\\' ∨ c = '"' ∨ (escaped c).isSome = true

/-- Only characters with a case in the `switch` are escaped. -/
def KnownEscapes (items : List LiteralItem) : Prop :=
  ∀ c : EscapedChar, LiteralItem.escape c ∈ items → IsKnownEscape c.1

theorem byte_toNat {c : Char} (h : c.toNat < 256) : (byte c).toNat = c.toNat :=
  UInt8.toNat_ofNat_of_lt' h

/-- The letters with an escape sequence are not its byte, and no such byte is a backslash, a quote
or the terminator. -/
theorem escaped_some {c : Char} {b : UInt8} (h : escaped c = some b) :
    c ≠ '\\' ∧ c ≠ '"' ∧ byte c ≠ b ∧ b ≠ byte '\\' ∧ b ≠ byte '"' := by
  unfold escaped at h
  split_ifs at h with ha hb hf hn hr ht hv
  all_goals
    cases h
    subst c
    decide

/-! ## Decoding -/

theorem strBytes_backslash (cs : CStr) : strBytes ('\\' :: cs) false = strBytes cs true := rfl

theorem strBytes_close (cs : CStr) : strBytes ('"' :: cs) false = (true, []) := rfl

/-- An escaped backslash or quote. -/
theorem strBytes_literal {c : Char} (h : c = '\\' ∨ c = '"') (cs : CStr) :
    strBytes (c :: cs) true = ((strBytes cs false).1, byte c :: (strBytes cs false).2) := by
  rw [strBytes, if_neg (by simp), if_neg (by simp), if_pos h]

/-- A letter with an escape sequence. -/
theorem strBytes_letter {c : Char} {b : UInt8} (h : escaped c = some b) (escapeChr : Bool)
    (cs : CStr) : strBytes (c :: cs) escapeChr =
      ((strBytes cs false).1, (if escapeChr then b else byte c) :: (strBytes cs false).2) := by
  rcases escaped_some h with ⟨hback, hquote, -⟩
  rw [strBytes, if_neg (by simp [hback]), if_neg (by simp [hquote]), if_neg (by simp [hback, hquote]),
    h]

/-- Another character, which leaves the flag as it is. -/
theorem strBytes_other {c : Char} (h : ¬ IsKnownEscape c) (escapeChr : Bool) (cs : CStr) :
    strBytes (c :: cs) escapeChr =
      ((strBytes cs escapeChr).1, byte c :: (strBytes cs escapeChr).2) := by
  unfold IsKnownEscape at h
  rw [not_or, not_or, Bool.not_eq_true, Option.isSome_eq_false_iff, Option.isNone_iff_eq_none] at h
  rw [strBytes, if_neg (by simp [h.1]), if_neg (by simp [h.2.1]), if_neg (by simp [h.1, h.2.1]),
    h.2.2]

/-- A character that stands for itself, while the flag is clear. -/
theorem strBytes_plain (c : PlainChar) (cs : CStr) :
    strBytes (c.1 :: cs) false = ((strBytes cs false).1, byte c.1 :: (strBytes cs false).2) := by
  cases hletter : escaped c.1 with
  | some b => rw [strBytes_letter hletter, if_neg Bool.false_ne_true]
  | none =>
      refine strBytes_other ?_ false cs
      rintro (h | h | h)
      · exact c.2.2.1 h
      · exact c.2.2.2 h
      · rw [hletter] at h
        cases h

/-- A known escape sequence, while the flag is clear. -/
theorem strBytes_escape {c : EscapedChar} (h : IsKnownEscape c.1) (cs : CStr) :
    strBytes ('\\' :: c.1 :: cs) false =
      ((strBytes cs false).1, (LiteralItem.escape c).byte :: (strBytes cs false).2) := by
  rw [strBytes_backslash, LiteralItem.byte_escape]
  cases hletter : escaped c.1 with
  | some b => exact strBytes_letter hletter true cs
  | none =>
      refine strBytes_literal ?_ cs
      rcases h with h | h | h
      · exact Or.inl h
      · exact Or.inr h
      · rw [hletter] at h
        cases h

/-- **Known escapes are decoded right**, up to the closing quote. -/
theorem strBytes_known {items : List LiteralItem} (h : KnownEscapes items) (rest : CStr) :
    strBytes (literalText items ++ '"' :: rest) false = (true, items.map LiteralItem.byte) := by
  induction items with
  | nil => exact strBytes_close rest
  | cons item items ih =>
      have hrest := ih fun c hc => h c (List.mem_cons_of_mem _ hc)
      rw [literalText, List.flatMap_cons, List.append_assoc, List.map_cons, ← literalText]
      cases item with
      | plain c =>
          show strBytes (c.1 :: (literalText items ++ '"' :: rest)) false = _
          rw [strBytes_plain, hrest]
          rfl
      | escape c =>
          show strBytes ('\\' :: c.1 :: (literalText items ++ '"' :: rest)) false = _
          rw [strBytes_escape (h c List.mem_cons_self), hrest]

/-- The decoded bytes have another byte than the literal somewhere. -/
def Differs (bytes literal : List UInt8) : Prop :=
  ∃ (i : ℕ) (b b' : UInt8), bytes[i]? = some b ∧ literal[i]? = some b' ∧ b ≠ b'

theorem Differs.head {b b' : UInt8} (h : b ≠ b') (bytes literal : List UInt8) :
    Differs (b :: bytes) (b' :: literal) := ⟨0, b, b', rfl, rfl, h⟩

theorem Differs.cons {bytes literal : List UInt8} (h : Differs bytes literal) (b b' : UInt8) :
    Differs (b :: bytes) (b' :: literal) := by
  rcases h with ⟨i, x, x', hx, hx', hne⟩
  exact ⟨i + 1, x, x', hx, hx', hne⟩

/-- **A flag that is left over** is not without effect: a letter is taken for its escape sequence,
a backslash for an escaped one, and so is the closing quote. -/
theorem strBytes_flagged (items : List LiteralItem) (rest : CStr) :
    Differs (strBytes (literalText items ++ '"' :: rest) true).2 (literalBytes items) := by
  induction items with
  | nil =>
      show Differs (strBytes ('"' :: rest) true).2 [0]
      rw [strBytes_literal (Or.inr rfl)]
      exact Differs.head (by decide) _ _
  | cons item items ih =>
      rw [literalText, List.flatMap_cons, List.append_assoc, ← literalText]
      show Differs _ (item.byte :: literalBytes items)
      cases item with
      | plain c =>
          show Differs (strBytes (c.1 :: (literalText items ++ '"' :: rest)) true).2 _
          cases hletter : escaped c.1 with
          | some b =>
              rw [strBytes_letter hletter]
              exact Differs.head (escaped_some hletter).2.2.1.symm _ _
          | none =>
              have hother : ¬ IsKnownEscape c.1 := by
                rintro (h | h | h)
                · exact c.2.2.1 h
                · exact c.2.2.2 h
                · rw [hletter] at h
                  cases h
              rw [strBytes_other hother]
              exact ih.cons _ _
      | escape c =>
          show Differs (strBytes ('\\' :: c.1 :: (literalText items ++ '"' :: rest)) true).2 _
          rw [strBytes_literal (Or.inl rfl)]
          by_cases hback : c.1 = '\\'
          · -- the second backslash sets the flag again
            rw [hback, strBytes_backslash]
            exact ih.cons _ _
          · refine Differs.head ?_ _ _
            rw [LiteralItem.byte_escape]
            cases hletter : escaped c.1 with
            | some b => exact (escaped_some hletter).2.2.2.1.symm
            | none =>
                intro heq
                refine hback (Char.toNat_inj.1 ?_)
                rw [← byte_toNat c.2.2]
                exact (congrArg UInt8.toNat heq).symm

/-- **An unknown escape** leaves the flag set, and the bytes differ from those of the literal. -/
theorem strBytes_unknown {items : List LiteralItem} (h : ¬ KnownEscapes items) (rest : CStr) :
    Differs (strBytes (literalText items ++ '"' :: rest) false).2 (literalBytes items) := by
  induction items with
  | nil => exact absurd (fun c hc => absurd hc List.not_mem_nil) h
  | cons item items ih =>
      rw [literalText, List.flatMap_cons, List.append_assoc, ← literalText]
      show Differs _ (item.byte :: literalBytes items)
      cases item with
      | plain c =>
          have hrest : ¬ KnownEscapes items := by
            intro hknown
            refine h fun c' hc => ?_
            rcases List.mem_cons.1 hc with heq | hmem
            · cases heq
            · exact hknown c' hmem
          show Differs (strBytes (c.1 :: (literalText items ++ '"' :: rest)) false).2 _
          rw [strBytes_plain]
          exact (ih hrest).cons _ _
      | escape c =>
          show Differs (strBytes ('\\' :: c.1 :: (literalText items ++ '"' :: rest)) false).2 _
          by_cases hc : IsKnownEscape c.1
          · have hrest : ¬ KnownEscapes items := by
              intro hknown
              refine h fun c' hc' => ?_
              rcases List.mem_cons.1 hc' with heq | hmem
              · cases heq
                exact hc
              · exact hknown c' hmem
            rw [strBytes_escape hc]
            exact (ih hrest).cons _ _
          · rw [strBytes_backslash, strBytes_other hc]
            exact (strBytes_flagged items rest).cons _ _

/-! ## What is stored -/

/-- The memory block has the size that is recorded, and the bytes in use are in it. -/
structure Prs.Allocated (s : Prs T) : Prop where
  length : s.result.memory.length = s.result.memAlloc.toNat
  inside : s.result.memsz ≤ s.result.memAlloc

theorem Prs.Allocated.drafted {s : Prs T} (h : s.Allocated) :
    Drafted s ⟨s.setData ⟨[], s.result.memsz, 0⟩, fun i => s.result.memory[i]?.getD 0⟩ :=
  ⟨rfl, h.length, h.inside, rfl, fun _ => rfl⟩

/-- The byte at an address of the memory area. -/
def Prs.byteAt (s : Prs T) (i : ℕ) : UInt8 := s.result.memory[i]?.getD 0

/-- The bytes of the literal are stored from `start` on. -/
def LiteralLaw (start : ℕ) (items : List LiteralItem) (s' : Prs T) : Prop :=
  ∀ (i : ℕ) (b : UInt8), (literalBytes items)[i]? = some b → s'.byteAt (start + i) = b

section Stored

variable {env : PrsEnv} {filename : FileName} {lineno size offset : UInt32} {label : Option CStr}
  {s s' : Prs T}

/-- What is decoded is stored, with a terminator. -/
theorem addStrToMemory_bytes (hs : s.Allocated) {str : CStr}
    (hrun : addStrToMemory env filename lineno label str size offset s = .ok s') {i : ℕ} {b : UInt8}
    (hb : ((strBytes str false).2 ++ [0])[i]? = some b) :
    s'.byteAt ((writeOffset offset s.result.toDataArea).toNat + i) = b := by
  rcases (addStrToMemory_drafts env filename lineno label size offset str hs.drafted).of_ok hrun
    with ⟨a', ha', hd'⟩
  rcases bind_eq_ok.1 ha' with ⟨m, hm, hok⟩
  have hcells : a'.image.cells = m.cells := by
    rw [← Except.ok.inj hok, (Draft.finish_spec ..).1, Image.resized]
    split
    · rfl
    · rfl
  have hplaced : m.cells = overlay s.byteAt (writeOffset offset s.result.toDataArea).toNat
      ((strBytes str false).2 ++ [0]) := by
    rw [writeOffset_eq offset hs.drafted.draws]
    unfold Image.place at hm
    rw [if_neg (by simp)] at hm
    split at hm
    · rw [← Except.ok.inj hm]
      rfl
    · cases hm
  show s'.result.toDataArea.memory[_]?.getD 0 = b
  rw [hd'.draws.cells, hcells, hplaced]
  refine overlay_inside (Nat.le_add_right _ i) ?_
  rw [Nat.add_sub_cancel_left, hb]

/-- **A string literal is stored as it is written just when** it has no escape sequence but those
of letters, backslashes and quotes. -/
theorem literal_iff (hs : s.Allocated) (items : List LiteralItem) (rest : CStr)
    (hrun : addStrToMemory env filename lineno label (literalText items ++ '"' :: rest) size offset
      s = .ok s') :
    LiteralLaw (writeOffset offset s.result.toDataArea).toNat items s' ↔ KnownEscapes items := by
  constructor
  · intro hlaw
    by_contra hunknown
    rcases strBytes_unknown hunknown rest with ⟨i, b, b', hb, hb', hne⟩
    refine hne ?_
    rw [← hlaw i b' hb', addStrToMemory_bytes hs hrun]
    rw [List.getElem?_append_left (List.getElem?_eq_some_iff.1 hb).1, hb]
  · intro hknown i b hb
    apply addStrToMemory_bytes hs hrun
    rw [strBytes_known hknown]
    exact hb

end Stored

theorem initParse_allocated (erange : Bool) : (initParse erange : Prs T).Allocated :=
  ⟨rfl, UInt32.le_refl 0⟩

/-- `a\n`, with the escape of a letter. -/
def knownItems : List LiteralItem := [.plain ⟨'a', by decide⟩, .escape ⟨'n', by decide⟩]

/-- `\qn`, with an escape that is not known. -/
def unknownItems : List LiteralItem := [.escape ⟨'q', by decide⟩, .plain ⟨'n', by decide⟩]

theorem literal_iff_known : ∃ s' : Prs stableTable,
    addStrToMemory noFiles ⟨0, []⟩ 1 none (literalText knownItems ++ '"' :: []) notGiven notGiven
      (initParse false) = .ok s' ∧ (LiteralLaw 0 knownItems s' ↔ KnownEscapes knownItems) := by
  have hrun : dataResult (addStrToMemory noFiles ⟨0, []⟩ 1 none
      (literalText knownItems ++ '"' :: []) notGiven notGiven (initParse false)) =
      some ([97, 10, 0], 0) := by decide +kernel
  rcases exists_of_dataResult hrun with ⟨s', hs', -, -⟩
  exact ⟨s', hs', literal_iff (initParse_allocated false) knownItems [] hs'⟩

/-- The `n` behind an unknown escape is stored as a newline. -/
theorem literal_unknown : ∃ s' : Prs stableTable,
    addStrToMemory noFiles ⟨0, []⟩ 1 none "\\qn\"".toList notGiven notGiven (initParse false) =
        .ok s' ∧
      literalText unknownItems ++ ['"'] = "\\qn\"".toList ∧ ¬ LiteralLaw 0 unknownItems s' := by
  have hrun : dataResult (addStrToMemory noFiles ⟨0, []⟩ 1 none "\\qn\"".toList notGiven notGiven
      (initParse false)) = some ([113, 10, 0], 0) := by decide +kernel
  rcases exists_of_dataResult hrun with ⟨s', hs', -, -⟩
  refine ⟨s', hs', rfl, fun hlaw => ?_⟩
  have hbyte := hlaw 1 110 (by decide)
  have hstored := addStrToMemory_bytes (initParse_allocated false) hs' (i := 1) (b := 10) (by decide)
  exact absurd (hbyte.symm.trans hstored) (by decide)

/-! ## The closing quote -/

/-- The first quote that is not escaped, for a scanner with the state `σ`. -/
def firstQuote {σ : Type} (step : σ → Char → σ) (isEscaped : σ → Bool) : σ → CStr → Option ℕ
  | _, [] => none
  | st, c :: cs =>
      if c = '"' ∧ isEscaped st = false then some 0
      else (firstQuote step isEscaped (step st c) cs).map (· + 1)

section FirstQuote

variable {σ : Type} {step : σ → Char → σ} {isEscaped : σ → Bool}

theorem firstQuote_eq_some {st : σ} {cs : CStr} {i : ℕ} :
    firstQuote step isEscaped st cs = some i ↔
      (cs[i]? = some '"' ∧ isEscaped ((cs.take i).foldl step st) = false) ∧
        ∀ j < i, cs[j]? = some '"' → isEscaped ((cs.take j).foldl step st) = true := by
  induction cs generalizing st i with
  | nil => simp [firstQuote]
  | cons c cs ih =>
      rw [firstQuote]
      by_cases hc : c = '"' ∧ isEscaped st = false
      · rw [if_pos hc]
        constructor
        · rintro ⟨⟩
          exact ⟨⟨congrArg some hc.1, hc.2⟩, fun j hj => absurd hj (Nat.not_lt_zero j)⟩
        · rintro ⟨-, hbefore⟩
          cases i with
          | zero => rfl
          | succ i =>
              have htrue := hbefore 0 (Nat.succ_pos i) (congrArg some hc.1)
              rw [List.take_zero, List.foldl_nil, hc.2] at htrue
              cases htrue
      · rw [if_neg hc]
        cases i with
        | zero =>
            refine iff_of_false (by simp) ?_
            rintro ⟨⟨hquote, hopen⟩, -⟩
            exact hc ⟨Option.some.inj hquote, hopen⟩
        | succ i =>
            have hinj : (firstQuote step isEscaped (step st c) cs).map (· + 1) = some (i + 1) ↔
                firstQuote step isEscaped (step st c) cs = some i := by
              simp
            rw [hinj, ih]
            refine and_congr Iff.rfl ?_
            constructor
            · intro h j hj hquote
              cases j with
              | zero =>
                  refine Bool.eq_true_of_not_eq_false fun hopen => hc ⟨?_, hopen⟩
                  exact Option.some.inj hquote
              | succ j => exact h j (Nat.lt_of_succ_lt_succ hj) hquote
            · intro h j hj hquote
              exact h (j + 1) (Nat.succ_lt_succ hj) hquote

theorem firstQuote_eq_none {st : σ} {cs : CStr} :
    firstQuote step isEscaped st cs = none ↔
      ∀ j, cs[j]? = some '"' → isEscaped ((cs.take j).foldl step st) = true := by
  induction cs generalizing st with
  | nil => simp [firstQuote]
  | cons c cs ih =>
      rw [firstQuote]
      by_cases hc : c = '"' ∧ isEscaped st = false
      · rw [if_pos hc]
        refine iff_of_false (by simp) fun h => ?_
        have htrue := h 0 (congrArg some hc.1)
        rw [List.take_zero, List.foldl_nil, hc.2] at htrue
        cases htrue
      · rw [if_neg hc, Option.map_eq_none_iff, ih]
        constructor
        · intro h j hquote
          cases j with
          | zero =>
              refine Bool.eq_true_of_not_eq_false fun hopen => hc ⟨?_, hopen⟩
              exact Option.some.inj hquote
          | succ j => exact h j hquote
        · intro h j hquote
          exact h (j + 1) hquote

/-- A quote that is found is found in the start of the text that it ends. -/
theorem firstQuote_take {st : σ} {cs : CStr} {q n : ℕ} (hn : q < n) :
    firstQuote step isEscaped st (cs.take n) = some q ↔ firstQuote step isEscaped st cs = some q := by
  have htake : ∀ j, j ≤ q → (cs.take n)[j]? = cs[j]? ∧ (cs.take n).take j = cs.take j := by
    intro j hj
    refine ⟨List.getElem?_take_of_lt (by omega), ?_⟩
    rw [List.take_take, Nat.min_eq_left (by omega)]
  rw [firstQuote_eq_some, firstQuote_eq_some, (htake q le_rfl).1, (htake q le_rfl).2]
  refine and_congr Iff.rfl (forall_congr' fun j => imp_congr_right fun hj => ?_)
  rw [(htake j (Nat.le_of_lt hj)).1, (htake j (Nat.le_of_lt hj)).2]

/-- **Two scanners find the same quote** just when they agree about each quote that the second one
comes to. -/
theorem firstQuote_eq_iff {τ : Type} {step' : τ → Char → τ} {isEscaped' : τ → Bool} {st : σ}
    {st' : τ} {cs : CStr} :
    firstQuote step isEscaped st cs = firstQuote step' isEscaped' st' cs ↔
      ∀ j, cs[j]? = some '"' →
        (∀ i < j, cs[i]? = some '"' → isEscaped' ((cs.take i).foldl step' st') = true) →
        isEscaped ((cs.take j).foldl step st) = isEscaped' ((cs.take j).foldl step' st') := by
  cases hfound : firstQuote step' isEscaped' st' cs with
  | none =>
      have hescaped := firstQuote_eq_none.1 hfound
      rw [firstQuote_eq_none]
      refine forall_congr' fun j => imp_congr_right fun hquote => ?_
      rw [hescaped j hquote]
      exact ⟨fun h _ => h, fun h => h fun i _ hi => hescaped i hi⟩
  | some q =>
      rcases firstQuote_eq_some.1 hfound with ⟨⟨hq, hopen⟩, hescaped⟩
      rw [firstQuote_eq_some]
      constructor
      · rintro ⟨⟨-, hopen'⟩, hescaped'⟩ j hquote hbefore
        rcases Nat.lt_trichotomy j q with hless | rfl | hgreater
        · rw [hescaped j hless hquote, hescaped' j hless hquote]
        · rw [hopen, hopen']
        · have htrue := hbefore q hgreater hq
          rw [hopen] at htrue
          cases htrue
      · intro hagree
        refine ⟨⟨hq, (hagree q hq hescaped).trans hopen⟩, ?_⟩
        intro j hless hquote
        refine (hagree j hquote fun i hi => ?_).trans (hescaped j hless hquote)
        exact hescaped i (Nat.lt_trans hi hless)

end FirstQuote

/-- Where `add_str_to_memory` stops decoding: the control flow of its loop. -/
def decodeStop : Bool → CStr → Option ℕ
  | _, [] => none
  | escapeChr, c :: cs =>
      if c = '\\' ∧ escapeChr = false then (decodeStop true cs).map (· + 1)
      else if c = '"' ∧ escapeChr = false then some 0
      else if c = '\\' ∨ c = '"' then (decodeStop false cs).map (· + 1)
      else match escaped c with
        | some _ => (decodeStop false cs).map (· + 1)
        | none => (decodeStop escapeChr cs).map (· + 1)

/-- The loop reports that it stops where `decodeStop` says. -/
theorem writeStr_stop {block w w' : UInt32} {d d' : DataArea} {cs : CStr} {escapeChr stop : Bool}
    (h : writeStr block cs escapeChr w d = .ok (stop, w', d')) :
    stop = (decodeStop escapeChr cs).isSome := by
  induction cs generalizing escapeChr w d with
  | nil =>
      rw [writeStr] at h
      cases h
      rfl
  | cons c cs ih =>
      rw [writeStr] at h
      rw [decodeStop]
      by_cases hset : c = '\\' ∧ escapeChr = false
      · rw [if_pos hset] at h ⊢
        rw [ih h, Option.isSome_map]
      · rw [if_neg hset] at h ⊢
        by_cases hstop : c = '"' ∧ escapeChr = false
        · rw [if_pos hstop] at h ⊢
          cases h
          rfl
        · rw [if_neg hstop] at h ⊢
          by_cases hlit : c = '\\' ∨ c = '"'
          · rw [if_pos hlit] at h ⊢
            rcases bind_eq_ok.1 h with ⟨d₁, -, h⟩
            rw [ih h, Option.isSome_map]
          · rw [if_neg hlit] at h ⊢
            cases hletter : escaped c with
            | some b =>
                rw [hletter] at h
                rcases bind_eq_ok.1 h with ⟨d₁, -, h⟩
                rw [ih h, Option.isSome_map]
            | none =>
                rw [hletter] at h
                rcases bind_eq_ok.1 h with ⟨d₁, -, h⟩
                rw [ih h, Option.isSome_map]

/-- Nothing behind this character is decoded. -/
theorem writeStr_take {block w : UInt32} {d : DataArea} {cs : CStr} {escapeChr : Bool} {q : ℕ}
    (h : decodeStop escapeChr cs = some q) :
    writeStr block cs escapeChr w d = writeStr block (cs.take (q + 1)) escapeChr w d := by
  induction cs generalizing escapeChr w d q with
  | nil => cases h
  | cons c cs ih =>
      rw [decodeStop] at h
      rw [List.take_succ_cons, writeStr, writeStr]
      by_cases hset : c = '\\' ∧ escapeChr = false
      · rw [if_pos hset] at h
        rw [if_pos hset, if_pos hset]
        rcases Option.map_eq_some_iff.1 h with ⟨q', hq', rfl⟩
        exact ih hq'
      · rw [if_neg hset] at h
        rw [if_neg hset, if_neg hset]
        by_cases hstop : c = '"' ∧ escapeChr = false
        · rw [if_pos hstop, if_pos hstop]
        · rw [if_neg hstop] at h
          rw [if_neg hstop, if_neg hstop]
          by_cases hlit : c = '\\' ∨ c = '"'
          · rw [if_pos hlit] at h
            rw [if_pos hlit, if_pos hlit]
            rcases Option.map_eq_some_iff.1 h with ⟨q', hq', rfl⟩
            exact congrArg _ (funext fun d₁ => ih hq')
          · rw [if_neg hlit] at h
            rw [if_neg hlit, if_neg hlit]
            cases hletter : escaped c with
            | some b =>
                rw [hletter] at h
                rcases Option.map_eq_some_iff.1 h with ⟨q', hq', rfl⟩
                exact congrArg _ (funext fun d₁ => ih hq')
            | none =>
                rw [hletter] at h
                rcases Option.map_eq_some_iff.1 h with ⟨q', hq', rfl⟩
                exact congrArg _ (funext fun d₁ => ih hq')

/-- The characters at which the flag is cleared, whatever it is. -/
def clearsFlag (c : Char) : Bool := c = '"' || (escaped c).isSome

/-- The flag of `add_str_to_memory` behind a character that does not end the literal. -/
def flagStep (escapeChr : Bool) (c : Char) : Bool :=
  if c = '\\' then !escapeChr else if clearsFlag c then false else escapeChr

theorem decodeStop_eq (escapeChr : Bool) (cs : CStr) :
    decodeStop escapeChr cs = firstQuote flagStep id escapeChr cs := by
  induction cs generalizing escapeChr with
  | nil => rfl
  | cons c cs ih =>
      rw [decodeStop, firstQuote, flagStep, clearsFlag]
      by_cases hback : c = '\\'
      · subst hback
        cases escapeChr with
        | false => simp [ih]
        | true => simp [ih]
      · by_cases hquote : c = '"'
        · subst hquote
          cases escapeChr with
          | false => simp
          | true => simp [ih]
        · cases hletter : escaped c with
          | some b => simp [hback, hquote, ih]
          | none => simp [hback, hquote, ih]

/-- The closing quote for `parse_string_literal`: the first one that is not behind a backslash. -/
def closingQuote (text : CStr) : Option ℕ := firstQuote (fun _ c => c) (· = '\\') nul text

/-- `parse_string_literal` stops behind this quote, or at the end of the line. -/
theorem stringLiteralEnd_eq (prev : Char) (text : CStr) :
    stringLiteralEnd prev text =
      match firstQuote (fun _ c => c) (· = '\\') prev (text.takeWhile (· ≠ nul)) with
      | some q => q + 1
      | none => (text.takeWhile (· ≠ nul)).length := by
  induction text generalizing prev with
  | nil => rfl
  | cons c text ih =>
      rw [stringLiteralEnd]
      by_cases hnul : c = nul
      · rw [if_pos hnul, List.takeWhile_cons_of_neg (by simp [hnul])]
        rfl
      · rw [if_neg hnul, List.takeWhile_cons_of_pos (by simpa using hnul), firstQuote]
        by_cases hclose : c = '"' ∧ prev ≠ '\\'
        · rw [if_pos hclose, if_pos ⟨hclose.1, by simpa using hclose.2⟩]
        · rw [if_neg hclose, if_neg (by simpa using hclose), ih]
          cases firstQuote (fun _ c => c) (· = '\\') c (text.takeWhile (· ≠ nul)) with
          | none => rfl
          | some q => rfl

/-- The backslashes behind the last character that clears the flag. -/
def pendingBackslashes (text : CStr) : ℕ :=
  (text.reverse.takeWhile (fun c => !clearsFlag c)).count '\\'

theorem pendingBackslashes_concat (text : CStr) (c : Char) :
    pendingBackslashes (text ++ [c]) =
      if clearsFlag c then 0 else pendingBackslashes text + if c = '\\' then 1 else 0 := by
  unfold pendingBackslashes
  rw [List.reverse_append, List.reverse_singleton, List.singleton_append, List.takeWhile_cons]
  by_cases hc : clearsFlag c = true
  · simp [hc]
  · simp [hc, List.count_cons]

/-- **The flag** is set behind an odd number of them. -/
theorem flag_iff (text : CStr) :
    text.foldl flagStep false = true ↔ Odd (pendingBackslashes text) := by
  induction text using List.reverseRecOn with
  | nil => simp [pendingBackslashes]
  | append_singleton text c ih =>
      rw [List.foldl_append, List.foldl_cons, List.foldl_nil, pendingBackslashes_concat, flagStep]
      by_cases hback : c = '\\'
      · have hclear : clearsFlag c = false := by
          rw [hback]
          decide
        rw [if_pos hback, if_neg (by simp [hclear]), if_pos hback, Nat.odd_add_one, ← ih]
        simp
      · rw [if_neg hback, if_neg hback, Nat.add_zero]
        by_cases hclear : clearsFlag c = true
        · rw [if_pos hclear, if_pos hclear]
          simp
        · rw [if_neg hclear, if_neg hclear]
          exact ih

theorem foldl_last (text : CStr) (prev : Char) :
    text.foldl (fun _ c => c) prev = text.getLast?.getD prev := by
  induction text using List.reverseRecOn with
  | nil => rfl
  | append_singleton text c ih => simp

/-- What follows the opening quote in the line. -/
def literalTail (line : CStr) (h : DataHead) : CStr := (line.drop (h.data + 1)).takeWhile (· ≠ nul)

/-- What `parse_preproc_data` hands to `add_str_to_memory` is decoded up to the closing quote that
`parse_string_literal` finds, and the options that are written behind this quote are read. -/
structure QuoteLaw (line : CStr) (h : DataHead) (str : CStr) : Prop where
  decoded : ∀ (T : InstnTable) (filename : FileName) (lineno : UInt32) (s s' : Prs T)
    (line' : CStr) (o : DataOptions),
    dataOptions filename lineno (h.line.length + 1) h.next h.line ⟨notGiven, notGiven⟩ s =
      .ok (line', o, s') → strAt line' h.data = some ('"' :: str)
  stop : decodeStop false str = closingQuote (literalTail line h)
  next : ∀ q, closingQuote (literalTail line h) = some q → h.next = h.data + 1 + (q + 1) + 1
  options : ∀ q, closingQuote (literalTail line h) = some q →
    (optionTokens [] (line.drop (h.data + 1 + (q + 1)))).1 ≠ [] →
      h.tokens = optionTokens [] (line.drop (h.data + 1 + (q + 1)))

/-- Each quote up to the first one that is not behind a backslash is behind a backslash just when
an odd number of backslashes comes before it. -/
def QuotesAgree (text : CStr) : Prop :=
  ∀ j, text[j]? = some '"' →
    (∀ i < j, text[i]? = some '"' → (text.take i).getLast? = some '\\') →
    ((text.take j).getLast? = some '\\' ↔ Odd (pendingBackslashes (text.take j)))

/-- The first quote that is not behind a backslash is not in front of a token. -/
def OptionsApart (text : CStr) : Prop :=
  ∀ j c, text[j]? = some '"' → (text.take j).getLast? ≠ some '\\' →
    (∀ i < j, text[i]? = some '"' → (text.take i).getLast? = some '\\') →
    text[j + 1]? = some c → isTokenChar c = false

theorem last_iff (text : CStr) :
    decide (text.foldl (fun _ c => c) nul = '\\') = true ↔ text.getLast? = some '\\' := by
  rw [foldl_last, decide_eq_true_eq]
  cases text.getLast? with
  | none => exact iff_of_false (by decide) (by simp)
  | some c => simp

theorem closingQuote_eq_some {text : CStr} {q : ℕ} :
    closingQuote text = some q ↔
      (text[q]? = some '"' ∧ (text.take q).getLast? ≠ some '\\') ∧
        ∀ j < q, text[j]? = some '"' → (text.take j).getLast? = some '\\' := by
  rw [closingQuote, firstQuote_eq_some]
  simp only [last_iff, Ne, ← Bool.not_eq_true]

/-- The terminator is in no token. -/
theorem isTokenChar_takeWhile {text : CStr} {n : ℕ}
    (h : n ≤ (text.takeWhile (· ≠ nul)).length) :
    (∀ c, text[n]? = some c → isTokenChar c = false) ↔
      ∀ c, (text.takeWhile (· ≠ nul))[n]? = some c → isTokenChar c = false := by
  have hsplit : text[n]? = (text.takeWhile (· ≠ nul) ++ text.dropWhile (· ≠ nul))[n]? := by
    rw [List.takeWhile_append_dropWhile]
  rcases Nat.lt_or_eq_of_le h with hlt | heq
  · rw [hsplit, List.getElem?_append_left hlt]
  · rw [hsplit, List.getElem?_append_right (Nat.le_of_eq heq.symm), heq, Nat.sub_self,
      ← List.head?_eq_getElem?]
    refine iff_of_true (fun c hc => ?_) (by simp)
    have hnot := List.head?_dropWhile_not (fun c : Char => decide (c ≠ nul)) text
    rw [hc] at hnot
    obtain rfl : c = nul := by simpa using hnot
    decide

/-- **The two scanners of a text** find the same quote just when they agree about its quotes. -/
theorem decodeStop_iff (text : CStr) :
    decodeStop false text = closingQuote text ↔ QuotesAgree text := by
  rw [decodeStop_eq, closingQuote, firstQuote_eq_iff]
  refine forall_congr' fun j => imp_congr_right fun _ => ?_
  simp only [last_iff]
  refine imp_congr_right fun _ => ?_
  rw [Bool.eq_iff_iff, last_iff, id, flag_iff]
  exact ⟨Iff.symm, Iff.symm⟩

/-- The part of a text that `parse_string_literal` goes over is decoded like the whole. -/
theorem decodeStop_part (text : CStr) :
    decodeStop false (text.take (stringLiteralEnd nul text)) =
        closingQuote (text.takeWhile (· ≠ nul)) ↔
      decodeStop false (text.takeWhile (· ≠ nul)) = closingQuote (text.takeWhile (· ≠ nul)) := by
  have hprefix : ∀ n, n ≤ (text.takeWhile (· ≠ nul)).length →
      text.take n = (text.takeWhile (· ≠ nul)).take n := by
    intro n hn
    nth_rewrite 1 [← List.takeWhile_append_dropWhile (p := (· ≠ nul)) (l := text)]
    exact List.take_append_of_le_length hn
  rw [stringLiteralEnd_eq]
  cases hfound : closingQuote (text.takeWhile (· ≠ nul)) with
  | none =>
      rw [closingQuote] at hfound
      rw [hfound, hprefix _ le_rfl, List.take_length]
  | some q =>
      rw [closingQuote] at hfound
      have hq : q + 1 ≤ (text.takeWhile (· ≠ nul)).length := by
        have hquote := (firstQuote_eq_some.1 hfound).1.1
        exact (List.getElem?_eq_some_iff.1 hquote).1
      rw [hfound, hprefix _ hq, decodeStop_eq, decodeStop_eq, firstQuote_take (Nat.lt_succ_self q)]

/-- What is stored behind the head of a directive leaves its data alone. -/
theorem DataHead.Reads.strAt_options {h : DataHead} {spec : DataSpec} (hreads : h.Reads spec)
    {filename : FileName} {lineno : UInt32} {s s' : Prs T} {line' : CStr} {o : DataOptions}
    (hrun : dataOptions filename lineno (h.line.length + 1) h.next h.line ⟨notGiven, notGiven⟩ s =
      .ok (line', o, s')) : strAt line' h.data = some spec.data := by
  rcases hreads.options with ⟨hle, -⟩ | ⟨hlt, -⟩
  · rcases dataOptions_eq filename lineno (h.line.length + 1) hle (by omega)
        ⟨notGiven, notGiven⟩ s with ⟨line'', hlength, htake, heq⟩
    rw [hrun] at heq
    cases hread : readOptions filename lineno (optionTokens [] (h.line.drop h.next)).2
        (optionTokens [] (h.line.drop h.next)).1 ⟨notGiven, notGiven⟩ s with
    | error e =>
        rw [hread] at heq
        cases heq
    | ok r =>
        rw [hread] at heq
        obtain rfl : line' = line'' := congrArg Prod.fst (Except.ok.inj heq)
        exact hreads.data line' hlength htake
  · rw [dataOptions_outside hlt] at hrun
    cases hrun

/-- The text behind the opening quote, up to the end that `parse_string_literal` finds, is the data
of a directive, and the options are what comes behind. -/
structure IsLiteral (line str : CStr) (h : DataHead) : Prop where
  text : str = (line.drop (h.data + 1)).take (stringLiteralEnd nul (line.drop (h.data + 1)))
  next : h.next = h.data + 1 + stringLiteralEnd nul (line.drop (h.data + 1)) + 1
  tokens : h.tokens = tokensFrom (textBehind
    ((line.drop (h.data + 1)).drop (stringLiteralEnd nul (line.drop (h.data + 1)))))
  decoded : ∀ (T : InstnTable) (filename : FileName) (lineno : UInt32) (s s' : Prs T)
    (line' : CStr) (o : DataOptions),
    dataOptions filename lineno (h.line.length + 1) h.next h.line ⟨notGiven, notGiven⟩ s =
      .ok (line', o, s') → strAt line' h.data = some ('"' :: str)

theorem isLiteral_of {line str : CStr} {h : DataHead} (hhead : dataHead line = .ok (some h))
    (hdata : strAt h.line h.data = some ('"' :: str)) : IsLiteral line str h := by
  have hlen : 6 ≤ line.length := by
    by_contra hshort
    rw [dataHead_short hshort] at hhead
    cases hhead
  rcases dataHead_reads hlen with ⟨hnone, -⟩ | ⟨h', label, token, behind, hsome, -, hreads, hfinds⟩
  · rw [hnone] at hhead
    cases hhead
  obtain rfl : h = h' := by
    rw [hsome] at hhead
    cases hhead
    rfl
  have hspec : (readData label token behind).data = '"' :: str :=
    Option.some.inj ((hreads.data h.line rfl rfl).symm.trans hdata)
  have htoken : token.headD nul = '"' := by
    by_contra hother
    rw [readData, if_neg hother] at hspec
    rw [show token = '"' :: str from hspec] at hother
    exact hother rfl
  have htail : line.drop (h.data + 1) = token.drop 1 ++ behind := by
    rw [← List.drop_drop, hfinds.text]
    cases token with
    | nil => exact absurd htoken (by decide)
    | cons c w => rfl
  have hread : readData label token behind = ⟨label, '"' :: (line.drop (h.data + 1)).take
      (stringLiteralEnd nul (line.drop (h.data + 1))), textBehind ((line.drop (h.data + 1)).drop
      (stringLiteralEnd nul (line.drop (h.data + 1))))⟩ := by
    rw [readData, if_pos htoken, htail]
  refine ⟨?_, hfinds.next htoken, ?_, ?_⟩
  · rw [hread] at hspec
    exact (List.cons.inj hspec).2.symm
  · rw [hreads.tokens_eq, hread]
  · intro T filename lineno s s' line' o hrun
    rw [hreads.strAt_options hrun, hspec]

/-- `parse_string_literal` stops behind the closing quote. -/
theorem stringLiteralEnd_of_closing {text : CStr} {q : ℕ}
    (h : closingQuote (text.takeWhile (· ≠ nul)) = some q) : stringLiteralEnd nul text = q + 1 := by
  rw [closingQuote] at h
  rw [stringLiteralEnd_eq, h]

/-- The character behind the quote is in no token of the line just when it is in none of the text of
the literal. -/
theorem apart_iff {line : CStr} {h : DataHead} {q : ℕ}
    (hq : closingQuote (literalTail line h) = some q) :
    (∀ c, (line.drop (h.data + 1 + (q + 1))).head? = some c → isTokenChar c = false) ↔
      ∀ c, (literalTail line h)[q + 1]? = some c → isTokenChar c = false := by
  have hat := (closingQuote_eq_some.1 hq).1.1
  rw [literalTail, ← isTokenChar_takeWhile (List.getElem?_eq_some_iff.1 hat).1,
    List.head?_drop, List.getElem?_drop]

/-- The options of a text are read behind its first character, just when that is in no token. -/
theorem tokensFrom_iff (text : CStr) :
    ((optionTokens [] text).1 ≠ [] → tokensFrom (textBehind text) = optionTokens [] text) ↔
      ∀ c, text.head? = some c → isTokenChar c = false := by
  by_cases hwritten : (optionTokens [] text).1 = []
  · refine iff_of_true (fun hne => absurd hwritten hne) ?_
    intro c hc
    by_contra htoken
    cases text with
    | nil => cases hc
    | cons d rest =>
        obtain rfl : d = c := Option.some.inj hc
        exact optionTokens_ne_nil (Bool.eq_true_of_not_eq_false htoken) rest hwritten
  · rw [← tokensFrom_textBehind hwritten]
    exact ⟨fun h => h hwritten, fun h _ => h⟩

/-- **The closing quote is the same for both functions, and options behind it are read, just when**
they agree which quotes are escaped and the options are apart from the literal. -/
theorem quote_iff {line str : CStr} {h : DataHead} (hhead : dataHead line = .ok (some h))
    (hdata : strAt h.line h.data = some ('"' :: str)) :
    QuoteLaw line h str ↔
      QuotesAgree (literalTail line h) ∧ OptionsApart (literalTail line h) := by
  have hliteral := isLiteral_of hhead hdata
  have hstop : decodeStop false str = closingQuote (literalTail line h) ↔
      QuotesAgree (literalTail line h) := by
    rw [hliteral.text, literalTail, decodeStop_part, decodeStop_iff]
  have hend : ∀ q, closingQuote (literalTail line h) = some q →
      stringLiteralEnd nul (line.drop (h.data + 1)) = q + 1 :=
    fun q hq => stringLiteralEnd_of_closing hq
  have htokens : ∀ q, closingQuote (literalTail line h) = some q →
      h.tokens = tokensFrom (textBehind (line.drop (h.data + 1 + (q + 1)))) := by
    intro q hq
    rw [hliteral.tokens, hend q hq, List.drop_drop]
  constructor
  · intro hlaw
    refine ⟨hstop.1 hlaw.stop, fun q c hat hopen hbefore hc => ?_⟩
    have hq := closingQuote_eq_some.2 ⟨⟨hat, hopen⟩, hbefore⟩
    refine (apart_iff hq).1 ((tokensFrom_iff _).1 fun hne => ?_) c hc
    rw [← htokens q hq, hlaw.options q hq hne]
  · rintro ⟨hagree, hapart⟩
    refine ⟨hliteral.decoded, hstop.2 hagree, ?_, ?_⟩
    · intro q hq
      rw [hliteral.next, hend q hq]
    · intro q hq hne
      rw [htokens q hq]
      refine (tokensFrom_iff _).2 ((apart_iff hq).2 fun c hc => ?_) hne
      rcases closingQuote_eq_some.1 hq with ⟨⟨hat, hopen⟩, hbefore⟩
      exact hapart q c hat hopen hbefore hc

/-- A literal without backslashes, with an offset behind it. -/
theorem quote_iff_plain : ∃ h : DataHead, dataHead "%data \"a\" :5\n".toList = .ok (some h) ∧
    (QuoteLaw "%data \"a\" :5\n".toList h "a\"".toList ↔
      QuotesAgree (literalTail "%data \"a\" :5\n".toList h) ∧
        OptionsApart (literalTail "%data \"a\" :5\n".toList h)) :=
  ⟨_, rfl, quote_iff rfl rfl⟩

/-- The closing quote behind two backslashes is not seen, and the offset is not read. -/
theorem quote_backslashes : ∃ h : DataHead,
    dataHead "%data \"a\\\\\" :5\n".toList = .ok (some h) ∧
      strAt h.line h.data = some "\"a\\\\\" :5\n".toList ∧
      ¬ QuoteLaw "%data \"a\\\\\" :5\n".toList h "a\\\\\" :5\n".toList := by
  refine ⟨_, rfl, rfl, fun hlaw => ?_⟩
  exact absurd hlaw.stop (by decide)

end BvgzVm
