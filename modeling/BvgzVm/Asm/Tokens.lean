import BvgzVm.Asm.Lookup
import BvgzVm.Lib.Words

set_option autoImplicit false

/-! # The tokens of a line

`parse_line` goes over a line once and cuts it into words at blanks and commas. It has room for
four words and does not look whether there are more (`tokens_iff`).
-/

namespace BvgzVm

open CLib Fallible Words

variable {T : InstnTable}

/-! ## Lines -/

/-- The characters that end a word. -/
def isSeparator (c : Char) : Bool := isspace c || c = ','

/-- The line without the blanks at its beginning. -/
def lineStart (line : CStr) : CStr := (line.takeWhile (· ≠ nul)).dropWhile isspace

/-- The part of the line before its comment. -/
def lineText (line : CStr) : CStr := (lineStart line).takeWhile (· ≠ ';')

/-- A line with a directive. -/
def IsDirective (line : CStr) : Prop := (lineStart line).head? = some '%'

/-- A line that begins with the name of a directive has one. -/
theorem isDirective_of_isPrefixOf {p line : CStr} (h : ('%' :: p).isPrefixOf line = true) :
    IsDirective line := by
  obtain ⟨text, rfl⟩ := List.isPrefixOf_iff_prefix.1 h
  have hstart : lineStart ('%' :: p ++ text) = '%' :: (p ++ text).takeWhile (· ≠ nul) := by
    rw [lineStart, List.cons_append, List.takeWhile_cons_of_pos (by decide),
      List.dropWhile_cons_of_neg (by decide)]
  rw [IsDirective, hstart]
  rfl

/-- A colon ends the first word, or stands before the second. -/
def IsLabelText (text : CStr) : Prop :=
  ':' ∈ firstWord isSeparator text ∨
    ((afterWord isSeparator text).dropWhile isSeparator).head? = some ':'

/-- The words of the text. A comma at the beginning has an empty word before it. -/
def textWords (text : CStr) : List CStr :=
  if text.head? = some ',' then [] :: words isSeparator text else words isSeparator text

/-! ## The law -/

/-- No token is stored behind the last one there is room for. A line that begins with a word and
is no label is the instruction of its words, if these are at most four, and is rejected with an
error otherwise. -/
def TokensLaw (env : PrsEnv) (filename : FileName) (lineno : UInt32) (line : CStr)
    (s : Prs T) (run : Except PrsFault (Prs T)) : Prop :=
  ¬ IsDirective line → run ≠ .error .tokens ∧
    (¬ IsLabelText (lineText line) → (lineText line).head? ≠ some ',' →
      match words isSeparator (lineText line) with
      | [] => run = .ok s
      | name :: tokens =>
          if tokens.length + 1 ≤ maxTokens then
            run = addInstn env filename lineno name tokens s
          else ∃ text, run = .ok (s.error filename lineno text))

/-! ## The scan -/

section Scan

variable {filename : FileName} {lineno : UInt32} {s : Prs T}

/-- The tokens of the line, if `text` is still to be scanned and has no label. -/
def LineState.tokens (ls : LineState) (text : CStr) : List CStr :=
  if ls.markToken = true then ls.before ++ ls.current :: words isSeparator text
  else ls.before ++ (ls.current ++ firstWord isSeparator text) ::
    words isSeparator (afterWord isSeparator text)

/-- The rest of the line has the colon of a label. -/
def LineState.Labels (ls : LineState) (text : CStr) : Prop :=
  ls.tkn = 0 ∧
    if ls.markToken = true then (text.dropWhile isSeparator).head? = some ':'
    else IsLabelText text

theorem LineState.not_labels_nil (ls : LineState) : ¬ ls.Labels [] := by
  rintro ⟨-, h⟩
  split at h
  · cases h
  · rcases h with h | h <;> cases h

theorem LineState.tokens_nil (ls : LineState) : ls.tokens [] = ls.before ++ [ls.current] := by
  unfold LineState.tokens
  split
  · rfl
  · show ls.before ++ [ls.current ++ []] = _
    rw [List.append_nil]

theorem LineState.tokens_nil_le {ls : LineState} (hroom : ls.tkn < maxTokens) :
    (ls.tokens []).length ≤ maxTokens := by
  rw [LineState.tokens_nil, List.length_append]
  exact hroom

/-- A separator ends the token. -/
theorem LineState.tokens_sep (ls : LineState) {c : Char} {text : CStr}
    (hc : isSeparator c = true) :
    ls.tokens (c :: text) = LineState.tokens { ls with markToken := true } text := by
  unfold LineState.tokens
  rw [if_pos rfl, firstWord_cons_sep hc, afterWord_cons_sep hc, words_cons_sep hc,
    List.append_nil, ite_self]

theorem LineState.labels_sep (ls : LineState) {c : Char} {text : CStr}
    (hc : isSeparator c = true) :
    ls.Labels (c :: text) ↔ LineState.Labels { ls with markToken := true } text := by
  unfold LineState.Labels
  rw [if_pos rfl]
  refine and_congr_right fun _ => ?_
  split
  · rw [List.dropWhile_cons_of_pos hc]
  · unfold IsLabelText
    rw [firstWord_cons_sep hc, afterWord_cons_sep hc, List.dropWhile_cons_of_pos hc]
    exact or_iff_right List.not_mem_nil

/-- A character of the token. -/
theorem LineState.tokens_word (ls : LineState) {c : Char} {text : CStr}
    (hc : isSeparator c = false) (hmark : ls.markToken = false) :
    ls.tokens (c :: text) = LineState.tokens { ls with current := ls.current ++ [c] } text := by
  unfold LineState.tokens
  rw [hmark, if_neg Bool.false_ne_true, if_neg Bool.false_ne_true, firstWord_cons_word hc,
    afterWord_cons_word hc, List.append_assoc]
  rfl

theorem LineState.labels_word (ls : LineState) {c : Char} {text : CStr}
    (hc : isSeparator c = false) (hmark : ls.markToken = false) (hcolon : c ≠ ':') :
    ls.Labels (c :: text) ↔ LineState.Labels { ls with current := ls.current ++ [c] } text := by
  unfold LineState.Labels IsLabelText
  rw [hmark, if_neg Bool.false_ne_true, if_neg Bool.false_ne_true, firstWord_cons_word hc,
    afterWord_cons_word hc, List.mem_cons, or_iff_right (Ne.symm hcolon)]
  rfl

/-- The first character of the next token. -/
theorem LineState.tokens_next (ls : LineState) {c : Char} {text : CStr}
    (hc : isSeparator c = false) (hmark : ls.markToken = true) :
    ls.tokens (c :: text) =
      LineState.tokens
        { ls with before := ls.before ++ [ls.current], current := [c], markToken := false }
        text := by
  unfold LineState.tokens
  rw [hmark, if_pos rfl, if_neg Bool.false_ne_true, words_cons_word hc, List.append_assoc]
  rfl

/-- The colon of a label. -/
theorem LineState.labels_colon (ls : LineState) {text : CStr} (htkn : ls.tkn = 0) :
    ls.Labels (':' :: text) := by
  refine ⟨htkn, ?_⟩
  split
  · rfl
  · exact Or.inl List.mem_cons_self

/-- **The scan without a label** finds the words of the text, or stores a token for which there is
no room. -/
theorem scanLine_tokens {p : CStr} {ls : LineState} (hparse : ls.parseInstn = true)
    (hroom : ls.tkn < maxTokens) (hlabel : ¬ ls.Labels (p.takeWhile (· ≠ ';'))) :
    if (ls.tokens (p.takeWhile (· ≠ ';'))).length ≤ maxTokens then
      ∃ ls', scanLine filename lineno p ls s = .ok (some ls', s) ∧ ls'.parseInstn = true ∧
        ls'.before ++ [ls'.current] = ls.tokens (p.takeWhile (· ≠ ';'))
    else scanLine filename lineno p ls s = .error .tokens := by
  induction p generalizing ls with
  | nil =>
      rw [List.takeWhile_nil, if_pos (LineState.tokens_nil_le hroom)]
      exact ⟨ls, rfl, hparse, ls.tokens_nil.symm⟩
  | cons c p ih =>
      rw [scanLine]
      by_cases hsemi : c = ';'
      · rw [if_pos hsemi, List.takeWhile_cons_of_neg (by simp [hsemi]),
          if_pos (LineState.tokens_nil_le hroom)]
        exact ⟨ls, rfl, hparse, ls.tokens_nil.symm⟩
      · rw [if_neg hsemi]
        rw [List.takeWhile_cons_of_pos (by simp [hsemi])] at hlabel ⊢
        cases hsep : isSeparator c with
        | true =>
            have hbranch : (isspace c || decide (c = ',')) = true := hsep
            rw [if_pos hbranch, ls.tokens_sep hsep]
            rw [ls.labels_sep hsep] at hlabel
            exact ih hparse hroom hlabel
        | false =>
            have hbranch : ¬ (isspace c || decide (c = ',')) = true := by
              rw [show (isspace c || decide (c = ',')) = false from hsep]
              exact Bool.false_ne_true
            have hcolon : ¬ (ls.tkn = 0 ∧ c = ':') := by
              rintro ⟨htkn, rfl⟩
              exact hlabel (ls.labels_colon htkn)
            have hopen : ¬ ls.parseInstn = false := by
              rw [hparse]
              exact Bool.noConfusion
            rw [if_neg hbranch, if_neg hcolon, if_neg hopen]
            by_cases hmark : ls.markToken = true
            · rw [if_pos hmark, ls.tokens_next hsep hmark]
              by_cases hnext : ls.tkn + 1 < maxTokens
              · rw [if_pos hnext]
                refine ih hparse ?_ ?_
                · rw [LineState.tkn, List.length_append]
                  exact hnext
                · rintro ⟨htkn, -⟩
                  rw [LineState.tkn, List.length_append] at htkn
                  exact Nat.succ_ne_zero _ htkn
              · -- the token that is met has no room
                rw [if_neg hnext, if_neg]
                unfold LineState.tokens
                unfold LineState.tkn at hnext
                rw [if_neg Bool.false_ne_true]
                simp only [List.length_append, List.length_cons, List.length_nil]
                omega
            · have hmark' := Bool.eq_false_iff.2 hmark
              rw [if_neg hmark, ls.tokens_word hsep hmark']
              refine ih hparse hroom fun hlater => hlabel ⟨hlater.1, ?_⟩
              have hne : c ≠ ':' := fun h => hcolon ⟨hlater.1, h⟩
              exact ((ls.labels_word hsep hmark' hne).2 hlater).2

/-- **The scan of a label** comes to an end, and stores no token but the first. -/
theorem scanLine_label {p : CStr} {ls : LineState}
    (hlabel : ls.parseInstn = true → ls.Labels (p.takeWhile (· ≠ ';'))) :
    ∃ ls' s', scanLine filename lineno p ls s = .ok (ls', s') ∧ s'.freedKey = s.freedKey ∧
      ∀ l, ls' = some l → l.parseInstn = false := by
  have hend : ∀ {ls : LineState}, (ls.parseInstn = true → ls.Labels []) →
      ls.parseInstn = false := by
    intro ls h
    by_contra hparse
    exact ls.not_labels_nil (h (Bool.eq_true_of_not_eq_false hparse))
  induction p generalizing ls s with
  | nil =>
      refine ⟨some ls, s, rfl, rfl, ?_⟩
      rintro _ ⟨⟩
      exact hend hlabel
  | cons c p ih =>
      rw [scanLine]
      by_cases hsemi : c = ';'
      · rw [if_pos hsemi]
        rw [List.takeWhile_cons_of_neg (by simp [hsemi])] at hlabel
        refine ⟨some ls, s, rfl, rfl, ?_⟩
        rintro _ ⟨⟩
        exact hend hlabel
      · rw [if_neg hsemi]
        rw [List.takeWhile_cons_of_pos (by simp [hsemi])] at hlabel
        split
        · next hsep => exact ih fun hparse => (ls.labels_sep hsep).1 (hlabel hparse)
        · next hsep =>
            have hsep' : isSeparator c = false := Bool.eq_false_iff.2 hsep
            split
            · obtain ⟨ls', s', hscan, hkey, hls⟩ := @ih
                (s.addLabel filename lineno ls.current (UInt32.ofNat s.result.nInstns) false)
                { ls with parseInstn := false } fun hparse => by cases hparse
              exact ⟨ls', s', hscan, hkey, hls⟩
            · next hcolon =>
                split
                · exact ⟨none, _, rfl, rfl, fun l hl => by cases hl⟩
                · next hparse =>
                    have hlater := hlabel (Bool.eq_true_of_not_eq_false hparse)
                    have hne : c ≠ ':' := fun h => hcolon ⟨hlater.1, h⟩
                    split
                    · next hmark =>
                        have hhead := hlater.2
                        rw [if_pos hmark, List.dropWhile_cons_of_neg (by simp [hsep'])] at hhead
                        exact absurd (Option.some.inj hhead) hne
                    · next hmark =>
                        have hmark' := Bool.eq_false_iff.2 hmark
                        exact ih fun _ => (ls.labels_word hsep' hmark' hne).1 hlater

end Scan

/-! ## Lines without a directive -/

/-- Nothing but `parse_line` stores tokens. -/
theorem addInstn_tokens (env : PrsEnv) (filename : FileName) (lineno : UInt32) (name : CStr)
    (tokens : List CStr) (s : Prs T) :
    addInstn env filename lineno name tokens s ≠ .error .tokens := by
  intro h
  unfold addInstn at h
  rcases bind_eq_error.1 h with herror | ⟨⟨instn, s'⟩, -, herror⟩
  · rcases parseInstn_error herror with hfault | hfault
    · cases hfault
    · cases hfault
  · cases instn with
    | none => cases herror
    | some instn =>
        simp only at herror
        split at herror
        · cases herror
        · cases herror

theorem lineText_cons {line : CStr} {c : Char} {p : CStr} (h : lineStart line = c :: p)
    (hsemi : c ≠ ';') : lineText line = c :: p.takeWhile (· ≠ ';') := by
  rw [lineText, h, List.takeWhile_cons_of_pos (by simp [hsemi])]

/-- The tokens of a line are its words. -/
theorem tokens_start {c : Char} {text : CStr} (hspace : isspace c = false) :
    LineState.tokens ⟨[], [], false, true⟩ (c :: text) = textWords (c :: text) := by
  unfold LineState.tokens textWords
  rw [if_neg Bool.false_ne_true, List.nil_append, List.nil_append, List.head?_cons]
  by_cases hcomma : c = ','
  · have hsep : isSeparator c = true := by simp [isSeparator, hcomma]
    rw [if_pos (congrArg some hcomma), firstWord_cons_sep hsep, afterWord_cons_sep hsep]
  · have hsep : isSeparator c = false := by simp [isSeparator, hspace, hcomma]
    rw [if_neg fun h => hcomma (Option.some.inj h), words_cons_word hsep,
      firstWord_cons_word hsep, afterWord_cons_word hsep]

/-- **What `parse_line` does** with a line: nothing, a directive, a label, or the instruction of its
words, if there is room for them. -/
theorem parseLine_cases (env : PrsEnv) (filename : FileName) (lineno : UInt32) (line : CStr)
    (includePaths : List CStr) (parseAsmInto : FileName → Prs T → Except PrsFault (Prs T))
    (s : Prs T) :
    let run := parseLine env filename lineno line includePaths parseAsmInto s
    (IsDirective line ∧
        run = parsePreprocLine env filename lineno line includePaths parseAsmInto s) ∨
      ¬ IsDirective line ∧
        ((lineText line = [] ∧ run = .ok s) ∨
          (IsLabelText (lineText line) ∧ ∃ ls s',
            scanLine filename lineno (lineStart line) ⟨[], [], false, true⟩ s = .ok (ls, s') ∧
              s'.freedKey = s.freedKey ∧ run = .ok s') ∨
          (¬ IsLabelText (lineText line) ∧ ∃ name tokens,
            textWords (lineText line) = name :: tokens ∧
              run = if tokens.length + 1 ≤ maxTokens then
                addInstn env filename lineno name tokens s else .error .tokens)) := by
  intro run
  have hrun : run = parseLine env filename lineno line includePaths parseAsmInto s := rfl
  unfold parseLine at hrun
  rw [← lineStart] at hrun
  rw [hrun]
  cases hstart : lineStart line with
  | nil =>
      refine Or.inr ⟨?_, Or.inl ⟨?_, rfl⟩⟩
      · rw [IsDirective, hstart]
        exact fun h => by cases h
      · rw [lineText, hstart, List.takeWhile_nil]
  | cons c p =>
      simp only
      by_cases hsemi : c = ';'
      · rw [if_pos hsemi]
        refine Or.inr ⟨?_, Or.inl ⟨?_, rfl⟩⟩
        · rw [IsDirective, hstart, hsemi]
          exact fun h => by cases h
        · rw [lineText, hstart, List.takeWhile_cons_of_neg (by simp [hsemi])]
      · rw [if_neg hsemi]
        by_cases hpercent : c = '%'
        · rw [if_pos hpercent]
          refine Or.inl ⟨?_, rfl⟩
          rw [IsDirective, hstart, hpercent]
          rfl
        · have hdirective : ¬ IsDirective line := by
            rw [IsDirective, hstart]
            exact fun h => hpercent (Option.some.inj h)
          have hspace : isspace c = false := by
            have hhead := List.head?_dropWhile_not isspace (line.takeWhile (· ≠ nul))
            rw [show (line.takeWhile (· ≠ nul)).dropWhile isspace = c :: p from hstart] at hhead
            simpa using hhead
          have hstartLabels : IsLabelText (c :: p.takeWhile (· ≠ ';')) ↔
              LineState.Labels ⟨[], [], false, true⟩ ((c :: p).takeWhile (· ≠ ';')) := by
            rw [List.takeWhile_cons_of_pos (by simp [hsemi])]
            exact (and_iff_right rfl).symm
          rw [if_neg hpercent, lineText_cons hstart hsemi]
          refine Or.inr ⟨hdirective, Or.inr ?_⟩
          by_cases hlabel : IsLabelText (c :: p.takeWhile (· ≠ ';'))
          · obtain ⟨ls, s', hscan, hkey, hls⟩ := @scanLine_label T filename lineno s (c :: p)
              ⟨[], [], false, true⟩ fun _ => hstartLabels.1 hlabel
            refine Or.inl ⟨hlabel, ls, s', hscan, hkey, ?_⟩
            rw [hscan, ok_bind]
            cases ls with
            | none => rfl
            | some ls => simp only [hls ls rfl, Bool.false_eq_true, if_false]
          · have hscan := @scanLine_tokens T filename lineno s (c :: p) ⟨[], [], false, true⟩ rfl
              (by decide) (fun h => hlabel (hstartLabels.2 h))
            rw [List.takeWhile_cons_of_pos (by simp [hsemi]), tokens_start hspace] at hscan
            have hne : textWords (c :: p.takeWhile (· ≠ ';')) ≠ [] := by
              rw [← tokens_start hspace]
              unfold LineState.tokens
              split <;> simp
            obtain ⟨name, tokens, htokens⟩ := List.exists_cons_of_ne_nil hne
            refine Or.inr ⟨hlabel, name, tokens, htokens, ?_⟩
            rw [htokens, List.length_cons] at hscan
            by_cases hroom : tokens.length + 1 ≤ maxTokens
            · rw [if_pos hroom] at hscan ⊢
              rcases hscan with ⟨ls, hscan, hparse, hwords⟩
              rw [hscan, ok_bind]
              simp only [hparse, if_true]
              rw [hwords]
            · rw [if_neg hroom] at hscan ⊢
              rw [hscan]
              rfl

/-- **A line is cut into its words just when** it has a directive or a label, or there are at most
four words. -/
theorem tokens_iff (env : PrsEnv) (filename : FileName) (lineno : UInt32) (line : CStr)
    (includePaths : List CStr) (parseAsmInto : FileName → Prs T → Except PrsFault (Prs T))
    (s : Prs T) :
    TokensLaw env filename lineno line s
        (parseLine env filename lineno line includePaths parseAsmInto s) ↔
      IsDirective line ∨ IsLabelText (lineText line) ∨
        (textWords (lineText line)).length ≤ maxTokens := by
  unfold TokensLaw
  rcases parseLine_cases env filename lineno line includePaths parseAsmInto s with
    ⟨hdirective, -⟩ | ⟨hdirective, ⟨htext, hrun⟩ | ⟨hlabel, -, s', -, -, hrun⟩ |
      ⟨hlabel, name, tokens, htokens, hrun⟩⟩
  · exact iff_of_true (fun h => absurd hdirective h) (Or.inl hdirective)
  · rw [hrun, htext]
    refine iff_of_true (fun _ => ⟨by simp, fun _ _ => rfl⟩) (Or.inr (Or.inr ?_))
    exact Nat.zero_le _
  · rw [hrun]
    exact iff_of_true (fun _ => ⟨by simp, fun h => absurd hlabel h⟩) (Or.inr (Or.inl hlabel))
  · rw [hrun, htokens, List.length_cons, or_iff_right hdirective, or_iff_right hlabel,
      imp_iff_right hdirective, imp_iff_right hlabel]
    by_cases hroom : tokens.length + 1 ≤ maxTokens
    · rw [if_pos hroom]
      refine iff_of_true ⟨addInstn_tokens _ _ _ _ _ _, fun hcomma => ?_⟩ hroom
      rw [textWords, if_neg hcomma] at htokens
      rw [htokens]
      simp only [if_pos hroom]
    · rw [if_neg hroom]
      exact iff_of_false (fun hlaw => hlaw.1 rfl) hroom

/-- A fifth word is stored behind the tokens. -/
theorem tokens_five : ¬ TokensLaw noFiles ⟨0, []⟩ 1 "add *0, *8, *16, *24\n".toList
    (initParse false : Prs stableTable)
    (parseLine noFiles ⟨0, []⟩ 1 "add *0, *8, *16, *24\n".toList [] (fun _ s => .ok s)
      (initParse false)) := by
  intro hlaw
  have hdirective : ¬ IsDirective "add *0, *8, *16, *24\n".toList := by
    unfold IsDirective
    decide
  have hfault : parseLine noFiles ⟨0, []⟩ 1 "add *0, *8, *16, *24\n".toList []
      (fun _ s => .ok s) (initParse false : Prs stableTable) = .error .tokens := by rfl
  exact (hlaw hdirective).1 hfault

end BvgzVm
