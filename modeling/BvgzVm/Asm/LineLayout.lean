import BvgzVm.Asm.IdleData
import Mathlib.Data.List.DropRight

set_option autoImplicit false

/-! # The layout of a line

Blanks before a line, a comment behind it, the newline at its end: none of them matters for labels
and instructions, and all of them may matter for directives. `parse_preproc_line` gets the line with
its blanks and does not find the name of the directive behind them, and the scanner of `%data` goes
on behind the character that ends a token, whatever it is (`layoutLaw_iff`).
-/

namespace BvgzVm

open CLib Fallible

variable {T : InstnTable}

/-! ## What may follow a line -/

/-- Blanks, and behind them nothing or a comment. -/
def Harmless (tail : CStr) : Prop := ∀ c, (tail.dropWhile isspace).head? = some c → c = ';'

theorem harmless_nil : Harmless [] := by
  intro c h
  cases h

theorem harmless_cons {c : Char} {tail : CStr} :
    Harmless (c :: tail) ↔ c = ';' ∨ isspace c = true ∧ Harmless tail := by
  unfold Harmless
  by_cases hc : isspace c = true
  · have hne : c ≠ ';' := by
      rintro rfl
      cases hc
    rw [List.dropWhile_cons_of_pos hc, or_iff_right hne, and_iff_right hc]
  · rw [List.dropWhile_cons_of_neg hc, or_iff_left fun h => hc h.1]
    simp

/-- Blanks before it change nothing. -/
theorem harmless_append {pad tail : CStr} (hpad : ∀ c ∈ pad, isspace c = true) :
    Harmless (pad ++ tail) ↔ Harmless tail := by
  induction pad with
  | nil => exact Iff.rfl
  | cons c pad ih =>
      have hc := hpad c List.mem_cons_self
      have hne : c ≠ ';' := by
        rintro rfl
        cases hc
      rw [List.cons_append, harmless_cons, or_iff_right hne, and_iff_right hc]
      exact ih fun d hd => hpad d (List.mem_cons_of_mem _ hd)

section Harmless

variable {tail : CStr} (htail : Harmless tail)

include htail

theorem Harmless.head {c : Char} (hc : tail.head? = some c) : isspace c = true ∨ c = ';' := by
  cases tail with
  | nil => cases hc
  | cons d tail =>
      obtain rfl := Option.some.inj hc
      exact (harmless_cons.1 htail).symm.imp And.left id

/-- It does not go on with a token. -/
theorem Harmless.not_token {c : Char} (hc : tail.head? = some c) : isTokenChar c = false := by
  rcases htail.head hc with hspace | rfl
  · simp [isTokenChar, hspace]
  · decide

theorem Harmless.dropWhile : Harmless (tail.dropWhile isspace) := by
  intro c hc
  refine htail c ?_
  rwa [List.dropWhile_idempotent] at hc

theorem Harmless.takeWhile : Harmless (tail.takeWhile (· ≠ nul)) := by
  induction tail with
  | nil => exact harmless_nil
  | cons c tail ih =>
      rcases harmless_cons.1 htail with rfl | ⟨hspace, htail⟩
      · rw [List.takeWhile_cons_of_pos (by decide)]
        exact harmless_cons.2 (.inl rfl)
      · by_cases hnul : c = nul
        · rw [hnul] at hspace
          cases hspace
        · rw [List.takeWhile_cons_of_pos (by simp [hnul])]
          exact harmless_cons.2 (.inr ⟨hspace, ih htail⟩)

end Harmless

/-- What is taken does not go on behind the text. -/
theorem takeWhile_append_stop {f : Char → Bool} {tail : CStr}
    (htail : ∀ c, tail.head? = some c → f c = false) (text : CStr) :
    (text ++ tail).takeWhile f = text.takeWhile f := by
  induction text with
  | nil =>
      cases tail with
      | nil => rfl
      | cons c tail =>
          rw [List.nil_append, List.takeWhile_cons_of_neg (by simp [htail c rfl])]
          rfl
  | cons c text ih =>
      by_cases hc : f c = true
      · rw [List.cons_append, List.takeWhile_cons_of_pos hc, List.takeWhile_cons_of_pos hc, ih]
      · rw [List.cons_append, List.takeWhile_cons_of_neg hc, List.takeWhile_cons_of_neg hc]

/-! ## Tokens -/

/-- A literal that ends on the text ends there with the tail as well. -/
theorem stringLiteralEnd_append {prev : Char} {text : CStr}
    (h : stringLiteralEnd prev text < text.length) (rest : CStr) :
    stringLiteralEnd prev (text ++ rest) = stringLiteralEnd prev text := by
  induction text generalizing prev with
  | nil => cases h
  | cons c text ih =>
      rw [stringLiteralEnd, List.length_cons] at h
      rw [List.cons_append, stringLiteralEnd, stringLiteralEnd]
      by_cases hnul : c = nul
      · rw [if_pos hnul, if_pos hnul]
      · rw [if_neg hnul] at h ⊢
        rw [if_neg hnul]
        by_cases hquote : c = '"' ∧ prev ≠ '\\'
        · rw [if_pos hquote, if_pos hquote]
        · rw [if_neg hquote] at h ⊢
          rw [if_neg hquote, ih (Nat.lt_of_succ_lt_succ h)]

section Tokens

variable {tail : CStr} (htail : Harmless tail)

include htail

theorem tokenOf_tail (text : CStr) : tokenOf (text ++ tail) = tokenOf text := by
  unfold tokenOf
  rw [List.dropWhile_append]
  by_cases hblank : text.dropWhile isspace = []
  · rw [hblank]
    have hstop := takeWhile_append_stop (fun c hc => htail.dropWhile.not_token hc) []
    exact hstop
  · rw [if_neg (by simpa using hblank)]
    exact takeWhile_append_stop (fun c hc => htail.not_token hc) _

/-- A token that is required is the same, if it is there. -/
theorem requiredToken_tail {text : CStr} {r : CStr × CStr} (h : requiredToken text = some r) :
    requiredToken (text ++ tail) = some (r.1, r.2 ++ tail) ∧ r.2 ≠ [] := by
  unfold requiredToken at h ⊢
  split at h
  · cases h
  · rename_i hrequired
    obtain rfl := Option.some.inj h
    rw [not_or] at hrequired
    have hbehind : behindToken text ≠ [] := by
      intro hnil
      exact hrequired.2 (by rw [hnil]; rfl)
    have hblank : text.dropWhile isspace ≠ [] := by
      intro hnil
      exact hbehind (by rw [behindToken, hnil]; rfl)
    have happend : behindToken (text ++ tail) = behindToken text ++ tail := by
      unfold behindToken at hbehind ⊢
      rw [List.dropWhile_append, if_neg (by simpa using hblank), List.dropWhile_append,
        if_neg (by simpa using hbehind)]
    rw [tokenOf_tail htail, happend, if_neg]
    · exact ⟨rfl, hbehind⟩
    · rw [not_or]
      refine ⟨hrequired.1, ?_⟩
      obtain ⟨c, rest, hcons⟩ := List.exists_cons_of_ne_nil hbehind
      rw [hcons] at hrequired ⊢
      exact hrequired.2

theorem readHead_tail {text : CStr} {head : Option CStr × CStr × CStr}
    (h : readHead text = some head) :
    readHead (text ++ tail) = some (head.1, head.2.1, head.2.2 ++ tail) ∧ head.2.2 ≠ [] := by
  unfold readHead at h ⊢
  obtain ⟨⟨token, behind⟩, hfirst, h⟩ := Option.bind_eq_some_iff.1 h
  obtain ⟨hfirst', hbehind⟩ := requiredToken_tail htail hfirst
  rw [hfirst']
  dsimp only at h
  split at h
  · rename_i hlabel
    obtain ⟨⟨token', behind'⟩, hsecond, h⟩ := Option.bind_eq_some_iff.1 h
    obtain rfl := Option.some.inj h
    obtain ⟨hsecond', hbehind'⟩ := requiredToken_tail htail hsecond
    refine ⟨?_, hbehind'⟩
    have hdrop : (behind ++ tail).drop 1 = behind.drop 1 ++ tail := by
      obtain ⟨c, rest, rfl⟩ := List.exists_cons_of_ne_nil hbehind
      rfl
    simp only [Option.bind_eq_bind, Option.bind_some, if_pos hlabel, hdrop, hsecond']
  · rename_i hlabel
    obtain rfl := Option.some.inj h
    refine ⟨?_, hbehind⟩
    simp only [Option.bind_eq_bind, Option.bind_some, if_neg hlabel]

/-- **A specification whose options start on the text** is the same with the tail, which comes
behind the options. -/
theorem readSpec_tail {text : CStr} {spec : DataSpec} {options : CStr}
    (h : readSpec text = some spec) (hoptions : spec.options = some options) :
    readSpec (text ++ tail) = some { spec with options := some (options ++ tail) } := by
  unfold readSpec at h ⊢
  obtain ⟨⟨label, token, behind⟩, hhead, rfl⟩ := Option.map_eq_some_iff.1 h
  obtain ⟨hhead', hbehind⟩ := readHead_tail htail hhead
  rw [hhead', Option.map_some]
  dsimp only at hoptions hbehind ⊢
  unfold readData at hoptions ⊢
  by_cases hquote : token.headD nul = '"'
  · rw [if_pos hquote] at hoptions ⊢
    rw [if_pos hquote, ← List.append_assoc]
    dsimp only at hoptions ⊢
    generalize token.drop 1 ++ behind = literal at hoptions ⊢
    have hlt : stringLiteralEnd nul literal < literal.length := by
      by_contra hle
      rw [List.drop_eq_nil_of_le (Nat.le_of_not_lt hle)] at hoptions
      cases hoptions
    have hdrop := @List.drop_append_of_le_length _ literal tail _ hlt.le
    rw [stringLiteralEnd_append hlt, hdrop, List.take_append_of_le_length hlt.le]
    obtain ⟨c, rest, hrest⟩ := List.exists_cons_of_ne_nil (l := literal.drop _)
      (fun hnil => by rw [hnil] at hoptions; cases hoptions)
    rw [hrest] at hoptions ⊢
    obtain rfl := Option.some.inj hoptions
    rfl
  · rw [if_neg hquote] at hoptions ⊢
    rw [if_neg hquote]
    dsimp only at hoptions ⊢
    obtain ⟨c, rest, rfl⟩ := List.exists_cons_of_ne_nil hbehind
    obtain rfl := Option.some.inj hoptions
    rfl

theorem optionTokens_harmless : optionTokens [] tail = ([], true) := by
  induction tail with
  | nil => rfl
  | cons c tail ih =>
      rw [optionTokens, if_neg (by simp [htail.not_token rfl]), if_neg (by simp)]
      rcases harmless_cons.1 htail with rfl | ⟨hspace, hrest⟩
      · rfl
      · rw [if_pos hspace, ih hrest]

/-- **The tokens of the options** are still there, and there are no others if the options end on
the text. -/
theorem optionTokens_tail (w text : CStr) :
    ∃ more inside, optionTokens w (text ++ tail) = ((optionTokens w text).1 ++ more, inside) ∧
      ((optionTokens w text).2 = true → more = [] ∧ inside = true) := by
  induction text generalizing w with
  | nil =>
      rw [List.nil_append]
      by_cases hw : w = []
      · rw [hw, optionTokens_harmless htail]
        exact ⟨[], true, rfl, fun _ => ⟨rfl, rfl⟩⟩
      · rw [show optionTokens w [] = ([w], false) from if_neg hw]
        cases tail with
        | nil => exact ⟨[], false, if_neg hw, fun h => by cases h⟩
        | cons c tail =>
            rw [optionTokens, if_neg (by simp [htail.not_token rfl]), if_pos hw]
            exact ⟨_, _, rfl, fun h => by cases h⟩
  | cons c text ih =>
      rw [List.cons_append, optionTokens, optionTokens]
      by_cases hc : isTokenChar c = true
      · rw [if_pos hc, if_pos hc]
        exact ih _
      · rw [if_neg hc, if_neg hc]
        by_cases hw : w ≠ []
        · obtain ⟨more, inside, heq, hinside⟩ := ih []
          rw [if_pos hw, if_pos hw, heq]
          exact ⟨more, inside, rfl, hinside⟩
        · rw [if_neg hw, if_neg hw]
          by_cases hspace : isspace c = true
          · rw [if_pos hspace, if_pos hspace]
            exact ih _
          · rw [if_neg hspace, if_neg hspace]
            exact ⟨[], true, rfl, fun _ => ⟨rfl, rfl⟩⟩

end Tokens

section Directive

variable (env : PrsEnv) (filename : FileName) (lineno : UInt32) (includePaths : List CStr)

/-- What comes behind a word that is no option is not looked at. -/
theorem readOptions_append {inside inside' : Bool} {ws : List CStr}
    (h : ∃ w ∈ ws, ¬ IsOption w) (more : List CStr) (o : DataOptions) (s : Prs T) :
    readOptions filename lineno inside' (ws ++ more) o s =
      readOptions filename lineno inside ws o s := by
  induction ws generalizing o s with
  | nil =>
      obtain ⟨w, hw, -⟩ := h
      cases hw
  | cons w ws ih =>
      rw [List.cons_append]
      cases w with
      | nil => rfl
      | cons c number =>
          have hoption : IsOption (c :: number) ↔ c = ':' ∨ c = '/' := by simp [IsOption]
          have hrest : IsOption (c :: number) → ∃ w ∈ ws, ¬ IsOption w := by
            intro hc
            obtain ⟨w, hw, hword⟩ := h
            rcases List.mem_cons.1 hw with rfl | hw
            · exact absurd hc hword
            · exact ⟨w, hw, hword⟩
          rw [readOptions_cons, readOptions_cons]
          by_cases hoffset : c = ':'
          · rw [if_pos hoffset, if_pos hoffset, ih (hrest (hoption.2 (.inl hoffset)))]
          · rw [if_neg hoffset, if_neg hoffset]
            by_cases hsize : c = '/'
            · rw [if_pos hsize, if_pos hsize, ih (hrest (hoption.2 (.inr hsize)))]
            · rw [if_neg hsize, if_neg hsize]

/-- The specification of a `%data` line whose options end on the line. -/
def SpecInside (line : CStr) : Prop :=
  ∃ spec, readSpec (line.drop 6) = some spec ∧ spec.EndsInside

/-- **A `%data` line** whose options end on it is the same with the tail. -/
theorem parsePreprocData_tail {line tail : CStr} (htail : Harmless tail) (hlen : 6 ≤ line.length)
    (hspec : SpecInside line) (s : Prs T) :
    parsePreprocData env filename lineno (line ++ tail) includePaths s =
      parsePreprocData env filename lineno line includePaths s := by
  obtain ⟨spec, hspec, hinside⟩ := hspec
  have hlen' : 6 ≤ (line ++ tail).length := by
    rw [List.length_append]
    omega
  cases hoptions : spec.options with
  | none =>
      unfold DataSpec.EndsInside at hinside
      rw [hoptions] at hinside
      rcases hinside with h | ⟨w, hw, -⟩
      · cases h
      · cases hw
  | some options =>
      have htokens : ∀ o, readOptions filename lineno (optionTokens [] (options ++ tail)).2
          (optionTokens [] (options ++ tail)).1 o s = readOptions filename lineno
          (optionTokens [] options).2 (optionTokens [] options).1 o s := by
        intro o
        obtain ⟨more, inside, heq, hsame⟩ := optionTokens_tail htail [] options
        rw [heq]
        unfold DataSpec.EndsInside at hinside
        rw [hoptions] at hinside
        rcases hinside with hflag | hword
        · obtain ⟨rfl, rfl⟩ := hsame hflag
          have hflag' : (optionTokens [] options).2 = true := hflag
          rw [List.append_nil, hflag']
        · exact readOptions_append filename lineno hword more o s
      rw [parsePreprocData_eq env filename lineno hlen',
        parsePreprocData_eq env filename lineno hlen,
        List.drop_append_of_le_length hlen, readSpec_tail htail hspec hoptions, hspec]
      unfold applySpec
      simp only [hoptions, tokensFrom, htokens]

/-- **A `%include` line** is the same with the tail. -/
theorem parsePreprocInclude_tail {line tail : CStr} (htail : Harmless tail)
    (hlen : 9 ≤ line.length) (parseAsmInto : FileName → Prs T → Except PrsFault (Prs T))
    (s : Prs T) :
    parsePreprocInclude env filename lineno (line ++ tail) includePaths parseAsmInto s =
      parsePreprocInclude env filename lineno line includePaths parseAsmInto s := by
  have hlen' : 9 ≤ (line ++ tail).length := by
    rw [List.length_append]
    omega
  rw [parsePreprocInclude_eq env filename lineno includePaths hlen',
    parsePreprocInclude_eq env filename lineno includePaths hlen,
    List.drop_append_of_le_length hlen, tokenOf_tail htail]

end Directive

/-! ## Lines without `%data` and `%include` -/

section Plain

variable {tail : CStr} (htail : Harmless tail)

include htail

/-- The name of a directive does not go on in the tail. -/
theorem prefix_tail {w : CStr} (hw : ∀ c ∈ w, isspace c = false ∧ c ≠ ';') {line : CStr} :
    w <+: line ++ tail ↔ w <+: line := by
  refine ⟨fun h => ?_, fun h => h.trans (List.prefix_append line tail)⟩
  induction w generalizing line with
  | nil => exact List.nil_prefix
  | cons c w ih =>
      obtain ⟨hspace, hsemi⟩ := hw c List.mem_cons_self
      cases line with
      | nil =>
          obtain ⟨rest, hrest⟩ := h
          rcases htail.head (c := c) (by rw [← List.nil_append tail, ← hrest]; rfl) with h | h
          · rw [hspace] at h
            cases h
          · exact absurd h hsemi
      | cons d line =>
          rw [List.cons_append, List.cons_prefix_cons] at h
          rw [List.cons_prefix_cons]
          exact ⟨h.1, ih (fun e he => hw e (List.mem_cons_of_mem _ he)) h.2⟩

/-- The name of a directive does not begin in blanks. -/
theorem isPrefixOf_layout {c : Char} {w pad line : CStr}
    (hw : ∀ d ∈ c :: w, isspace d = false ∧ d ≠ ';') (hpad : ∀ d ∈ pad, isspace d = true) :
    (c :: w).isPrefixOf (pad ++ (line ++ tail)) = true ↔
      pad = [] ∧ (c :: w).isPrefixOf line = true := by
  rw [List.isPrefixOf_iff_prefix, List.isPrefixOf_iff_prefix]
  cases pad with
  | nil => rw [List.nil_append, prefix_tail htail hw, and_iff_right rfl]
  | cons d pad =>
      refine iff_of_false (fun h => ?_) (by simp)
      rw [List.cons_append, List.cons_prefix_cons] at h
      have hspace := hpad d List.mem_cons_self
      rw [← h.1, (hw c List.mem_cons_self).1] at hspace
      cases hspace

/-- **The start of the line** is the same, with a harmless tail. -/
theorem lineStart_layout {pad : CStr} (hpad : ∀ c ∈ pad, isspace c = true) (line : CStr) :
    ∃ rest, Harmless rest ∧ lineStart (pad ++ (line ++ tail)) = lineStart line ++ rest ∧
      (lineStart line = [] → ∀ c, rest.head? = some c → c = ';') := by
  have hnul : ∀ c ∈ pad, decide (c ≠ nul) = true := by
    intro c hc
    refine decide_eq_true ?_
    rintro rfl
    exact absurd (hpad _ hc) (by decide)
  have hline : ∃ rest, Harmless rest ∧
      (line ++ tail).takeWhile (· ≠ nul) = line.takeWhile (· ≠ nul) ++ rest := by
    rw [List.takeWhile_append]
    split
    · next hall =>
        refine ⟨tail.takeWhile (· ≠ nul), htail.takeWhile, ?_⟩
        rw [(List.takeWhile_prefix (fun c : Char => decide (c ≠ nul))).eq_of_length hall]
    · exact ⟨[], harmless_nil, (List.append_nil _).symm⟩
  obtain ⟨rest, hrest, heq⟩ := hline
  unfold lineStart
  rw [List.takeWhile_append_of_pos hnul, List.dropWhile_append_of_pos hpad, heq,
    List.dropWhile_append]
  split
  · next hblank =>
      rw [List.isEmpty_iff] at hblank
      refine ⟨rest.dropWhile isspace, hrest.dropWhile, ?_, fun _ c hc => hrest c hc⟩
      rw [hblank, List.nil_append]
  · next hblank =>
      refine ⟨rest, hrest, rfl, fun h => ?_⟩
      rw [List.isEmpty_iff] at hblank
      exact absurd h hblank

/-! ### The scan -/

/-- What `parse_line` looks at behind the scan. -/
def scanned (r : Option LineState × Prs T) : Option (List CStr × Bool) × Prs T :=
  (r.1.map fun ls => (ls.before ++ [ls.current], ls.parseInstn), r.2)

theorem scanLine_harmless (filename : FileName) (lineno : UInt32) (ls : LineState) (s : Prs T) :
    ∃ ls' : LineState, scanLine filename lineno tail ls s = .ok (some ls', s) ∧
      ls'.before = ls.before ∧ ls'.current = ls.current ∧ ls'.parseInstn = ls.parseInstn := by
  induction tail generalizing ls with
  | nil => exact ⟨ls, rfl, rfl, rfl, rfl⟩
  | cons c tail ih =>
      rw [scanLine]
      rcases harmless_cons.1 htail with rfl | ⟨hspace, hrest⟩
      · exact ⟨ls, if_pos rfl, rfl, rfl, rfl⟩
      · have hsemi : c ≠ ';' := by
          rintro rfl
          cases hspace
        rw [if_neg hsemi, hspace, Bool.true_or, if_pos rfl]
        obtain ⟨ls', hscan, hls⟩ := ih hrest { ls with markToken := true }
        exact ⟨ls', hscan, hls⟩

/-- **The scan** finds the same with the tail. -/
theorem scanLine_tail (filename : FileName) (lineno : UInt32) (p : CStr) (ls : LineState)
    (s : Prs T) :
    (scanLine filename lineno (p ++ tail) ls s).map scanned =
      (scanLine filename lineno p ls s).map scanned := by
  induction p generalizing ls s with
  | nil =>
      obtain ⟨ls', hscan, hbefore, hcurrent, hparse⟩ :=
        scanLine_harmless htail filename lineno ls s
      rw [List.nil_append, hscan, scanLine]
      simp [Except.map, scanned, hbefore, hcurrent, hparse]
  | cons c p ih =>
      rw [List.cons_append, scanLine, scanLine]
      split
      · rfl
      · split
        · exact ih _ _
        · split
          · exact ih _ _
          · split
            · rfl
            · split
              · split
                · exact ih _ _
                · rfl
              · exact ih _ _

end Plain

section Plain

variable (env : PrsEnv) (filename : FileName) (lineno : UInt32) (includePaths : List CStr)
  (parseAsmInto : FileName → Prs T → Except PrsFault (Prs T)) (s : Prs T)

/-- A line with another directive, or none at all. -/
def IsPlain (line : CStr) : Prop :=
  ¬ "%data".toList.isPrefixOf line = true ∧ ¬ "%include".toList.isPrefixOf line = true

theorem isDirective_of_not_plain {line : CStr} (h : ¬ IsPlain line) : IsDirective line := by
  by_cases hdata : "%data".toList.isPrefixOf line = true
  · exact isDirective_of_isPrefixOf hdata
  · by_cases hincl : "%include".toList.isPrefixOf line = true
    · exact isDirective_of_isPrefixOf hincl
    · exact absurd ⟨hdata, hincl⟩ h

theorem isPlain_layout {pad tail line : CStr} (htail : Harmless tail)
    (hpad : ∀ c ∈ pad, isspace c = true) (h : pad ≠ [] ∨ IsPlain line) :
    IsPlain (pad ++ (line ++ tail)) := by
  constructor
  · intro h'
    obtain ⟨hnil, hdata⟩ := (isPrefixOf_layout htail (forall_mem_of_all (by decide)) hpad).1 h'
    exact h.elim (fun h => h hnil) fun h => h.1 hdata
  · intro h'
    obtain ⟨hnil, hincl⟩ := (isPrefixOf_layout htail (forall_mem_of_all (by decide)) hpad).1 h'
    exact h.elim (fun h => h hnil) fun h => h.2 hincl

/-- `parse_line` behind the scan. -/
def afterScan (r : Option (List CStr × Bool) × Prs T) : Except PrsFault (Prs T) :=
  match r with
  | (some (name :: tokens, true), s) => addInstn env filename lineno name tokens s
  | (_, s) => .ok s

theorem afterScan_eq (x : Except PrsFault (Option LineState × Prs T)) :
    (x >>= fun r => match r.1 with
      | none => .ok r.2
      | some ls =>
          if ls.parseInstn then
            match ls.before ++ [ls.current] with
            | [] => .ok r.2
            | name :: tokens => addInstn env filename lineno name tokens r.2
          else .ok r.2) = x.map scanned >>= afterScan env filename lineno := by
  rcases x with e | ⟨_ | ls, s⟩
  · rfl
  · rfl
  · obtain ⟨name, tokens, hwords⟩ := List.exists_cons_of_ne_nil
      (List.append_ne_nil_of_right_ne_nil ls.before (List.cons_ne_nil ls.current []))
    simp only [ok_bind, Except.map, scanned, Option.map_some, hwords, afterScan]
    cases ls.parseInstn <;> rfl

theorem parsePreprocLine_plain {line : CStr} (h : IsPlain line) :
    parsePreprocLine env filename lineno line includePaths parseAsmInto s = .ok s := by
  unfold parsePreprocLine
  rw [if_neg h.1, if_neg h.2]

/-- **A plain line** is the same with blanks before it and a harmless tail. -/
theorem parseLine_layout {pad tail line : CStr} (htail : Harmless tail)
    (hpad : ∀ c ∈ pad, isspace c = true) (hplain : IsPlain line) :
    parseLine env filename lineno (pad ++ (line ++ tail)) includePaths parseAsmInto s =
      parseLine env filename lineno line includePaths parseAsmInto s := by
  obtain ⟨rest, hrest, hstart, hcomment⟩ := lineStart_layout htail hpad line
  unfold parseLine
  rw [← lineStart, ← lineStart, hstart]
  cases hline : lineStart line with
  | nil =>
      cases rest with
      | nil => rfl
      | cons c rest =>
          rw [List.nil_append]
          simp only [hcomment hline c rfl, if_true]
  | cons c p =>
      rw [List.cons_append]
      simp only
      by_cases hsemi : c = ';'
      · rw [if_pos hsemi, if_pos hsemi]
      · rw [if_neg hsemi, if_neg hsemi]
        by_cases hpercent : c = '%'
        · rw [if_pos hpercent, if_pos hpercent,
            parsePreprocLine_plain _ _ _ _ _ _ (isPlain_layout htail hpad (.inr hplain)),
            parsePreprocLine_plain _ _ _ _ _ _ hplain]
        · rw [if_neg hpercent, if_neg hpercent]
          have hscan := scanLine_tail hrest filename lineno (c :: p) ⟨[], [], false, true⟩ s
          rw [List.cons_append] at hscan
          have hsame := (afterScan_eq env filename lineno _).trans
            ((congrArg (· >>= afterScan env filename lineno) hscan).trans
              (afterScan_eq env filename lineno _).symm)
          exact hsame

/-- A directive behind blanks is not found. -/
theorem parseLine_blanks {pad line : CStr} (hpad : ∀ c ∈ pad, isspace c = true) (hne : pad ≠ [])
    (hdirective : IsDirective line) :
    parseLine env filename lineno (pad ++ line) includePaths parseAsmInto s = .ok s := by
  have hplain := @isPlain_layout pad [] line harmless_nil hpad (.inl hne)
  obtain ⟨rest, -, hstart, -⟩ := lineStart_layout harmless_nil hpad line
  rw [List.append_nil] at hplain hstart
  unfold IsDirective at hdirective
  unfold parseLine
  rw [← lineStart, hstart]
  cases hline : lineStart line with
  | nil =>
      rw [hline] at hdirective
      cases hdirective
  | cons c p =>
      rw [hline] at hdirective
      obtain rfl := Option.some.inj hdirective
      rw [List.cons_append]
      simp only
      rw [if_neg (by decide), if_pos trivial]
      exact parsePreprocLine_plain _ _ _ _ _ _ hplain

/-- A line with a directive. -/
theorem parseLine_directive {line : CStr} (h : IsDirective line) :
    parseLine env filename lineno line includePaths parseAsmInto s =
      parsePreprocLine env filename lineno line includePaths parseAsmInto s := by
  rcases parseLine_cases env filename lineno line includePaths parseAsmInto s with
    ⟨-, hrun⟩ | ⟨hnot, -⟩
  · exact hrun
  · exact absurd h hnot

/-- **A directive** whose tokens end on the line is the same with a harmless tail. -/
theorem parseLine_tail {tail line : CStr} (htail : Harmless tail)
    (hdata : "%data".toList.isPrefixOf line = true → SpecInside line)
    (hincl : "%include".toList.isPrefixOf line = true → 9 ≤ line.length) (hplain : ¬ IsPlain line) :
    parseLine env filename lineno (line ++ tail) includePaths parseAsmInto s =
      parseLine env filename lineno line includePaths parseAsmInto s := by
  have hprefix : ∀ w : CStr, (∀ c ∈ w, isspace c = false ∧ c ≠ ';') →
      (w.isPrefixOf (line ++ tail) = true ↔ w.isPrefixOf line = true) := by
    intro w hw
    rw [List.isPrefixOf_iff_prefix, List.isPrefixOf_iff_prefix, prefix_tail htail hw]
  have hdata' := hprefix "%data".toList (forall_mem_of_all (by decide))
  have hincl' := hprefix "%include".toList (forall_mem_of_all (by decide))
  have hplain' : ¬ IsPlain (line ++ tail) := by
    unfold IsPlain
    rwa [hdata', hincl']
  rw [parseLine_directive _ _ _ _ _ _ (isDirective_of_not_plain hplain),
    parseLine_directive _ _ _ _ _ _ (isDirective_of_not_plain hplain')]
  unfold parsePreprocLine
  simp only [hdata', hincl']
  by_cases h : "%data".toList.isPrefixOf line = true
  · have hspec := hdata h
    have hlen : 6 ≤ line.length := by
      obtain ⟨spec, hspec, -⟩ := hspec
      by_contra hlen
      rw [List.drop_eq_nil_of_le (Nat.le_of_not_le hlen)] at hspec
      cases hspec
    rw [if_pos h, if_pos h]
    exact parsePreprocData_tail env filename lineno includePaths htail hlen hspec s
  · rw [if_neg h, if_neg h]
    by_cases h' : "%include".toList.isPrefixOf line = true
    · rw [if_pos h', if_pos h']
      exact parsePreprocInclude_tail env filename lineno includePaths htail (hincl h') _ s
    · rw [if_neg h', if_neg h']

end Plain

/-! ## The law -/

/-- The line without the newline at its end. -/
def chomp (line : CStr) : CStr := if line.getLast? = some '\n' then line.dropLast else line

/-- The newline at its end, if there is one. -/
def newline (line : CStr) : CStr := if line.getLast? = some '\n' then ['\n'] else []

theorem chomp_newline (line : CStr) : chomp line ++ newline line = line := by
  unfold chomp newline
  split
  · next h =>
      obtain ⟨rest, rfl⟩ := List.getLast?_eq_some_iff.1 h
      rw [List.dropLast_concat]
  · exact List.append_nil line

theorem harmless_newline (line : CStr) : Harmless (newline line) := by
  unfold newline
  split
  · exact harmless_cons.2 (.inr ⟨by decide, harmless_nil⟩)
  · exact harmless_nil

/-- The same line with another layout: blanks before it, a comment at its end, directly or behind
blanks, or no newline. -/
inductive Relayout (line : CStr) : CStr → Prop
  | blanks (pad : CStr) (hpad : ∀ c ∈ pad, isspace c = true) : Relayout line (pad ++ line)
  | comment (pad text : CStr) (hpad : ∀ c ∈ pad, isspace c = true) :
      Relayout line (chomp line ++ (pad ++ ';' :: (text ++ newline line)))
  | noNewline : Relayout line (chomp line)

section Law

variable (env : PrsEnv) (filename : FileName) (lineno : UInt32) (includePaths : List CStr)
  (parseAsmInto : FileName → Prs T → Except PrsFault (Prs T)) (line : CStr) (s s' : Prs T)

/-- The state behind the line does not depend on its layout. -/
def LayoutLaw : Prop :=
  ∀ line', Relayout line line' →
    parseLine env filename lineno line' includePaths parseAsmInto s = .ok s'

variable {env filename lineno includePaths parseAsmInto line s s'}

/-- The layouts of a line are its text with blanks before it, or its text with a harmless tail. -/
theorem layoutLaw_of_tails
    (hblanks : ∀ pad : CStr, (∀ c ∈ pad, isspace c = true) → pad ≠ [] →
      parseLine env filename lineno (pad ++ line) includePaths parseAsmInto s = .ok s')
    (htails : ∀ tail, Harmless tail → parseLine env filename lineno (chomp line ++ tail)
      includePaths parseAsmInto s = .ok s') :
    LayoutLaw env filename lineno includePaths parseAsmInto line s s' := by
  intro line' h
  cases h with
  | blanks pad hpad =>
      cases pad with
      | nil =>
          have h := htails _ (harmless_newline line)
          rwa [chomp_newline] at h
      | cons c pad => exact hblanks _ hpad (List.cons_ne_nil c pad)
  | comment pad text hpad =>
      exact htails _ ((harmless_append hpad).2 (harmless_cons.2 (.inl rfl)))
  | noNewline =>
      have h := htails [] harmless_nil
      rwa [List.append_nil] at h

end Law

/-- An accepted `%include` line has a blank behind the name of the directive, and a file. -/
theorem include_accepted {env : PrsEnv} {filename : FileName} {lineno : UInt32}
    {includePaths : List CStr} {parseAsmInto : FileName → Prs T → Except PrsFault (Prs T)}
    {line : CStr} {s s' : Prs T}
    (h : parseLine env filename lineno line includePaths parseAsmInto s = .ok s')
    (herrors : s'.result.errors = s.result.errors)
    (hincl : "%include".toList.isPrefixOf line = true) : 9 ≤ (chomp line).length := by
  have hdata : ¬ "%data".toList.isPrefixOf line = true := by
    obtain ⟨text, rfl⟩ := List.isPrefixOf_iff_prefix.1 hincl
    exact Bool.false_ne_true
  rw [parseLine_directive _ _ _ _ _ _ (isDirective_of_isPrefixOf hincl), parsePreprocLine,
    if_neg hdata, if_pos hincl] at h
  by_contra hlt
  have hlength : line.length ≤ 9 := by
    have hnewline : (newline line).length ≤ 1 := by
      unfold newline
      split <;> simp
    have hchomp := congrArg List.length (chomp_newline line)
    rw [List.length_append] at hchomp
    omega
  by_cases hlen : 9 ≤ line.length
  · rw [parsePreprocInclude_eq env filename lineno includePaths hlen,
      List.drop_eq_nil_of_le hlength, if_pos (by rfl)] at h
    have herror := congrArg (fun s : Prs T => s.result.errors) (Except.ok.inj h)
    rw [errors_error, herrors] at herror
    exact absurd herror (Nat.succ_ne_self _)
  · have hskip : skipWhile isspace line 9 = none := if_neg hlen
    rw [parsePreprocInclude, hskip] at h
    cases h

section Directives

variable {env : PrsEnv} {filename : FileName} {lineno : UInt32} {includePaths : List CStr}
  {line : CStr} {s s' : Prs T}

theorem isPrefixOf_chomp {w : CStr} (hw : ∀ c ∈ w, isspace c = false ∧ c ≠ ';') (line : CStr) :
    w.isPrefixOf (chomp line) = true ↔ w.isPrefixOf line = true := by
  have hiff := @prefix_tail (newline line) (harmless_newline line) w hw (chomp line)
  rw [List.isPrefixOf_iff_prefix, List.isPrefixOf_iff_prefix, ← hiff, chomp_newline]

theorem isPlain_chomp (line : CStr) : IsPlain (chomp line) ↔ IsPlain line := by
  unfold IsPlain
  rw [isPrefixOf_chomp (forall_mem_of_all (by decide)),
    isPrefixOf_chomp (forall_mem_of_all (by decide))]

section Parse

variable {parseAsmInto : FileName → Prs T → Except PrsFault (Prs T)}
  (h : parseLine env filename lineno line includePaths parseAsmInto s = .ok s')

include h

/-- A plain line has no layout that matters. -/
theorem layoutLaw_plain (hplain : IsPlain line) :
    LayoutLaw env filename lineno includePaths parseAsmInto line s s' := by
  refine layoutLaw_of_tails ?_ ?_
  · intro pad hpad _
    have hlayout := parseLine_layout env filename lineno includePaths parseAsmInto s harmless_nil
      hpad hplain
    rwa [List.append_nil, h] at hlayout
  · intro tail htail
    have hsame := fun t (ht : Harmless t) =>
      @parseLine_layout T env filename lineno includePaths parseAsmInto s [] t (chomp line) ht
        (fun c hc => by cases hc) ((isPlain_chomp line).2 hplain)
    have hline := hsame _ (harmless_newline line)
    rw [List.nil_append, chomp_newline, h] at hline
    exact (hsame tail htail).trans hline.symm

variable (herrors : s'.result.errors = s.result.errors)

include herrors

/-- An accepted directive whose tokens end before the newline, with a harmless tail. -/
theorem directive_tails (hplain : ¬ IsPlain line)
    (hspec : "%data".toList.isPrefixOf line = true → SpecInside (chomp line)) {tail : CStr}
    (htail : Harmless tail) :
    parseLine env filename lineno (chomp line ++ tail) includePaths parseAsmInto s = .ok s' := by
  have hdata := isPrefixOf_chomp (w := "%data".toList) (forall_mem_of_all (by decide)) line
  have hincl := isPrefixOf_chomp (w := "%include".toList) (forall_mem_of_all (by decide)) line
  have htails := fun t (ht : Harmless t) => parseLine_tail env filename lineno includePaths
    parseAsmInto s ht (fun h' => hspec (hdata.1 h'))
    (fun h' => include_accepted h herrors (hincl.1 h')) (mt (isPlain_chomp line).1 hplain)
  have hline := htails _ (harmless_newline line)
  rw [chomp_newline, h] at hline
  exact (htails tail htail).trans hline.symm

omit h in
/-- A `%data` directive that does not need the newline has a specification that ends on its line. -/
theorem specInside_of_chomp (hdata : "%data".toList.isPrefixOf line = true)
    (hline : parseLine env filename lineno (chomp line) includePaths parseAsmInto s = .ok s') :
    SpecInside (chomp line) := by
  have hdata' := (isPrefixOf_chomp (w := "%data".toList) (forall_mem_of_all (by decide)) line).2
    hdata
  rw [parseLine_directive _ _ _ _ _ _ (isDirective_of_isPrefixOf hdata'), parsePreprocLine,
    if_pos hdata'] at hline
  obtain ⟨hlen, hinside⟩ := (parsePreprocData_stays_iff env filename lineno includePaths
    (chomp line) s).1 (by rw [hline]; exact avoids_ok s')
  cases hspec : readSpec ((chomp line).drop 6) with
  | none =>
      -- without the newline the specification is incorrect
      rw [parsePreprocData_eq env filename lineno hlen, hspec] at hline
      have herror := congrArg (fun s : Prs T => s.result.errors) (Except.ok.inj hline)
      rw [errors_error, herrors] at herror
      exact absurd herror (Nat.succ_ne_self _)
  | some spec => exact ⟨spec, hspec, hinside spec hspec⟩

/-- **A directive has no layout that matters** exactly if it can be dropped, as it is behind a
blank, and does not need the newline. -/
theorem layoutLaw_directive (hplain : ¬ IsPlain line) :
    LayoutLaw env filename lineno includePaths parseAsmInto line s s' ↔
      s' = s ∧ ("%data".toList.isPrefixOf line = true → SpecInside (chomp line)) := by
  have hdirective := isDirective_of_not_plain hplain
  constructor
  · intro hlaw
    have hblank := hlaw _ (.blanks [' '] (forall_mem_of_all (by decide)))
    rw [parseLine_blanks _ _ _ _ _ _ (forall_mem_of_all (by decide)) (List.cons_ne_nil _ _)
      hdirective] at hblank
    exact ⟨(Except.ok.inj hblank).symm,
      fun hdata => specInside_of_chomp herrors hdata (hlaw _ .noNewline)⟩
  · rintro ⟨hsame, hspec⟩
    refine layoutLaw_of_tails ?_ (fun tail htail => directive_tails h herrors hplain hspec htail)
    intro pad hpad hne
    rw [parseLine_blanks _ _ _ _ _ _ hpad hne hdirective, hsame]

end Parse

/-- **A `%data` line that may be dropped**: its specification ends before the newline and has
nothing to do in the state before the line. -/
def DataLineIdle (env : PrsEnv) (filename : FileName) (lineno : UInt32) (includePaths : List CStr)
    (line : CStr) (s : Prs T) : Prop :=
  "%data".toList.isPrefixOf line = true ∧
    ∃ spec, readSpec ((chomp line).drop 6) = some spec ∧ spec.EndsInside ∧
      spec.Idle env filename lineno includePaths s

/-- An accepted `%data` line whose specification ends before the newline. -/
theorem dataLine_idle_iff {parseAsmInto : FileName → Prs T → Except PrsFault (Prs T)}
    {spec : DataSpec} (hblock : 0 < env.memAllocBlockSz) (hs : s.result.toDataArea.Allocated)
    (hdata : "%data".toList.isPrefixOf line = true)
    (hspec : readSpec ((chomp line).drop 6) = some spec)
    (hline : parseLine env filename lineno (chomp line) includePaths parseAsmInto s = .ok s')
    (herrors : s'.result.errors = s.result.errors) :
    s' = s ↔ spec.Idle env filename lineno includePaths s := by
  have hdata' := (isPrefixOf_chomp (w := "%data".toList) (forall_mem_of_all (by decide)) line).2
    hdata
  have hlen : 6 ≤ (chomp line).length := by
    by_contra hlen
    rw [List.drop_eq_nil_of_le (Nat.le_of_not_le hlen)] at hspec
    cases hspec
  rw [parseLine_directive _ _ _ _ _ _ (isDirective_of_isPrefixOf hdata'), parsePreprocLine,
    if_pos hdata', parsePreprocData_eq env filename lineno hlen, hspec] at hline
  exact applySpec_idle_iff hblock hs hline herrors

variable {depth : ℕ}

/-- **When the layout of an accepted line does not matter**: it has no `%data` and no `%include`; or
it has a `%data` that may be dropped; or it includes a file that changes nothing. -/
theorem layoutLaw_iff (hblock : 0 < env.memAllocBlockSz) (hs : s.result.toDataArea.Allocated)
    (h : parseLine env filename lineno line includePaths (parseAsmInto env includePaths depth) s =
      .ok s')
    (herrors : s'.result.errors = s.result.errors) :
    LayoutLaw env filename lineno includePaths (parseAsmInto env includePaths depth) line s s' ↔
      IsPlain line ∨ DataLineIdle env filename lineno includePaths line s ∨
        IncludeIdle env filename includePaths depth line s := by
  by_cases hplain : IsPlain line
  · exact iff_of_true (layoutLaw_plain h hplain) (.inl hplain)
  rw [layoutLaw_directive h herrors hplain, or_iff_right hplain]
  by_cases hdata : "%data".toList.isPrefixOf line = true
  · have hno : ¬ IncludeIdle env filename includePaths depth line s := by
      rintro ⟨filepath, es, hincluded, -⟩
      exact not_included_of_data hdata hincluded
    rw [or_iff_left hno]
    constructor
    · rintro ⟨hsame, hinside⟩
      obtain ⟨spec, hspec, hends⟩ := hinside hdata
      have hline := directive_tails h herrors hplain hinside harmless_nil
      rw [List.append_nil] at hline
      exact ⟨hdata, spec, hspec, hends,
        (dataLine_idle_iff hblock hs hdata hspec hline herrors).1 hsame⟩
    · rintro ⟨-, spec, hspec, hends, hidle⟩
      have hinside : "%data".toList.isPrefixOf line = true → SpecInside (chomp line) :=
        fun _ => ⟨spec, hspec, hends⟩
      have hline := directive_tails h herrors hplain hinside harmless_nil
      rw [List.append_nil] at hline
      exact ⟨(dataLine_idle_iff hblock hs hdata hspec hline herrors).2 hidle, hinside⟩
  · have hincl : "%include".toList.isPrefixOf line = true := by
      by_contra hincl
      exact hplain ⟨hdata, hincl⟩
    have hlen : 9 ≤ line.length := by
      have hchomp := congrArg List.length (chomp_newline line)
      rw [List.length_append] at hchomp
      have hle := include_accepted h herrors hincl
      omega
    rw [parseLine_directive _ _ _ _ _ _ (isDirective_of_isPrefixOf hincl), parsePreprocLine,
      if_neg hdata, if_pos hincl] at h
    rw [parsePreprocInclude_idle_iff hlen hincl h herrors, or_iff_right fun hidle => hdata hidle.1]
    exact and_iff_left fun h' => absurd h' hdata

end Directives

/-- A label, in a parser that has not read anything. -/
theorem layoutLaw_iff_label :
    LayoutLaw noFiles ⟨0, []⟩ 1 [] (parseAsmInto noFiles [] 1) "a:\n".toList
        (initParse false : Prs stableTable) ((initParse false).addLabel ⟨0, []⟩ 1 "a".toList 0 false) ↔
      IsPlain "a:\n".toList ∨
        DataLineIdle noFiles ⟨0, []⟩ 1 [] "a:\n".toList (initParse false : Prs stableTable) ∨
          IncludeIdle noFiles ⟨0, []⟩ [] 1 "a:\n".toList (initParse false : Prs stableTable) :=
  layoutLaw_iff (by decide) (grown_init 1 false).allocated (by rfl) (by rfl)

/-- The state behind a line of the file `a.asm`. -/
def lineResult (text : String) : Except PrsFault (Prs stableTable) :=
  parseLine dataEnv ⟨0, "a.asm".toList⟩ 1 text.toList [".".toList] (fun _ s => .ok s)
    (initParse false)

/-- Blanks before a `%data` line, a comment directly behind it, or no newline: each of them makes a
difference. -/
theorem layout_matters : ∃ s', lineResult "%data 0x1\n" = .ok s' ∧ s'.result.errors = 0 ∧
    ¬ LayoutLaw dataEnv ⟨0, "a.asm".toList⟩ 1 [".".toList] (fun _ s => .ok s) "%data 0x1\n".toList
      (initParse false : Prs stableTable) s' ∧
    lineResult "%data 0x1;c\n" ≠ .ok s' ∧ lineResult "%data 0x1" ≠ .ok s' := by
  have hline : dataResult (lineResult "%data 0x1\n") = some ([1], 0) := by rfl
  have hblank : dataResult (lineResult " %data 0x1\n") = some ([], 0) := by rfl
  have hcomment : dataResult (lineResult "%data 0x1;c\n") = some ([1], 1) := by rfl
  have hnewline : dataResult (lineResult "%data 0x1") = some ([], 1) := by rfl
  obtain ⟨s', hs', -, herrors⟩ := exists_of_dataResult hline
  refine ⟨s', hs', herrors, ?_, ?_, ?_⟩
  · intro hlaw
    have heq : lineResult " %data 0x1\n" = .ok s' :=
      hlaw _ (.blanks [' '] (forall_mem_of_all (by decide)))
    rw [heq, ← hs', hline] at hblank
    cases hblank
  · intro heq
    rw [heq, ← hs', hline] at hcomment
    cases hcomment
  · intro heq
    rw [heq, ← hs', hline] at hnewline
    cases hnewline

end BvgzVm
