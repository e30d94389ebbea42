import BvgzVm.Asm.DataLayout
import BvgzVm.Asm.Tokens
import Mathlib.Data.List.TakeWhile

set_option autoImplicit false

/-! # The tokens of a directive

`parse_preproc_data` works on indices into the line and ends each token by storing a terminator
behind it. Its effect depends on the text alone: this file reads the label, the data and the options
off the text behind `%data` (`readSpec`), and a directive does with them what
`parsePreprocData_eq` says.
-/

namespace BvgzVm

open CLib Fallible

variable {T : InstnTable}

/-! ## Buffers -/

theorem isspace_nul : isspace nul = false := by decide

section Buffers

variable {buf : CStr} {i : ℕ}

theorem charAt_eq (h : i ≤ buf.length) : charAt buf i = some ((buf.drop i).headD nul) := by
  unfold charAt
  rcases Nat.lt_or_eq_of_le h with hlt | rfl
  · rw [List.getElem?_append_left hlt, List.headD_eq_head?_getD, List.head?_drop,
      List.getElem?_eq_getElem hlt]
    rfl
  · simp

theorem strAt_eq (h : i ≤ buf.length) :
    strAt buf i = some ((buf.drop i).takeWhile (· ≠ nul)) := if_pos h

theorem skipWhile_eq (f : Char → Bool) (h : i ≤ buf.length) :
    skipWhile f buf i =
      some (i + ((buf.drop i).takeWhile (fun c => c ≠ nul && f c)).length) := if_pos h

/-- Where the next token starts. -/
def tokenStart (line : CStr) (token : ℕ) : ℕ :=
  token + ((line.drop token).takeWhile isspace).length

theorem skipWhile_space (h : i ≤ buf.length) :
    skipWhile isspace buf i = some (tokenStart buf i) := by
  rw [skipWhile_eq isspace h, tokenStart]
  have hfun : (fun c : Char => decide (c ≠ nul) && isspace c) = isspace := by
    funext c
    by_cases hc : c = nul
    · rw [hc, isspace_nul, Bool.and_false]
    · simp [hc]
  rw [hfun]

theorem setChar_nul (h : i ≤ buf.length) : setChar buf i nul = some (buf.set i nul) := by
  rcases Nat.lt_or_eq_of_le h with hlt | heq
  · exact if_pos (Or.inl hlt)
  · exact if_pos (Or.inr ⟨heq, rfl⟩)

/-- A text with a terminator stored behind its first part. -/
theorem takeWhile_set {w : CStr} (hw : ∀ c ∈ w, c ≠ nul) (rest : CStr) :
    ((w ++ rest).set w.length nul).takeWhile (· ≠ nul) = w := by
  rw [List.set_append_right _ _ le_rfl, Nat.sub_self]
  rw [List.takeWhile_append_of_pos (by simpa using hw)]
  cases rest with
  | nil => simp
  | cons c rest => simp

end Buffers

/-- Two texts with a common start, and a terminator in it. -/
theorem takeWhile_eq_of_take {f : Char → Bool} {k : ℕ} {text text' : CStr}
    (h : text'.take k = text.take k) (hk : (text.takeWhile f).length < k) :
    text'.takeWhile f = text.takeWhile f := by
  induction k generalizing text text' with
  | zero => exact absurd hk (Nat.not_lt_zero _)
  | succ k ih =>
      cases text with
      | nil =>
          cases text' with
          | nil => rfl
          | cons c' text' => simp at h
      | cons c text =>
          cases text' with
          | nil => simp at h
          | cons c' text' =>
              rw [List.take_succ_cons, List.take_succ_cons, List.cons.injEq] at h
              rw [h.1]
              rw [List.takeWhile_cons] at hk
              rw [List.takeWhile_cons, List.takeWhile_cons]
              by_cases hc : f c = true
              · rw [if_pos hc] at hk ⊢
                rw [if_pos hc, ih h.2 (Nat.lt_of_succ_lt_succ hk)]
              · rw [if_neg hc, if_neg hc]

/-- The string at an index whose end is not changed. -/
theorem strAt_of_take {buf buf' w : CStr} {i n : ℕ} (hlen : buf'.length = buf.length)
    (htake : buf'.take n = buf.take n) (hw : strAt buf i = some w) (hn : i + w.length < n) :
    strAt buf' i = some w := by
  unfold strAt at hw ⊢
  split at hw
  case isFalse => cases hw
  case isTrue hi =>
    obtain rfl := Option.some.inj hw
    rw [if_pos (by omega)]
    refine congrArg some (takeWhile_eq_of_take (k := n - i) ?_ ?_)
    · rw [← List.drop_take, ← List.drop_take, htake]
    · omega

/-! ## `NEXT_TOKEN` -/

/-- The characters of a token. -/
def isTokenChar (c : Char) : Bool := c ≠ nul && (!isspace c && c ≠ ';')

/-- The token a text starts with, behind its blanks. -/
def tokenOf (text : CStr) : CStr := (text.dropWhile isspace).takeWhile isTokenChar

/-- What follows this token. -/
def behindToken (text : CStr) : CStr := (text.dropWhile isspace).dropWhile isTokenChar

theorem tokenOf_append (text : CStr) :
    tokenOf text ++ behindToken text = text.dropWhile isspace := List.takeWhile_append_dropWhile

theorem tokenOf_ne_nul {text : CStr} {c : Char} (hc : c ∈ tokenOf text) : c ≠ nul := by
  intro heq
  have htoken : isTokenChar c = true := List.mem_takeWhile_imp hc
  rw [heq] at htoken
  exact absurd htoken (by decide)

theorem dropWhile_length (f : Char → Bool) (text : CStr) :
    text.drop (text.takeWhile f).length = text.dropWhile f := by
  have hdrop : (text.takeWhile f ++ text.dropWhile f).drop (text.takeWhile f).length =
      text.dropWhile f := List.drop_left
  rwa [List.takeWhile_append_dropWhile] at hdrop

section NextToken

variable {line : CStr} {token : ℕ}

/-- Where the next token ends. -/
def tokenEnd (line : CStr) (token : ℕ) : ℕ :=
  tokenStart line token + (tokenOf (line.drop token)).length

theorem drop_tokenStart : line.drop (tokenStart line token) =
    (line.drop token).dropWhile isspace := by
  rw [tokenStart, ← List.drop_drop, dropWhile_length]

theorem drop_tokenEnd : line.drop (tokenEnd line token) = behindToken (line.drop token) := by
  rw [tokenEnd, ← List.drop_drop, drop_tokenStart]
  exact dropWhile_length ..

theorem tokenStart_le (h : token ≤ line.length) : tokenStart line token ≤ line.length := by
  have hle := (List.takeWhile_prefix isspace (l := line.drop token)).length_le
  rw [List.length_drop] at hle
  unfold tokenStart
  omega

theorem tokenEnd_le (h : token ≤ line.length) : tokenEnd line token ≤ line.length := by
  have hle : (tokenOf (line.drop token)).length ≤ (line.drop (tokenStart line token)).length := by
    rw [drop_tokenStart]
    exact (List.takeWhile_prefix _).length_le
  rw [List.length_drop] at hle
  have := tokenStart_le h
  unfold tokenEnd
  omega

/-- **`NEXT_TOKEN`** finds the token of the text, and stores a terminator behind it. -/
theorem nextToken_eq (required : Bool) (h : token ≤ line.length) :
    nextToken required token line =
      if required = true ∧ (tokenOf (line.drop token) = [] ∨
          (behindToken (line.drop token)).headD nul = nul) then .ok none
      else .ok (some ⟨tokenStart line token, tokenEnd line token,
        if ((line.drop token).dropWhile isspace).headD nul = ';' then nul
          else (behindToken (line.drop token)).headD nul,
        line.set (tokenEnd line token) nul⟩) := by
  have hstart := tokenStart_le h
  have hend := tokenEnd_le h
  have hskip : skipWhile (fun c => !isspace c && c ≠ ';') line (tokenStart line token) =
      some (tokenEnd line token) := by
    rw [skipWhile_eq _ hstart, drop_tokenStart]
    rfl
  have hfirst := charAt_eq hstart
  have hlast := charAt_eq hend
  rw [drop_tokenStart] at hfirst
  rw [drop_tokenEnd] at hlast
  have hempty : tokenStart line token = tokenEnd line token ↔ tokenOf (line.drop token) = [] := by
    unfold tokenEnd
    rw [← List.length_eq_zero_iff]
    omega
  unfold nextToken
  rw [skipWhile_space h]
  simp only [onLine, ok_bind]
  rw [hskip]
  simp only [ok_bind, hlast]
  have hcond : (required && (decide (tokenStart line token = tokenEnd line token) ||
      decide ((behindToken (line.drop token)).headD nul = nul))) = true ↔
      required = true ∧ (tokenOf (line.drop token) = [] ∨
        (behindToken (line.drop token)).headD nul = nul) := by
    simp only [Bool.and_eq_true, Bool.or_eq_true, decide_eq_true_eq, hempty]
  by_cases hnone : required = true ∧ (tokenOf (line.drop token) = [] ∨
      (behindToken (line.drop token)).headD nul = nul)
  · rw [if_pos (hcond.2 hnone), if_pos hnone]
  · rw [if_neg (fun hc => hnone (hcond.1 hc)), if_neg hnone, hfirst]
    simp only [ok_bind]
    by_cases hcomment : ((line.drop token).dropWhile isspace).headD nul = ';'
    · -- a `;` is an empty token: both stores are at the same place
      have hsame : tokenStart line token = tokenEnd line token := by
        refine hempty.2 ?_
        unfold tokenOf
        cases htext : (line.drop token).dropWhile isspace with
        | nil => rfl
        | cons c text =>
            rw [htext] at hcomment
            obtain rfl : c = ';' := hcomment
            rfl
      have hlen : tokenEnd line token ≤ (line.set (tokenEnd line token) nul).length := by
        rwa [List.length_set]
      have hhead : ((line.drop (tokenEnd line token)).set 0 nul).headD nul = nul := by
        cases line.drop (tokenEnd line token) with
        | nil => rfl
        | cons c text => rfl
      have hnul : charAt (line.set (tokenEnd line token) nul) (tokenEnd line token) = some nul := by
        rw [charAt_eq hlen, List.drop_set, if_neg (lt_irrefl _), Nat.sub_self, hhead]
      rw [if_pos hcomment, if_pos hcomment, setChar_nul hstart, hsame]
      simp only [ok_bind]
      rw [hnul]
      simp only [ok_bind]
      rw [setChar_nul hlen, List.set_set]
      simp only [ok_bind]
    · rw [if_neg hcomment, if_neg hcomment]
      rw [setChar_nul hend]
      simp only [ok_bind]

/-- The text behind the terminator. -/
theorem drop_set_tokenEnd (line : CStr) (token : ℕ) :
    (line.set (tokenEnd line token) nul).drop (tokenEnd line token + 1) =
      (behindToken (line.drop token)).tail := by
  rw [List.drop_set_of_lt (Nat.lt_succ_self _)]
  show line.drop (tokenEnd line token + 1) = _
  rw [← List.drop_drop, drop_tokenEnd, List.drop_one]

/-- The token, from its character `k` on. -/
theorem strAt_token (h : token ≤ line.length) {k : ℕ} (hk : k ≤ (tokenOf (line.drop token)).length) :
    strAt (line.set (tokenEnd line token) nul) (tokenStart line token + k) =
      some ((tokenOf (line.drop token)).drop k) := by
  have hend : tokenStart line token + k ≤ tokenEnd line token := Nat.add_le_add_left hk _
  have hle := tokenEnd_le h
  rw [strAt_eq (by rw [List.length_set]; omega), List.drop_set, if_neg (Nat.not_lt.2 hend),
    ← List.drop_drop, drop_tokenStart, ← tokenOf_append, List.drop_append_of_le_length hk]
  have hlen : tokenEnd line token - (tokenStart line token + k) =
      ((tokenOf (line.drop token)).drop k).length := by
    rw [List.length_drop, tokenEnd]
    omega
  rw [hlen, takeWhile_set (fun c hc => tokenOf_ne_nul (List.mem_of_mem_drop hc))]

/-- Its first character, or the terminator of an empty token. -/
theorem charAt_token (h : token ≤ line.length) :
    charAt (line.set (tokenEnd line token) nul) (tokenStart line token) =
      some ((tokenOf (line.drop token)).headD nul) := by
  have hstr := strAt_token h (Nat.zero_le _)
  have hstart := tokenStart_le h
  have hlen : tokenStart line token ≤ (line.set (tokenEnd line token) nul).length := by
    rwa [List.length_set]
  rw [Nat.add_zero, List.drop_zero, strAt_eq hlen] at hstr
  rw [charAt_eq hlen, ← Option.some.inj hstr]
  cases (line.set (tokenEnd line token) nul).drop (tokenStart line token) with
  | nil => rfl
  | cons c text =>
      by_cases hc : c = nul
      · simp [hc]
      · simp [hc]

end NextToken

/-! ## Options -/

/-- The tokens of the text of the options, `w` being the start of the first of them, and whether
the line goes on behind the last of them. -/
def optionTokens : CStr → CStr → List CStr × Bool
  | w, [] => if w = [] then ([], true) else ([w], false)
  | w, c :: text =>
      if isTokenChar c then optionTokens (w ++ [c]) text
      else if w ≠ [] then (w :: (optionTokens [] text).1, (optionTokens [] text).2)
      else if isspace c then optionTokens [] text
      else ([], true)

theorem optionTokens_blanks (text : CStr) :
    optionTokens [] (text.dropWhile isspace) = optionTokens [] text := by
  induction text with
  | nil => rfl
  | cons c text ih =>
      by_cases hc : isspace c = true
      · have htoken : isTokenChar c = false := by simp [isTokenChar, hc]
        rw [List.dropWhile_cons_of_pos hc, ih, optionTokens, htoken]
        simp [hc]
      · rw [List.dropWhile_cons_of_neg hc]

/-- The text behind the character that ends a token, unless the line ends there. -/
def textBehind : CStr → Option CStr
  | [] => none
  | _ :: rest => some rest

/-- The tokens of a text that may start outside the line. -/
def tokensFrom : Option CStr → List CStr × Bool
  | none => ([], false)
  | some text => optionTokens [] text

theorem optionTokens_word {w : CStr} (hw : w ≠ []) (text : CStr) :
    optionTokens w text =
      ((w ++ text.takeWhile isTokenChar) ::
          (tokensFrom (textBehind (text.dropWhile isTokenChar))).1,
        (tokensFrom (textBehind (text.dropWhile isTokenChar))).2) := by
  induction text generalizing w with
  | nil => simp [optionTokens, hw, textBehind, tokensFrom]
  | cons c text ih =>
      rw [optionTokens]
      by_cases hc : isTokenChar c = true
      · rw [if_pos hc, ih (by simp), List.dropWhile_cons_of_pos hc, List.takeWhile_cons_of_pos hc]
        simp only [List.append_assoc, List.singleton_append]
      · rw [if_neg hc, if_pos hw, List.dropWhile_cons_of_neg hc, List.takeWhile_cons_of_neg hc,
          List.append_nil]
        rfl

/-- **The tokens, one by one.** -/
theorem optionTokens_eq (text : CStr) :
    optionTokens [] text =
      if tokenOf text = [] then ([], true)
      else (tokenOf text :: (tokensFrom (textBehind (behindToken text))).1,
        (tokensFrom (textBehind (behindToken text))).2) := by
  rw [← optionTokens_blanks]
  unfold tokenOf behindToken
  cases htext : text.dropWhile isspace with
  | nil => simp [optionTokens]
  | cons c rest =>
      have hc : isspace c = false := by
        have hhead := List.head?_dropWhile_not isspace text
        rw [htext] at hhead
        exact hhead
      rw [optionTokens]
      by_cases htoken : isTokenChar c = true
      · rw [if_pos htoken, List.nil_append, optionTokens_word (List.cons_ne_nil c []),
          List.takeWhile_cons_of_pos htoken, List.dropWhile_cons_of_pos htoken,
          if_neg (List.cons_ne_nil _ _)]
        rfl
      · rw [if_neg htoken, List.takeWhile_cons_of_neg htoken, if_pos rfl, if_neg (by simp), hc]
        simp

theorem optionTokens_ne_nil {c : Char} (h : isTokenChar c = true) (text : CStr) :
    (optionTokens [] (c :: text)).1 ≠ [] := by
  rw [optionTokens, if_pos h, List.nil_append, optionTokens_word (List.cons_ne_nil c [])]
  exact List.cons_ne_nil _ _

/-- A character that is left out changes nothing but in a token. -/
theorem tokensFrom_textBehind {text : CStr} (h : (optionTokens [] text).1 ≠ []) :
    tokensFrom (textBehind text) = optionTokens [] text ↔
      ∀ c, text.head? = some c → isTokenChar c = false := by
  cases text with
  | nil => exact absurd rfl h
  | cons c rest =>
      rw [optionTokens] at h ⊢
      by_cases hc : isTokenChar c = true
      · rw [if_pos hc]
        refine iff_of_false ?_ fun hother => ?_
        · -- the first word is longer, or there is one more
          intro heq
          rw [List.nil_append, optionTokens_word (List.cons_ne_nil c [])] at heq
          cases rest with
          | nil => cases heq
          | cons d rest =>
              rw [textBehind, tokensFrom, optionTokens] at heq
              by_cases hd : isTokenChar d = true
              · rw [if_pos hd, List.nil_append, optionTokens_word (List.cons_ne_nil d []),
                  List.takeWhile_cons_of_pos hd] at heq
                have hwords := congrArg (fun r : List CStr × Bool => r.1.head?.map List.length) heq
                simp at hwords
              · rw [if_neg hd, if_neg (by simp), List.takeWhile_cons_of_neg hd,
                  List.dropWhile_cons_of_neg hd] at heq
                have hcount := congrArg (fun r : List CStr × Bool => r.1.length) heq
                by_cases hspace : isspace d = true
                · simp [hspace, textBehind, tokensFrom] at hcount
                · simp [hspace] at hcount
        · rw [hother c rfl] at hc
          cases hc
      · rw [if_neg hc, if_neg (by simp)] at h ⊢
        by_cases hspace : isspace c = true
        · rw [if_pos hspace]
          refine iff_of_true rfl ?_
          rintro c' ⟨⟩
          exact Bool.not_eq_true _ ▸ hc
        · rw [if_neg hspace] at h
          exact absurd rfl h

/-- The loop over the options, on their tokens. -/
def readOptions (filename : FileName) (lineno : UInt32) (inside : Bool) :
    List CStr → DataOptions → Prs T → Except PrsFault (DataOptions × Prs T)
  | [], o, s => if inside then .ok (o, s) else .error .lineAccess
  | (':' :: number) :: ws, o, s =>
      readOptions filename lineno inside ws (offsetOption filename lineno number o s).1
        (offsetOption filename lineno number o s).2
  | ('/' :: number) :: ws, o, s =>
      readOptions filename lineno inside ws (sizeOption filename lineno number o s).1
        (sizeOption filename lineno number o s).2
  | w :: _, o, s => .ok (o, s.error filename lineno ("unexpected token: ".toList ++ w))

section DataOptions

variable {filename : FileName} {lineno : UInt32}

theorem dataOptions_outside {fuel token : ℕ} {line : CStr} (h : line.length < token)
    (o : DataOptions) (s : Prs T) :
    dataOptions filename lineno (fuel + 1) token line o s = .error .lineAccess := by
  have hskip : skipWhile isspace line token = none := if_neg (Nat.not_le.2 h)
  rw [dataOptions, nextToken, hskip]
  rfl

/-- A word that is not the end of the options. -/
theorem readOptions_cons (inside : Bool) (c : Char) (w : CStr) (ws : List CStr) (o : DataOptions)
    (s : Prs T) :
    readOptions filename lineno inside ((c :: w) :: ws) o s =
      if c = ':' then
        readOptions filename lineno inside ws (offsetOption filename lineno w o s).1
          (offsetOption filename lineno w o s).2
      else if c = '/' then
        readOptions filename lineno inside ws (sizeOption filename lineno w o s).1
          (sizeOption filename lineno w o s).2
      else .ok (o, s.error filename lineno ("unexpected token: ".toList ++ c :: w)) := by
  by_cases hoffset : c = ':'
  · rw [if_pos hoffset, hoffset, readOptions]
  · rw [if_neg hoffset]
    by_cases hsize : c = '/'
    · rw [if_pos hsize, hsize, readOptions]
    · rw [if_neg hsize, readOptions]
      · rintro number ⟨⟩
        exact hoffset rfl
      · rintro number ⟨⟩
        exact hsize rfl

/-- **The loop over the options** reads the tokens of the text, and changes nothing before it. The
induction is on the rounds. -/
theorem dataOptions_eq (filename : FileName) (lineno : UInt32) (fuel : ℕ) {token : ℕ} {line : CStr}
    (htoken : token ≤ line.length)
    (hfuel : line.length - token < fuel) (o : DataOptions) (s : Prs T) :
    ∃ line' : CStr, line'.length = line.length ∧ line'.take token = line.take token ∧
      dataOptions filename lineno fuel token line o s =
        (readOptions filename lineno (optionTokens [] (line.drop token)).2
          (optionTokens [] (line.drop token)).1 o s).map (fun r => (line', r.1, r.2)) := by
  induction fuel generalizing token line o s with
  | zero => exact absurd hfuel (Nat.not_lt_zero _)
  | succ fuel ih =>
      have hend := tokenEnd_le htoken
      have hstart : token ≤ tokenStart line token := Nat.le_add_right _ _
      have hle : tokenStart line token ≤ tokenEnd line token := Nat.le_add_right _ _
      have hset : (line.set (tokenEnd line token) nul).length = line.length := List.length_set
      have htake : (line.set (tokenEnd line token) nul).take token = line.take token :=
        List.take_set_of_le (Nat.le_trans hstart hle)
      rw [dataOptions, nextToken_eq false htoken, if_neg (by simp)]
      simp only [ok_bind]
      rw [charAt_token htoken, optionTokens_eq]
      simp only [onLine, ok_bind]
      cases hword : tokenOf (line.drop token) with
      | nil =>
          refine ⟨line.set (tokenEnd line token) nul, hset, htake, ?_⟩
          rw [List.headD_nil, if_pos rfl, if_pos rfl]
          rfl
      | cons c w =>
          have hnul : c ≠ nul := tokenOf_ne_nul (hword ▸ List.mem_cons_self)
          have hlen : tokenEnd line token = tokenStart line token + (w.length + 1) := by
            rw [tokenEnd, hword, List.length_cons]
          have hnumber := strAt_token htoken (k := 1) (by simp [hword])
          have htext := strAt_token htoken (k := 0) (Nat.zero_le _)
          rw [hword, List.drop_one, List.tail_cons] at hnumber
          rw [hword, Nat.add_zero, List.drop_zero] at htext
          rw [List.headD_cons, if_neg hnul, if_neg (List.cons_ne_nil c w), hnumber, htext]
          -- what the loop does from the next token on
          have hnext : ∀ (o : DataOptions) (s : Prs T), ∃ line' : CStr,
              line'.length = line.length ∧ line'.take token = line.take token ∧
              dataOptions filename lineno fuel (tokenEnd line token + 1)
                  (line.set (tokenEnd line token) nul) o s =
                (readOptions filename lineno
                    (tokensFrom (textBehind (behindToken (line.drop token)))).2
                    (tokensFrom (textBehind (behindToken (line.drop token)))).1 o s).map
                  (fun r => (line', r.1, r.2)) := by
            intro o s
            cases hbehind : behindToken (line.drop token) with
            | nil =>
                refine ⟨line, rfl, rfl, ?_⟩
                obtain ⟨fuel, rfl⟩ : ∃ n, fuel = n + 1 := ⟨fuel - 1, by omega⟩
                have hlast : line.length ≤ tokenEnd line token := by
                  rw [← List.drop_eq_nil_iff, drop_tokenEnd, hbehind]
                rw [dataOptions_outside (by omega)]
                rfl
            | cons c' rest =>
                have hlt : tokenEnd line token < line.length := by
                  refine Nat.lt_of_not_le fun hge => ?_
                  rw [← List.drop_eq_nil_iff, drop_tokenEnd, hbehind] at hge
                  cases hge
                have hnext : tokenEnd line token + 1 ≤
                    (line.set (tokenEnd line token) nul).length := by omega
                rcases ih hnext (by omega) o s with ⟨line', hlen', htake', heq⟩
                refine ⟨line', hlen'.trans hset, ?_, ?_⟩
                · calc line'.take token
                      = (line'.take (tokenEnd line token + 1)).take token := by
                        rw [List.take_take, Nat.min_eq_left (by omega)]
                    _ = (line.set (tokenEnd line token) nul).take token := by
                        rw [htake', List.take_take, Nat.min_eq_left (by omega)]
                    _ = line.take token := htake
                · rw [heq, drop_set_tokenEnd, hbehind]
                  rfl
          simp only [ok_bind, readOptions_cons]
          by_cases hoffset : c = ':'
          · simp only [if_pos hoffset]
            exact hnext _ _
          · by_cases hsize : c = '/'
            · simp only [if_neg hoffset, if_pos hsize]
              exact hnext _ _
            · simp only [if_neg hoffset, if_neg hsize]
              exact ⟨line.set (tokenEnd line token) nul, hset, htake, rfl⟩

end DataOptions

/-! ## The head of a directive -/

/-- The label and the data of a directive, and the text of its options; the latter is missing if the
line ends before it. -/
structure DataSpec where
  label : Option CStr
  data : CStr
  options : Option CStr

/-- A token that is required, and what follows it. -/
def requiredToken (text : CStr) : Option (CStr × CStr) :=
  if tokenOf text = [] ∨ (behindToken text).headD nul = nul then none
  else some (tokenOf text, behindToken text)

/-- A string literal ends where `parse_string_literal` says. -/
def readData (label : Option CStr) (token behind : CStr) : DataSpec :=
  if token.headD nul = '"' then
    let text := token.drop 1 ++ behind
    ⟨label, '"' :: text.take (stringLiteralEnd nul text),
      textBehind (text.drop (stringLiteralEnd nul text))⟩
  else ⟨label, token, textBehind behind⟩

/-- The label, the first token of the data and what follows it. -/
def readHead (text : CStr) : Option (Option CStr × CStr × CStr) := do
  let (token, behind) ← requiredToken text
  if token.headD nul = '@' then
    let (token', behind') ← requiredToken (behind.drop 1)
    some (some (token.drop 1), token', behind')
  else some (none, token, behind)

/-- What the text behind `%data` specifies. -/
def readSpec (text : CStr) : Option DataSpec :=
  (readHead text).map (fun head => readData head.1 head.2.1 head.2.2)

/-- The head of a directive, on the line, is the one that its text specifies, whatever is stored
behind it. -/
structure DataHead.Reads (h : DataHead) (spec : DataSpec) : Prop where
  label : ∀ line' : CStr, line'.length = h.line.length →
    line'.take h.next = h.line.take h.next → dataLabel line' h.label = .ok spec.label
  data : ∀ line' : CStr, line'.length = h.line.length →
    line'.take h.next = h.line.take h.next → strAt line' h.data = some spec.data
  options : (h.next ≤ h.line.length ∧ spec.options = some (h.line.drop h.next)) ∨
    (h.line.length < h.next ∧ spec.options = none)

/-- The tokens that are read as options. -/
def DataHead.tokens (h : DataHead) : List CStr × Bool :=
  tokensFrom (if h.next ≤ h.line.length then some (h.line.drop h.next) else none)

theorem DataHead.Reads.tokens_eq {h : DataHead} {spec : DataSpec} (hreads : h.Reads spec) :
    h.tokens = tokensFrom spec.options := by
  unfold DataHead.tokens
  rcases hreads.options with ⟨hle, hoptions⟩ | ⟨hlt, hoptions⟩
  · rw [if_pos hle, hoptions]
  · rw [if_neg (Nat.not_le.2 hlt), hoptions]

/-- Where the data are in the line, and where the options start behind a literal. -/
structure DataHead.Finds (h : DataHead) (line : CStr) (token behind : CStr) : Prop where
  text : line.drop h.data = token ++ behind
  next : token.headD nul = '"' →
    h.next = h.data + 1 + stringLiteralEnd nul (line.drop (h.data + 1)) + 1

theorem stringLiteralEnd_le (prev : Char) (text : CStr) :
    stringLiteralEnd prev text ≤ text.length := by
  induction text generalizing prev with
  | nil => exact le_rfl
  | cons c text ih =>
      rw [stringLiteralEnd, List.length_cons]
      have := ih c
      split
      · omega
      · split
        · omega
        · omega

theorem stringLiteralEnd_ne_nul (prev : Char) (text : CStr) :
    ∀ c ∈ text.take (stringLiteralEnd prev text), c ≠ nul := by
  induction text generalizing prev with
  | nil =>
      intro c hc
      simp at hc
  | cons c text ih =>
      rw [stringLiteralEnd]
      by_cases hnul : c = nul
      · rw [if_pos hnul, List.take_zero]
        intro c' hc'
        cases hc'
      · rw [if_neg hnul]
        intro c' hc'
        split at hc'
        · rw [List.take_succ_cons, List.take_zero, List.mem_singleton] at hc'
          rwa [hc']
        · rw [List.take_succ_cons] at hc'
          rcases List.mem_cons.1 hc' with rfl | hmem
          · exact hnul
          · exact ih c c' hmem

/-- What follows a terminator at `i`, or the text behind the end. -/
theorem textBehind_drop (line : CStr) (i : ℕ) (hi : i ≤ line.length) :
    (i + 1 ≤ (line.set i nul).length ∧
        textBehind (line.drop i) = some ((line.set i nul).drop (i + 1))) ∨
      ((line.set i nul).length < i + 1 ∧ textBehind (line.drop i) = none) := by
  rw [List.length_set, List.drop_set_of_lt (Nat.lt_succ_self i)]
  rcases Nat.lt_or_eq_of_le hi with hlt | rfl
  · refine Or.inl ⟨hlt, ?_⟩
    rw [List.drop_eq_getElem_cons hlt]
    rfl
  · refine Or.inr ⟨Nat.lt_succ_self _, ?_⟩
    rw [List.drop_length]
    rfl

section Head

variable {line : CStr} {token : ℕ}

/-- The end of `dataHead`. -/
def headData (label : Option ℕ) (t : DataTokens) : Except PrsFault (Option DataHead) := do
  let quote ← onLine (charAt t.line t.token)
  if quote = '"' then do
    let line ← onLine (setChar t.line t.p t.pValue)
    let (p, line) ← parseStringLiteral t.token line
    .ok (some ⟨label, t.token, p + 1, line⟩)
  else .ok (some ⟨label, t.token, t.p + 1, t.line⟩)

theorem dataHead_eq (line : CStr) : dataHead line = (do
    match ← nextToken true 6 line with
    | none => .ok none
    | some t => do
        let first ← onLine (charAt t.line t.token)
        if first = '@' then do
          match ← nextToken true (t.p + 1) t.line with
          | none => .ok none
          | some u => headData (some t.token) u
        else headData none t) := by
  unfold dataHead headData
  refine congrArg (nextToken true 6 line >>= ·) (funext fun t => ?_)
  cases t with
  | none => rfl
  | some t =>
      refine congrArg (onLine (charAt t.line t.token) >>= ·) (funext fun first => ?_)
      by_cases hlabel : first = '@'
      · simp only [if_pos hlabel]
        refine congrArg (nextToken true (t.p + 1) t.line >>= ·) (funext fun u => ?_)
        cases u with
        | none => rfl
        | some u => rfl
      · simp only [if_neg hlabel]
        rfl

/-- The token of a text that starts with one. -/
theorem dropWhile_token {text : CStr} (h : tokenOf text ≠ []) :
    (text.dropWhile isspace).headD nul ≠ ';' := by
  intro hcomment
  refine h ?_
  unfold tokenOf
  cases htext : text.dropWhile isspace with
  | nil => rfl
  | cons c text =>
      rw [htext] at hcomment
      obtain rfl : c = ';' := hcomment
      rfl

theorem nextToken_true (h : token ≤ line.length) :
    nextToken true token line = .ok ((requiredToken (line.drop token)).map (fun _ =>
      ⟨tokenStart line token, tokenEnd line token, (behindToken (line.drop token)).headD nul,
        line.set (tokenEnd line token) nul⟩)) := by
  rw [nextToken_eq true h, requiredToken]
  by_cases hnone : tokenOf (line.drop token) = [] ∨
      (behindToken (line.drop token)).headD nul = nul
  · rw [if_pos ⟨rfl, hnone⟩, if_pos hnone]
    rfl
  · rw [if_neg (fun hc => hnone hc.2), if_neg hnone,
      if_neg (dropWhile_token (fun hempty => hnone (Or.inl hempty)))]
    rfl

/-- What is in front of an index stays. -/
theorem take_of_set {line line' : CStr} {i n m : ℕ} (h : line'.take n = (line.set i nul).take n)
    (hm : m ≤ i) (hn : m ≤ n) : line'.take m = line.take m := by
  calc line'.take m
      = (line'.take n).take m := by rw [List.take_take, Nat.min_eq_left hn]
    _ = (line.set i nul).take m := by rw [h, List.take_take, Nat.min_eq_left hn]
    _ = line.take m := List.take_set_of_le hm

/-- **A head whose data end at `e`**, where the line is cut, is the one of the text before `e` and
the options behind it. -/
theorem reads_cut {label : Option ℕ} {spec : Option CStr} {start e : ℕ} {str : CStr}
    (hend : e ≤ line.length) (hstr : e = start + str.length)
    (htext : line.drop start = str ++ line.drop e) (hnul : ∀ c ∈ str, c ≠ nul)
    (hstart : token ≤ start)
    (hlabel : ∀ line' : CStr, line'.length = line.length → line'.take token = line.take token →
      dataLabel line' label = .ok spec) :
    DataHead.Reads ⟨label, start, e + 1, line.set e nul⟩
      ⟨spec, str, textBehind (line.drop e)⟩ where
  label := by
    intro line' hlength htake
    refine hlabel line' (hlength.trans List.length_set) (take_of_set htake ?_ ?_)
    · omega
    · show token ≤ e + 1
      omega
  data := by
    intro line' hlength htake
    have hcut : strAt (line.set e nul) start = some str := by
      rw [strAt_eq (by rw [List.length_set]; omega), List.drop_set, if_neg (by omega), htext,
        show e - start = str.length by omega]
      exact congrArg some (takeWhile_set hnul _)
    exact strAt_of_take hlength htake hcut (by rw [hstr]; exact Nat.lt_succ_self _)
  options := textBehind_drop line e hend

/-- Data that are no literal are the token. -/
theorem headData_token (label : Option ℕ) (htoken : token ≤ line.length)
    (hquote : (tokenOf (line.drop token)).headD nul ≠ '"') :
    headData label ⟨tokenStart line token, tokenEnd line token,
        (behindToken (line.drop token)).headD nul, line.set (tokenEnd line token) nul⟩ =
      .ok (some ⟨label, tokenStart line token, tokenEnd line token + 1,
        line.set (tokenEnd line token) nul⟩) := by
  unfold headData
  simp only [charAt_token htoken, onLine, ok_bind]
  rw [if_neg hquote]

/-- A literal goes on behind the token: the character there is put back. -/
theorem headData_literal (label : Option ℕ) (htoken : token ≤ line.length)
    (hbehind : (behindToken (line.drop token)).headD nul ≠ nul)
    (hquote : (tokenOf (line.drop token)).headD nul = '"') {e : ℕ}
    (he : e = tokenStart line token + 1 +
      stringLiteralEnd nul (line.drop (tokenStart line token + 1)))
    (hend : e ≤ line.length) :
    headData label ⟨tokenStart line token, tokenEnd line token,
        (behindToken (line.drop token)).headD nul, line.set (tokenEnd line token) nul⟩ =
      .ok (some ⟨label, tokenStart line token, e + 1, line.set e nul⟩) := by
  have hlt : tokenEnd line token < line.length := by
    refine Nat.lt_of_not_le fun hge => hbehind ?_
    rw [← drop_tokenEnd, List.drop_eq_nil_iff.2 hge]
    rfl
  have hback : setChar (line.set (tokenEnd line token) nul) (tokenEnd line token)
      ((behindToken (line.drop token)).headD nul) = some line := by
    rw [setChar, if_pos (Or.inl (by rwa [List.length_set])), List.set_set, ← drop_tokenEnd,
      List.drop_eq_getElem_cons hlt]
    exact congrArg some (List.set_getElem_self hlt)
  unfold headData
  simp only [charAt_token htoken, onLine, ok_bind]
  rw [if_pos hquote, hback]
  simp only [ok_bind, parseStringLiteral, ← he]
  rw [setChar_nul hend]
  rfl

/-- **The data** and what follows it. -/
theorem headData_reads {label : Option ℕ} {spec : Option CStr} (htoken : token ≤ line.length)
    (hbehind : (behindToken (line.drop token)).headD nul ≠ nul)
    (hlabel : ∀ line' : CStr, line'.length = line.length → line'.take token = line.take token →
      dataLabel line' label = .ok spec) :
    ∃ h, headData label ⟨tokenStart line token, tokenEnd line token,
        (behindToken (line.drop token)).headD nul, line.set (tokenEnd line token) nul⟩ =
          .ok (some h) ∧
      h.Reads (readData spec (tokenOf (line.drop token)) (behindToken (line.drop token))) ∧
      h.Finds line (tokenOf (line.drop token)) (behindToken (line.drop token)) ∧
      token ≤ h.data := by
  have hfrom : token ≤ tokenStart line token := Nat.le_add_right _ _
  have htext : line.drop (tokenStart line token) =
      tokenOf (line.drop token) ++ behindToken (line.drop token) := by
    rw [drop_tokenStart, tokenOf_append]
  unfold readData
  by_cases hquote : (tokenOf (line.drop token)).headD nul = '"'
  · rw [if_pos hquote]
    obtain ⟨w, hw⟩ : ∃ w, tokenOf (line.drop token) = '"' :: w := by
      cases hcons : tokenOf (line.drop token) with
      | nil =>
          rw [hcons] at hquote
          exact absurd hquote (by decide)
      | cons c w =>
          rw [hcons] at hquote
          exact ⟨w, by rw [show c = '"' from hquote]⟩
    have hrest : line.drop (tokenStart line token + 1) = w ++ behindToken (line.drop token) := by
      rw [← List.drop_drop, htext, hw]
      rfl
    have hle := stringLiteralEnd_le nul (line.drop (tokenStart line token + 1))
    have hlen := congrArg List.length htext
    rw [hw, List.cons_append, ← hrest, List.length_cons, List.length_drop, List.length_drop] at hlen
    rw [List.length_drop] at hle
    have hend : tokenStart line token + 1 +
        stringLiteralEnd nul (line.drop (tokenStart line token + 1)) ≤ line.length := by omega
    refine ⟨_, headData_literal label htoken hbehind hquote rfl hend, ?_,
      ⟨htext, fun _ => rfl⟩, hfrom⟩
    rw [hw, List.drop_one, List.tail_cons, ← hrest]
    dsimp only
    rw [List.drop_drop]
    refine reads_cut hend ?_ ?_ ?_ hfrom hlabel
    · rw [List.length_cons, List.length_take, List.length_drop, Nat.min_eq_left hle]
      omega
    · have hsplit := List.take_append_drop
        (stringLiteralEnd nul (line.drop (tokenStart line token + 1)))
        (line.drop (tokenStart line token + 1))
      rw [List.drop_drop] at hsplit
      rw [List.cons_append, hsplit, htext, hw, hrest]
      rfl
    · intro c hc
      rcases List.mem_cons.1 hc with rfl | hmem
      · decide
      · exact stringLiteralEnd_ne_nul nul _ c hmem
  · rw [if_neg hquote]
    refine ⟨_, headData_token label htoken hquote, ?_, ⟨htext, fun hc => absurd hc hquote⟩, hfrom⟩
    rw [← drop_tokenEnd]
    refine reads_cut (tokenEnd_le htoken) rfl ?_ (fun c hc => tokenOf_ne_nul hc) hfrom hlabel
    rw [drop_tokenEnd, htext]

/-- **The head of a directive is read off its text.** -/
theorem dataHead_reads (hlen : 6 ≤ line.length) :
    (dataHead line = .ok none ∧ readHead (line.drop 6) = none) ∨
      ∃ h label token behind, dataHead line = .ok (some h) ∧
        readHead (line.drop 6) = some (label, token, behind) ∧
        h.Reads (readData label token behind) ∧ h.Finds line token behind := by
  rw [dataHead_eq, nextToken_true hlen]
  unfold readHead
  by_cases hnone : tokenOf (line.drop 6) = [] ∨ (behindToken (line.drop 6)).headD nul = nul
  · rw [requiredToken, if_pos hnone]
    exact Or.inl ⟨rfl, rfl⟩
  · rw [requiredToken, if_neg hnone]
    rw [not_or] at hnone
    simp only [Option.map_some, ok_bind, charAt_token hlen, onLine, Option.bind_eq_bind,
      Option.bind_some]
    by_cases hat : (tokenOf (line.drop 6)).headD nul = '@'
    · rw [if_pos hat, if_pos hat]
      have hlt : tokenEnd line 6 < line.length := by
        refine Nat.lt_of_not_le fun hge => hnone.2 ?_
        rw [← drop_tokenEnd, List.drop_eq_nil_iff.2 hge]
        rfl
      have hnext : tokenEnd line 6 + 1 ≤ (line.set (tokenEnd line 6) nul).length := by
        rw [List.length_set]
        omega
      have hdrop := drop_set_tokenEnd line 6
      rw [nextToken_true hnext, hdrop, ← List.drop_one]
      generalize hbehind : (behindToken (line.drop 6)).drop 1 = behind at *
      by_cases hnone' : tokenOf behind = [] ∨ (behindToken behind).headD nul = nul
      · rw [requiredToken, if_pos hnone']
        exact Or.inl ⟨rfl, rfl⟩
      · rw [requiredToken, if_neg hnone']
        rw [not_or] at hnone'
        rw [← List.drop_one, hbehind] at hdrop
        simp only [Option.map_some, ok_bind, Option.bind_some]
        have hlabel : ∀ line' : CStr, line'.length = (line.set (tokenEnd line 6) nul).length →
            line'.take (tokenEnd line 6 + 1) =
              (line.set (tokenEnd line 6) nul).take (tokenEnd line 6 + 1) →
            dataLabel line' (some (tokenStart line 6)) =
              .ok (some ((tokenOf (line.drop 6)).drop 1)) := by
          intro line' hlength htake
          have hone : 1 ≤ (tokenOf (line.drop 6)).length := by
            rw [Nat.one_le_iff_ne_zero, Ne, List.length_eq_zero_iff]
            exact hnone.1
          have hstr := strAt_of_take hlength htake (strAt_token hlen hone) (by
            rw [List.length_drop, tokenEnd]
            omega)
          rw [dataLabel, hstr]
          rfl
        rcases headData_reads hnext (by rw [hdrop]; exact hnone'.2) hlabel
          with ⟨h, hh, hreads, hfinds, hfrom⟩
        rw [hdrop] at hh hreads hfinds
        refine Or.inr ⟨h, _, _, _, hh, rfl, hreads, ?_⟩
        -- the label is in front of the data
        have hsame : ∀ k, h.data ≤ k → (line.set (tokenEnd line 6) nul).drop k = line.drop k :=
          fun k hk => List.drop_set_of_lt (by omega)
        have htext := hfinds.text
        have hnext' := hfinds.next
        rw [hsame _ le_rfl] at htext
        rw [hsame _ (Nat.le_succ _)] at hnext'
        exact ⟨htext, hnext'⟩
    · rw [if_neg hat, if_neg hat]
      rcases @headData_reads line 6 none none hlen hnone.2 (fun _ _ _ => rfl)
        with ⟨h, hh, hreads, hfinds, -⟩
      exact Or.inr ⟨h, _, _, _, hh, rfl, hreads, hfinds⟩

end Head

theorem dataHead_short {line : CStr} (hlen : ¬ 6 ≤ line.length) :
    dataHead line = .error .lineAccess := by
  have hskip : skipWhile isspace line 6 = none := if_neg hlen
  rw [dataHead, nextToken, hskip]
  rfl

/-- What a directive does with its specification. -/
def applySpec (env : PrsEnv) (filename : FileName) (lineno : UInt32) (includePaths : List CStr)
    (spec : Option DataSpec) (s : Prs T) : Except PrsFault (Prs T) :=
  match spec with
  | none => .ok (s.error filename lineno incorrectSpecification)
  | some spec => do
      let (o, s) ← readOptions filename lineno (tokensFrom spec.options).2
        (tokensFrom spec.options).1 ⟨notGiven, notGiven⟩ s
      let (check, s) ← addData env filename lineno spec.label spec.data o includePaths s
      if check && s.result.memAlloc < s.result.memsz then .error .assertion else .ok s

/-- **A directive depends on its text alone.** -/
theorem parsePreprocData_eq (env : PrsEnv) (filename : FileName) (lineno : UInt32) {line : CStr}
    (hlen : 6 ≤ line.length) (includePaths : List CStr) (s : Prs T) :
    parsePreprocData env filename lineno line includePaths s =
      applySpec env filename lineno includePaths (readSpec (line.drop 6)) s := by
  unfold parsePreprocData readSpec
  rcases dataHead_reads hlen with ⟨hnone, hspec⟩ |
    ⟨h, label, token, behind, hsome, hspec, hreads, -⟩
  · rw [hnone, hspec]
    rfl
  · rw [hsome, hspec]
    simp only [ok_bind, Option.map_some, applySpec]
    rcases hreads.options with ⟨hle, htext⟩ | ⟨hlt, htext⟩
    · rcases dataOptions_eq filename lineno (h.line.length + 1) hle (by omega)
          ⟨notGiven, notGiven⟩ s with ⟨line', hlength, htake, heq⟩
      rw [heq, htext]
      simp only [tokensFrom]
      cases readOptions filename lineno (optionTokens [] (h.line.drop h.next)).2
          (optionTokens [] (h.line.drop h.next)).1 ⟨notGiven, notGiven⟩ s with
      | error e => rfl
      | ok r =>
          simp only [Except.map, ok_bind, hreads.label line' hlength htake,
            hreads.data line' hlength htake, onLine]
    · rw [dataOptions_outside hlt, htext]
      rfl

end BvgzVm
