import BvgzVm.Asm.Includes

set_option autoImplicit false

/-! # Directives that change nothing

A `%data` directive leaves the parser as it is when its content is there already, the bytes in use
end where they did, the allocation need not grow, and nothing is reported, labelled or noted for
later (`DataSpec.Idle`). All of this is read off the specification and the state before the
directive, and for a directive that is accepted it is exact (`applySpec_idle_iff`).

An `%include` directive counts a file, and so does every directive of this kind in the file. It can
leave the parser as it is only if the counter of 32 bits comes round (`IncludeIdle`).
-/

namespace BvgzVm

open Bytes CLib Fallible Overlay Steps

variable {T : InstnTable}

/-! ## What a directive changes -/

/-- The state with another memory area, more reports, and other labels. -/
def Prs.after (s : Prs T) (d : DataArea) (rs : List Report) (labels : LabelMap) (erange : Bool) :
    Prs T :=
  { s with
    result := { s.result with
      toDataArea := d
      reports := s.result.reports ++ rs
      labels }
    erange }

theorem Prs.after_self (s : Prs T) :
    s.after s.result.toDataArea [] s.result.labels s.erange = s := by
  unfold Prs.after
  rw [List.append_nil]

theorem Prs.after_after (s : Prs T) (d d' : DataArea) (rs rs' : List Report)
    (labels labels' : LabelMap) (erange erange' : Bool) :
    (s.after d rs labels erange).after d' rs' labels' erange' =
      s.after d' (rs ++ rs') labels' erange' := by
  unfold Prs.after
  rw [List.append_assoc]

/-- Nothing is taken back. -/
theorem Prs.after_eq_self {s : Prs T} {d : DataArea} {rs : List Report} {labels : LabelMap}
    {erange : Bool} : s.after d rs labels erange = s ↔
      d = s.result.toDataArea ∧ rs = [] ∧ labels = s.result.labels ∧ erange = s.erange := by
  constructor
  · intro h
    refine ⟨?_, ?_, ?_, ?_⟩
    · exact congrArg (fun s : Prs T => s.result.toDataArea) h
    · exact List.append_right_eq_self.1 (congrArg (fun s : Prs T => s.result.reports) h)
    · exact congrArg (fun s : Prs T => s.result.labels) h
    · exact congrArg Prs.erange h
  · rintro ⟨rfl, rfl, rfl, rfl⟩
    exact s.after_self

theorem Prs.errors_after (s : Prs T) (d : DataArea) (rs : List Report) (labels : LabelMap)
    (erange : Bool) : s.result.errors ≤ (s.after d rs labels erange).result.errors := by
  unfold Prs.after PrsResult.errors
  rw [List.countP_append]
  exact Nat.le_add_right _ _

/-! ## The options -/

/-- The number of an option, which is 0 if it is none. -/
def optionNumber (number : CStr) : UInt32 :=
  if (strtoull number 10).rest = [] ∨ (strtoull number 10).rest.head? = some ';' then
    UInt32.ofNat (strtoull number 10).value.toNat
  else 0

/-- An option gives an offset or a size. -/
def DataOptions.give (o : DataOptions) : CStr → DataOptions
  | ':' :: number => { o with offset := optionNumber number }
  | '/' :: number => { o with size := optionNumber number }
  | _ => o

/-- The number of an option is too large for 64 bits. -/
def optionErange : CStr → Bool
  | ':' :: number | '/' :: number => (strtoull number 10).erange
  | _ => false

/-- The option is an offset among the `memsz` bytes in use, other than 0. -/
def Collides (memsz : UInt32) : CStr → Prop
  | ':' :: number => optionNumber number ≠ 0 ∧ optionNumber number < memsz
  | _ => False

/-- The options of a specification. -/
def DataSpec.words (spec : DataSpec) : List CStr := (tokensFrom spec.options).1

/-- The offset and the size that are given. -/
def DataSpec.given (spec : DataSpec) : DataOptions :=
  spec.words.foldl DataOptions.give ⟨notGiven, notGiven⟩

section Options

variable (filename : FileName) (lineno : UInt32)

/-- **A number** is read, or an error is reported. -/
theorem parsePreprocDataNo_after (number dataName : CStr) (s : Prs T) :
    (parsePreprocDataNo filename lineno number dataName s).1 = optionNumber number ∧
      (s.result.errors < (parsePreprocDataNo filename lineno number dataName s).2.result.errors ∨
        (parsePreprocDataNo filename lineno number dataName s).2 =
          s.after s.result.toDataArea [] s.result.labels
            (s.erange || (strtoull number 10).erange)) := by
  unfold parsePreprocDataNo optionNumber
  dsimp only
  split
  · refine ⟨rfl, Or.inr ?_⟩
    unfold Prs.after Prs.setErange
    rw [List.append_nil]
  · refine ⟨rfl, Or.inl ?_⟩
    rw [errors_error]
    exact Nat.lt_succ_self _

/-- A second option is an error. -/
theorem errors_second (c : Prop) [Decidable c] (message number dataName : CStr) (s : Prs T)
    (hc : ¬ c) : s.result.errors < (parsePreprocDataNo filename lineno number dataName
      (if c then s else s.error filename lineno message)).2.result.errors := by
  have hle := errors_parsePreprocDataNo (s.error filename lineno message) filename lineno number
    dataName
  rw [errors_error] at hle
  rw [if_neg hc]
  exact hle

/-- What reading the option `w` does, or there is an error. -/
def OptionAfter (w : CStr) (o : DataOptions) (s : Prs T) (r : DataOptions × Prs T) : Prop :=
  r.1 = o.give w ∧ (s.result.errors < r.2.result.errors ∨
    ∃ rs, r.2 = s.after s.result.toDataArea rs s.result.labels (s.erange || optionErange w) ∧
      (rs = [] ↔ ¬ Collides s.result.memsz w))

theorem offsetOption_after (number : CStr) (o : DataOptions) (s : Prs T) :
    OptionAfter (':' :: number) o s (offsetOption filename lineno number o s) := by
  have hno := parsePreprocDataNo_after filename lineno number "offset".toList s
  have hvalue := (parsePreprocDataNo_after filename lineno number "offset".toList
    (if o.offset = notGiven then s
      else s.error filename lineno "multiple offset definitions".toList)).1
  have hsecond := errors_second filename lineno (o.offset = notGiven)
    "multiple offset definitions".toList number "offset".toList s
  unfold OptionAfter offsetOption
  dsimp only
  by_cases hgiven : o.offset = notGiven
  · rw [if_pos hgiven]
    rw [hno.1]
    refine ⟨rfl, ?_⟩
    rcases hno.2 with hlt | heq
    · refine Or.inl ?_
      split
      · rw [errors_warn]
        exact hlt
      · exact hlt
    · refine Or.inr ?_
      rw [heq]
      split
      · next hcollides =>
          exact ⟨_, (s.after_after _ _ [] _ _ _ _ _), iff_of_false (by simp) (fun h => h hcollides)⟩
      · next hcollides => exact ⟨[], rfl, iff_of_true rfl hcollides⟩
  · specialize hsecond hgiven
    generalize parsePreprocDataNo filename lineno number "offset".toList
      (if o.offset = notGiven then s
        else s.error filename lineno "multiple offset definitions".toList) = r at hvalue hsecond ⊢
    refine ⟨by rw [hvalue]; rfl, Or.inl ?_⟩
    split
    · rw [errors_warn]
      exact hsecond
    · exact hsecond

theorem sizeOption_after (number : CStr) (o : DataOptions) (s : Prs T) :
    OptionAfter ('/' :: number) o s (sizeOption filename lineno number o s) := by
  have hno := parsePreprocDataNo_after filename lineno number "size".toList s
  have hvalue := (parsePreprocDataNo_after filename lineno number "size".toList
    (if o.offset = notGiven then s
      else s.error filename lineno "multiple size definitions".toList)).1
  unfold OptionAfter sizeOption
  dsimp only
  refine ⟨by rw [hvalue]; rfl, ?_⟩
  by_cases hgiven : o.offset = notGiven
  · rw [if_pos hgiven]
    exact hno.2.imp id (fun heq => ⟨[], heq, iff_of_true rfl not_false⟩)
  · exact Or.inl (errors_second filename lineno (o.offset = notGiven)
      "multiple size definitions".toList number "size".toList s hgiven)

/-- The first option is read, and then the others. -/
theorem readOptions_step {inside : Bool} {w : CStr} {ws : List CStr} {o o' : DataOptions}
    {s s' : Prs T} (h : readOptions filename lineno inside (w :: ws) o s = .ok (o', s')) :
    s.result.errors < s'.result.errors ∨ ∃ r, OptionAfter w o s r ∧
      readOptions filename lineno inside ws r.1 r.2 = .ok (o', s') := by
  have hunexpected (message : CStr) (heq : s' = s.error filename lineno message) :
      s.result.errors < s'.result.errors := by
    rw [heq, errors_error]
    exact Nat.lt_succ_self _
  cases w with
  | nil =>
      cases h
      exact Or.inl (hunexpected _ rfl)
  | cons c number =>
      rw [readOptions_cons] at h
      split at h
      · next hoffset =>
          subst hoffset
          exact Or.inr ⟨_, offsetOption_after filename lineno number o s, h⟩
      · split at h
        · next hsize =>
            subst hsize
            exact Or.inr ⟨_, sizeOption_after filename lineno number o s, h⟩
        · cases h
          exact Or.inl (hunexpected _ rfl)

/-- **The options** give an offset and a size and are reported if an offset is among the bytes in
use, or there is an error. The induction is on the options. -/
theorem readOptions_after {inside : Bool} {ws : List CStr} {o o' : DataOptions} {s s' : Prs T}
    (h : readOptions filename lineno inside ws o s = .ok (o', s')) :
    s.result.errors < s'.result.errors ∨ o' = ws.foldl DataOptions.give o ∧
      ∃ rs, s' = s.after s.result.toDataArea rs s.result.labels
          (s.erange || ws.any optionErange) ∧
        (rs = [] ↔ ∀ w ∈ ws, ¬ Collides s.result.memsz w) := by
  induction ws generalizing o s with
  | nil =>
      cases inside with
      | false => cases h
      | true =>
          cases h
          refine Or.inr ⟨rfl, [], ?_, by simp⟩
          rw [List.any_nil, Bool.or_false, Prs.after_self]
  | cons w ws ih =>
      rcases readOptions_step filename lineno h with hlt | ⟨⟨o₁, s₁⟩, ⟨ho₁, hafter⟩, hrun⟩
      · exact Or.inl hlt
      dsimp only at ho₁ hafter hrun
      rcases hafter with hlt | ⟨rs, hs₁, hrs⟩
      · rcases ih hrun with hlt' | ⟨-, rs', hs', -⟩
        · exact Or.inl (hlt.trans hlt')
        · refine Or.inl (hlt.trans_le ?_)
          rw [hs']
          exact s₁.errors_after _ _ _ _
      · rcases ih hrun with hlt | ⟨ho', rs', hs', hrs'⟩
        · refine Or.inl (lt_of_le_of_lt ?_ hlt)
          rw [hs₁]
          exact s.errors_after _ _ _ _
        · refine Or.inr ⟨by rw [ho', ho₁]; rfl, rs ++ rs', ?_, ?_⟩
          · rw [hs', hs₁, List.any_cons, ← Bool.or_assoc]
            exact s.after_after _ _ _ _ _ _ _ _
          · rw [hs₁] at hrs'
            rw [List.append_eq_nil_iff, hrs, hrs', List.forall_mem_cons]
            exact Iff.rfl

end Options

/-! ## The data -/

/-- The label of a directive, put to its place. -/
def LabelMap.putData (labels : LabelMap) (filename : FileName) (lineno off : UInt32)
    (label : Option CStr) : LabelMap :=
  match label with
  | none => labels
  | some l => labels.put l ⟨filename, lineno, off, true⟩

/-- `errno` after the data, `erange` before them. -/
def dataErange (env : PrsEnv) (data : CStr) (includePaths : List CStr) (erange : Bool) : Bool :=
  match data with
  | '=' :: inclFile => (findFile env inclFile includePaths erange).2
  | '0' :: 'x' :: c :: hex => erange || (strtoull (c :: hex) 16).erange
  | _ => erange

/-- A hex number is one, and has at most 16 digits. -/
def HexFits (data : CStr) : Prop :=
  ∀ c hex, data = '0' :: 'x' :: c :: hex →
    (strtoull (c :: hex) 16).rest = [] ∧ (c :: hex).length ≤ 16

/-- The size of a piece cuts off nothing of an image that ends at `n` behind the content. -/
def Piece.CutsOff (q : Piece) (off n : UInt32) : Prop := q.size ≠ notGiven ∧ q.size + off < n

section Drafts

variable (filename : FileName) (lineno : UInt32) (label : Option CStr)

/-- **The end of a directive**, with a warning if bytes are cut off. -/
theorem Draft.finish_after (off size : UInt32) (a : Draft T) :
    ∃ d rs, (a.finish filename lineno off size label).prs =
        a.prs.after d rs (a.prs.result.labels.putData filename lineno off label) a.prs.erange ∧
      (rs = [] ↔ ¬ (size ≠ notGiven ∧ size + off < a.image.size)) := by
  have hsized : ∃ d rs, (a.sized filename lineno off size).prs =
      a.prs.after d rs a.prs.result.labels a.prs.erange ∧
        (rs = [] ↔ ¬ (size ≠ notGiven ∧ size + off < a.image.size)) := by
    unfold Draft.sized
    by_cases hsize : size = notGiven
    · rw [if_pos hsize]
      exact ⟨_, [], a.prs.after_self.symm, iff_of_true rfl (fun h => h.1 hsize)⟩
    · rw [if_neg hsize]
      dsimp only
      by_cases hcut : size + off < a.image.size
      · rw [if_pos hcut]
        exact ⟨_, [_], rfl, iff_of_false (by simp) (fun h => h ⟨hsize, hcut⟩)⟩
      · rw [if_neg hcut]
        refine ⟨⟨[], size + off, 0⟩, [], ?_, iff_of_true rfl (fun h => hcut h.2)⟩
        unfold Prs.after
        rw [List.append_nil]
        rfl
  obtain ⟨d, rs, hprs, hrs⟩ := hsized
  refine ⟨d, rs, ?_, hrs⟩
  unfold Draft.finish Draft.labelled
  cases label with
  | none => exact hprs
  | some l =>
      show ((a.sized filename lineno off size).prs).addLabel filename lineno l off true = _
      rw [hprs]
      rfl

/-- **Content is placed** behind reports of its own, and the directive ends. -/
theorem Draft.placed_after {a : Draft T} {m : Image} {f : Prs T → Prs T} {rs : List Report}
    {erange : Bool} (hf : f a.prs = a.prs.after a.prs.result.toDataArea rs a.prs.result.labels
      erange) (off size : UInt32) :
    ∃ d rs', (((a.map f).setImage m).finish filename lineno off size label).prs =
        a.prs.after d (rs ++ rs') (a.prs.result.labels.putData filename lineno off label) erange ∧
      (rs' = [] ↔ ¬ (size ≠ notGiven ∧ size + off < m.size)) := by
  obtain ⟨d, rs', hprs, hrs'⟩ := ((a.map f).setImage m).finish_after filename lineno label off size
  refine ⟨d, rs', ?_, hrs'⟩
  rw [hprs]
  have hmap : ((a.map f).setImage m).prs =
      a.prs.after ⟨[], m.size, 0⟩ rs a.prs.result.labels erange := by
    show (f a.prs).setData _ = _
    rw [hf]
    rfl
  rw [hmap]
  exact a.prs.after_after _ _ _ _ _ _ _ _

theorem hexReports_after (hex : CStr) (p : Prs T) :
    ∃ rs, hexReports filename lineno hex p = p.after p.result.toDataArea rs p.result.labels
        (p.erange || (strtoull hex 16).erange) ∧
      (rs = [] ↔ (strtoull hex 16).rest = [] ∧ hex.length ≤ 16) := by
  unfold hexReports
  dsimp only
  have hnumber : p.setErange (strtoull hex 16) = p.after p.result.toDataArea [] p.result.labels
      (p.erange || (strtoull hex 16).erange) := by
    unfold Prs.after Prs.setErange
    rw [List.append_nil]
  by_cases hrest : (strtoull hex 16).rest = []
  · rw [if_pos hrest]
    by_cases hlen : hex.length ≤ 16
    · rw [if_pos hlen]
      exact ⟨[], hnumber, iff_of_true rfl ⟨hrest, hlen⟩⟩
    · rw [if_neg hlen, hnumber]
      exact ⟨_, p.after_after _ _ [] _ _ _ _ _, iff_of_false (by simp) (fun h => hlen h.2)⟩
  · rw [if_neg hrest, hnumber]
    have hwarned (message : CStr) := p.after_after p.result.toDataArea p.result.toDataArea []
      [⟨.warn, filename.path, lineno, message⟩] p.result.labels p.result.labels
      (p.erange || (strtoull hex 16).erange) (p.erange || (strtoull hex 16).erange)
    by_cases hlen : hex.length ≤ 16
    · rw [if_pos hlen]
      exact ⟨_, hwarned _, iff_of_false (by simp) (fun h => hrest h.1)⟩
    · rw [if_neg hlen]
      refine ⟨_, (congrArg (fun p : Prs T => p.warn filename lineno _) (hwarned _)).trans
        (p.after_after _ _ _ _ _ _ _ _), iff_of_false (by simp) (fun h => hrest h.1)⟩

/-- What data other than the cell of a label do to a draft, or there is an error. -/
def DraftAfter (env : PrsEnv) (data : CStr) (o : DataOptions) (includePaths : List CStr)
    (a b : Draft T) : Prop :=
  a.errors < b.errors ∨ ∃ q m d rs, dataPiece env data o includePaths = some q ∧
    a.image.place (q.start a.image.size) q.content = .ok m ∧
    b.image = m.resized q.size (q.start a.image.size) ∧
    b.prs = a.prs.after d rs
      (a.prs.result.labels.putData filename lineno (q.start a.image.size) label)
      (dataErange env data includePaths a.prs.erange) ∧
    (rs = [] ↔ HexFits data ∧ ¬ q.CutsOff (q.start a.image.size) m.size)

variable {filename lineno label} in
/-- Content is placed behind reports of its own. -/
theorem draftAfter_place {env : PrsEnv} {data : CStr} {o : DataOptions} {includePaths : List CStr}
    {a b : Draft T} {q : Piece} (hq : dataPiece env data o includePaths = some q)
    {f : Prs T → Prs T} {rs : List Report}
    (hf : f a.prs = a.prs.after a.prs.result.toDataArea rs a.prs.result.labels
      (dataErange env data includePaths a.prs.erange)) (hrs : rs = [] ↔ HexFits data)
    (h : (a.image.place (a.image.start q.offset) q.content >>= fun m =>
      .ok (((a.map f).setImage m).finish filename lineno (a.image.start q.offset) q.size label)) =
        .ok b) : DraftAfter filename lineno label env data o includePaths a b := by
  rcases bind_eq_ok.1 h with ⟨m, hm, hok⟩
  obtain rfl := Except.ok.inj hok
  obtain ⟨d, rs', hprs, hrs'⟩ := Draft.placed_after filename lineno label (m := m) hf
    (a.image.start q.offset) q.size
  refine Or.inr ⟨q, m, d, rs ++ rs', hq, hm, ?_, hprs, ?_⟩
  · exact (Draft.finish_spec filename lineno _ _ label _).1
  · rw [List.append_eq_nil_iff, hrs, hrs']
    exact Iff.rfl

theorem Draft.addFile_after {env : PrsEnv} {inclFile : CStr} {o : DataOptions}
    {includePaths : List CStr} {a b : Draft T}
    (h : a.addFile env filename lineno label inclFile o.size o.offset includePaths = .ok b) :
    DraftAfter filename lineno label env ('=' :: inclFile) o includePaths a b := by
  have hfst := findFile_fst env inclFile includePaths false a.prs.erange
  have herange : dataErange env ('=' :: inclFile) includePaths a.prs.erange =
      (findFile env inclFile includePaths a.prs.erange).2 := rfl
  unfold Draft.addFile at h
  cases hfile : findFile env inclFile includePaths a.prs.erange with
  | mk file erange =>
      rw [hfile] at h hfst herange
      cases file with
      | none =>
          obtain rfl := Except.ok.inj h
          refine Or.inl ?_
          have herr := errors_error ({ a.prs with erange }) filename lineno
            ("file not found: ".toList ++ inclFile)
          exact Nat.lt_of_lt_of_eq (Nat.lt_succ_self a.errors) herr.symm
      | some filepath =>
          dsimp only at h
          cases hopen : env.fopen filepath with
          | none =>
              rw [hopen] at h
              cases h
          | some contents =>
              rw [hopen] at h
              have hq : dataPiece env ('=' :: inclFile) o includePaths =
                  some ⟨contents, o.offset, o.size⟩ := by
                simp only [dataPiece, hfst, Option.bind_eq_bind, Option.bind_some, hopen]
              have hfound : ({ a.prs with erange } : Prs T) =
                  a.prs.after a.prs.result.toDataArea [] a.prs.result.labels
                    (dataErange env ('=' :: inclFile) includePaths a.prs.erange) := by
                rw [herange]
                unfold Prs.after
                rw [List.append_nil]
              exact draftAfter_place hq (f := fun p => { p with erange }) hfound
                (iff_of_true rfl (fun c hex heq => by cases heq)) h

theorem Draft.addStr_after (env : PrsEnv) {str : CStr} {o : DataOptions}
    (includePaths : List CStr) {a b : Draft T}
    (h : a.addStr filename lineno label str o.size o.offset = .ok b) :
    DraftAfter filename lineno label env ('"' :: str) o includePaths a b := by
  unfold Draft.addStr at h
  dsimp only at h
  cases hstop : (strBytes str false).1 with
  | true =>
      rw [hstop] at h
      exact draftAfter_place (q := ⟨(strBytes str false).2 ++ [0], o.offset, o.size⟩) rfl
        (f := fun p => p) a.prs.after_self.symm
        (iff_of_true rfl (fun c hex heq => by cases heq)) h
  | false =>
      rw [hstop] at h
      rcases bind_eq_ok.1 h with ⟨m, -, hok⟩
      obtain rfl := Except.ok.inj hok
      refine Or.inl ?_
      rw [(Draft.finish_spec filename lineno _ _ label _).2]
      have herr := errors_error (a.setImage m).prs filename lineno "bad string format".toList
      exact Nat.lt_of_lt_of_eq (Nat.lt_succ_self a.errors) herr.symm

theorem Draft.addHex_after (env : PrsEnv) {c : Char} {hex : CStr} {o : DataOptions}
    (includePaths : List CStr) {a b : Draft T}
    (h : a.addHex filename lineno label (c :: hex) o.size o.offset = .ok b) :
    DraftAfter filename lineno label env ('0' :: 'x' :: c :: hex) o includePaths a b := by
  obtain ⟨rs, hf, hrs⟩ := hexReports_after filename lineno (c :: hex) a.prs
  refine draftAfter_place (q := ⟨hexContent (c :: hex), o.offset, o.size⟩) rfl
    (f := hexReports filename lineno (c :: hex)) hf ?_ h
  rw [hrs]
  constructor
  · rintro hfits c' hex' heq
    cases heq
    exact hfits
  · intro hfits
    exact hfits c hex rfl

/-- **Data** other than the cell of a label. -/
theorem Draft.addData_after {env : PrsEnv} {data : CStr} {o : DataOptions}
    {includePaths : List CStr} {a b : Draft T} (hcell : data.head? ≠ some '&')
    (h : a.addData env filename lineno label data o includePaths = .ok b) :
    DraftAfter filename lineno label env data o includePaths a b := by
  unfold Draft.addData at h
  split at h
  · exact Draft.addFile_after filename lineno label h
  · exact Draft.addStr_after filename lineno label env includePaths h
  · exact Draft.addHex_after filename lineno label env includePaths h
  · exact absurd rfl hcell
  · obtain rfl := Except.ok.inj h
    refine Or.inl ?_
    have herr := errors_error a.prs filename lineno
      "bad data directive: incorrect data specification".toList
    exact Nat.lt_of_lt_of_eq (Nat.lt_succ_self a.errors) herr.symm

/-- **The cell of a label** is noted for later, or there is an error. -/
theorem Draft.addLabelCell_after {labelValue : CStr} {o : DataOptions} {a b : Draft T}
    (h : a.addLabelCell filename lineno label labelValue o.size o.offset = .ok b) :
    a.errors < b.errors ∨ ∃ ref, b.prs.result.labelRefs = ref :: a.prs.result.labelRefs := by
  unfold Draft.addLabelCell at h
  dsimp only at h
  split at h
  · obtain rfl := Except.ok.inj h
    refine Or.inl ?_
    have herr := errors_error a.prs filename lineno
      "bad data directive: size must be either 4 (default) or 8".toList
    exact Nat.lt_of_lt_of_eq (Nat.lt_succ_self a.errors) herr.symm
  · rcases bind_eq_ok.1 h with ⟨m, -, hok⟩
    obtain rfl := Except.ok.inj hok
    obtain ⟨d, rs, hprs, -⟩ := Draft.finish_after filename lineno label
      (a.image.start o.offset) (labelCellSize o.size) ((a.setImage m).map (fun p =>
        { p with result := { p.result with
          labelRefs := ⟨filename, lineno, labelValue, labelCellSize o.size,
            a.image.start o.offset⟩ :: p.result.labelRefs } }))
    exact Or.inr ⟨⟨filename, lineno, labelValue, labelCellSize o.size, a.image.start o.offset⟩,
      congrArg (fun p : Prs T => p.result.labelRefs) hprs⟩

end Drafts

/-! ## The allocation -/

/-- The allocation does not shrink, and stays as it is if `P` holds of its size. -/
def KeepsAlloc (P : UInt32 → Prop) (d d' : DataArea) : Prop :=
  d.memAlloc ≤ d'.memAlloc ∧ (P d.memAlloc → d'.memAlloc = d.memAlloc)

theorem keepsAlloc_refl (P : UInt32 → Prop) (d : DataArea) : KeepsAlloc P d d :=
  ⟨UInt32.le_refl _, fun _ => rfl⟩

theorem KeepsAlloc.trans {P Q : UInt32 → Prop} {d d' d'' : DataArea} (h : KeepsAlloc P d d')
    (h' : KeepsAlloc Q d' d'') : KeepsAlloc (fun n => P n ∧ Q n) d d'' := by
  refine ⟨UInt32.le_trans h.1 h'.1, ?_⟩
  rintro ⟨hP, hQ⟩
  have hsame := h.2 hP
  rw [← hsame]
  refine h'.2 ?_
  rwa [hsame]

theorem KeepsAlloc.mono {P Q : UInt32 → Prop} {d d' : DataArea} (h : KeepsAlloc P d d')
    (hPQ : ∀ n, Q n → P n) : KeepsAlloc Q d d' := ⟨h.1, fun hQ => h.2 (hPQ _ hQ)⟩

theorem growAlloc_of_le {block alloc n : UInt32} (h : alloc ≤ n) (fuel : ℕ) :
    growAlloc block alloc (fuel + 1) n = some n := by
  rw [growAlloc, if_neg (UInt32.not_lt.2 h)]

section KeepsAlloc

variable {block : UInt32} {d d' : DataArea}

theorem ensureMemoryAlloc_keepsAlloc {alloc : UInt32}
    (h : ensureMemoryAlloc block alloc d = .ok d') : KeepsAlloc (fun n => alloc ≤ n) d d' := by
  unfold ensureMemoryAlloc at h
  split at h
  · obtain ⟨fuel, hfuel⟩ : ∃ fuel, 2 ^ 32 = fuel + 1 := ⟨2 ^ 32 - 1, by norm_num⟩
    rw [hfuel] at h
    cases hgrow : growAlloc block alloc (fuel + 1) d.memAlloc with
    | none =>
        rw [hgrow] at h
        cases h
    | some newSize =>
        rw [hgrow] at h
        dsimp only at h
        split at h
        · next hlt =>
            obtain rfl := Except.ok.inj h
            refine ⟨UInt32.le_of_lt hlt, fun hle => ?_⟩
            rw [growAlloc_of_le hle] at hgrow
            exact (Option.some.inj hgrow).symm
        · obtain rfl := Except.ok.inj h
          exact keepsAlloc_refl _ d
  · obtain rfl := Except.ok.inj h
    exact keepsAlloc_refl _ d

theorem writeToMemory_keepsAlloc {w : UInt32} {src : List UInt8}
    (h : writeToMemory block src w d = .ok d') :
    KeepsAlloc (fun n => w.toNat + src.length ≤ n.toNat) d d' := by
  obtain ⟨d₁, hensure, h⟩ := bind_eq_ok.1 h
  have hkeeps := ensureMemoryAlloc_keepsAlloc hensure
  split at h
  · cases h
  · obtain rfl := Except.ok.inj h
    refine ⟨hkeeps.1, fun hle => hkeeps.2 ?_⟩
    have hlt := d.memAlloc.toNat_lt
    dsimp only at hle ⊢
    rw [UInt32.le_iff_toNat_le, UInt32.toNat_add, UInt32.toNat_ofNat_of_lt' (by
      show _ < 2 ^ 32
      omega), Nat.mod_eq_of_lt (by omega)]
    exact hle

/-- The blocks of a file, by induction on the rounds of the loop. -/
theorem writeBlocks_keepsAlloc {fuel : ℕ} {contents : List UInt8} {w : UInt32}
    (h : writeBlocks block fuel contents w d = .ok d') :
    KeepsAlloc (fun n => contents ≠ [] → w.toNat + contents.length ≤ n.toNat) d d' := by
  induction fuel generalizing contents w d with
  | zero =>
      obtain rfl := Except.ok.inj h
      exact keepsAlloc_refl _ d
  | succ fuel ih =>
      rw [writeBlocks] at h
      split at h
      · obtain rfl := Except.ok.inj h
        exact keepsAlloc_refl _ d
      · next hbuffer =>
          obtain ⟨d₁, hwrite, hrest⟩ := bind_eq_ok.1 h
          have hne : contents ≠ [] := by
            rintro rfl
            exact hbuffer List.take_nil
          have hlen : (contents.take block.toNat).length + (contents.drop block.toNat).length =
              contents.length := by
            rw [← List.length_append, List.take_append_drop]
          refine ((writeToMemory_keepsAlloc hwrite).trans (ih hrest)).mono ?_
          intro n hn
          have hfits := hn hne
          have hlt := n.toNat_lt
          refine ⟨by omega, fun _ => ?_⟩
          rw [UInt32.toNat_add, UInt32.toNat_ofNat_of_lt' (by
            show _ < 2 ^ 32
            omega), Nat.mod_eq_of_lt (by omega)]
          omega

/-- A string, by induction on its characters; `w'` is behind it. -/
theorem writeStr_keepsAlloc {str : CStr} {escapeChr stop : Bool} {w w' : UInt32}
    (h : writeStr block str escapeChr w d = .ok (stop, w', d')) :
    w' = w + UInt32.ofNat (strBytes str escapeChr).2.length ∧
      KeepsAlloc (fun n => w.toNat + (strBytes str escapeChr).2.length ≤ n.toNat) d d' := by
  induction str generalizing escapeChr w d with
  | nil =>
      cases h
      exact ⟨(UInt32.add_zero _).symm, keepsAlloc_refl _ _⟩
  | cons c cs ih =>
      -- one character is written and the loop goes on
      have hstep {b : UInt8} {esc : Bool}
          (hrun : (writeToMemory block [b] w d >>= fun d => writeStr block cs esc (w + 1) d) =
            .ok (stop, w', d')) :
          w' = w + UInt32.ofNat (b :: (strBytes cs esc).2).length ∧
            KeepsAlloc (fun n => w.toNat + (b :: (strBytes cs esc).2).length ≤ n.toNat) d d' := by
        obtain ⟨d₁, hwrite, hrest⟩ := bind_eq_ok.1 hrun
        obtain ⟨hend, hkeeps⟩ := ih hrest
        refine ⟨?_, ((writeToMemory_keepsAlloc hwrite).trans hkeeps).mono ?_⟩
        · rw [hend, List.length_cons, UInt32.add_assoc, UInt32.ofNat_add, UInt32.add_comm 1]
          rfl
        · intro n hn
          rw [List.length_cons] at hn
          have hlt := n.toNat_lt
          have hnext : (w + 1).toNat = w.toNat + 1 := by
            rw [UInt32.toNat_add]
            exact Nat.mod_eq_of_lt (by show w.toNat + 1 < 2 ^ 32; omega)
          rw [hnext, List.length_singleton]
          exact ⟨by omega, by omega⟩
      rw [writeStr] at h
      rw [strBytes]
      by_cases hesc : c = '\\' ∧ escapeChr = false
      · rw [if_pos hesc] at h ⊢
        exact ih h
      · rw [if_neg hesc] at h ⊢
        by_cases hquote : c = '"' ∧ escapeChr = false
        · rw [if_pos hquote] at h ⊢
          cases h
          exact ⟨(UInt32.add_zero _).symm, keepsAlloc_refl _ _⟩
        · rw [if_neg hquote] at h ⊢
          by_cases hlit : c = '\\' ∨ c = '"'
          · rw [if_pos hlit] at h ⊢
            exact hstep h
          · rw [if_neg hlit] at h ⊢
            cases hescaped : escaped c with
            | some b =>
                rw [hescaped] at h
                exact hstep h
            | none =>
                rw [hescaped] at h
                exact hstep h

theorem ensureMemoryAtOffset_keepsAlloc {size offset : UInt32}
    (h : ensureMemoryAtOffset block size offset d = .ok d') :
    KeepsAlloc (fun n => offset ≠ notGiven → offset + (if size = 0 then 1 else size) ≤ n) d d' := by
  unfold ensureMemoryAtOffset at h
  split at h
  · obtain rfl := Except.ok.inj h
    exact keepsAlloc_refl _ d
  · next hoff => exact (ensureMemoryAlloc_keepsAlloc h).mono fun n hn => hn hoff

theorem finishData_keepsAlloc {filename : FileName} {lineno off size : UInt32} {label : Option CStr}
    {s s' : Prs T} (h : finishData block filename lineno off size label s = .ok s') :
    KeepsAlloc (fun n => size ≠ notGiven → size + off ≤ n) s.result.toDataArea
      s'.result.toDataArea := by
  obtain ⟨s₁, hsize, h⟩ := bind_eq_ok.1 h
  have hlabel : s'.result.toDataArea = s₁.result.toDataArea := by
    cases label with
    | none =>
        obtain rfl := Except.ok.inj h
        rfl
    | some l =>
        obtain rfl := Except.ok.inj h
        rfl
  rw [hlabel]
  unfold setMemorySize at hsize
  split at hsize
  · obtain rfl := Except.ok.inj hsize
    exact keepsAlloc_refl _ _
  · next hgiven =>
      dsimp only at hsize
      split at hsize
      · obtain rfl := Except.ok.inj hsize
        exact ⟨UInt32.le_refl _, fun _ => rfl⟩
      · obtain ⟨d, hgrow, hok⟩ := bind_eq_ok.1 hsize
        obtain rfl := Except.ok.inj hok
        unfold growTo at hgrow
        split at hgrow
        · have hkeeps := ensureMemoryAlloc_keepsAlloc hgrow
          exact ⟨hkeeps.1, fun hn => hkeeps.2 (hn hgiven)⟩
        · obtain rfl := Except.ok.inj hgrow
          exact ⟨UInt32.le_refl _, fun _ => rfl⟩

end KeepsAlloc

theorem ensureMemoryAlloc_memsz {block alloc : UInt32} {d d' : DataArea}
    (h : ensureMemoryAlloc block alloc d = .ok d') : d'.memsz = d.memsz := by
  unfold ensureMemoryAlloc at h
  split at h
  · split at h
    · cases h
    · split at h
      · obtain rfl := Except.ok.inj h
        rfl
      · obtain rfl := Except.ok.inj h
        rfl
  · obtain rfl := Except.ok.inj h
    rfl

theorem ensureMemoryAtOffset_memsz {block size offset : UInt32} {d d' : DataArea}
    (h : ensureMemoryAtOffset block size offset d = .ok d') : d'.memsz = d.memsz := by
  unfold ensureMemoryAtOffset at h
  split at h
  · obtain rfl := Except.ok.inj h
    rfl
  · exact ensureMemoryAlloc_memsz h

/-- A piece that starts in an image of `memsz` bytes ends inside an allocation of `n` bytes. -/
structure Piece.EndsIn (q : Piece) (memsz n : UInt32) : Prop where
  content : q.content ≠ [] → (q.start memsz).toNat + q.content.length ≤ n.toNat
  size : q.size ≠ notGiven → q.size + q.start memsz ≤ n

/-- The allocation grows for the offset of a piece, and then for its content and its size. -/
def GrowsFor (block : UInt32) (q : Piece) (d d' : DataArea) : Prop :=
  ∃ d₁, ensureMemoryAtOffset block q.size q.offset d = .ok d₁ ∧
    KeepsAlloc (fun n => q.EndsIn d.memsz n) d₁ d'

section GrowsFor

variable {env : PrsEnv} {filename : FileName} {lineno : UInt32} {label : Option CStr}
  {o : DataOptions} {includePaths : List CStr} {s s' : Prs T}

theorem addFileToMemory_growsFor {inclFile : CStr} {q : Piece}
    (hq : dataPiece env ('=' :: inclFile) o includePaths = some q)
    (h : addFileToMemory env filename lineno label inclFile o.size o.offset includePaths s =
      .ok s') : GrowsFor env.memAllocBlockSz q s.result.toDataArea s'.result.toDataArea := by
  have hfst := findFile_fst env inclFile includePaths false s.erange
  unfold addFileToMemory at h
  simp only [dataPiece, hfst, Option.bind_eq_bind] at hq
  cases hfile : findFile env inclFile includePaths s.erange with
  | mk file erange =>
      rw [hfile] at h hq
      cases file with
      | none => cases hq
      | some filepath =>
          obtain ⟨d, hensure, h⟩ := bind_eq_ok.1 h
          cases hopen : env.fopen filepath with
          | none =>
              simp only [Option.bind_some, hopen, Option.bind_none] at hq
              cases hq
          | some contents =>
              simp only [Option.bind_some, hopen, Option.some.injEq] at hq
              subst hq
              rw [hopen] at h
              obtain ⟨d', hwrite, hfinish⟩ := bind_eq_ok.1 h
              refine ⟨d, hensure, ?_⟩
              have hstart : writeOffset o.offset d =
                  Piece.start ⟨contents, o.offset, o.size⟩ s.result.memsz := by
                unfold writeOffset Piece.start
                rw [ensureMemoryAtOffset_memsz hensure]
              rw [hstart] at hwrite hfinish
              exact ((writeBlocks_keepsAlloc hwrite).trans (finishData_keepsAlloc hfinish)).mono
                fun n hn => ⟨hn.content, hn.size⟩

theorem addStrToMemory_growsFor {str : CStr}
    (h : addStrToMemory env filename lineno label str o.size o.offset s = .ok s') :
    GrowsFor env.memAllocBlockSz ⟨(strBytes str false).2 ++ [0], o.offset, o.size⟩
      s.result.toDataArea s'.result.toDataArea := by
  obtain ⟨d, hensure, h⟩ := bind_eq_ok.1 h
  obtain ⟨⟨stop, w', d₁⟩, hstr, h⟩ := bind_eq_ok.1 h
  obtain ⟨d₂, hnul, hfinish⟩ := bind_eq_ok.1 h
  refine ⟨d, hensure, ?_⟩
  have hstart : writeOffset o.offset d =
      Piece.start ⟨(strBytes str false).2 ++ [0], o.offset, o.size⟩ s.result.memsz := by
    unfold writeOffset Piece.start
    rw [ensureMemoryAtOffset_memsz hensure]
  rw [hstart] at hstr hfinish
  obtain ⟨hend, hkeeps⟩ := writeStr_keepsAlloc hstr
  have hkeeps' := finishData_keepsAlloc hfinish
  have harea : (if stop = true then s.setData d₂
      else (s.setData d₂).error filename lineno "bad string format".toList).result.toDataArea =
        d₂ := by
    split
    · rfl
    · rfl
  rw [harea] at hkeeps'
  refine ((hkeeps.trans (writeToMemory_keepsAlloc hnul)).trans hkeeps').mono ?_
  intro n hn
  have hcontent := hn.content (List.append_ne_nil_of_right_ne_nil _ (List.cons_ne_nil 0 []))
  rw [List.length_append, List.length_singleton] at hcontent
  have hlt := n.toNat_lt
  refine ⟨⟨by omega, ?_⟩, hn.size⟩
  rw [hend, UInt32.toNat_add, UInt32.toNat_ofNat_of_lt' (by show _ < 2 ^ 32; omega),
    Nat.mod_eq_of_lt (by omega), List.length_singleton]
  omega

theorem addHexToMemory_growsFor {hex : CStr}
    (h : addHexToMemory env filename lineno label hex o.size o.offset s = .ok s') :
    GrowsFor env.memAllocBlockSz ⟨hexContent hex, o.offset, o.size⟩ s.result.toDataArea
      s'.result.toDataArea := by
  obtain ⟨d, hensure, h⟩ := bind_eq_ok.1 h
  obtain ⟨d', hwrite, hfinish⟩ := bind_eq_ok.1 h
  refine ⟨d, hensure, ?_⟩
  have hstart : writeOffset o.offset d =
      Piece.start ⟨hexContent hex, o.offset, o.size⟩ s.result.memsz := by
    unfold writeOffset Piece.start
    rw [ensureMemoryAtOffset_memsz hensure]
  rw [hstart] at hwrite hfinish
  refine ((writeToMemory_keepsAlloc hwrite).trans (finishData_keepsAlloc hfinish)).mono ?_
  intro n hn
  exact ⟨hn.content (hexContent_ne hex), hn.size⟩

/-- **Data** other than the cell of a label. -/
theorem addData_growsFor {data : CStr} {q : Piece} {check : Bool} (hcell : data.head? ≠ some '&')
    (hq : dataPiece env data o includePaths = some q)
    (h : addData env filename lineno label data o includePaths s = .ok (check, s')) :
    GrowsFor env.memAllocBlockSz q s.result.toDataArea s'.result.toDataArea := by
  unfold addData at h
  split at h
  · obtain ⟨s₁, hadd, hok⟩ := bind_eq_ok.1 h
    cases hok
    exact addFileToMemory_growsFor hq hadd
  · obtain ⟨s₁, hadd, hok⟩ := bind_eq_ok.1 h
    cases hok
    obtain rfl := Option.some.inj hq
    exact addStrToMemory_growsFor hadd
  · obtain ⟨s₁, hadd, hok⟩ := bind_eq_ok.1 h
    cases hok
    obtain rfl := Option.some.inj hq
    exact addHexToMemory_growsFor hadd
  · exact absurd rfl hcell
  · next hfile hstr hhex hlabel =>
      have hnone : dataPiece env data o includePaths = none := by
        unfold dataPiece
        split
        · exact absurd rfl (hfile _)
        · exact absurd rfl (hstr _)
        · exact absurd rfl (hhex _ _)
        · exact absurd rfl (hlabel _)
        · rfl
      rw [hnone] at hq
      cases hq

end GrowsFor

/-! ## When nothing changes -/

/-- The memory block has `mem_alloc` bytes, and those in use are among them. -/
structure DataArea.Allocated (d : DataArea) : Prop where
  length : d.memory.length = d.memAlloc.toNat
  inside : d.memsz ≤ d.memAlloc

/-- What can be seen of a memory area. -/
def DataArea.image (d : DataArea) : Image := ⟨d.memsz, fun i => d.memory[i]?.getD 0⟩

theorem Grown.allocated {block : UInt32} {d : DataArea} (h : Grown block d) : d.Allocated :=
  ⟨h.length, h.inside⟩

theorem DataArea.Allocated.draws {d : DataArea} (h : d.Allocated) : Draws d d.image :=
  ⟨h.length, h.inside, rfl, fun _ => rfl⟩

/-- **A piece stands in the area already**: its content is there, the bytes in use end where they
are to end, behind the content, and its offset and its size ask for no more than is allocated. -/
structure Piece.Stands (q : Piece) (d : DataArea) : Prop where
  content : q.content ≠ [] →
    read d.memory (q.start d.memsz).toNat q.content.length = some q.content
  ends : q.endAfter d.memsz = d.memsz
  inUse : q.content ≠ [] → (q.start d.memsz).toNat + q.content.length ≤ d.memsz.toNat
  room : q.offset ≠ notGiven → q.offset + (if q.size = 0 then 1 else q.size) ≤ d.memAlloc

/-- **A specification that changes nothing** in the state `s`: no cell for a label is asked for,
what is to be stored stands there, no option is an offset among the bytes in use, a number in hex
fits, the label is none or the one that was put last, at this place, and `errno` stays. -/
structure DataSpec.Idle (env : PrsEnv) (filename : FileName) (lineno : UInt32)
    (includePaths : List CStr) (spec : DataSpec) (s : Prs T) : Prop where
  noCell : spec.data.head? ≠ some '&'
  stands : ∃ q, dataPiece env spec.data spec.given includePaths = some q ∧
    q.Stands s.result.toDataArea
  options : ∀ w ∈ spec.words, ¬ Collides s.result.memsz w
  hex : HexFits spec.data
  label : ∀ l, spec.label = some l → ∃ rest,
    s.result.labels = (l, ⟨filename, lineno, writeOffset spec.given.offset s.result.toDataArea,
      true⟩) :: rest ∧ ∀ e ∈ rest, e.1 ≠ l
  errno : dataErange env spec.data includePaths (s.erange || spec.words.any optionErange) =
    s.erange

/-- Putting a label changes nothing if it was put last, and not before. -/
theorem LabelMap.put_eq_self {labels : LabelMap} {k : CStr} {v : Label} :
    labels.put k v = labels ↔ ∃ rest, labels = (k, v) :: rest ∧ ∀ e ∈ rest, e.1 ≠ k := by
  unfold LabelMap.put
  constructor
  · intro h
    refine ⟨labels.filter (fun e => e.1 ≠ k), h.symm, ?_⟩
    intro e he
    simpa using (List.mem_filter.1 he).2
  · rintro ⟨rest, rfl, hrest⟩
    rw [List.filter_cons_of_neg (by simp), List.filter_eq_self.2 (by simpa using hrest)]

/-- A piece that starts among the bytes in use, or behind them. -/
theorem Piece.stands_endsIn {q : Piece} {d : DataArea} (hd : d.Allocated) (h : q.Stands d) :
    q.EndsIn d.memsz d.memAlloc := by
  refine ⟨fun hne => (h.inUse hne).trans (UInt32.le_iff_toNat_le.1 hd.inside), fun hsize => ?_⟩
  have hends := h.ends
  unfold Piece.endAfter at hends
  rw [if_neg hsize] at hends
  rw [hends]
  exact hd.inside

/-- The size of an image with more content. -/
theorem Image.place_size {m m' : Image} {off : UInt32} {content : List UInt8}
    (h : m.place off content = .ok m') (hne : content ≠ []) :
    m'.size.toNat = off.toNat + content.length := by
  unfold Image.place at h
  rw [if_neg hne] at h
  split at h
  · next hfit =>
      obtain rfl := Except.ok.inj h
      exact UInt32.toNat_ofNat_of_lt' hfit
  · cases h

/-- Two areas with the same allocation and the same bytes. -/
theorem Draws.unique {d d' : DataArea} {m : Image} (h : Draws d m) (h' : Draws d' m)
    (halloc : d'.memAlloc = d.memAlloc) : d' = d := by
  have hlen : d'.memory.length = d.memory.length := by rw [h.length, h'.length, halloc]
  have hmemory : d'.memory = d.memory := by
    refine List.ext_getElem hlen fun i hi hi' => ?_
    have hcell := (h'.cells i).trans (h.cells i).symm
    rwa [List.getElem?_eq_getElem hi, List.getElem?_eq_getElem hi'] at hcell
  have hmemsz := h'.memsz.trans h.memsz.symm
  cases d
  cases d'
  simp_all

section Stands

variable {block : UInt32} {q : Piece} {d d' : DataArea} {m : Image}

/-- **Nothing was done**: the piece stands in the area. -/
theorem Piece.stands_of_same (hd : d.Allocated) (hgrows : GrowsFor block q d d)
    (hm : d.image.place (q.start d.memsz) q.content = .ok m)
    (hsize : q.endAfter d.memsz = d.memsz)
    (hcells : ∀ i, d.memory[i]?.getD 0 =
      overlay d.image.cells (q.start d.memsz).toNat q.content i)
    (hcut : ¬ q.CutsOff (q.start d.memsz) m.size) : q.Stands d := by
  have hinUse : q.content ≠ [] →
      (q.start d.memsz).toNat + q.content.length ≤ d.memsz.toNat := by
    intro hne
    rw [← Image.place_size hm hne, ← UInt32.le_iff_toNat_le]
    unfold Piece.endAfter at hsize
    by_cases hgiven : q.size = notGiven
    · rw [if_pos hgiven, if_neg hne] at hsize
      have hend : m.size = q.start d.memsz + UInt32.ofNat q.content.length := by
        rw [← UInt32.ofNat_toNat (x := m.size), Image.place_size hm hne, UInt32.ofNat_add,
          UInt32.ofNat_toNat]
      rw [hend, hsize]
      exact UInt32.le_refl _
    · rw [if_neg hgiven] at hsize
      rw [← hsize]
      exact UInt32.not_lt.1 fun hlt => hcut ⟨hgiven, hlt⟩
  refine ⟨fun hne => ?_, hsize, hinUse, fun hoff => ?_⟩
  · have hinside := (hinUse hne).trans hd.draws.memsz_le
    refine Bytes.read_eq_some_iff_getElem?.2 ⟨hinside, fun k hk => ?_⟩
    have hcell := hcells ((q.start d.memsz).toNat + k)
    rw [overlay_inside (Nat.le_add_right _ k)
      (by rw [Nat.add_sub_cancel_left, List.getElem?_eq_getElem hk]),
      List.getElem?_eq_getElem (by omega), Option.getD_some] at hcell
    rw [List.getElem?_eq_getElem (by omega), List.getElem?_eq_getElem hk, hcell]
  · -- the offset has asked for what is allocated now
    obtain ⟨d₁, hensure, hkeeps⟩ := hgrows
    unfold ensureMemoryAtOffset at hensure
    rw [if_neg hoff] at hensure
    obtain ⟨_, -, -, hge⟩ := (ensureMemoryAlloc_draws block _ hd.draws).of_ok hensure
    exact UInt32.le_trans hge hkeeps.1

/-- **The area stays as it is**, and nothing is cut off, if the piece stands there already. -/
theorem area_stays_iff (hd : d.Allocated) (hgrows : GrowsFor block q d d')
    (hm : d.image.place (q.start d.memsz) q.content = .ok m)
    (hd' : Draws d' (m.resized q.size (q.start d.memsz))) :
    d' = d ∧ ¬ q.CutsOff (q.start d.memsz) m.size ↔ q.Stands d := by
  have happly : q.apply d.image = .ok (m.resized q.size (q.start d.memsz)) := by
    have hstart : d.image.start q.offset = q.start d.memsz := rfl
    rw [Piece.apply, hstart, hm, ok_bind]
  obtain ⟨hsize, hcells, -⟩ := Piece.apply_ok happly
  constructor
  · rintro ⟨rfl, hcut⟩
    refine Piece.stands_of_same hd hgrows hm (hd'.memsz.trans hsize).symm (fun i => ?_) hcut
    rw [hd'.cells i, hcells]
    rfl
  · intro h
    have hsame : Draws d (m.resized q.size (q.start d.memsz)) := by
      refine ⟨hd.length, hd.inside, (hsize.trans h.ends).symm, fun i => ?_⟩
      rw [hcells]
      have hcontent : overlay d.image.cells (q.start d.memsz).toNat q.content = d.image.cells := by
        refine overlay_eq_self fun k a hk => ?_
        obtain ⟨hlt, -⟩ := List.getElem?_eq_some_iff.1 hk
        have hbyte := (Bytes.read_eq_some_iff_getElem?.1
          (h.content (List.ne_nil_of_length_pos (Nat.zero_lt_of_lt hlt)))).2 k hlt
        show d.memory[(q.start d.memsz).toNat + k]?.getD 0 = a
        rw [hbyte, hk, Option.getD_some]
      exact (congrFun hcontent i).symm
    obtain ⟨d₁, hensure, hkeeps⟩ := hgrows
    have halloc₁ := (ensureMemoryAtOffset_keepsAlloc hensure).2 h.room
    have halloc : d'.memAlloc = d.memAlloc := by
      rw [hkeeps.2 (by rw [halloc₁]; exact q.stands_endsIn hd h), halloc₁]
    refine ⟨hsame.unique hd' halloc, ?_⟩
    rintro ⟨hgiven, hcut⟩
    have hends := h.ends
    unfold Piece.endAfter at hends
    rw [if_neg hgiven] at hends
    rw [hends, UInt32.lt_iff_toNat_lt] at hcut
    by_cases hne : q.content = []
    · rw [Image.place, if_pos hne] at hm
      obtain rfl := Except.ok.inj hm
      exact Nat.lt_irrefl _ hcut
    · rw [Image.place_size hm hne] at hcut
      exact Nat.not_lt.2 (h.inUse hne) hcut

end Stands

/-- The draft of a state. -/
def Prs.draft (s : Prs T) : Draft T :=
  ⟨s.setData ⟨[], s.result.memsz, 0⟩, s.result.toDataArea.image.cells⟩

theorem DataArea.Allocated.drafted {s : Prs T} (h : s.result.toDataArea.Allocated) :
    Drafted s s.draft := ⟨rfl, h.draws⟩

/-- A change that is read off the drafts. -/
theorem Drafted.after {s s' : Prs T} {a b : Draft T} (h : Drafted s a) (h' : Drafted s' b)
    {d : DataArea} {rs : List Report} {labels : LabelMap} {erange : Bool}
    (hprs : b.prs = a.prs.after d rs labels erange) :
    s' = s.after s'.result.toDataArea rs labels erange := by
  have hback : s' = b.prs.setData s'.result.toDataArea := by
    rw [h'.prs]
    rfl
  refine hback.trans ?_
  rw [hprs, h.prs]
  rfl

theorem dataPiece_offset {env : PrsEnv} {data : CStr} {o : DataOptions} {includePaths : List CStr}
    {q : Piece} (h : dataPiece env data o includePaths = some q) : q.offset = o.offset := by
  unfold dataPiece at h
  split at h
  · obtain ⟨filepath, -, h⟩ := Option.bind_eq_some_iff.1 h
    obtain ⟨contents, -, h⟩ := Option.bind_eq_some_iff.1 h
    obtain rfl := Option.some.inj h
    rfl
  · obtain rfl := Option.some.inj h
    rfl
  · obtain rfl := Option.some.inj h
    rfl
  · dsimp only at h
    split at h
    · cases h
    · obtain rfl := Option.some.inj h
      rfl
  · cases h

/-- The label of a directive stays as it is if it was put last, at this place. -/
theorem LabelMap.putData_eq_self {labels : LabelMap} {filename : FileName} {lineno off : UInt32}
    {label : Option CStr} : labels.putData filename lineno off label = labels ↔
      ∀ l, label = some l → ∃ rest, labels = (l, ⟨filename, lineno, off, true⟩) :: rest ∧
        ∀ e ∈ rest, e.1 ≠ l := by
  cases label with
  | none => exact iff_of_true rfl (fun l h => by cases h)
  | some l =>
      rw [LabelMap.putData, LabelMap.put_eq_self]
      constructor
      · rintro h l' hl
        obtain rfl := Option.some.inj hl
        exact h
      · intro h
        exact h l rfl

section Idle

variable {env : PrsEnv} {filename : FileName} {lineno : UInt32} {label : Option CStr}
  {data : CStr} {o : DataOptions} {includePaths : List CStr} {check : Bool} {s s' : Prs T}

theorem errors_addData (hblock : 0 < env.memAllocBlockSz) (hs : s.result.toDataArea.Allocated)
    (h : addData env filename lineno label data o includePaths s = .ok (check, s')) :
    s.result.errors ≤ s'.result.errors := by
  obtain ⟨b, hb, hdrafted⟩ := (addData_drafts env filename lineno label hblock data o includePaths
    hs.drafted).of_ok h
  have happlies := addData_applies env filename lineno label o includePaths s.draft data b hb
  rw [hs.drafted.errors, hdrafted.errors] at happlies
  rcases happlies with hlt | ⟨heq, -⟩
  · exact hlt.le
  · exact heq.ge

/-- **The data of a directive**, other than the cell of a label: they leave the state as it is if
what is stored stands there already. -/
theorem addData_after (hblock : 0 < env.memAllocBlockSz) (hs : s.result.toDataArea.Allocated)
    (hcell : data.head? ≠ some '&')
    (h : addData env filename lineno label data o includePaths s = .ok (check, s')) :
    s.result.errors < s'.result.errors ∨ ∃ q rs, dataPiece env data o includePaths = some q ∧
      s' = s.after s'.result.toDataArea rs
        (s.result.labels.putData filename lineno (q.start s.result.memsz) label)
        (dataErange env data includePaths s.erange) ∧
      (s'.result.toDataArea = s.result.toDataArea ∧ rs = [] ↔
        q.Stands s.result.toDataArea ∧ HexFits data) := by
  obtain ⟨b, hb, hdrafted⟩ := (addData_drafts env filename lineno label hblock data o includePaths
    hs.drafted).of_ok h
  rcases Draft.addData_after filename lineno label hcell hb with
    hlt | ⟨q, m, d, rs, hq, hm, himage, hprs, hrs⟩
  · rw [hs.drafted.errors, hdrafted.errors] at hlt
    exact Or.inl hlt
  · have hgrows := addData_growsFor hcell hq h
    have hdraws := hdrafted.draws
    rw [himage] at hdraws
    refine Or.inr ⟨q, rs, hq, hs.drafted.after hdrafted hprs, ?_⟩
    rw [hrs, and_comm (a := HexFits data), ← and_assoc]
    exact and_congr_left' (area_stays_iff hs hgrows hm hdraws)

/-- The cell of a label is noted for later. -/
theorem addData_labelCell (hblock : 0 < env.memAllocBlockSz)
    (hs : s.result.toDataArea.Allocated) (hcell : data.head? = some '&')
    (h : addData env filename lineno label data o includePaths s = .ok (check, s')) :
    s.result.errors < s'.result.errors ∨
      ∃ ref, s'.result.labelRefs = ref :: s.result.labelRefs := by
  obtain ⟨labelValue, rfl⟩ : ∃ labelValue, data = '&' :: labelValue := by
    cases data with
    | nil => cases hcell
    | cons c labelValue =>
        obtain rfl := Option.some.inj hcell
        exact ⟨labelValue, rfl⟩
  obtain ⟨b, hb, hdrafted⟩ := (addData_drafts env filename lineno label hblock _ o includePaths
    hs.drafted).of_ok h
  have hrefs := congrArg (fun p : Prs T => p.result.labelRefs) hdrafted.prs
  rcases Draft.addLabelCell_after filename lineno label hb with hlt | ⟨ref, href⟩
  · rw [hs.drafted.errors, hdrafted.errors] at hlt
    exact Or.inl hlt
  · exact Or.inr ⟨ref, hrefs.symm.trans href⟩

/-- **A directive that is accepted** leaves the parser as it is exactly if its specification is
idle. -/
theorem applySpec_idle_iff {spec : DataSpec} (hblock : 0 < env.memAllocBlockSz)
    (hs : s.result.toDataArea.Allocated)
    (h : applySpec env filename lineno includePaths (some spec) s = .ok s')
    (herrors : s'.result.errors = s.result.errors) :
    s' = s ↔ spec.Idle env filename lineno includePaths s := by
  obtain ⟨⟨o, s₁⟩, hoptions, h⟩ := bind_eq_ok.1 h
  obtain ⟨⟨check, s₂⟩, hdata, h⟩ := bind_eq_ok.1 h
  dsimp only at hdata h
  obtain rfl : s₂ = s' := by
    split at h
    · cases h
    · exact Except.ok.inj h
  -- no error is taken back: there is none in the options, and none in the data
  have hs₁ : s₁.result.toDataArea.Allocated := by
    rcases readOptions_alike filename lineno (tokensFrom spec.options).2
        (tokensFrom spec.options).1 ⟨notGiven, notGiven⟩ s s with
      ⟨hstop, -⟩ | ⟨o', s'', t, hread, hsame, -⟩
    · rw [hoptions] at hstop
      cases hstop
    · rw [hoptions] at hread
      cases hread
      rw [hsame.area]
      exact hs
  rcases readOptions_after filename lineno hoptions with hlt | ⟨ho, rs, hs₁eq, hrs⟩
  · have hle := hlt.trans_le (errors_addData hblock hs₁ hdata)
    rw [herrors] at hle
    exact absurd hle (lt_irrefl _)
  have hle : s.result.errors ≤ s₁.result.errors := by
    rw [hs₁eq]
    exact s.errors_after _ _ _ _
  have hnone : ¬ s₁.result.errors < s₂.result.errors := fun hlt =>
    absurd (hle.trans_lt hlt) (by rw [herrors]; exact lt_irrefl _)
  by_cases hcell : spec.data.head? = some '&'
  · refine iff_of_false ?_ (fun hidle => hidle.noCell hcell)
    obtain ⟨ref, href⟩ := (addData_labelCell hblock hs₁ hcell hdata).resolve_left hnone
    intro hsame
    rw [hsame, hs₁eq] at href
    exact List.cons_ne_self _ _ href.symm
  · obtain ⟨q, rs', hq, hs₂eq, hstands⟩ :=
      (addData_after hblock hs₁ hcell hdata).resolve_left hnone
    have hafter := hs₂eq
    rw [hs₁eq, Prs.after_after] at hafter
    rw [hs₁eq] at hstands
    rw [ho] at hq
    have hoffset : q.start s.result.memsz =
        writeOffset spec.given.offset s.result.toDataArea := by
      rw [Piece.start, dataPiece_offset hq]
      rfl
    have hsame : s₂ = s ↔ s₂.result.toDataArea = s.result.toDataArea ∧ rs ++ rs' = [] ∧
        s.result.labels.putData filename lineno (q.start s.result.memsz) spec.label =
          s.result.labels ∧
        dataErange env spec.data includePaths (s.erange || spec.words.any optionErange) =
          s.erange := by
      conv_lhs => rw [hafter]
      exact Prs.after_eq_self
    rw [hsame, List.append_eq_nil_iff, hrs, hoffset, LabelMap.putData_eq_self]
    constructor
    · rintro ⟨harea, ⟨hoptions, hreports⟩, hlabel, herrno⟩
      obtain ⟨hst, hhex⟩ := hstands.1 ⟨harea, hreports⟩
      exact ⟨hcell, ⟨q, hq, hst⟩, hoptions, hhex, hlabel, herrno⟩
    · intro hidle
      obtain ⟨q', hq', hst⟩ := hidle.stands
      obtain rfl := Option.some.inj (hq.symm.trans hq')
      obtain ⟨harea, hreports⟩ := hstands.2 ⟨hst, hidle.hex⟩
      exact ⟨harea, ⟨hidle.options, hreports⟩, hidle.label, hidle.errno⟩

end Idle

/-! ## Included files -/

/-- The end of a file. -/
def ParseStep.isFileEnd : ParseStep → Bool
  | .line _ _ _ => false
  | .fileEnd => true

section Included

variable {env : PrsEnv} {includePaths : List CStr} {s s' : Prs T}

/-- **The files are counted**, by induction on the steps. -/
theorem run_nFiles {es : List ParseStep}
    (h : run (parseStep env includePaths) es s = some s') :
    s'.result.nFiles = s.result.nFiles + UInt32.ofNat (es.countP ParseStep.isFileEnd) := by
  induction es generalizing s with
  | nil =>
      obtain rfl := Option.some.inj h
      exact (UInt32.add_zero _).symm
  | cons e es ih =>
      obtain ⟨s₁, hstep, hrest⟩ := run_cons.1 h
      rw [ih hrest]
      cases e with
      | line filename lineno line =>
          rw [List.countP_cons_of_neg Bool.false_ne_true]
          have hline := toOption_eq_some.1 hstep
          rw [parseLine_keeps (nFiles_keptByLines s.result.nFiles)
            (fun _ _ _ hs hok => by obtain rfl := Except.ok.inj hok; exact hs) rfl hline]
      | fileEnd =>
          obtain rfl := Option.some.inj hstep
          rw [List.countP_cons_of_pos rfl, UInt32.ofNat_add, UInt32.add_assoc]
          exact congrArg _ (UInt32.add_comm _ _)

/-- Steps that come back to where they started. -/
theorem dvd_of_run {es : List ParseStep}
    (h : run (parseStep env includePaths) es s = some s')
    (hsame : s'.result.nFiles = s.result.nFiles) :
    2 ^ 32 ∣ es.countP ParseStep.isFileEnd := by
  have hcount := congrArg UInt32.toNat (run_nFiles h)
  rw [hsame, UInt32.toNat_add, UInt32.toNat_ofNat'] at hcount
  have hlt := s.result.nFiles.toNat_lt
  omega

/-- **An included file that changes nothing**: with the files it includes it takes the counter of
32 bits around, and its lines lead back to the state before. -/
def IncludeIdle (env : PrsEnv) (filename : FileName) (includePaths : List CStr) (depth : ℕ)
    (line : CStr) (s : Prs T) : Prop :=
  ∃ filepath es, included env includePaths line = some filepath ∧
    fileSteps env includePaths depth ⟨filename.depth + 1, filepath⟩ = some es ∧
    2 ^ 32 ∣ es.countP ParseStep.isFileEnd ∧
    run (parseStep env includePaths) es
      { s with erange := (findFile env (tokenOf (line.drop 9)) includePaths s.erange).2 } = some s

/-- A line with `%data` includes nothing. -/
theorem not_included_of_data {line filepath : CStr}
    (hdata : "%data".toList.isPrefixOf line = true) :
    included env includePaths line ≠ some filepath := by
  unfold included
  rw [if_neg fun h => h.2.1 hdata]
  exact Option.some_ne_none filepath |>.symm

/-- **An included file that is accepted.** -/
theorem parsePreprocInclude_idle_iff {filename : FileName} {lineno : UInt32} {depth : ℕ}
    {line : CStr} (hlen : 9 ≤ line.length) (hincl : "%include".toList.isPrefixOf line = true)
    (h : parsePreprocInclude env filename lineno line includePaths
      (parseAsmInto env includePaths depth) s = .ok s')
    (herrors : s'.result.errors = s.result.errors) :
    s' = s ↔ IncludeIdle env filename includePaths depth line s := by
  have hreported (s₁ : Prs T) (message : CStr) (hs₁ : s₁.result.errors = s.result.errors)
      (heq : s₁.error filename lineno message = s') : False := by
    rw [← heq, errors_error, hs₁] at herrors
    exact absurd herrors (Nat.succ_ne_self _)
  have hdata : ¬ "%data".toList.isPrefixOf line = true := by
    obtain ⟨text, rfl⟩ := List.isPrefixOf_iff_prefix.1 hincl
    exact Bool.false_ne_true
  rw [parsePreprocInclude_eq env filename lineno includePaths hlen] at h
  by_cases hname : tokenOf (line.drop 9) = []
  · rw [if_pos hname] at h
    exact (hreported s _ rfl (Except.ok.inj h)).elim
  · rw [if_neg hname] at h
    have hfst := findFile_fst env (tokenOf (line.drop 9)) includePaths false s.erange
    unfold IncludeIdle
    cases hfile : findFile env (tokenOf (line.drop 9)) includePaths s.erange with
    | mk file erange =>
        rw [hfile] at h hfst
        cases file with
        | none => exact (hreported { s with erange } _ rfl (Except.ok.inj h)).elim
        | some filepath =>
            obtain ⟨es, hes, hrun⟩ := parseAsmInto_eq_ok.1 h
            have hincluded : included env includePaths line = some filepath := by
              unfold included includeTarget
              rw [if_pos ⟨isDirective_of_isPrefixOf hincl, hdata, hincl⟩, if_pos ⟨hlen, hname⟩]
              exact hfst
            constructor
            · rintro rfl
              exact ⟨filepath, es, hincluded, hes, dvd_of_run hrun rfl, hrun⟩
            · rintro ⟨filepath', es', hincluded', hes', -, hrun'⟩
              obtain rfl := Option.some.inj (hincluded.symm.trans hincluded')
              obtain rfl := Option.some.inj (hes.symm.trans hes')
              exact Option.some.inj (hrun.symm.trans hrun')

end Included

end BvgzVm
