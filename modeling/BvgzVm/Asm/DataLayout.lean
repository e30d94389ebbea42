import BvgzVm.Asm.DataImage

set_option autoImplicit false

/-! # Sequences of `%data` directives

What a sequence of directives does to the image follows from their contents, offsets and sizes
alone (`Piece`): `layout` says where each content comes to lie and how much of it is kept. On this
rest three results about the parser:

* the result does not depend on the size of the blocks (`image_block_independent`),
* which gaps are zero (`zeroFilled_iff`), and
* which directives with an explicit offset leave the rest of the image alone (`frameLaw_iff`).
-/

namespace BvgzVm

open Bytes CLib Fallible Overlay

variable {T : InstnTable}

/-! ## Runs -/

/-- A line with a directive, and what `parse_preproc_data` is called with. -/
structure DataLine where
  filename : FileName
  lineno : UInt32
  line : CStr
  includePaths : List CStr

/-- The directives, one after the other. -/
def parseData (env : PrsEnv) (lines : List DataLine) (s : Prs T) : Except PrsFault (Prs T) :=
  lines.foldlM (fun s l => parsePreprocData env l.filename l.lineno l.line l.includePaths s) s

/-- The directives, on a draft. -/
def Draft.parseData (env : PrsEnv) (lines : List DataLine) (a : Draft T) :
    Except PrsFault (Draft T) :=
  lines.foldlM (fun a l => a.parsePreprocData env l.filename l.lineno l.line l.includePaths) a

/-- The draft of a parser that has not read anything. -/
def initDraft (erange : Bool) : Draft T := ⟨initParse erange, fun _ => 0⟩

theorem initDraft_drafted (erange : Bool) :
    Drafted (initParse erange : Prs T) (initDraft erange) := by
  exact ⟨rfl, rfl, UInt32.le_refl 0, rfl, fun i => rfl⟩

/-- **A run** does what the draft says, by induction on the directives. -/
theorem parseData_drafts {env : PrsEnv} (hblock : 0 < env.memAllocBlockSz)
    (lines : List DataLine) {s : Prs T} {a : Draft T} (h : Drafted s a) :
    UpTo .hang Drafted (parseData env lines s) (a.parseData env lines) := by
  induction lines generalizing s a with
  | nil => exact .ok h
  | cons l lines ih =>
      refine (parsePreprocData_drafts env l.filename l.lineno hblock l.line l.includePaths h).bind ?_
      intro s' a' h'
      exact ih h'

/-- The bytes `[0, memsz)`. -/
def Prs.image (s : Prs T) : List UInt8 := s.result.memory.take s.result.memsz.toNat

theorem Drafted.length_image {s : Prs T} {a : Draft T} (h : Drafted s a) :
    s.image.length = a.image.size.toNat := by
  have := h.draws.memsz_le
  rw [Prs.image, List.length_take, ← h.memsz]
  omega

/-- A byte of the image. -/
theorem Drafted.getElem?_image {s : Prs T} {a : Draft T} (h : Drafted s a) {i : ℕ}
    (hi : i < a.image.size.toNat) : s.image[i]? = some (a.cells i) := by
  have hlen := h.draws.memsz_le
  have hmemsz := h.memsz
  have hlt : i < s.result.memory.length := by
    rw [hmemsz] at hlen
    omega
  rw [Prs.image, List.getElem?_take, if_pos (by rw [hmemsz]; exact hi),
    List.getElem?_eq_getElem hlt]
  have hcell := h.draws.cells i
  rw [List.getElem?_eq_getElem hlt, Option.getD_some] at hcell
  rw [hcell]
  rfl

/-- An environment with one file, of twelve bytes. -/
def dataEnv : PrsEnv where
  stat _ := true
  fopen _ := some [1, 2, 3, 4, 5, 6, 7, 8, 9, 10, 11, 12]
  memAllocBlockSz := 10
  freshType _ := 0

def dataLine (text : String) : DataLine := ⟨⟨0, "a.asm".toList⟩, 1, text.toList, [".".toList]⟩

/-- What can be seen of the result of a run. -/
def dataResult (x : Except PrsFault (Prs stableTable)) : Option (List UInt8 × ℕ) :=
  x.toOption.map (fun s => (s.image, s.result.errors))

theorem exists_of_dataResult {x : Except PrsFault (Prs stableTable)} {r : List UInt8 × ℕ}
    (h : dataResult x = some r) : ∃ s, x = .ok s ∧ s.image = r.1 ∧ s.result.errors = r.2 := by
  cases x with
  | error e => cases h
  | ok s =>
      obtain rfl := Option.some.inj h
      exact ⟨s, rfl, rfl, rfl⟩

/-! ## The size of the blocks -/

/-- Two parse results that nobody can tell apart without looking at the allocation. -/
structure SameResult (s₁ s₂ : Prs T) : Prop where
  memsz : s₁.result.memsz = s₂.result.memsz
  image : s₁.image = s₂.image
  labels : s₁.result.labels = s₂.result.labels
  errors : s₁.result.errors = s₂.result.errors
  warnings : s₁.result.warnings = s₂.result.warnings

theorem Drafted.sameResult {s₁ s₂ : Prs T} {a : Draft T} (h₁ : Drafted s₁ a)
    (h₂ : Drafted s₂ a) : SameResult s₁ s₂ := by
  have hprs := h₁.prs.symm.trans h₂.prs
  have hmemsz : s₁.result.memsz = s₂.result.memsz := h₁.memsz.trans h₂.memsz.symm
  have hreports := congrArg (fun p : Prs T => p.result.reports) hprs
  have hlabels := congrArg (fun p : Prs T => p.result.labels) hprs
  refine ⟨hmemsz, ?_, hlabels, ?_, ?_⟩
  · apply List.ext_getElem?
    intro i
    by_cases hi : i < a.image.size.toNat
    · rw [h₁.getElem?_image hi, h₂.getElem?_image hi]
    · have hlen₁ := h₁.length_image
      have hlen₂ := h₂.length_image
      rw [List.getElem?_eq_none (by omega), List.getElem?_eq_none (by omega)]
  · exact congrArg (List.countP (fun r => r.kind = .error)) hreports
  · exact congrArg (List.countP (fun r => r.kind = .warn)) hreports

theorem findFile_block (env : PrsEnv) (b : UInt32) (filename : CStr) (paths : List CStr)
    (erange : Bool) : findFile { env with memAllocBlockSz := b } filename paths erange =
      findFile env filename paths erange := by
  induction paths generalizing erange with
  | nil => rfl
  | cons p ps ih =>
      rw [findFile, findFile, ih]

/-- A draft does not know the size of the blocks. -/
theorem Draft.parseData_block (env : PrsEnv) (b : UInt32) (lines : List DataLine) (a : Draft T) :
    a.parseData { env with memAllocBlockSz := b } lines = a.parseData env lines := by
  have hfile := findFile_block env b
  simp only [Draft.parseData, Draft.parsePreprocData, Draft.addData, Draft.addFile, hfile]

/-- Two runs end alike: with the same result, or at the same fault. -/
inductive EndAlike : Except PrsFault (Prs T) → Except PrsFault (Prs T) → Prop
  | ok {s₁ s₂ : Prs T} : SameResult s₁ s₂ → EndAlike (.ok s₁) (.ok s₂)
  | error (e : PrsFault) : EndAlike (.error e) (.error e)

/-- **The image does not depend on the size of the blocks** the memory grows by and files are read
in: two runs of the same directives for which every search for a larger allocation ends are
alike. -/
theorem image_block_independent (env : PrsEnv) (lines : List DataLine) (erange : Bool)
    {b₁ b₂ : UInt32} (hpos₁ : 0 < b₁) (hpos₂ : 0 < b₂)
    (hterm₁ : parseData { env with memAllocBlockSz := b₁ } lines (initParse erange : Prs T)
      ≠ .error .hang)
    (hterm₂ : parseData { env with memAllocBlockSz := b₂ } lines (initParse erange : Prs T)
      ≠ .error .hang) :
    EndAlike (parseData { env with memAllocBlockSz := b₁ } lines (initParse erange : Prs T))
      (parseData { env with memAllocBlockSz := b₂ } lines (initParse erange : Prs T)) := by
  have hdrafted := initDraft_drafted (T := T) erange
  have hrun₁ := @parseData_drafts _ { env with memAllocBlockSz := b₁ } hpos₁ lines _ _ hdrafted
  have hrun₂ := @parseData_drafts _ { env with memAllocBlockSz := b₂ } hpos₂ lines _ _ hdrafted
  rw [Draft.parseData_block] at hrun₁ hrun₂
  rcases hrun₁.of_ne hterm₁ with ⟨s₁, a, hs₁, ha, h₁⟩ | ⟨e, he₁, ha⟩
  · rcases hrun₂.of_ne hterm₂ with ⟨s₂, a', hs₂, ha', h₂⟩ | ⟨e, he₂, ha'⟩
    · obtain rfl := Except.ok.inj (ha.symm.trans ha')
      rw [hs₁, hs₂]
      exact .ok (h₁.sameResult h₂)
    · rw [ha] at ha'
      cases ha'
  · rcases hrun₂.of_ne hterm₂ with ⟨s₂, a', hs₂, ha', h₂⟩ | ⟨e', he₂, ha'⟩
    · rw [ha] at ha'
      cases ha'
    · obtain rfl := Except.error.inj (ha.symm.trans ha')
      rw [he₁, he₂]
      exact .error e

/-- A file read in blocks of ten and of 512 bytes. -/
theorem image_blocks_file :
    EndAlike
      (parseData { dataEnv with memAllocBlockSz := 10 } [dataLine "%data =f :3\n"]
        (initParse false : Prs stableTable))
      (parseData { dataEnv with memAllocBlockSz := 512 } [dataLine "%data =f :3\n"]
        (initParse false : Prs stableTable)) := by
  have hrun : ∀ b, dataResult (parseData { dataEnv with memAllocBlockSz := b }
      [dataLine "%data =f :3\n"] (initParse false)) ≠ none →
      parseData { dataEnv with memAllocBlockSz := b } [dataLine "%data =f :3\n"]
        (initParse false : Prs stableTable) ≠ .error .hang := by
    intro b h hhang
    rw [hhang] at h
    exact h rfl
  have hten : (0 : UInt32) < 10 := by decide
  have hmany : (0 : UInt32) < 512 := by decide
  have hterm₁ : dataResult (parseData { dataEnv with memAllocBlockSz := 10 }
      [dataLine "%data =f :3\n"] (initParse false)) ≠ none := by decide +kernel
  have hterm₂ : dataResult (parseData { dataEnv with memAllocBlockSz := 512 }
      [dataLine "%data =f :3\n"] (initParse false)) ≠ none := by decide +kernel
  exact image_block_independent dataEnv [dataLine "%data =f :3\n"] false hten hmany
    (hrun 10 hterm₁) (hrun 512 hterm₂)

/-! ## Pieces -/

/-- What a directive is about: its content, its offset and its size, each of the two possibly
`notGiven`. -/
structure Piece where
  content : List UInt8
  offset : UInt32
  size : UInt32
  deriving DecidableEq, Repr

/-- The piece that data with options stands for, unless something is wrong with it. -/
def dataPiece (env : PrsEnv) (data : CStr) (o : DataOptions) (includePaths : List CStr) :
    Option Piece :=
  match data with
  | '=' :: inclFile => do
      let filepath ← (findFile env inclFile includePaths false).1
      let contents ← env.fopen filepath
      some ⟨contents, o.offset, o.size⟩
  | '"' :: str => some ⟨(strBytes str false).2 ++ [0], o.offset, o.size⟩
  | '0' :: 'x' :: c :: hex => some ⟨hexContent (c :: hex), o.offset, o.size⟩
  | '&' :: _ =>
      let size := labelCellSize o.size
      if size ≠ 4 ∧ size ≠ 8 then none else some ⟨List.replicate size.toNat 0, o.offset, size⟩
  | _ => none

/-- The piece of a line. The options are read as `parse_preproc_data` reads them; what it reports
about them plays no part. -/
def pieceOf (T : InstnTable) (env : PrsEnv) (l : DataLine) : Option Piece :=
  let piece : Except PrsFault (Option Piece) := do
    match ← dataHead l.line with
    | none => .ok none
    | some h => do
        let (line, o, _) ← dataOptions l.filename l.lineno (h.line.length + 1) h.next h.line
          ⟨notGiven, notGiven⟩ (initParse false : Prs T)
        let data ← onLine (strAt line h.data)
        .ok (dataPiece env data o l.includePaths)
  match piece with
  | .ok p => p
  | .error _ => none

/-- The image that ends where `size` says. -/
def Image.resized (size off : UInt32) (m : Image) : Image :=
  if size = notGiven then m else ⟨size + off, m.cells⟩

/-- What a piece does to the image. -/
def Piece.apply (p : Piece) (m : Image) : Except PrsFault Image := do
  let off := m.start p.offset
  let m ← m.place off p.content
  .ok (m.resized p.size off)

/-! ## A directive without errors applies its piece -/

/-- `errors` -/
def Draft.errors (a : Draft T) : ℕ := a.prs.result.errors

theorem Drafted.errors {s : Prs T} {a : Draft T} (h : Drafted s a) :
    a.errors = s.result.errors := by
  have hprs := congrArg (fun p : Prs T => p.result.errors) h.prs
  exact hprs

section Errors

variable (s : Prs T) (filename : FileName) (lineno : UInt32)

theorem errors_error (message : CStr) :
    (s.error filename lineno message).result.errors = s.result.errors + 1 := by
  simp [Prs.error, PrsResult.report, PrsResult.errors]

theorem errors_warn (message : CStr) :
    (s.warn filename lineno message).result.errors = s.result.errors := by
  simp [Prs.warn, PrsResult.report, PrsResult.errors]

theorem errors_ite_error (c : Prop) [Decidable c] (message : CStr) :
    s.result.errors ≤ (if c then s else s.error filename lineno message).result.errors := by
  split
  · exact le_rfl
  · rw [errors_error]
    omega

theorem errors_ite_warn (c : Prop) [Decidable c] (message : CStr) :
    (if c then s else s.warn filename lineno message).result.errors = s.result.errors := by
  split
  · rfl
  · exact errors_warn s filename lineno message

theorem errors_hexReports (hex : CStr) :
    (hexReports filename lineno hex s).result.errors = s.result.errors := by
  simp only [hexReports]
  rw [errors_ite_warn, errors_ite_warn]
  rfl

theorem errors_parsePreprocDataNo (numericStr dataName : CStr) :
    s.result.errors ≤ (parsePreprocDataNo filename lineno numericStr dataName s).2.result.errors := by
  unfold parsePreprocDataNo
  simp only
  split
  · exact le_rfl
  · rw [errors_error]
    exact Nat.le_succ _

end Errors

/-- The end of a directive. -/
theorem Draft.finish_spec (filename : FileName) (lineno off size : UInt32) (label : Option CStr)
    (a : Draft T) :
    (a.finish filename lineno off size label).image = a.image.resized size off ∧
      (a.finish filename lineno off size label).errors = a.errors := by
  have hlabelled : ∀ b : Draft T, (b.labelled filename lineno off label).image = b.image ∧
      (b.labelled filename lineno off label).errors = b.errors := by
    intro b
    cases label with
    | none => exact ⟨rfl, rfl⟩
    | some label => exact ⟨rfl, rfl⟩
  rw [Draft.finish, (hlabelled _).1, (hlabelled _).2, Draft.sized, Image.resized]
  by_cases hsize : size = notGiven
  · rw [if_pos hsize, if_pos hsize]
    exact ⟨rfl, rfl⟩
  · rw [if_neg hsize, if_neg hsize]
    by_cases htrim : size + off < a.image.size
    · simp only [if_pos htrim]
      exact ⟨rfl, errors_warn a.prs filename lineno _⟩
    · simp only [if_neg htrim]
      exact ⟨rfl, rfl⟩

/-- What a directive with errors or without may do: it adds errors, or it applies its piece. -/
def Applies (p : Option Piece) (a : Draft T) (x : Except PrsFault (Draft T)) : Prop :=
  ∀ a', x = .ok a' → a.errors < a'.errors ∨
    a'.errors = a.errors ∧ ∃ q, p = some q ∧ q.apply a.image = .ok a'.image

/-- Content is placed and the directive ends. -/
theorem applies_place {a : Draft T} {q : Piece} (filename : FileName) (lineno : UInt32)
    (label : Option CStr) (f : Image → Draft T)
    (hf : ∀ m, (f m).image = m ∧ (f m).errors = a.errors) :
    Applies (some q) a (a.image.place (a.image.start q.offset) q.content >>= fun m =>
      .ok ((f m).finish filename lineno (a.image.start q.offset) q.size label)) := by
  intro a' h
  rcases bind_eq_ok.1 h with ⟨m, hm, hok⟩
  obtain rfl := Except.ok.inj hok
  rcases Draft.finish_spec filename lineno (a.image.start q.offset) q.size label (f m) with
    ⟨himage, herrors⟩
  refine Or.inr ⟨herrors.trans (hf m).2, q, rfl, ?_⟩
  rw [himage, (hf m).1, Piece.apply, hm, ok_bind]

theorem applies_error {p : Option Piece} {a b : Draft T} (h : a.errors < b.errors) :
    Applies p a (.ok b) := by
  intro a' ha
  obtain rfl := Except.ok.inj ha
  exact Or.inl h

theorem findFile_fst (env : PrsEnv) (filename : CStr) (paths : List CStr) (e e' : Bool) :
    (findFile env filename paths e).1 = (findFile env filename paths e').1 := by
  induction paths generalizing e e' with
  | nil => rfl
  | cons p ps ih =>
      simp only [findFile]
      split
      · rfl
      · rfl

section Steps

variable (env : PrsEnv) (filename : FileName) (lineno : UInt32) (label : Option CStr)
  (o : DataOptions) (includePaths : List CStr) (a : Draft T)

theorem addFile_applies (inclFile : CStr) :
    Applies (dataPiece env ('=' :: inclFile) o includePaths) a
      (a.addFile env filename lineno label inclFile o.size o.offset includePaths) := by
  have hfst := findFile_fst env inclFile includePaths false a.prs.erange
  simp only [dataPiece, Draft.addFile]
  rw [hfst]
  rcases findFile env inclFile includePaths a.prs.erange with ⟨_ | filepath, erange⟩
  · refine applies_error ?_
    have herr := errors_error ({ a.prs with erange }) filename lineno
      ("file not found: ".toList ++ inclFile)
    have hsame : ({ a.prs with erange } : Prs T).result.errors = a.errors := rfl
    show a.errors < _
    rw [hsame] at herr
    exact Nat.lt_of_lt_of_eq (Nat.lt_succ_self _) herr.symm
  · simp only
    cases hopen : env.fopen filepath with
    | none =>
        intro a' h
        cases h
    | some contents =>
        simp only [Option.bind_eq_bind, Option.bind_some, hopen]
        exact applies_place filename lineno label _ (fun m => ⟨rfl, rfl⟩)

theorem addStr_applies (str : CStr) :
    Applies (dataPiece env ('"' :: str) o includePaths) a
      (a.addStr filename lineno label str o.size o.offset) := by
  cases hstop : (strBytes str false).1 with
  | true =>
      simp only [Draft.addStr, hstop, if_true]
      exact applies_place filename lineno label _ (fun m => ⟨rfl, rfl⟩)
  | false =>
      intro a' h
      simp only [Draft.addStr, hstop, Bool.false_eq_true, if_false] at h
      rcases bind_eq_ok.1 h with ⟨m, -, hok⟩
      obtain rfl := Except.ok.inj hok
      refine Or.inl ?_
      rw [(Draft.finish_spec filename lineno _ _ label _).2]
      have herr := errors_error (a.setImage m).prs filename lineno "bad string format".toList
      exact Nat.lt_of_lt_of_eq (Nat.lt_succ_self a.errors) herr.symm

theorem addHex_applies (c : Char) (hex : CStr) :
    Applies (dataPiece env ('0' :: 'x' :: c :: hex) o includePaths) a
      (a.addHex filename lineno label (c :: hex) o.size o.offset) :=
  applies_place filename lineno label _ (fun _ =>
    ⟨rfl, errors_hexReports a.prs filename lineno (c :: hex)⟩)

theorem addLabelCell_applies (labelValue : CStr) :
    Applies (dataPiece env ('&' :: labelValue) o includePaths) a
      (a.addLabelCell filename lineno label labelValue o.size o.offset) := by
  simp only [dataPiece, Draft.addLabelCell]
  by_cases hsize : labelCellSize o.size ≠ 4 ∧ labelCellSize o.size ≠ 8
  · rw [if_pos hsize, if_pos hsize]
    refine applies_error ?_
    have herr := errors_error a.prs filename lineno
      "bad data directive: size must be either 4 (default) or 8".toList
    exact Nat.lt_of_lt_of_eq (Nat.lt_succ_self a.errors) herr.symm
  · rw [if_neg hsize, if_neg hsize]
    exact applies_place filename lineno label _ (fun m => ⟨rfl, rfl⟩)

theorem addData_applies (data : CStr) :
    Applies (dataPiece env data o includePaths) a
      (a.addData env filename lineno label data o includePaths) := by
  unfold Draft.addData
  split
  · exact addFile_applies env filename lineno label o includePaths a _
  · exact addStr_applies env filename lineno label o includePaths a _
  · exact addHex_applies env filename lineno label o includePaths a _ _
  · exact addLabelCell_applies env filename lineno label o includePaths a _
  · refine applies_error ?_
    have herr := errors_error a.prs filename lineno
      "bad data directive: incorrect data specification".toList
    exact Nat.lt_of_lt_of_eq (Nat.lt_succ_self a.errors) herr.symm

end Steps

/-- A number with an option before it: the bytes in use stay, and errors are added at most. -/
theorem numericOption_spec (filename : FileName) (lineno : UInt32) (c : Prop) [Decidable c]
    (message numericStr dataName : CStr) (s : Prs T) :
    s.result.errors ≤ (parsePreprocDataNo filename lineno numericStr dataName
        (if c then s else s.error filename lineno message)).2.result.errors ∧
      (parsePreprocDataNo filename lineno numericStr dataName
        (if c then s else s.error filename lineno message)).2.result.memsz = s.result.memsz := by
  have hmulti := apart_ite c apart_id (apart_error (T := T) filename lineno message)
  have harea := (hmulti.comp (parsePreprocDataNo_apart filename lineno numericStr dataName)).area s
  refine ⟨?_, congrArg DataArea.memsz harea⟩
  exact Nat.le_trans (errors_ite_error s filename lineno c message)
    (errors_parsePreprocDataNo _ filename lineno numericStr dataName)

/-- The options keep the bytes in use, and add errors at most. -/
theorem optionsAlike_errors (filename : FileName) (lineno : UInt32) (n : ℕ) (memsz : UInt32) :
    OptionsAlike (T := T) filename filename lineno lineno
      (fun s _ => n ≤ s.result.errors ∧ s.result.memsz = memsz) where
  error := by
    rintro s _ message ⟨hn, hmemsz⟩
    refine ⟨?_, hmemsz⟩
    rw [errors_error]
    omega
  offset := by
    rintro s _ numericStr o ⟨hn, hmemsz⟩
    rcases numericOption_spec filename lineno (o.offset = notGiven)
      "multiple offset definitions".toList numericStr "offset".toList s with ⟨herrors, hsame⟩
    unfold offsetOption
    simp only
    generalize parsePreprocDataNo filename lineno numericStr "offset".toList _ = r
      at herrors hsame ⊢
    split
    · rw [errors_warn]
      exact ⟨Nat.le_trans hn herrors, hsame.trans hmemsz⟩
    · exact ⟨Nat.le_trans hn herrors, hsame.trans hmemsz⟩
  size := by
    rintro s _ numericStr o ⟨hn, hmemsz⟩
    rcases numericOption_spec filename lineno (o.offset = notGiven)
      "multiple size definitions".toList numericStr "size".toList s with ⟨herrors, hsame⟩
    exact ⟨Nat.le_trans hn herrors, hsame.trans hmemsz⟩

/-- **A directive** adds errors, or applies the piece of its line. -/
theorem parsePreprocData_applies (env : PrsEnv) (l : DataLine) (a : Draft T) :
    Applies (pieceOf T env l) a
      (a.parsePreprocData env l.filename l.lineno l.line l.includePaths) := by
  intro a' h
  rcases bind_eq_ok.1 h with ⟨head, hhead, h⟩
  cases head with
  | none =>
      obtain rfl := Except.ok.inj h
      refine Or.inl ?_
      have herr := errors_error a.prs l.filename l.lineno incorrectSpecification
      exact Nat.lt_of_lt_of_eq (Nat.lt_succ_self a.errors) herr.symm
  | some head =>
      rcases bind_eq_ok.1 h with ⟨⟨line, o, p⟩, hoptions, h⟩
      rcases bind_eq_ok.1 h with ⟨label, -, h⟩
      rcases bind_eq_ok.1 h with ⟨data, hstr, h⟩
      -- the options of `pieceOf` are read in an empty parser
      have hstart := optionsAlike_errors (T := T) l.filename l.lineno a.errors a.prs.result.memsz
      rcases (dataOptions_alike .hang hstart a.prs (initParse false) ⟨le_rfl, rfl⟩).of_ok hoptions
        with ⟨⟨line', o', p'⟩, hoptions', rfl, rfl, herrors, hmemsz⟩
      have hpiece : pieceOf T env l = dataPiece env data o l.includePaths := by
        simp only [pieceOf, hhead, ok_bind, hoptions', hstr]
      have himage : (Draft.mk p a.cells).image = a.image := by
        rw [Draft.image, Draft.image, hmemsz]
      have hdata := addData_applies env l.filename l.lineno label o l.includePaths ⟨p, a.cells⟩
        data a' h
      rw [hpiece, ← himage]
      rcases hdata with hlt | ⟨heq, hq⟩
      · exact Or.inl (Nat.lt_of_le_of_lt herrors hlt)
      · rcases Nat.lt_or_eq_of_le herrors with hlt | hsame
        · exact Or.inl (Nat.lt_of_lt_of_eq hlt heq.symm)
        · exact Or.inr ⟨heq.trans hsame.symm, hq⟩

/-- The pieces of a sequence of directives. -/
def piecesOf (T : InstnTable) (env : PrsEnv) (lines : List DataLine) : Option (List Piece) :=
  lines.mapM (pieceOf T env)

/-- The pieces, one after the other. -/
def applyPieces (ps : List Piece) (m : Image) : Except PrsFault Image :=
  ps.foldlM (fun m p => p.apply m) m

/-- **A run without errors** applies the pieces of its lines. The induction is on the lines; errors
are never taken back. -/
theorem parseData_applies {env : PrsEnv} {lines : List DataLine} {a a' : Draft T}
    (h : a.parseData env lines = .ok a') :
    a.errors < a'.errors ∨ a'.errors = a.errors ∧
      ∃ ps, piecesOf T env lines = some ps ∧ applyPieces ps a.image = .ok a'.image := by
  induction lines generalizing a with
  | nil =>
      obtain rfl := Except.ok.inj h
      exact Or.inr ⟨rfl, [], rfl, rfl⟩
  | cons l lines ih =>
      rcases bind_eq_ok.1 h with ⟨b, hb, hrest⟩
      rcases parsePreprocData_applies env l a b hb with hlt | ⟨heq, q, hq, happly⟩
      · rcases ih hrest with hlt' | ⟨heq', -⟩
        · exact Or.inl (Nat.lt_trans hlt hlt')
        · exact Or.inl (Nat.lt_of_lt_of_eq hlt heq'.symm)
      · rcases ih hrest with hlt' | ⟨heq', ps, hps, happlies⟩
        · rw [heq] at hlt'
          exact Or.inl hlt'
        · refine Or.inr ⟨heq'.trans heq, q :: ps, ?_, ?_⟩
          · have hps' : lines.mapM (pieceOf T env) = some ps := hps
            rw [piecesOf, List.mapM_cons, hq, hps']
            rfl
          · have hfold : applyPieces (q :: ps) a.image = q.apply a.image >>= applyPieces ps := rfl
            rw [hfold, happly, ok_bind]
            exact happlies

/-! ## The layout -/

/-- Where a content lies, and how many of its bytes are kept. -/
structure Placed where
  start : ℕ
  content : List UInt8
  kept : ℕ

/-- `i` is in the part of the content that is kept. -/
def Placed.Keeps (q : Placed) (i : ℕ) : Prop := q.start ≤ i ∧ i < q.start + q.kept

instance (q : Placed) (i : ℕ) : Decidable (q.Keeps i) := inferInstanceAs (Decidable (_ ∧ _))

/-- The byte that the content has for `i`, kept or not. -/
def Placed.byte? (q : Placed) (i : ℕ) : Option UInt8 := at? q.start q.content i

/-- Where a piece starts in an image of `n` bytes. -/
def Piece.start (p : Piece) (n : UInt32) : UInt32 := if p.offset = notGiven then n else p.offset

/-- A piece in an image of `n` bytes. -/
def Piece.placed (p : Piece) (n : UInt32) : Placed where
  start := (p.start n).toNat
  content := p.content
  kept := if p.size = notGiven then p.content.length else min p.content.length p.size.toNat

/-- Where an image of `n` bytes ends after a piece. -/
def Piece.endAfter (p : Piece) (n : UInt32) : UInt32 :=
  if p.size = notGiven then
    if p.content = [] then n else p.start n + UInt32.ofNat p.content.length
  else p.size + p.start n

/-- The pieces in an image of `n` bytes. -/
def layout : UInt32 → List Piece → List Placed
  | _, [] => []
  | n, p :: ps => p.placed n :: layout (p.endAfter n) ps

/-- Where an image of `n` bytes ends after the pieces. -/
def layoutEnd : UInt32 → List Piece → UInt32
  | n, [] => n
  | n, p :: ps => layoutEnd (p.endAfter n) ps

/-- **The image after a piece.** -/
theorem Piece.apply_ok {p : Piece} {m m' : Image} (h : p.apply m = .ok m') :
    m'.size = p.endAfter m.size ∧
      m'.cells = overlay m.cells (p.placed m.size).start p.content ∧
      (p.content ≠ [] → (p.start m.size).toNat + p.content.length < 2 ^ 32) := by
  rcases bind_eq_ok.1 h with ⟨m₁, hplace, hok⟩
  obtain rfl := Except.ok.inj hok
  have hstart : m.start p.offset = p.start m.size := rfl
  rw [hstart] at hplace ⊢
  unfold Image.place at hplace
  unfold Piece.endAfter Image.resized
  by_cases hnil : p.content = []
  · rw [if_pos hnil] at hplace
    obtain rfl := Except.ok.inj hplace
    simp only [hnil, overlay_nil, if_true]
    split
    · exact ⟨rfl, rfl, fun hne => absurd rfl hne⟩
    · exact ⟨rfl, rfl, fun hne => absurd rfl hne⟩
  · rw [if_neg hnil] at hplace
    by_cases hfit : (p.start m.size).toNat + p.content.length < 2 ^ 32
    · rw [if_pos hfit] at hplace
      obtain rfl := Except.ok.inj hplace
      simp only [if_neg hnil]
      split
      · refine ⟨?_, rfl, fun _ => hfit⟩
        rw [UInt32.ofNat_add, UInt32.ofNat_toNat]
      · exact ⟨rfl, rfl, fun _ => hfit⟩
    · rw [if_neg hfit] at hplace
      cases hplace

/-- **The image after a sequence of pieces**: the contents are laid over each other. -/
theorem applyPieces_ok {ps : List Piece} {m m' : Image} (h : applyPieces ps m = .ok m') :
    m'.size = layoutEnd m.size ps ∧
      m'.cells = overlays m.cells ((layout m.size ps).map (fun q => (q.start, q.content))) := by
  induction ps generalizing m with
  | nil =>
      obtain rfl := Except.ok.inj h
      exact ⟨rfl, rfl⟩
  | cons p ps ih =>
      rcases bind_eq_ok.1 h with ⟨m₁, hp, hrest⟩
      rcases Piece.apply_ok hp with ⟨hsize, hcells, -⟩
      rcases ih hrest with ⟨hend, hoverlays⟩
      refine ⟨?_, ?_⟩
      · rw [hend, hsize]
        rfl
      · rw [hoverlays, hcells, hsize]
        rfl

/-! ## Gaps -/

/-- **Zero-filled gaps**: what no directive's content accounts for is zero. -/
def ZeroFilled (image : List UInt8) (qs : List Placed) : Prop :=
  ∀ i b, image[i]? = some b → (∀ q ∈ qs, ¬ q.Keeps i) → b = 0

/-- What a size cuts off does no harm: every byte other than zero that is not kept lies behind the
end `n` of the image, or where some content is kept, or under a later content. -/
def CutsHidden (qs : List Placed) (n : ℕ) : Prop :=
  ∀ (k : ℕ) (q : Placed) (i : ℕ) (b : UInt8), qs[k]? = some q → q.byte? i = some b →
    ¬ q.Keeps i → b ≠ 0 →
    n ≤ i ∨ (∃ r ∈ qs, r.Keeps i) ∨
      ∃ (j : ℕ) (r : Placed), k < j ∧ qs[j]? = some r ∧ (r.byte? i).isSome

/-- The place of a content among the contents. -/
theorem getElem?_contents {qs : List Placed} {k : ℕ} {p : ℕ × List UInt8}
    (h : (qs.map (fun q => (q.start, q.content)))[k]? = some p) :
    ∃ q, qs[k]? = some q ∧ p = (q.start, q.content) := by
  rw [List.getElem?_map] at h
  rcases Option.map_eq_some_iff.1 h with ⟨q, hq, rfl⟩
  exact ⟨q, hq, rfl⟩

/-- The last content that covers a byte decides, so a byte that was cut off shows exactly if it is
not hidden. -/
theorem zeroFilled_of_overlays {image : List UInt8} {qs : List Placed} {n : ℕ}
    (himage : ∀ i, image[i]? = if i < n then
      some (overlays (fun _ => 0) (qs.map (fun q => (q.start, q.content))) i) else none) :
    ZeroFilled image qs ↔ CutsHidden qs n := by
  constructor
  · intro hzero k q i b hq hb hcut hne
    by_contra hhidden
    rw [not_or, not_or] at hhidden
    rcases hhidden with ⟨hin, hkeeps, hlater⟩
    have hget := himage i
    rw [if_pos (by omega)] at hget
    have hval := hzero i _ hget (fun r hr hk => hkeeps ⟨r, hr, hk⟩)
    rcases overlays_cases (fun _ => (0 : UInt8)) (qs.map (fun q => (q.start, q.content))) i with
      ⟨-, hnone⟩ | ⟨k', p, hp, hat, hlast⟩
    · have hmem := List.mem_map_of_mem (f := fun q : Placed => (q.start, q.content))
        (List.mem_of_getElem? hq)
      have hcover := hnone _ hmem
      rw [show at? q.start q.content i = some b from hb] at hcover
      cases hcover
    · rcases getElem?_contents hp with ⟨q', hq', rfl⟩
      rw [hval] at hat
      rcases Nat.lt_trichotomy k k' with hlt | rfl | hlt
      · exact hlater ⟨k', q', hlt, hq', by
          rw [show q'.byte? i = some 0 from hat]
          rfl⟩
      · obtain rfl := Option.some.inj (hq.symm.trans hq')
        exact hne (Option.some.inj (hb.symm.trans hat))
      · have hkth : (qs.map (fun q => (q.start, q.content)))[k]? = some (q.start, q.content) := by
          rw [List.getElem?_map, hq]
          rfl
        have hnone := hlast k _ hlt hkth
        rw [show at? q.start q.content i = some b from hb] at hnone
        cases hnone
  · intro hhidden i b hb hkeeps
    rw [himage] at hb
    by_cases hin : i < n
    · rw [if_pos hin] at hb
      rcases overlays_cases (fun _ => (0 : UInt8)) (qs.map (fun q => (q.start, q.content))) i with
        ⟨hval, -⟩ | ⟨k, p, hp, hat, hlast⟩
      · exact (Option.some.inj hb).symm.trans hval
      · rcases getElem?_contents hp with ⟨q, hq, rfl⟩
        rw [Option.some.inj hb] at hat
        by_contra hne
        rcases hhidden k q i b hq hat (hkeeps q (List.mem_of_getElem? hq)) hne with
          hout | ⟨r, hr, hk⟩ | ⟨j, r, hj, hr, hcover⟩
        · omega
        · exact hkeeps r hr hk
        · have hjth : (qs.map (fun q => (q.start, q.content)))[j]? =
              some (r.start, r.content) := by
            rw [List.getElem?_map, hr]
            rfl
          have hnone : r.byte? i = none := hlast j _ hj hjth
          rw [hnone] at hcover
          cases hcover
    · rw [if_neg hin] at hb
      cases hb

/-- The image of a run without errors, byte by byte. -/
theorem parseData_image {env : PrsEnv} (hblock : 0 < env.memAllocBlockSz)
    {lines : List DataLine} {erange : Bool} {s : Prs T}
    (h : parseData env lines (initParse erange) = .ok s) (herrors : s.result.errors = 0) :
    ∃ ps, piecesOf T env lines = some ps ∧
      ∀ i, s.image[i]? = if i < (layoutEnd 0 ps).toNat then
        some (overlays (fun _ => 0) ((layout 0 ps).map (fun q => (q.start, q.content))) i)
        else none := by
  rcases (parseData_drafts hblock lines (initDraft_drafted erange)).of_ok h with ⟨a, ha, hdraft⟩
  have hzero : a.errors = 0 := hdraft.errors.trans herrors
  rcases parseData_applies ha with hlt | ⟨-, ps, hps, happly⟩
  · omega
  · rcases applyPieces_ok happly with ⟨hsize, hcells⟩
    refine ⟨ps, hps, ?_⟩
    intro i
    have hn : a.image.size.toNat = (layoutEnd 0 ps).toNat := congrArg UInt32.toNat hsize
    rw [← hn]
    by_cases hi : i < a.image.size.toNat
    · rw [if_pos hi, hdraft.getElem?_image hi]
      exact congrArg some (congrFun hcells i)
    · have hlen := hdraft.length_image
      rw [if_neg hi, List.getElem?_eq_none (by omega)]

/-- **The gaps are zero exactly if what the sizes cut off is hidden**, for every sequence of
directives that is processed without error. -/
theorem zeroFilled_iff {env : PrsEnv} (hblock : 0 < env.memAllocBlockSz) {lines : List DataLine}
    {erange : Bool} {s : Prs T} (h : parseData env lines (initParse erange) = .ok s)
    (herrors : s.result.errors = 0) :
    ∃ ps, piecesOf T env lines = some ps ∧
      (ZeroFilled s.image (layout 0 ps) ↔ CutsHidden (layout 0 ps) (layoutEnd 0 ps).toNat) := by
  rcases parseData_image hblock h herrors with ⟨ps, hps, himage⟩
  exact ⟨ps, hps, zeroFilled_of_overlays himage⟩

/-- Two strings with a gap between them. -/
theorem zeroFilled_gap :
    ∃ s : Prs stableTable,
      parseData dataEnv [dataLine "%data \"ab\"\n", dataLine "%data \"c\" :6\n"]
        (initParse false) = .ok s ∧
      ∃ ps, piecesOf stableTable dataEnv
          [dataLine "%data \"ab\"\n", dataLine "%data \"c\" :6\n"] = some ps ∧
        (ZeroFilled s.image (layout 0 ps) ↔ CutsHidden (layout 0 ps) (layoutEnd 0 ps).toNat) := by
  have hresult : dataResult (parseData dataEnv
      [dataLine "%data \"ab\"\n", dataLine "%data \"c\" :6\n"] (initParse false)) =
      some ([97, 98, 0, 0, 0, 0, 99, 0], 0) := by decide +kernel
  rcases exists_of_dataResult hresult with ⟨s, hrun, -, herrors⟩
  exact ⟨s, hrun, zeroFilled_iff (by decide) hrun herrors⟩

/-- A string is cut to two bytes, and what was cut off shows in the gap behind it. -/
theorem cut_shows :
    ∃ (s : Prs stableTable) (ps : List Piece),
      parseData dataEnv [dataLine "%data \"ABCDEFGH\" /2\n", dataLine "%data 0x01 :6\n"]
        (initParse false) = .ok s ∧
      s.result.errors = 0 ∧
      piecesOf stableTable dataEnv
        [dataLine "%data \"ABCDEFGH\" /2\n", dataLine "%data 0x01 :6\n"] = some ps ∧
      ¬ ZeroFilled s.image (layout 0 ps) := by
  have hresult : dataResult (parseData dataEnv
      [dataLine "%data \"ABCDEFGH\" /2\n", dataLine "%data 0x01 :6\n"] (initParse false)) =
      some ([65, 66, 67, 68, 69, 70, 1], 0) := by decide +kernel
  rcases exists_of_dataResult hresult with ⟨s, hrun, himage, herrors⟩
  refine ⟨s, [⟨[65, 66, 67, 68, 69, 70, 71, 72, 0], notGiven, 2⟩, ⟨[1], 6, notGiven⟩], hrun,
    herrors, by decide +kernel, ?_⟩
  rw [himage]
  intro hzero
  have hgap := hzero 2 67 rfl (by decide)
  exact absurd hgap (by decide)

/-! ## Frames -/

/-- How many bytes a piece occupies: its content, padded or cut to its size. -/
def Piece.len (p : Piece) : ℕ := if p.size = notGiven then p.content.length else p.size.toNat

/-- **The frame of a directive** that occupies `[off, off + len)`: the other bytes of the image
keep their values and stay in it, it ends where the longer of the two ends, and the labels that
were inside stay inside. -/
structure FrameLaw (s s' : Prs T) (off len : ℕ) : Prop where
  kept : ∀ (i : ℕ) (b : UInt8), s.image[i]? = some b → ¬ (off ≤ i ∧ i < off + len) →
    s'.image[i]? = some b
  memsz : s'.result.memsz.toNat = max s.result.memsz.toNat (off + len)
  labels : ∀ k label, s.result.labels.get k = some label → label.isMemRef = true →
    label.offset < s.result.memsz → label.offset < s'.result.memsz

/-- The piece does not end before an image of `n` bytes, nor beyond the numbers of 32 bits. One that
leaves the size alone does not start behind the image. -/
def Piece.Extends (p : Piece) (n : UInt32) : Prop :=
  if p.content = [] ∧ p.size = notGiven then p.offset ≤ n
  else n.toNat ≤ p.offset.toNat + p.len ∧ p.offset.toNat + p.len < 2 ^ 32

/-- Where the image ends, if the piece extends it. -/
theorem Piece.endAfter_eq {p : Piece} {n : UInt32} (hoff : p.offset ≠ notGiven)
    (hfit : p.content ≠ [] → p.offset.toNat + p.content.length < 2 ^ 32) :
    (p.endAfter n).toNat =
      if p.content = [] ∧ p.size = notGiven then n.toNat
      else (p.offset.toNat + p.len) % 2 ^ 32 := by
  have hstart : p.start n = p.offset := if_neg hoff
  unfold Piece.endAfter Piece.len
  rw [hstart]
  by_cases hsize : p.size = notGiven
  · by_cases hnil : p.content = []
    · rw [if_pos hsize, if_pos hnil, if_pos ⟨hnil, hsize⟩]
    · have hlt := hfit hnil
      rw [if_pos hsize, if_neg hnil, if_neg (fun h => hnil h.1), if_pos hsize,
        UInt32.toNat_add, UInt32.toNat_ofNat']
      omega
  · rw [if_neg hsize, if_neg (fun h => hsize h.2), if_neg hsize, UInt32.toNat_add, Nat.add_comm]

/-- The law for the images before and after a piece. -/
theorem frameLaw_of_apply {s s' : Prs T} {a a' : Draft T} {p : Piece} (h : Drafted s a)
    (h' : Drafted s' a') (happly : p.apply a.image = .ok a'.image) (hoff : p.offset ≠ notGiven) :
    FrameLaw s s' p.offset.toNat p.len ↔ p.Extends s.result.memsz := by
  rcases Piece.apply_ok happly with ⟨hsize, hcells, hfit⟩
  have hstart : p.start a.image.size = p.offset := if_neg hoff
  rw [hstart] at hfit
  have hplaced : (p.placed a.image.size).start = p.offset.toNat := congrArg UInt32.toNat hstart
  have hend := Piece.endAfter_eq (n := a.image.size) hoff hfit
  rw [← hsize, ← h'.memsz, ← h.memsz] at hend
  -- a byte before the offset is still there if the image still covers it
  have hbefore : ∀ i b, s.image[i]? = some b → i < p.offset.toNat →
      i < s'.result.memsz.toNat → s'.image[i]? = some b := by
    intro i b hb hlt hin
    have hi : i < a.image.size.toNat := by
      rw [← h.length_image]
      exact (List.getElem?_eq_some_iff.1 hb).1
    rw [h.getElem?_image hi] at hb
    rw [h'.memsz] at hin
    rw [h'.getElem?_image hin, ← hb]
    show some (a'.image.cells i) = _
    rw [hcells, hplaced, overlay_before _ hlt]
    rfl
  unfold Piece.Extends
  by_cases hempty : p.content = [] ∧ p.size = notGiven
  · have hlen : p.len = 0 := by
      rw [Piece.len, if_pos hempty.2, hempty.1]
      rfl
    rw [if_pos hempty] at hend ⊢
    constructor
    · intro hlaw
      have hmemsz := hlaw.memsz
      apply UInt32.le_iff_toNat_le.2
      omega
    · intro hle
      have hle' := UInt32.le_iff_toNat_le.1 hle
      refine ⟨?_, by omega, ?_⟩
      · intro i b hb _
        have hi : i < a.image.size.toNat := by
          rw [← h.length_image]
          exact (List.getElem?_eq_some_iff.1 hb).1
        have hi' : i < a'.image.size.toNat := by
          rw [← h'.memsz, hend, h.memsz]
          exact hi
        rw [h.getElem?_image hi] at hb
        rw [h'.getElem?_image hi', ← hb]
        show some (a'.image.cells i) = _
        rw [hcells, hempty.1, overlay_nil]
        rfl
      · intro k label _ _ hlt
        apply UInt32.lt_iff_toNat_lt.2
        rw [hend]
        exact UInt32.lt_iff_toNat_lt.1 hlt
  · rw [if_neg hempty] at hend ⊢
    constructor
    · intro hlaw
      have hmemsz := hlaw.memsz
      rw [hend] at hmemsz
      have hlt := Nat.mod_lt (p.offset.toNat + p.len) (show 0 < 2 ^ 32 by decide)
      omega
    · rintro ⟨hle, hlt⟩
      rw [Nat.mod_eq_of_lt hlt] at hend
      refine ⟨?_, by omega, ?_⟩
      · intro i b hb hout
        have hi : i < s.result.memsz.toNat := by
          have hlen := (List.getElem?_eq_some_iff.1 hb).1
          rw [h.length_image, ← h.memsz] at hlen
          exact hlen
        exact hbefore i b hb (by omega) (by omega)
      · intro k label _ _ hlt'
        have hlt'' := UInt32.lt_iff_toNat_lt.1 hlt'
        apply UInt32.lt_iff_toNat_lt.2
        omega

/-- **The rest of the image is left alone exactly if the directive extends the image**: after any
directives, for a further one that has an explicit offset and is processed without error. -/
theorem frameLaw_iff {env : PrsEnv} (hblock : 0 < env.memAllocBlockSz) {lines : List DataLine}
    {erange : Bool} {s s' : Prs T} {l : DataLine}
    (hrun : parseData env lines (initParse erange) = .ok s)
    (hstep : parsePreprocData env l.filename l.lineno l.line l.includePaths s = .ok s')
    (herrors : s'.result.errors = s.result.errors) :
    ∃ p, pieceOf T env l = some p ∧ (p.offset ≠ notGiven →
      (FrameLaw s s' p.offset.toNat p.len ↔ p.Extends s.result.memsz)) := by
  rcases (parseData_drafts hblock lines (initDraft_drafted erange)).of_ok hrun with
    ⟨a, -, hdraft⟩
  rcases (parsePreprocData_drafts env l.filename l.lineno hblock l.line l.includePaths hdraft).of_ok
    hstep with ⟨a', ha', hdraft'⟩
  have hsame : a'.errors = a.errors := by
    calc a'.errors = s'.result.errors := hdraft'.errors
      _ = s.result.errors := herrors
      _ = a.errors := hdraft.errors.symm
  rcases parsePreprocData_applies env l a a' ha' with hlt | ⟨-, p, hp, happly⟩
  · omega
  · exact ⟨p, hp, fun hoff => frameLaw_of_apply hdraft hdraft' happly hoff⟩

/-- The directive of the examples, after a file of twelve bytes. -/
theorem exists_of_step {text : String} {image image' : List UInt8}
    (hrun : dataResult (parseData dataEnv [dataLine "%data =f \n"] (initParse false)) =
      some (image, 0))
    (hstep : dataResult (parseData dataEnv [dataLine "%data =f \n", dataLine text]
      (initParse false)) = some (image', 0)) :
    ∃ s s' : Prs stableTable,
      parseData dataEnv [dataLine "%data =f \n"] (initParse false) = .ok s ∧
      parsePreprocData dataEnv (dataLine text).filename (dataLine text).lineno
        (dataLine text).line (dataLine text).includePaths s = .ok s' ∧
      s'.result.errors = s.result.errors ∧ s.image = image ∧ s'.image = image' := by
  rcases exists_of_dataResult hrun with ⟨s, hs, himage, herrors⟩
  rcases exists_of_dataResult hstep with ⟨s', hs', himage', herrors'⟩
  refine ⟨s, s', hs, ?_, herrors'.trans herrors.symm, himage, himage'⟩
  rcases bind_eq_ok.1 hs with ⟨s₁, h₁, hnil⟩
  obtain rfl := Except.ok.inj hnil
  rcases bind_eq_ok.1 hs' with ⟨s₂, h₂, hrest⟩
  obtain rfl := Except.ok.inj (h₁.symm.trans h₂)
  rcases bind_eq_ok.1 hrest with ⟨s₃, h₃, hnil'⟩
  obtain rfl := Except.ok.inj hnil'
  exact h₃

/-- A number behind a file of twelve bytes. -/
theorem frameLaw_behind :
    ∃ s s' : Prs stableTable,
      parseData dataEnv [dataLine "%data =f \n"] (initParse false) = .ok s ∧
      parsePreprocData dataEnv (dataLine "%data 0x01 :14\n").filename
        (dataLine "%data 0x01 :14\n").lineno (dataLine "%data 0x01 :14\n").line
        (dataLine "%data 0x01 :14\n").includePaths s = .ok s' ∧
      ∃ p, pieceOf stableTable dataEnv (dataLine "%data 0x01 :14\n") = some p ∧
        (p.offset ≠ notGiven →
          (FrameLaw s s' p.offset.toNat p.len ↔ p.Extends s.result.memsz)) := by
  have hrun : dataResult (parseData dataEnv [dataLine "%data =f \n"] (initParse false)) =
      some ([1, 2, 3, 4, 5, 6, 7, 8, 9, 10, 11, 12], 0) := by decide +kernel
  have hstep : dataResult (parseData dataEnv [dataLine "%data =f \n",
      dataLine "%data 0x01 :14\n"] (initParse false)) =
      some ([1, 2, 3, 4, 5, 6, 7, 8, 9, 10, 11, 12, 0, 0, 1], 0) := by decide +kernel
  rcases exists_of_step hrun hstep with ⟨s, s', hs, hs', herrors, -, -⟩
  exact ⟨s, s', hs, hs', frameLaw_iff (by decide) hs hs' herrors⟩

/-- A number inside a file of twelve bytes: the image ends behind the number. -/
theorem frame_truncates :
    ∃ (s s' : Prs stableTable) (p : Piece),
      parseData dataEnv [dataLine "%data =f \n"] (initParse false) = .ok s ∧
      parsePreprocData dataEnv (dataLine "%data 0x01 :6\n").filename
        (dataLine "%data 0x01 :6\n").lineno (dataLine "%data 0x01 :6\n").line
        (dataLine "%data 0x01 :6\n").includePaths s = .ok s' ∧
      s'.result.errors = s.result.errors ∧
      pieceOf stableTable dataEnv (dataLine "%data 0x01 :6\n") = some p ∧ p.offset ≠ notGiven ∧
      ¬ FrameLaw s s' p.offset.toNat p.len := by
  have hrun : dataResult (parseData dataEnv [dataLine "%data =f \n"] (initParse false)) =
      some ([1, 2, 3, 4, 5, 6, 7, 8, 9, 10, 11, 12], 0) := by decide +kernel
  have hstep : dataResult (parseData dataEnv [dataLine "%data =f \n",
      dataLine "%data 0x01 :6\n"] (initParse false)) =
      some ([1, 2, 3, 4, 5, 6, 1], 0) := by decide +kernel
  rcases exists_of_step hrun hstep with ⟨s, s', hs, hs', herrors, himage, himage'⟩
  refine ⟨s, s', ⟨[1], 6, notGiven⟩, hs, hs', herrors, by decide +kernel, by decide, ?_⟩
  intro hlaw
  have hkept := hlaw.kept 8 9 (by rw [himage]; rfl) (by decide)
  rw [himage'] at hkept
  cases hkept

end BvgzVm
