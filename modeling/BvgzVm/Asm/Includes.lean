import BvgzVm.Asm.LineEnds
import BvgzVm.Lib.Steps
import BvgzVm.Lib.Unfolding

set_option autoImplicit false

/-! # Included files

`parse_asm_into`, `parse_line` and `parse_preproc_include` call each other. Which file a line
includes depends on the text of the line and on the files there are, not on the state of the parser,
so that a file stands for the sequence of lines that are parsed for it (`expand`). It has one
exactly if there is no endless chain of files that include each other (`expand_isSome_iff`), and
`parse_asm` comes to its end if moreover each of these lines does (`parseAsm_ends_iff`).
-/

namespace BvgzVm

open CLib Fallible Relation Steps Unfolding

variable {T : InstnTable}

/-! ## The file of a line -/

/-- The file that a `%include` line names, if it is found. -/
def includeTarget (env : PrsEnv) (includePaths : List CStr) (line : CStr) : Option CStr :=
  if 9 ≤ line.length ∧ tokenOf (line.drop 9) ≠ [] then
    (findFile env (tokenOf (line.drop 9)) includePaths false).1
  else none

/-- The file that a line includes. -/
def included (env : PrsEnv) (includePaths : List CStr) (line : CStr) : Option CStr :=
  if ((line.takeWhile (· ≠ nul)).dropWhile isspace).head? = some '%' ∧
      ¬ "%data".toList.isPrefixOf line ∧ "%include".toList.isPrefixOf line then
    includeTarget env includePaths line
  else none

section Line

variable (env : PrsEnv) (filename : FileName) (lineno : UInt32) (includePaths : List CStr)
  (line : CStr) (parseAsmInto : FileName → Prs T → Except PrsFault (Prs T)) (s : Prs T)

/-- The include goes on with the file that the line names. -/
theorem parsePreprocInclude_split :
    parsePreprocInclude env filename lineno line includePaths parseAsmInto s =
      parsePreprocInclude env filename lineno line includePaths (fun _ s => .ok s) s >>= fun s' =>
        match includeTarget env includePaths line with
        | none => .ok s'
        | some filepath => parseAsmInto ⟨filename.depth + 1, filepath⟩ s' := by
  by_cases hlen : 9 ≤ line.length
  · rw [parsePreprocInclude_eq env filename lineno includePaths hlen,
      parsePreprocInclude_eq env filename lineno includePaths hlen, includeTarget]
    by_cases hname : tokenOf (line.drop 9) = []
    · simp [hname]
    · have hfst := findFile_fst env (tokenOf (line.drop 9)) includePaths false s.erange
      rw [if_neg hname, if_neg hname, if_pos ⟨hlen, hname⟩, hfst]
      rcases findFile env (tokenOf (line.drop 9)) includePaths s.erange with
        ⟨_ | filepath, erange⟩
      · rfl
      · rfl
  · have hskip : skipWhile isspace line 9 = none := if_neg hlen
    unfold parsePreprocInclude
    rw [hskip]
    rfl

/-- **A line** is its own part and the file it includes. -/
theorem parseLine_split :
    parseLine env filename lineno line includePaths parseAsmInto s =
      parseOwn env filename lineno includePaths line s >>= fun s' =>
        match included env includePaths line with
        | none => .ok s'
        | some filepath => parseAsmInto ⟨filename.depth + 1, filepath⟩ s' := by
  have hdone (x : Except PrsFault (Prs T)) : x = x >>= fun s' => .ok s' := (bind_pure x).symm
  unfold parseOwn parseLine included
  cases (line.takeWhile (· ≠ nul)).dropWhile isspace with
  | nil => rfl
  | cons c p =>
      simp only [List.head?_cons, Option.some.injEq]
      by_cases hcomment : c = ';'
      · have hother : ¬ (c = '%' ∧ ¬ "%data".toList.isPrefixOf line = true ∧
            "%include".toList.isPrefixOf line = true) := by
          rintro ⟨rfl, -⟩
          exact absurd hcomment (by decide)
        rw [if_pos hcomment, if_pos hcomment, if_neg hother]
        rfl
      · rw [if_neg hcomment, if_neg hcomment]
        by_cases hdirective : c = '%'
        · rw [if_pos hdirective, if_pos hdirective]
          unfold parsePreprocLine
          by_cases hdata : "%data".toList.isPrefixOf line = true
          · rw [if_pos hdata, if_pos hdata, if_neg fun h => h.2.1 hdata]
            exact hdone _
          · rw [if_neg hdata, if_neg hdata]
            by_cases hincl : "%include".toList.isPrefixOf line = true
            · rw [if_pos hincl, if_pos hincl, if_pos ⟨hdirective, hdata, hincl⟩]
              exact parsePreprocInclude_split env filename lineno includePaths line parseAsmInto s
            · rw [if_neg hincl, if_neg hincl, if_neg fun h => hincl h.2.2]
              rfl
        · rw [if_neg hdirective, if_neg hdirective, if_neg fun h => hdirective h.1]
          exact hdone _

end Line

/-! ## The lines that are parsed for a file -/

/-- A step of the parser: a line with the included file cut out, or the end of a file. -/
inductive ParseStep
  | line (filename : FileName) (lineno : UInt32) (line : CStr)
  | fileEnd

section Files

variable (env : PrsEnv) (includePaths : List CStr)

/-- The lines of a file, with the files they include. -/
def fileItems (filename : FileName) : UInt32 → List CStr → List (ParseStep × Option FileName)
  | _, [] => [(.fileEnd, none)]
  | lineno, line :: lines =>
      (.line filename (lineno + 1) line,
        (included env includePaths line).map fun filepath => ⟨filename.depth + 1, filepath⟩) ::
      fileItems filename (lineno + 1) lines

/-- The lines of a file that can be opened. -/
def fileLines (filename : CStr) : Option (List CStr) :=
  (env.fopen filename).map fun contents => getlines (contents.map (fun b => Char.ofNat b.toNat))

/-- A file as a text that calls other files. -/
def fileBody (filename : FileName) : Option (List (ParseStep × Option FileName)) :=
  (fileLines env filename.path).map (fileItems env includePaths filename 0)

/-- All steps for a file, with the files included in it to the given depth. -/
def fileSteps (depth : Nat) (filename : FileName) : Option (List ParseStep) :=
  unfold (fileBody env includePaths) depth filename

/-- A step of the parser on its state. -/
def parseStep : ParseStep → Prs T → Option (Prs T)
  | .line filename lineno line, s =>
      (parseOwn env filename lineno includePaths line s).toOption
  | .fileEnd, s => some { s with result := { s.result with nFiles := s.result.nFiles + 1 } }

end Files

section Files

variable {env : PrsEnv} {includePaths : List CStr}

/-- The lines of one file, if the included files are the steps that `steps` gives. -/
theorem parseLines_eq_ok {filename : FileName} {into : FileName → Prs T → Except PrsFault (Prs T)}
    {steps : FileName → Option (List ParseStep)}
    (hinto : ∀ f s s', into f s = .ok s' ↔
      ∃ es, steps f = some es ∧ run (parseStep env includePaths) es s = some s')
    {lineno : UInt32} {lines : List CStr} {s s' : Prs T} :
    (parseLines env filename includePaths into lineno lines s >>= fun s =>
        .ok { s with result := { s.result with nFiles := s.result.nFiles + 1 } }) = .ok s' ↔
      ∃ es, joinAll steps (fileItems env includePaths filename lineno lines) = some es ∧
        run (parseStep env includePaths) es s = some s' := by
  induction lines generalizing lineno s with
  | nil =>
      constructor
      · intro h
        exact ⟨[.fileEnd], rfl, congrArg some (Except.ok.inj h)⟩
      · rintro ⟨es, hes, hrun⟩
        obtain rfl := Option.some.inj hes
        exact congrArg Except.ok (Option.some.inj hrun)
  | cons line lines ih =>
      rw [parseLines, parseLine_split, bind_assoc, bind_assoc, bind_eq_ok, fileItems]
      cases hincl : included env includePaths line with
      | none =>
          simp only [ok_bind, Option.map_none, joinAll, Option.map_eq_some_iff, ih]
          constructor
          · rintro ⟨m, hm, es, hes, hrun⟩
            exact ⟨_, ⟨es, hes, rfl⟩, run_cons.2 ⟨m, toOption_eq_some.2 hm, hrun⟩⟩
          · rintro ⟨_, ⟨es, hes, rfl⟩, hrun⟩
            obtain ⟨m, hm, hrun⟩ := run_cons.1 hrun
            exact ⟨m, toOption_eq_some.1 hm, es, hes, hrun⟩
      | some filepath =>
          simp only [Option.map_some, joinAll, Option.bind_eq_some_iff, Option.map_eq_some_iff]
          constructor
          · rintro ⟨m, hm, hrest⟩
            obtain ⟨m', hm', hrest⟩ := bind_eq_ok.1 hrest
            obtain ⟨called, hcalled, hrun⟩ := (hinto _ _ _).1 hm'
            obtain ⟨es, hes, hrun'⟩ := ih.1 hrest
            refine ⟨_, ⟨called, hcalled, es, hes, rfl⟩, ?_⟩
            exact run_cons.2 ⟨m, toOption_eq_some.2 hm, run_append.2 ⟨m', hrun, hrun'⟩⟩
          · rintro ⟨_, ⟨called, hcalled, es, hes, rfl⟩, hrun⟩
            obtain ⟨m, hm, hrun⟩ := run_cons.1 hrun
            obtain ⟨m', hrun, hrun'⟩ := run_append.1 hrun
            refine ⟨m, toOption_eq_some.1 hm, bind_eq_ok.2 ⟨m', ?_, ih.2 ⟨es, hes, hrun'⟩⟩⟩
            exact (hinto _ _ _).2 ⟨called, hcalled, hrun⟩

/-- **A file** is parsed by the steps that stand for it. -/
theorem parseAsmInto_eq_ok {depth : Nat} {filename : FileName} {s s' : Prs T} :
    parseAsmInto env includePaths depth filename s = .ok s' ↔
      ∃ es, fileSteps env includePaths depth filename = some es ∧
        run (parseStep env includePaths) es s = some s' := by
  induction depth generalizing filename s s' with
  | zero =>
      refine iff_of_false (fun h => by cases h) ?_
      rintro ⟨es, hes, -⟩
      cases hes
  | succ depth ih =>
      unfold fileSteps
      rw [parseAsmInto, unfold, fileBody, fileLines]
      cases env.fopen filename.path with
      | none => simp
      | some contents =>
          simp only [Option.map_some, Option.bind_some]
          exact parseLines_eq_ok fun f s s' => @ih f s s'

end Files

/-! ## The graph of the included files -/

section Graph

variable (env : PrsEnv) (includePaths : List CStr)

/-- The file `p` has a line that includes the file `q`. -/
def Includes (p q : CStr) : Prop :=
  ∃ lines, fileLines env p = some lines ∧ ∃ line ∈ lines, included env includePaths line = some q

variable {env includePaths}

theorem mem_fileItems {filename g : FileName} {lineno : UInt32} {lines : List CStr} :
    some g ∈ (fileItems env includePaths filename lineno lines).map Prod.snd ↔
      ∃ line ∈ lines, ∃ q, included env includePaths line = some q ∧
        g = ⟨filename.depth + 1, q⟩ := by
  induction lines generalizing lineno with
  | nil => simp [fileItems]
  | cons line lines ih =>
      rw [fileItems, List.map_cons, List.mem_cons, ih]
      simp [eq_comm]

theorem calls_iff {f g : FileName} :
    Calls (fileBody env includePaths) f g ↔
      Includes env includePaths f.path g.path ∧ g.depth = f.depth + 1 := by
  unfold Calls fileBody Includes
  constructor
  · rintro ⟨items, hitems, hg⟩
    obtain ⟨lines, hlines, rfl⟩ := Option.map_eq_some_iff.1 hitems
    obtain ⟨line, hline, q, hq, rfl⟩ := mem_fileItems.1 hg
    exact ⟨⟨lines, hlines, line, hline, hq⟩, rfl⟩
  · rintro ⟨⟨lines, hlines, line, hline, hq⟩, hdepth⟩
    refine ⟨_, Option.map_eq_some_iff.2 ⟨lines, hlines, rfl⟩, ?_⟩
    refine mem_fileItems.2 ⟨line, hline, g.path, hq, ?_⟩
    rw [← hdepth]

/-- The depth plays no part in whether files include each other endlessly. -/
theorem acc_calls_iff {f : FileName} :
    Acc (flip (Calls (fileBody env includePaths))) f ↔
      Acc (flip (Includes env includePaths)) f.path := by
  constructor
  · intro h
    induction h with
    | intro f _ ih =>
        refine Acc.intro _ fun q hq => ?_
        exact ih ⟨f.depth + 1, q⟩ (calls_iff.2 ⟨hq, rfl⟩)
  · intro h
    refine Subrelation.accessible ?_ (InvImage.accessible FileName.path h)
    intro g f hcalls
    exact (calls_iff.1 hcalls).1

theorem reaches_calls {d : Nat} {p q : CStr} (h : ReflTransGen (Includes env includePaths) p q) :
    ∃ d', ReflTransGen (Calls (fileBody env includePaths)) ⟨d, p⟩ ⟨d', q⟩ := by
  induction h with
  | refl => exact ⟨d, .refl⟩
  | tail _ hstep ih =>
      obtain ⟨d', hd'⟩ := ih
      exact ⟨d' + 1, hd'.tail (calls_iff.2 ⟨hstep, rfl⟩)⟩

/-- No chain of files that include each other is endless, and every file on such a chain can be
opened. -/
structure FiniteIncludes (env : PrsEnv) (includePaths : List CStr) (filename : CStr) : Prop where
  acyclic : Acc (flip (Includes env includePaths)) filename
  opens : ∀ q, ReflTransGen (Includes env includePaths) filename q → (env.fopen q).isSome

/-- **Which files stand for a sequence of lines.** -/
theorem fileSteps_isSome_iff {d : Nat} {filename : CStr} :
    (∃ depth, (fileSteps env includePaths depth ⟨d, filename⟩).isSome) ↔
      FiniteIncludes env includePaths filename := by
  have hbody : ∀ f : FileName,
      (fileBody env includePaths f).isSome ↔ (env.fopen f.path).isSome := by
    intro f
    rw [fileBody, Option.isSome_map, fileLines, Option.isSome_map]
  unfold fileSteps
  rw [unfold_isSome_iff, acc_calls_iff]
  constructor
  · rintro ⟨hacc, hthere⟩
    refine ⟨hacc, fun q hq => ?_⟩
    obtain ⟨d', hd'⟩ := reaches_calls hq
    exact (hbody _).1 (hthere _ hd')
  · rintro ⟨hacc, hopens⟩
    refine ⟨hacc, fun f hf => (hbody f).2 (hopens f.path ?_)⟩
    exact hf.lift FileName.path fun f g h => (calls_iff.1 h).1

end Graph

/-! ## Which files are parsed to the end -/

section Ends

variable {env : PrsEnv} {includePaths : List CStr}

/-- A step with which nothing goes wrong. -/
def StepEnds (env : PrsEnv) (includePaths : List CStr) : ParseStep → Prs T → Prop
  | .line filename lineno line, s => LineEnds env filename lineno includePaths line s
  | .fileEnd, _ => True

theorem parseStep_ends_iff (hblock : 0 < env.memAllocBlockSz) {step : ParseStep} {s : Prs T}
    (hs : Grown env.memAllocBlockSz s.result.toDataArea) (hkey : s.freedKey = false) :
    (∃ s', parseStep env includePaths step s = some s' ∧ s'.freedKey = false) ↔
      StepEnds env includePaths step s := by
  cases step with
  | line filename lineno line =>
      simp only [parseStep, toOption_eq_some]
      exact parseOwn_ends_iff hblock hs hkey
  | fileEnd => exact iff_of_true ⟨_, rfl, hkey⟩ trivial

theorem parseStep_keeps (hblock : 0 < env.memAllocBlockSz) {step : ParseStep} {s s' : Prs T}
    (h : parseStep env includePaths step s = some s') :
    (Grown env.memAllocBlockSz s.result.toDataArea →
        Grown env.memAllocBlockSz s'.result.toDataArea) ∧
      (s.freedKey = true → s'.freedKey = true) := by
  cases step with
  | line filename lineno line => exact parseOwn_keeps hblock (toOption_eq_some.1 h)
  | fileEnd =>
      obtain rfl := Option.some.inj h
      exact ⟨id, id⟩

/-- **A run of the parser** comes to its end, without a freed label, exactly if nothing goes wrong
with any of its steps. The induction is on the steps; a label that is freed on the way is still
freed at the end. -/
theorem run_ends_iff (hblock : 0 < env.memAllocBlockSz) {es : List ParseStep} {s : Prs T}
    (hs : Grown env.memAllocBlockSz s.result.toDataArea) (hkey : s.freedKey = false) :
    (∃ s', run (parseStep env includePaths) es s = some s' ∧ s'.freedKey = false) ↔
      Along (parseStep env includePaths) (StepEnds env includePaths) es s := by
  induction es generalizing s with
  | nil => exact iff_of_true ⟨s, rfl, hkey⟩ trivial
  | cons e es ih =>
      constructor
      · rintro ⟨s', hrun, hkey'⟩
        obtain ⟨m, hm, hrun⟩ := run_cons.1 hrun
        have hmkey : m.freedKey = false := by
          by_contra h
          have hfreed := @run_invariant _ _ (parseStep env includePaths)
            (fun s : Prs T => s.freedKey = true)
            (fun a s s' hinv hstep => (parseStep_keeps hblock hstep).2 hinv) _ _ _
            (Bool.eq_true_of_not_eq_false h) hrun
          rw [hkey'] at hfreed
          cases hfreed
        refine ⟨(parseStep_ends_iff hblock hs hkey).1 ⟨m, hm, hmkey⟩, fun m' hm' => ?_⟩
        obtain rfl := Option.some.inj (hm.symm.trans hm')
        exact (ih ((parseStep_keeps hblock hm).1 hs) hmkey).1 ⟨s', hrun, hkey'⟩
      · rintro ⟨hends, hrest⟩
        obtain ⟨m, hm, hmkey⟩ := (parseStep_ends_iff hblock hs hkey).2 hends
        obtain ⟨s', hrun, hkey'⟩ :=
          (ih ((parseStep_keeps hblock hm).1 hs) hmkey).2 (hrest m hm)
        exact ⟨s', run_cons.2 ⟨m, hm, hrun⟩, hkey'⟩

end Ends

/-- The include paths and `errno` when `parse_asm` comes to its file; `none` if it is not found. -/
def asmStart (env : PrsEnv) (erange : Bool) (filename : CStr) (includePaths : List CStr) :
    Option (List CStr × Bool) :=
  if env.stat filename then some ((directory filename).toList ++ includePaths, erange)
  else match findFile env filename includePaths false with
    | (some _, erange) => some (includePaths, erange)
    | (none, _) => none

theorem parseAsm_ok_iff {env : PrsEnv} {depth : Nat} {erange : Bool} {filename : CStr}
    {includePaths : List CStr} :
    (∃ r, parseAsm (T := T) env depth erange filename includePaths = .ok r) ↔
      ∀ start, asmStart env erange filename includePaths = some start →
        ∃ s' : Prs T, parseAsmInto env start.1 depth ⟨0, filename⟩ (initParse start.2) = .ok s' ∧
          s'.freedKey = false := by
  have hinto : ∀ (paths : List CStr) (erange : Bool),
      (∃ r, (parseAsmInto env paths depth ⟨0, filename⟩ (initParse erange : Prs T) >>= fun s =>
        if s.freedKey = true then .error .freedKey
        else .ok (some (s.labelRefs.foldl labelRefsVisitor s.result))) = .ok r) ↔
      ∃ s' : Prs T, parseAsmInto env paths depth ⟨0, filename⟩ (initParse erange) = .ok s' ∧
        s'.freedKey = false := by
    intro paths erange
    simp only [bind_eq_ok]
    constructor
    · rintro ⟨r, s', hs', h⟩
      refine ⟨s', hs', ?_⟩
      by_contra hkey
      rw [if_pos (Bool.eq_true_of_not_eq_false hkey)] at h
      cases h
    · rintro ⟨s', hs', hkey⟩
      refine ⟨some (s'.labelRefs.foldl labelRefsVisitor s'.result), s', hs', ?_⟩
      rw [hkey, if_neg Bool.false_ne_true]
  unfold parseAsm asmStart
  by_cases hstat : env.stat filename = true
  · simp only [if_pos hstat, Bool.not_true, Bool.false_eq_true, if_false, Option.some.injEq,
      forall_eq']
    exact hinto _ _
  · simp only [if_neg hstat]
    rcases findFile env filename includePaths false with ⟨_ | filepath, erange'⟩
    · exact iff_of_true ⟨none, rfl⟩ fun start h => by cases h
    · simp only [Option.isSome_some, Bool.not_true, Bool.false_eq_true, if_false,
        Option.some.injEq, forall_eq']
      exact hinto _ _

/-- `parse_asm` comes to its end, with a result or with the report that the file is not found. -/
def AsmEnds (T : InstnTable) (env : PrsEnv) (erange : Bool) (filename : CStr)
    (includePaths : List CStr) : Prop :=
  ∃ depth r, parseAsm (T := T) env depth erange filename includePaths = .ok r

/-- **When `parse_asm` ends**: the file is not found; or no chain of included files is endless,
every file on one can be opened, and nothing goes wrong with any line that is parsed for them. -/
theorem parseAsm_ends_iff (env : PrsEnv) (hblock : 0 < env.memAllocBlockSz) (erange : Bool)
    (filename : CStr) (includePaths : List CStr) :
    AsmEnds T env erange filename includePaths ↔
      ∀ start, asmStart env erange filename includePaths = some start →
        FiniteIncludes env start.1 filename ∧
          ∀ depth es, fileSteps env start.1 depth ⟨0, filename⟩ = some es →
            Along (parseStep env start.1) (StepEnds env start.1) es
              (initParse start.2 : Prs T) := by
  unfold AsmEnds
  simp only [parseAsm_ok_iff]
  cases asmStart env erange filename includePaths with
  | none => exact iff_of_true ⟨0, fun start h => by cases h⟩ fun start h => by cases h
  | some start =>
      simp only [Option.some.injEq, forall_eq']
      have hrun := fun es => @run_ends_iff T env start.1 hblock es (initParse start.2)
        (grown_init _ _) rfl
      constructor
      · rintro ⟨depth, s', hs', hkey⟩
        obtain ⟨es, hes, hes'⟩ := parseAsmInto_eq_ok.1 hs'
        refine ⟨fileSteps_isSome_iff.1 ⟨depth, by rw [hes]; rfl⟩, fun depth' es' h => ?_⟩
        obtain rfl := unfold_unique hes h
        exact (hrun es).1 ⟨s', hes', hkey⟩
      · rintro ⟨hfinite, halong⟩
        obtain ⟨depth, hdepth⟩ := fileSteps_isSome_iff.2 hfinite
        obtain ⟨es, hes⟩ := Option.isSome_iff_exists.1 hdepth
        obtain ⟨s', hes', hkey⟩ := (hrun es).2 (halong depth es hes)
        exact ⟨depth, s', parseAsmInto_eq_ok.2 ⟨es, hes, hes'⟩, hkey⟩

/-- Files all of which include `a`. -/
def selfIncluding : PrsEnv where
  stat _ := true
  fopen _ := some ("%include a\n".toList.map byte)
  memAllocBlockSz := 512
  freshType _ := 0

theorem parseAsm_ends_iff_self :
    AsmEnds stableTable selfIncluding false "a".toList [".".toList] ↔
      ∀ start, asmStart selfIncluding false "a".toList [".".toList] = some start →
        FiniteIncludes selfIncluding start.1 "a".toList ∧
          ∀ depth es, fileSteps selfIncluding start.1 depth ⟨0, "a".toList⟩ = some es →
            Along (parseStep selfIncluding start.1) (StepEnds selfIncluding start.1) es
              (initParse start.2 : Prs stableTable) :=
  parseAsm_ends_iff selfIncluding (by decide) false "a".toList [".".toList]

/-- The file is included again and again. -/
theorem include_endless : ¬ AsmEnds stableTable selfIncluding false "a".toList [".".toList] := by
  have hincludes : ∀ p, Includes selfIncluding [".".toList] p "./a".toList := by
    intro p
    refine ⟨["%include a\n".toList], rfl, _, List.mem_cons_self, ?_⟩
    decide
  have hloop : ¬ Acc (flip (Includes selfIncluding [".".toList])) "./a".toList := by
    intro h
    generalize hp : "./a".toList = p at h
    induction h with
    | intro p _ ih =>
        subst hp
        exact ih _ (hincludes _) rfl
  rintro ⟨depth, hends⟩
  obtain ⟨s', hs', -⟩ := parseAsm_ok_iff.1 hends ([".".toList], false) (by decide)
  obtain ⟨es, hes, -⟩ := parseAsmInto_eq_ok.1 hs'
  have hfinite := fileSteps_isSome_iff.1 ⟨depth, by rw [hes]; rfl⟩
  exact hloop (hfinite.acyclic.inv (hincludes _))

end BvgzVm
