import BvgzVm.Asm.DataLayout
import BvgzVm.Asm.DataTokens

set_option autoImplicit false

/-! # Accesses to a line

The scanners of `%data` and `%include` go on behind a token with `p + 1`, also where `p` is at the
terminator of the line. The text of a line says whether that happens (`OnLine`), and that is the
only way to leave the line (`parsePreprocLine_onLine_iff`).
-/

namespace BvgzVm

open Bytes CLib Fallible

variable {T : InstnTable}

/-! ## Behind the scanners -/

/-- A computation with no other faults than those of a memory area that grows. -/
abbrev GrowsOnly {α : Type} (x : Except PrsFault α) : Prop :=
  Avoids (fun e => e ≠ .hang ∧ e ≠ .memoryWrite) x

/-- The file that is included is found and cannot be opened. -/
def Unopened (env : PrsEnv) (includePaths : List CStr) (data : CStr) : Prop :=
  ∃ inclFile filepath, data = '=' :: inclFile ∧
    (findFile env inclFile includePaths false).1 = some filepath ∧ env.fopen filepath = none

section Data

variable (block : UInt32) (env : PrsEnv) (filename : FileName) (lineno : UInt32)
  (label : Option CStr)

theorem ensureMemoryAlloc_growsOnly (alloc : UInt32) (d : DataArea) :
    GrowsOnly (ensureMemoryAlloc block alloc d) := by
  unfold ensureMemoryAlloc
  split
  · split
    · exact avoids_error.2 (by decide)
    · split <;> exact avoids_ok _
  · exact avoids_ok _

theorem ensureMemoryAtOffset_growsOnly (size offset : UInt32) (d : DataArea) :
    GrowsOnly (ensureMemoryAtOffset block size offset d) := by
  unfold ensureMemoryAtOffset
  split
  · exact avoids_ok _
  · exact ensureMemoryAlloc_growsOnly block _ d

theorem writeToMemory_growsOnly (src : List UInt8) (off : UInt32) (d : DataArea) :
    GrowsOnly (writeToMemory block src off d) := by
  unfold writeToMemory
  refine avoids_bind.2 ⟨ensureMemoryAlloc_growsOnly block _ d, fun d' _ => ?_⟩
  split
  · exact avoids_error.2 (by decide)
  · exact avoids_ok _

theorem finishData_growsOnly (off size : UInt32) (s : Prs T) :
    GrowsOnly (finishData block filename lineno off size label s) := by
  unfold finishData setMemorySize growTo
  refine avoids_bind.2 ⟨?_, fun s' _ => ?_⟩
  · split
    · exact avoids_ok _
    · dsimp only
      split
      · exact avoids_ok _
      · refine avoids_bind.2 ⟨?_, fun d _ => avoids_ok _⟩
        split
        · exact ensureMemoryAlloc_growsOnly block _ _
        · exact avoids_ok _
  · split <;> exact avoids_ok _

theorem writeBlocks_growsOnly (fuel : ℕ) (contents : List UInt8) (w : UInt32) (d : DataArea) :
    GrowsOnly (writeBlocks block fuel contents w d) := by
  induction fuel generalizing contents w d with
  | zero => exact avoids_ok _
  | succ fuel ih =>
      rw [writeBlocks]
      split
      · exact avoids_ok _
      · exact avoids_bind.2 ⟨writeToMemory_growsOnly block _ w d, fun d' _ => ih _ _ d'⟩

theorem writeChar_growsOnly {cs : CStr}
    (ih : ∀ escapeChr w d, GrowsOnly (writeStr block cs escapeChr w d))
    (b : UInt8) (escapeChr : Bool) (w : UInt32) (d : DataArea) :
    GrowsOnly (writeToMemory block [b] w d >>= fun d => writeStr block cs escapeChr (w + 1) d) :=
  avoids_bind.2 ⟨writeToMemory_growsOnly block _ w d, fun d' _ => ih _ _ d'⟩

theorem writeStr_growsOnly (str : CStr) (escapeChr : Bool) (w : UInt32) (d : DataArea) :
    GrowsOnly (writeStr block str escapeChr w d) := by
  induction str generalizing escapeChr w d with
  | nil => exact avoids_ok _
  | cons c cs ih =>
      rw [writeStr]
      split
      · exact ih _ _ _
      · split
        · exact avoids_ok _
        · split
          · exact writeChar_growsOnly block ih _ _ w d
          · split
            · exact writeChar_growsOnly block ih _ _ w d
            · exact writeChar_growsOnly block ih _ _ w d

/-- A file that is read, and can be opened if it is found. -/
theorem addFileToMemory_growsOnly (inclFile : CStr) (size offset : UInt32)
    (includePaths : List CStr) (s : Prs T) (hopen : ¬ Unopened env includePaths ('=' :: inclFile)) :
    GrowsOnly (addFileToMemory env filename lineno label inclFile size offset includePaths s) := by
  have hfst := findFile_fst env inclFile includePaths false s.erange
  unfold addFileToMemory
  rcases hfile : findFile env inclFile includePaths s.erange with ⟨_ | filepath, erange⟩
  · exact avoids_ok _
  · refine avoids_bind.2 ⟨ensureMemoryAtOffset_growsOnly _ _ _ _, fun d _ => ?_⟩
    cases hcontents : env.fopen filepath with
    | none =>
        rw [hfile] at hfst
        exact absurd ⟨inclFile, filepath, rfl, hfst, hcontents⟩ hopen
    | some contents =>
        exact avoids_bind.2 ⟨writeBlocks_growsOnly _ _ _ _ _,
          fun d' _ => finishData_growsOnly _ _ _ _ _ _ _⟩

theorem addStrToMemory_growsOnly (str : CStr) (size offset : UInt32) (s : Prs T) :
    GrowsOnly (addStrToMemory env filename lineno label str size offset s) := by
  unfold addStrToMemory
  refine avoids_bind.2 ⟨ensureMemoryAtOffset_growsOnly _ _ _ _, fun d _ => ?_⟩
  refine avoids_bind.2 ⟨writeStr_growsOnly _ _ _ _ _, fun r _ => ?_⟩
  exact avoids_bind.2 ⟨writeToMemory_growsOnly _ _ _ _,
    fun d' _ => finishData_growsOnly _ _ _ _ _ _ _⟩

theorem addHexToMemory_growsOnly (hex : CStr) (size offset : UInt32) (s : Prs T) :
    GrowsOnly (addHexToMemory env filename lineno label hex size offset s) := by
  unfold addHexToMemory
  refine avoids_bind.2 ⟨ensureMemoryAtOffset_growsOnly _ _ _ _, fun d _ => ?_⟩
  exact avoids_bind.2 ⟨writeToMemory_growsOnly _ _ _ _,
    fun d' _ => finishData_growsOnly _ _ _ _ _ _ _⟩

theorem addLabelToMemory_growsOnly (labelValue : CStr) (size offset : UInt32) (s : Prs T) :
    GrowsOnly (addLabelToMemory env filename lineno label labelValue size offset s) := by
  unfold addLabelToMemory
  dsimp only
  split
  · exact avoids_ok _
  · refine avoids_bind.2 ⟨ensureMemoryAtOffset_growsOnly _ _ _ _, fun d _ => ?_⟩
    exact avoids_bind.2 ⟨writeToMemory_growsOnly _ _ _ _,
      fun d' _ => finishData_growsOnly _ _ _ _ _ _ _⟩

/-- **The functions that add data** have no other faults, unless a file cannot be opened. -/
theorem addData_growsOnly (data : CStr) (o : DataOptions) (includePaths : List CStr) (s : Prs T)
    (hopen : ¬ Unopened env includePaths data) :
    GrowsOnly (addData env filename lineno label data o includePaths s) := by
  unfold addData
  split
  · exact avoids_bind.2 ⟨addFileToMemory_growsOnly _ _ _ _ _ _ _ _ s hopen, fun s' _ => avoids_ok _⟩
  · exact avoids_bind.2 ⟨addStrToMemory_growsOnly _ _ _ _ _ _ _ s, fun s' _ => avoids_ok _⟩
  · exact avoids_bind.2 ⟨addHexToMemory_growsOnly _ _ _ _ _ _ _ s, fun s' _ => avoids_ok _⟩
  · exact avoids_bind.2 ⟨addLabelToMemory_growsOnly _ _ _ _ _ _ _ s, fun s' _ => avoids_ok _⟩
  · exact avoids_ok _

/-- A file that cannot be opened is read all the same. -/
theorem addData_unopened {data : CStr} (o : DataOptions) {includePaths : List CStr} (s : Prs T)
    (hopen : Unopened env includePaths data) :
    ∃ e, addData env filename lineno label data o includePaths s = .error e ∧
      e ≠ .lineAccess := by
  obtain ⟨inclFile, filepath, rfl, hfile, hcontents⟩ := hopen
  have hfst := findFile_fst env inclFile includePaths false s.erange
  have hadd : addData env filename lineno label ('=' :: inclFile) o includePaths s =
      addFileToMemory env filename lineno label inclFile o.size o.offset includePaths s >>=
        fun s => .ok (true, s) := rfl
  rw [hadd, addFileToMemory]
  generalize findFile env inclFile includePaths s.erange = r at hfst ⊢
  rcases r with ⟨file, erange⟩
  obtain rfl : file = some filepath := hfst.symm.trans hfile
  have hgrows := ensureMemoryAtOffset_growsOnly env.memAllocBlockSz o.size o.offset
    s.result.toDataArea
  dsimp only
  cases hensure : ensureMemoryAtOffset env.memAllocBlockSz o.size o.offset s.result.toDataArea with
  | error e =>
      refine ⟨e, rfl, ?_⟩
      rintro rfl
      exact hgrows _ (by decide) hensure
  | ok d =>
      refine ⟨.nullFile, ?_, by decide⟩
      simp only [ok_bind, hcontents]
      rfl

/-- The computation does not leave the line. -/
abbrev StaysOnLine {α : Type} (x : Except PrsFault α) : Prop := Avoids (· = .lineAccess) x

theorem addData_stays (data : CStr) (o : DataOptions) (includePaths : List CStr) (s : Prs T) :
    StaysOnLine (addData env filename lineno label data o includePaths s) := by
  rintro _ rfl
  by_cases hopen : Unopened env includePaths data
  · obtain ⟨e, herror, he⟩ := addData_unopened env filename lineno label o s hopen
    rw [herror]
    exact fun h => he (Except.error.inj h)
  · exact addData_growsOnly env filename lineno label data o includePaths s hopen _ (by decide)

end Data

/-! ## The text of a line -/

/-- A word that is read as an option. -/
def IsOption (w : CStr) : Prop := w.head? = some ':' ∨ w.head? = some '/'

/-- The options end on the line: something stands behind the last of them, or a word that is no
option ends them. Behind a literal at the end of the line there are none. -/
def DataSpec.EndsInside (spec : DataSpec) : Prop :=
  (tokensFrom spec.options).2 = true ∨ ∃ w ∈ (tokensFrom spec.options).1, ¬ IsOption w

/-- **A line whose directive ends on it.** The name of the directive has a character behind it, and
so do the literal and the last of the options. -/
structure OnLine (line : CStr) : Prop where
  data : "%data".toList.isPrefixOf line = true → 6 ≤ line.length ∧
    ∀ spec, readSpec (line.drop 6) = some spec → spec.EndsInside
  incl : "%include".toList.isPrefixOf line = true → 9 ≤ line.length

section Line

variable (env : PrsEnv) (filename : FileName) (lineno : UInt32) (includePaths : List CStr)

/-- The loop over the options leaves the line behind an option that ends it. -/
theorem readOptions_stays_iff (inside : Bool) (ws : List CStr) (o : DataOptions) (s : Prs T) :
    StaysOnLine (readOptions filename lineno inside ws o s) ↔
      inside = true ∨ ∃ w ∈ ws, ¬ IsOption w := by
  induction ws generalizing o s with
  | nil =>
      cases inside with
      | true => exact iff_of_true (avoids_ok _) (.inl rfl)
      | false =>
          refine iff_of_false (fun h => h _ rfl rfl) ?_
          rintro (h | ⟨w, hw, -⟩)
          · cases h
          · cases hw
  | cons w ws ih =>
      cases w with
      | nil =>
          refine iff_of_true (avoids_ok _) (.inr ⟨[], List.mem_cons_self, ?_⟩)
          rintro (h | h) <;> cases h
      | cons c number =>
          have hoption : IsOption (c :: number) ↔ c = ':' ∨ c = '/' := by simp [IsOption]
          rw [readOptions_cons]
          by_cases hoffset : c = ':'
          · rw [if_pos hoffset, ih]
            simp [hoption.2 (.inl hoffset)]
          · rw [if_neg hoffset]
            by_cases hsize : c = '/'
            · rw [if_pos hsize, ih]
              simp [hoption.2 (.inr hsize)]
            · rw [if_neg hsize]
              refine iff_of_true (avoids_ok _) (.inr ⟨_, List.mem_cons_self, ?_⟩)
              rw [hoption]
              tauto

/-- **A `%data` directive.** -/
theorem parsePreprocData_stays_iff (line : CStr) (s : Prs T) :
    StaysOnLine (parsePreprocData env filename lineno line includePaths s) ↔
      6 ≤ line.length ∧ ∀ spec, readSpec (line.drop 6) = some spec → spec.EndsInside := by
  by_cases hlen : 6 ≤ line.length
  · rw [parsePreprocData_eq env filename lineno hlen, and_iff_right hlen]
    unfold applySpec
    cases readSpec (line.drop 6) with
    | none => exact iff_of_true (avoids_ok _) (fun spec h => by cases h)
    | some spec =>
        simp only [Option.some.injEq, forall_eq']
        refine (avoids_bind.trans (and_iff_left_of_imp fun _ r _ => ?_)).trans
          (readOptions_stays_iff filename lineno _ _ _ s)
        refine avoids_bind.2 ⟨addData_stays _ _ _ _ _ _ _ _, fun r' _ => ?_⟩
        split
        · exact avoids_error.2 (by decide)
        · exact avoids_ok _
  · rw [parsePreprocData, dataHead_short hlen]
    exact iff_of_false (fun h => h _ rfl rfl) (fun h => hlen h.1)

/-- **A `%include` line** by its token. -/
theorem parsePreprocInclude_eq {line : CStr} (hlen : 9 ≤ line.length)
    (parseAsmInto : FileName → Prs T → Except PrsFault (Prs T)) (s : Prs T) :
    parsePreprocInclude env filename lineno line includePaths parseAsmInto s =
      if tokenOf (line.drop 9) = [] then
        .ok (s.error filename lineno "expected filename after %include directive".toList)
      else match findFile env (tokenOf (line.drop 9)) includePaths s.erange with
        | (none, erange) => .ok ({ s with erange }.error filename lineno
            ("file not found: ".toList ++ tokenOf (line.drop 9)))
        | (some filepath, erange) =>
            parseAsmInto ⟨filename.depth + 1, filepath⟩ { s with erange } := by
  have hfile := tokenStart_le hlen
  have hend := tokenEnd_le hlen
  have hskip : skipWhile (fun c => !isspace c && c ≠ ';') line (tokenStart line 9) =
      some (tokenEnd line 9) := by
    rw [skipWhile_eq _ hfile, drop_tokenStart]
    rfl
  have hname := strAt_token hlen (Nat.zero_le (tokenOf (line.drop 9)).length)
  rw [Nat.add_zero, List.drop_zero] at hname
  have hempty : tokenStart line 9 = tokenEnd line 9 ↔ tokenOf (line.drop 9) = [] := by
    unfold tokenEnd
    rw [← List.length_eq_zero_iff]
    omega
  unfold parsePreprocInclude
  rw [skipWhile_space hlen]
  by_cases htok : tokenOf (line.drop 9) = []
  · simp only [onLine, ok_bind, hskip, setChar_nul hend, hempty, if_pos htok]
  · rcases hfind : findFile env (tokenOf (line.drop 9)) includePaths s.erange with ⟨found, erange⟩
    cases found <;>
      simp only [onLine, ok_bind, hskip, setChar_nul hend, hname, hempty, if_neg htok, hfind]

/-- **A `%include` directive**: only the blank behind its name is taken for granted. -/
theorem parsePreprocInclude_stays_iff (line : CStr)
    {parseAsmInto : FileName → Prs T → Except PrsFault (Prs T)}
    (hinto : ∀ f s, StaysOnLine (parseAsmInto f s)) (s : Prs T) :
    StaysOnLine (parsePreprocInclude env filename lineno line includePaths parseAsmInto s) ↔
      9 ≤ line.length := by
  by_cases hlen : 9 ≤ line.length
  · refine iff_of_true ?_ hlen
    rw [parsePreprocInclude_eq env filename lineno includePaths hlen]
    split
    · exact avoids_ok _
    · split
      · exact avoids_ok _
      · exact hinto _ _
  · have hskip : skipWhile isspace line 9 = none := if_neg hlen
    unfold parsePreprocInclude
    rw [hskip]
    exact iff_of_false (fun h => h _ rfl rfl) hlen

/-- No access to the line leaves it, as far as none leaves its own line in an included file. -/
def AccessesInside (line : CStr) (s : Prs T) : Prop :=
  ∀ parseAsmInto, (∀ f s, StaysOnLine (parseAsmInto f s)) →
    StaysOnLine (parsePreprocLine env filename lineno line includePaths parseAsmInto s)

/-- **When the scanners stay on the line**: exactly if its directive ends on it. -/
theorem accessesInside_iff (line : CStr) (s : Prs T) :
    AccessesInside env filename lineno includePaths line s ↔ OnLine line := by
  have hinto : ∀ (f : FileName) (s : Prs T), StaysOnLine (.ok s : Except PrsFault (Prs T)) :=
    fun _ s => avoids_ok s
  unfold AccessesInside parsePreprocLine
  by_cases hdata : "%data".toList.isPrefixOf line = true
  · simp only [if_pos hdata]
    have hincl : ¬ "%include".toList.isPrefixOf line = true := by
      obtain ⟨text, rfl⟩ := List.isPrefixOf_iff_prefix.1 hdata
      exact Bool.false_ne_true
    rw [parsePreprocData_stays_iff]
    exact ⟨fun h => ⟨fun _ => h _ hinto, fun h' => absurd h' hincl⟩, fun h _ _ => h.data hdata⟩
  · simp only [if_neg hdata]
    by_cases hincl : "%include".toList.isPrefixOf line = true
    · simp only [if_pos hincl]
      constructor
      · intro h
        refine ⟨fun h' => absurd h' hdata, fun _ => ?_⟩
        exact (parsePreprocInclude_stays_iff env filename lineno includePaths line hinto s).1
          (h _ hinto)
      · intro h into hinto'
        exact (parsePreprocInclude_stays_iff env filename lineno includePaths line hinto' s).2
          (h.incl hincl)
    · simp only [if_neg hincl]
      exact iff_of_true (fun _ _ => avoids_ok s)
        ⟨fun h' => absurd h' hdata, fun h' => absurd h' hincl⟩

end Line

/-- A string without its closing quote: the options are looked for behind the terminator. -/
theorem unterminated_leaves :
    ¬ AccessesInside dataEnv ⟨0, "a.asm".toList⟩ 1 [] "%data \"abc\n".toList
      (initParse false : Prs stableTable) := by
  intro h
  refine h (fun _ s => .ok s) (fun _ s => avoids_ok s) .lineAccess rfl ?_
  rfl

end BvgzVm
