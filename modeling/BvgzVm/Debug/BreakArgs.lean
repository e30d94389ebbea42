import BvgzVm.Asm.Lookup
import BvgzVm.Debug.Symbols
import BvgzVm.Lib.Numerals

set_option autoImplicit false

/-! # The argument of `brk`

`dbg_break` of `debug_brk.c` up to the breakpoint it makes. The argument is a count, a line, a
label, a mnemonic or an address, whatever comes first. For a line the argument is cut at its first
colon; if no line of code fits, what stands before the colon goes on as a label, a mnemonic or an
address (`dbgBreakCommand_line_iff`).
-/

namespace BvgzVm

open CLib

variable {σ : Type} {T : InstnTable}

/-! ## The interpretations -/

/-- What stands before `strchr(s, ':')`, and what behind it. -/
def splitColon (s : CStr) : Option (CStr × CStr) :=
  if ':' ∈ s then some (s.takeWhile (· ≠ ':'), (s.dropWhile (· ≠ ':')).tail) else none

/-- `(!*file || !strcmp(file, c_file)) && lineno == code->lineno` -/
def CodeLine.isAt (file : CStr) (lineno : UInt32) (code : CodeLine) : Bool :=
  (file = [] || file = code.file) && lineno = code.lineno

/-- The interpretations behind the line: a label, a mnemonic or an address. -/
def breakName (T : InstnTable) (symbols : Option DbgSymbols) (arg : CStr) : Option BreakArg :=
  match symbols.bind (fun t => t.get arg) with
  | some label => if label.isMemRef then none else some (.point (.label label.address))
  | none =>
      match bsearch T.names arg with
      | some fmt => T.entries[fmt]?.map (fun d => .point (.instnName d.name))
      | none =>
          if isHex arg ∧ parseUint arg 16 ≠ badNumber then
            some (.point (.address (parseUint arg 16)))
          else if parseUint arg 10 ≠ badNumber then
            some (.point (.address (parseUint arg 10)))
          else none

/-- The breakpoint that an argument stands for. -/
def breakArgument (T : InstnTable) (symbols : Option DbgSymbols) (arg : CStr) : Option BreakArg :=
  match arg with
  | '+' :: instns =>
      let count := parseUint instns 10
      if count = badNumber then none else some (.plus count)
  | _ =>
      match symbols.bind (fun t => (splitColon arg).map (fun r => (t.codeLines, r))) with
      | none => breakName T symbols arg
      | some (codeLines, file, line) =>
          let lineno := parseUint line 10
          if lineno = badNumber then none
          else match codeLines.find? (CodeLine.isAt file lineno) with
            | some code => some (.point (.line code.address))
            | none => breakName T symbols file

/-- `dbg_break` -/
def dbgBreakCommand (T : InstnTable) (symbols : Option DbgSymbols) (arg : CStr)
    (st : DbgState σ) : DbgState σ :=
  match breakArgument T symbols arg with
  | none => st
  | some arg => dbgBreak arg st

/-! ## Numbers and colons -/

theorem mem_dropWhile_of_neg {p : Char → Bool} {c : Char} (hc : p c = false) {s : CStr}
    (h : c ∈ s) : c ∈ s.dropWhile p := by
  rw [← List.takeWhile_append_dropWhile (p := p) (l := s), List.mem_append] at h
  rcases h with h | h
  · rw [List.mem_takeWhile_imp h] at hc
    cases hc
  · exact h

theorem isDigit_colon (base : Nat) : isDigit base ':' = false := rfl

theorem colon_mem_strtoBase {s : CStr} (h : ':' ∈ s) (base : Nat) :
    ':' ∈ (strtoBase base s).2 := by
  unfold strtoBase
  split
  · rename_i x d t
    split_ifs with hprefix
    · -- the colon is neither the zero nor the `x` of the prefix
      have hne : ':' ≠ x := by
        rcases hprefix.2.1 with rfl | rfl <;> decide
      simpa [hne] using h
    · exact h
    · exact h
  · split_ifs <;> exact h
  · split_ifs <;> exact h

/-- `strtoull` does not go past a colon. -/
theorem strtoull_colon {s : CStr} (h : ':' ∈ s) (base : Nat) : (strtoull s base).rest ≠ [] := by
  have hsign : ':' ∈ (strtoSign (s.dropWhile isspace)).2 := by
    have hblank : ':' ∈ s.dropWhile isspace := mem_dropWhile_of_neg rfl h
    unfold strtoSign
    split <;> simp_all
  have hbase := colon_mem_strtoBase hsign base
  have hrest := mem_dropWhile_of_neg
    (isDigit_colon (strtoBase base (strtoSign (s.dropWhile isspace)).2).1) hbase
  have hdrop (p : Char → Bool) (t : CStr) : t.drop (t.takeWhile p).length = t.dropWhile p := by
    have hleft := @List.drop_left _ (t.takeWhile p) (t.dropWhile p)
    rwa [List.takeWhile_append_dropWhile] at hleft
  unfold strtoull
  simp only [hdrop]
  split_ifs
  · exact List.ne_nil_of_mem h
  all_goals exact List.ne_nil_of_mem hrest

/-- A text with a colon is no number. -/
theorem parseUint_colon {s : CStr} (h : ':' ∈ s) (radix : Nat) : parseUint s radix = badNumber :=
  if_pos (strtoull_colon h radix)

/-- A decimal number that `parse_uint` has read, as the debugger goes on with it. -/
def lineNumber (n : Nat) : UInt32 := if 2 ^ 64 ≤ n then badNumber else UInt32.ofNat n

theorem parseUint_digits {ds : CStr} (hne : ds ≠ []) (hdigits : ∀ c ∈ ds, isDigit 10 c = true) :
    parseUint ds 10 = lineNumber (digitsValue 10 ds) := by
  have hstart : ∀ c, ds.head? = some c → isDigit 16 c = true := fun c hc =>
    isDigit_mono (by omega) (hdigits c (List.mem_of_mem_head? hc))
  have hbase : strtoBase 10 ds = (10, ds ++ []) := by rw [strtoBase_ten, List.append_nil]
  unfold parseUint
  rw [strtoull_digits hne hdigits (by simp) hstart hbase, if_neg (not_not.2 rfl), lineNumber]
  by_cases hlarge : 2 ^ 64 ≤ digitsValue 10 ds
  · rw [if_pos hlarge, if_pos hlarge]
    show (0xffffffffffffffff : UInt64).toUInt32 = badNumber
    decide
  · rw [if_neg hlarge, if_neg hlarge]
    exact UInt64.toUInt32_ofNat' _

theorem lineNumber_toNat {n : Nat} (h : n < 2 ^ 32) : (lineNumber n).toNat = n := by
  rw [lineNumber, if_neg (by omega), UInt32.toNat_ofNat_of_lt' h]

/-! ## The argument of a line -/

theorem splitColon_line {file line : CStr} (h : ':' ∉ file) :
    splitColon (file ++ ':' :: line) = some (file, line) := by
  have hpos : ∀ c ∈ file, decide (c ≠ ':') = true := fun c hc =>
    decide_eq_true fun heq => h (heq ▸ hc)
  have htake : (file ++ ':' :: line).takeWhile (· ≠ ':') = file := by
    rw [List.takeWhile_append_of_pos hpos]
    simp
  have hdrop : (file ++ ':' :: line).dropWhile (· ≠ ':') = ':' :: line := by
    rw [List.dropWhile_append_of_pos hpos]
    simp
  rw [splitColon, if_pos (by simp), htake, hdrop, List.tail_cons]

/-- Behind the first colon of several there is another one. -/
theorem splitColon_again {file line : CStr} (h : ':' ∈ file) :
    ∃ f l, splitColon (file ++ ':' :: line) = some (f, l) ∧ ':' ∈ l := by
  obtain ⟨f, l, rfl, hf⟩ := List.eq_append_cons_of_mem h
  refine ⟨f, l ++ ':' :: line, ?_, by simp⟩
  rw [List.append_assoc, List.cons_append, splitColon_line hf]

/-- The argument is no line: it is read as a count, or its number is rejected. -/
def RejectsLine (file : CStr) (n : Nat) : Prop :=
  file.head? = some '+' ∨ ':' ∈ file ∨ lineNumber n = badNumber

section Line

variable {t : DbgSymbols} {file ds : CStr}

theorem breakArgument_rejects (hne : ds ≠ []) (hdigits : ∀ c ∈ ds, isDigit 10 c = true)
    (h : RejectsLine file (digitsValue 10 ds)) :
    breakArgument T (some t) (file ++ ':' :: ds) = none := by
  by_cases hplus : file.head? = some '+'
  · obtain ⟨s, rfl⟩ : ∃ s, file = '+' :: s := by
      cases file with
      | nil => cases hplus
      | cons c s =>
          obtain rfl := Option.some.inj hplus
          exact ⟨s, rfl⟩
    exact if_pos (parseUint_colon (by simp) 10)
  · have hline : ∃ f l, splitColon (file ++ ':' :: ds) = some (f, l) ∧
        parseUint l 10 = badNumber := by
      by_cases hcolon : ':' ∈ file
      · obtain ⟨f, l, hsplit, hl⟩ := @splitColon_again file ds hcolon
        exact ⟨f, l, hsplit, parseUint_colon hl 10⟩
      · refine ⟨file, ds, splitColon_line hcolon, ?_⟩
        rw [parseUint_digits hne hdigits]
        exact (h.resolve_left hplus).resolve_left hcolon
    obtain ⟨f, l, hsplit, hl⟩ := hline
    unfold breakArgument
    split
    · rename_i heq
      cases file with
      | nil => cases heq
      | cons c s =>
          obtain rfl := (List.cons.inj heq).1
          exact absurd rfl hplus
    · simp only [Option.bind_some, hsplit, Option.map_some]
      exact if_pos hl

theorem breakArgument_line (hne : ds ≠ []) (hdigits : ∀ c ∈ ds, isDigit 10 c = true)
    (h : ¬ RejectsLine file (digitsValue 10 ds)) :
    breakArgument T (some t) (file ++ ':' :: ds) =
      match t.codeLines.find? (CodeLine.isAt file (lineNumber (digitsValue 10 ds))) with
      | some code => some (.point (.line code.address))
      | none => breakName T (some t) file := by
  simp only [RejectsLine, not_or] at h
  obtain ⟨hplus, hcolon, hnumber⟩ := h
  unfold breakArgument
  split
  · rename_i heq
    cases file with
    | nil => cases heq
    | cons c s =>
        obtain rfl := (List.cons.inj heq).1
        exact absurd rfl hplus
  · simp only [Option.bind_some, splitColon_line hcolon, Option.map_some,
      parseUint_digits hne hdigits]
    exact if_neg hnumber

end Line

/-! ## Names -/

/-- The names of the instructions. -/
def mnemonics : List CStr := instnDefsInc.map (fun d => d.name.toList)

theorem mem_names_iff (T : InstnTable) {s : CStr} : s ∈ T.names ↔ s ∈ mnemonics :=
  (T.map_perm (fun d => d.name.toList) (fun _ _ => rfl)).mem_iff

/-- A text that is no label of the code, no mnemonic and no address. A label of the memory hides
the other interpretations. -/
def NamesNothing (t : DbgSymbols) (s : CStr) : Prop :=
  match t.get s with
  | some label => label.isMemRef = true
  | none => s ∉ mnemonics ∧ (isHex s = true → parseUint s 16 = badNumber) ∧
      parseUint s 10 = badNumber

theorem breakName_eq_none (T : InstnTable) (t : DbgSymbols) (s : CStr) :
    breakName T (some t) s = none ↔ NamesNothing t s := by
  unfold breakName NamesNothing
  rw [Option.bind_some]
  cases t.get s with
  | some label => simp
  | none =>
      have hspec := @bsearch_spec T.names s T.names_sorted
      cases hfmt : bsearch T.names s with
      | some fmt =>
          simp only [hfmt] at hspec
          rw [InstnTable.names, List.getElem?_map, Option.map_eq_some_iff] at hspec
          obtain ⟨d, hd, rfl⟩ := hspec
          have hmem : d.name.toList ∈ mnemonics :=
            (mem_names_iff T).1 (List.mem_map_of_mem (List.mem_of_getElem? hd))
          simp [hd, hmem]
      | none =>
          simp only [hfmt] at hspec
          have hmem : s ∉ mnemonics := fun h => hspec ((mem_names_iff T).2 h)
          simp only [hmem, not_false_eq_true, true_and]
          split_ifs with hhex hdec
          · simp [hhex]
          · simp [hdec]
          · rw [not_not] at hdec
            simp only [not_and, not_not] at hhex
            simp only [true_iff]
            exact ⟨hhex, hdec⟩

/-! ## The law -/

/-- A line of code of the file with the number; the empty file name stands for any file. -/
def CodeLine.IsLine (file : CStr) (n : Nat) (code : CodeLine) : Prop :=
  (file = [] ∨ file = code.file) ∧ code.lineno.toNat = n

/-- Some line of code of the file has the number. -/
def HasLine (t : DbgSymbols) (file : CStr) (n : Nat) : Prop :=
  ∃ code ∈ t.codeLines, code.IsLine file n

theorem CodeLine.isAt_iff {file : CStr} {lineno : UInt32} {code : CodeLine} :
    code.isAt file lineno = true ↔ code.IsLine file lineno.toNat := by
  simp only [CodeLine.isAt, CodeLine.IsLine, Bool.and_eq_true, Bool.or_eq_true, decide_eq_true_eq,
    UInt32.toNat_inj]
  exact and_congr_right fun _ => eq_comm

/-- The law of a line: a breakpoint is added at a line of code that the argument names, if there
is one, and none otherwise. -/
def LineLaw (t : DbgSymbols) (file : CStr) (n : Nat) (st st' : DbgState σ) : Prop :=
  (HasLine t file n → ∃ code ∈ t.codeLines, code.IsLine file n ∧
    st'.breakpoints = (st.brkIdPool, .line code.address) :: st.breakpoints) ∧
  (¬ HasLine t file n → st'.breakpoints = st.breakpoints)

theorem dbgBreakCommand_none {symbols : Option DbgSymbols} {arg : CStr} {st : DbgState σ} :
    (dbgBreakCommand T symbols arg st).breakpoints = st.breakpoints ↔
      breakArgument T symbols arg = none := by
  unfold dbgBreakCommand
  cases breakArgument T symbols arg with
  | none => simp
  | some a => cases a <;> simp [dbgBreak, createAndAttachBreakpoint]

theorem HasLine.lt {t : DbgSymbols} {file : CStr} {n : Nat} (h : HasLine t file n) :
    n < 2 ^ 32 := by
  obtain ⟨code, -, -, rfl⟩ := h
  exact code.lineno.toNat_lt

/-- The search of the loop, for a line with the number `lineno`. -/
theorem find?_isAt (t : DbgSymbols) (file : CStr) (lineno : UInt32) :
    match t.codeLines.find? (CodeLine.isAt file lineno) with
    | some code => code ∈ t.codeLines ∧ code.IsLine file lineno.toNat
    | none => ¬ HasLine t file lineno.toNat := by
  cases hfind : t.codeLines.find? (CodeLine.isAt file lineno) with
  | some code =>
      exact ⟨List.mem_of_find?_eq_some hfind, CodeLine.isAt_iff.1 (List.find?_some hfind)⟩
  | none =>
      rintro ⟨code, hmem, hline⟩
      exact List.find?_eq_none.1 hfind code hmem (CodeLine.isAt_iff.2 hline)

/-- A number that fits is rejected only as the number of a failure. -/
theorem lineNumber_bad_iff {n : Nat} (h : n < 2 ^ 32) :
    lineNumber n = badNumber ↔ n = 2 ^ 32 - 1 := by
  rw [← UInt32.toNat_inj, lineNumber_toNat h]
  exact Iff.rfl

/-- **When `brk` with a line keeps its law.** If there is such a line, the argument must not be
read as a count, the name of the file must not have a colon, and the number must not be the one of
a failure. If there is none, either the argument is rejected, or no line has the number cut to 32
bits, and the name of the file is no code label, no mnemonic and no address. -/
theorem dbgBreakCommand_line_iff (T : InstnTable) (t : DbgSymbols) (st : DbgState σ)
    {file ds : CStr} (hne : ds ≠ []) (hdigits : ∀ c ∈ ds, isDigit 10 c = true) :
    LineLaw t file (digitsValue 10 ds) st
        (dbgBreakCommand T (some t) (file ++ ':' :: ds) st) ↔
      (HasLine t file (digitsValue 10 ds) →
        file.head? ≠ some '+' ∧ ':' ∉ file ∧ digitsValue 10 ds ≠ 2 ^ 32 - 1) ∧
      (¬ HasLine t file (digitsValue 10 ds) → RejectsLine file (digitsValue 10 ds) ∨
        ¬ HasLine t file (lineNumber (digitsValue 10 ds)).toNat ∧ NamesNothing t file) := by
  by_cases hrejects : RejectsLine file (digitsValue 10 ds)
  · -- nothing is added, which is right if there is no such line
    have hnone := (@dbgBreakCommand_none σ T (some t) (file ++ ':' :: ds) st).2
      (breakArgument_rejects hne hdigits hrejects)
    by_cases hline : HasLine t file (digitsValue 10 ds)
    · refine iff_of_false ?_ ?_
      · rintro ⟨hadds, -⟩
        obtain ⟨code, -, -, hcons⟩ := hadds hline
        exact List.cons_ne_self _ _ (hcons.symm.trans hnone)
      · rintro ⟨hgood, -⟩
        obtain ⟨hplus, hcolon, hnumber⟩ := hgood hline
        rcases hrejects with h | h | h
        · exact hplus h
        · exact hcolon h
        · exact hnumber ((lineNumber_bad_iff hline.lt).1 h)
    · exact iff_of_true ⟨fun h => absurd h hline, fun _ => hnone⟩
        ⟨fun h => absurd h hline, fun _ => .inl hrejects⟩
  · have harg := @breakArgument_line T t file ds hne hdigits hrejects
    have hfind := find?_isAt t file (lineNumber (digitsValue 10 ds))
    by_cases hline : HasLine t file (digitsValue 10 ds)
    · -- the number is not cut, so that the loop finds a line with it
      have hlt := hline.lt
      rw [lineNumber_toNat hlt] at hfind
      refine iff_of_true ⟨fun _ => ?_, fun h => absurd hline h⟩ ⟨fun _ => ?_, fun h =>
        absurd hline h⟩
      · cases hcode : t.codeLines.find?
            (CodeLine.isAt file (lineNumber (digitsValue 10 ds))) with
        | none =>
            rw [hcode] at hfind
            exact absurd hline hfind
        | some code =>
            rw [hcode] at hfind harg
            refine ⟨code, hfind.1, hfind.2, ?_⟩
            rw [dbgBreakCommand, harg]
            rfl
      · simp only [RejectsLine, not_or] at hrejects
        exact ⟨hrejects.1, hrejects.2.1, fun h => hrejects.2.2 ((lineNumber_bad_iff hlt).2 h)⟩
    · -- what stands before the colon goes on as a name
      have hlaw : LineLaw t file (digitsValue 10 ds) st
          (dbgBreakCommand T (some t) (file ++ ':' :: ds) st) ↔
            breakArgument T (some t) (file ++ ':' :: ds) = none := by
        rw [← @dbgBreakCommand_none σ T (some t) (file ++ ':' :: ds) st]
        exact ⟨fun h => h.2 hline, fun h => ⟨fun h' => absurd h' hline, fun _ => h⟩⟩
      have hnone : breakArgument T (some t) (file ++ ':' :: ds) = none ↔
          ¬ HasLine t file (lineNumber (digitsValue 10 ds)).toNat ∧ NamesNothing t file := by
        rw [harg, ← breakName_eq_none T]
        cases hcode : t.codeLines.find?
            (CodeLine.isAt file (lineNumber (digitsValue 10 ds))) with
        | none =>
            rw [hcode] at hfind
            exact (and_iff_right hfind).symm
        | some code =>
            rw [hcode] at hfind
            refine iff_of_false (by simp) fun h => h.1 ⟨code, hfind.1, hfind.2⟩
      rw [hlaw, hnone]
      simp [hline, hrejects]

/-- One line of code, at address 8. -/
def lineFive : DbgSymbols where
  codeLines := [⟨8, 5, "a.s".toList⟩]
  labels := []
  nodup := List.nodup_nil

/-- A session before its first command. -/
def freshSession : DbgState Unit where
  vm := {
    code := .empty
    memory := .empty
    exceptions := 0
    procedures := []
    iptr := 0
    instns := 0
    assertId := 0
    instnsSinceLastCleanup := 0
    host := () }
  running := false
  breakpoints := []
  brkIdPool := 0

theorem dbgBreakCommand_line_iff_five :
    LineLaw lineFive "a.s".toList (digitsValue 10 "5".toList) freshSession
        (dbgBreakCommand stableTable (some lineFive) ("a.s".toList ++ ':' :: "5".toList)
          freshSession) ↔
      (HasLine lineFive "a.s".toList (digitsValue 10 "5".toList) →
        ("a.s".toList : CStr).head? ≠ some '+' ∧ ':' ∉ "a.s".toList ∧
          digitsValue 10 "5".toList ≠ 2 ^ 32 - 1) ∧
      (¬ HasLine lineFive "a.s".toList (digitsValue 10 "5".toList) →
        RejectsLine "a.s".toList (digitsValue 10 "5".toList) ∨
        ¬ HasLine lineFive "a.s".toList (lineNumber (digitsValue 10 "5".toList)).toNat ∧
          NamesNothing lineFive "a.s".toList) :=
  dbgBreakCommand_line_iff stableTable lineFive freshSession (by decide)
    (forall_mem_of_all (by decide))

/-- There is no line 9, and the empty string in front of the colon becomes the address 0. -/
theorem dbgBreakCommand_noLine :
    (dbgBreakCommand stableTable (some lineFive) ":9".toList freshSession).breakpoints =
      [(0, .address 0)] ∧
    ¬ LineLaw lineFive [] 9 freshSession
      (dbgBreakCommand stableTable (some lineFive) ":9".toList freshSession) := by
  have hleak : (dbgBreakCommand stableTable (some lineFive) ":9".toList freshSession).breakpoints =
      [(0, .address 0)] := by
    decide +kernel
  refine ⟨hleak, fun h => ?_⟩
  have hnoLine : ¬ HasLine lineFive [] 9 := by
    rintro ⟨code, hmem, -, hnumber⟩
    obtain rfl := List.mem_singleton.1 hmem
    exact absurd hnumber (by decide)
  have hkept := h.2 hnoLine
  rw [hleak] at hkept
  cases hkept

end BvgzVm
