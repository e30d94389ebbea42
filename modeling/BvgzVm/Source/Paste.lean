import BvgzVm.Asm.Includes
import BvgzVm.Asm.Places
import BvgzVm.Source.Toolchain

set_option autoImplicit false

/-! # Included files are pasted

A source with `%include` lines means the same as the one file in which the included lines stand in
their places: the parse results are the same but for places (`parseAsm_lines`), and `basm` writes
the same image (`basmMain_lines`, `include_pasted`). The files must be found under the first include
path. `find_file` forgets that a number has overflowed when it looks under another path, and a
number of 64 ones is then accepted.
-/

namespace BvgzVm

open CLib Fallible Steps

variable {T : InstnTable}

/-! ## The lines of a source -/

/-- The line includes a file that is found under the first include path. -/
def includesFirst (env : PrsEnv) (includePaths : List CStr) (line : CStr) : Bool :=
  (included env (includePaths.take 1) line).isSome

/-- The text that a step of the parser brings in; a file that is included is pasted. -/
def ParseStep.text (env : PrsEnv) (includePaths : List CStr) : ParseStep → Option CStr
  | .line _ _ l => if includesFirst env includePaths l then none else some l
  | .fileEnd => none

/-- The lines of a source with the lines of the included files in their places. -/
def sourceLines (env : PrsEnv) (includePaths : List CStr) (depth : ℕ) (filename : CStr) :
    Option (List CStr) :=
  (fileSteps env includePaths depth ⟨0, filename⟩).map
    (List.filterMap (ParseStep.text env includePaths))

section Lines

variable {env : PrsEnv} {includePaths : List CStr}

/-- The directive of such a line, and the file it names. -/
theorem includesFirst_spec {line : CStr} (h : includesFirst env includePaths line = true) :
    (((line.takeWhile (· ≠ nul)).dropWhile isspace).head? = some '%' ∧
        ¬ "%data".toList.isPrefixOf line = true ∧ "%include".toList.isPrefixOf line = true) ∧
      9 ≤ line.length ∧ tokenOf (line.drop 9) ≠ [] ∧
        ∃ p ps, includePaths = p :: ps ∧
          env.stat ((p ++ '/' :: tokenOf (line.drop 9)).take (filepathBufSz - 1)) = true := by
  unfold includesFirst included includeTarget at h
  split at h
  · next hdirective =>
      split at h
      · next hname =>
          refine ⟨hdirective, hname.1, hname.2, ?_⟩
          cases includePaths with
          | nil => cases h
          | cons p ps =>
              refine ⟨p, ps, rfl, ?_⟩
              by_contra hstat
              rw [List.take_succ_cons, List.take_zero, findFile] at h
              rw [if_neg hstat] at h
              cases h
      · cases h
  · cases h

theorem included_of_first {line : CStr} (h : includesFirst env includePaths line = true) :
    included env includePaths line ≠ none := by
  rcases includesFirst_spec h with ⟨hdirective, hlen, hname, p, ps, rfl, hstat⟩
  rw [included, if_pos hdirective, includeTarget, if_pos ⟨hlen, hname⟩, findFile, if_pos hstat]
  exact Option.some_ne_none _

/-- A line whose file is found at once does nothing of its own. -/
theorem parseOwn_first {line : CStr} (h : includesFirst env includePaths line = true)
    (filename : FileName) (lineno : UInt32) (s : Prs T) :
    parseOwn env filename lineno includePaths line s = .ok s := by
  rcases includesFirst_spec h with ⟨⟨hhead, hdata, hincl⟩, hlen, hname, p, ps, rfl, hstat⟩
  rcases List.head?_eq_some_iff.1 hhead with ⟨rest, hrest⟩
  unfold parseOwn parseLine
  rw [hrest]
  dsimp only
  rw [if_neg (by decide), if_pos rfl, parsePreprocLine, if_neg hdata, if_pos hincl,
    parsePreprocInclude_eq env filename lineno _ hlen, if_neg hname, findFile]
  rw [if_pos hstat]

end Lines

/-! ## Parsing them -/

section Parse

variable {env : PrsEnv} {includePaths : List CStr}

/-- A step of the parser is what its text is. -/
theorem parseStep_text (step : ParseStep) {s s' : Prs T} (h : s.Same s') :
    Option.Rel Prs.Same (parseStep env includePaths step s)
      (match step.text env includePaths with
        | none => some s'
        | some l => (parseOwn env ⟨0, []⟩ 0 includePaths l s').toOption) := by
  cases step with
  | line filename lineno l =>
      rw [ParseStep.text, parseStep]
      by_cases hfirst : includesFirst env includePaths l = true
      -- the included file has steps of its own
      · rw [if_pos hfirst, parseOwn_first hfirst]
        exact .some h
      · rw [if_neg hfirst]
        have hown (give : PrsFault) : UpTo give Prs.Same
            (parseOwn env filename lineno includePaths l s)
            (parseOwn env ⟨0, []⟩ 0 includePaths l s') :=
          parseOwn_same env filename ⟨0, []⟩ lineno 0 includePaths l h
        exact UpTo.rel_toOption (show PrsFault.hang ≠ .depth by decide) hown
  | fileEnd => exact .some ⟨⟨h.result.data, h.result.reports, h.result.instns, h.result.labels,
      h.result.labelRefs⟩, h.labelRefs, h.erange, h.freedKey⟩

/-- A line, wherever it stands. -/
def parseText (env : PrsEnv) (includePaths : List CStr) (l : CStr) (s : Prs T) : Option (Prs T) :=
  (parseOwn env ⟨0, []⟩ 0 includePaths l s).toOption

/-- **The steps of a source are its lines.** -/
theorem run_text (es : List ParseStep) {s s' : Prs T} (h : s.Same s') :
    Option.Rel Prs.Same (run (parseStep env includePaths) es s)
      (run (parseText env includePaths)
        (es.filterMap (ParseStep.text env includePaths)) s') := by
  induction es generalizing s s' with
  | nil => exact .some h
  | cons e es ih =>
      have hstep := @parseStep_text T env includePaths e s s' h
      have hrest := rel_bind hstep fun t t' ht => ih ht
      rw [run, List.filterMap_cons]
      cases htext : e.text env includePaths with
      | none =>
          rw [htext] at hrest
          exact hrest
      | some l =>
          rw [htext] at hrest
          exact hrest

/-- **A file** is parsed as the lines of its source. -/
theorem parseAsmInto_lines {depth : ℕ} {filename : CStr} {lines : List CStr}
    (hlines : sourceLines env includePaths depth filename = some lines) {s s' : Prs T}
    (h : s.Same s') :
    Option.Rel Prs.Same (parseAsmInto env includePaths depth ⟨0, filename⟩ s).toOption
      (run (parseText env includePaths) lines s') := by
  rcases Option.map_eq_some_iff.1 hlines with ⟨es, hes, rfl⟩
  have hinto : (parseAsmInto env includePaths depth ⟨0, filename⟩ s).toOption =
      run (parseStep env includePaths) es s := by
    apply Option.ext
    intro t
    rw [toOption_eq_some, parseAsmInto_eq_ok, hes]
    simp
  rw [hinto]
  exact run_text es h

/-- Two files with the same lines. -/
theorem parseAsmInto_same {depth depth' : ℕ} {filename filename' : CStr} {lines : List CStr}
    (hlines : sourceLines env includePaths depth filename = some lines)
    (hlines' : sourceLines env includePaths depth' filename' = some lines) {s t : Prs T}
    (h : parseAsmInto env includePaths depth ⟨0, filename⟩ s = .ok t) :
    ∃ t', parseAsmInto env includePaths depth' ⟨0, filename'⟩ s = .ok t' ∧
      t.result.Same t'.result ∧ t.labelRefs = t'.labelRefs ∧ t.freedKey = t'.freedKey := by
  -- both are compared with the lines without their places
  have hrun := parseAsmInto_lines hlines (.refl s)
  rw [toOption_eq_some.2 h] at hrun
  rcases exists_of_rel hrun with ⟨u, hu, htu⟩
  have hrun' := parseAsmInto_lines hlines' (.refl s)
  rw [hu] at hrun'
  rcases exists_of_rel_right hrun' with ⟨t', ht', htu'⟩
  exact ⟨t', toOption_eq_some.1 ht', htu.result.trans htu'.result.symm,
    htu.labelRefs.trans htu'.labelRefs.symm, htu.freedKey.trans htu'.freedKey.symm⟩

/-- The labels that are looked up in the end. -/
theorem labelRefsVisitor_same {p p' : PrsResult T} (h : p.Same p') (labels : List CStr) :
    (labels.foldl labelRefsVisitor p).Same (labels.foldl labelRefsVisitor p') := by
  induction labels generalizing p p' with
  | nil => exact h
  | cons label labels ih =>
      apply ih
      have hget : (p.labels.get label).map Label.unplaced =
          (p'.labels.get label).map Label.unplaced := by
        rw [← LabelMap.get_unplaced, ← LabelMap.get_unplaced, h.labels]
      unfold labelRefsVisitor
      cases hp : p.labels.get label with
      | none =>
          rw [hp] at hget
          rw [Option.map_eq_none_iff.1 hget.symm]
          exact h.report _ _ _ _ _ _
      | some l =>
          rw [hp] at hget
          rcases Option.map_eq_some_iff.1 hget.symm with ⟨l', hl', -⟩
          rw [hl']
          exact h

end Parse

/-- Two sources in one directory. -/
structure Beside (env : PrsEnv) (filename filename' : CStr) : Prop where
  found : env.stat filename = true
  found' : env.stat filename' = true
  directory : directory filename = directory filename'

/-- **Sources with the same lines** parse the same, wherever the lines stand. -/
theorem parseAsm_lines {env : PrsEnv} {includePaths : List CStr} {filename filename' : CStr}
    (hbeside : Beside env filename filename') {depth depth' : ℕ} {lines : List CStr}
    (hlines : sourceLines env ((directory filename).toList ++ includePaths) depth filename =
      some lines)
    (hlines' : sourceLines env ((directory filename).toList ++ includePaths) depth' filename' =
      some lines) {erange : Bool} {p : PrsResult T}
    (h : parseAsm env depth erange filename includePaths = .ok (some p)) :
    ∃ p', parseAsm env depth' erange filename' includePaths = .ok (some p') ∧ p.Same p' := by
  unfold parseAsm at h ⊢
  rw [if_pos hbeside.found] at h
  rw [if_pos hbeside.found', ← hbeside.directory]
  simp only [Bool.not_true, Bool.false_eq_true, if_false] at h ⊢
  rcases bind_eq_ok.1 h with ⟨t, ht, hp⟩
  rcases parseAsmInto_same hlines hlines' ht with ⟨t', ht', hsame, hrefs, hkey⟩
  rw [ht', ok_bind, ← hkey, ← hrefs]
  by_cases hfreed : t.freedKey = true
  · rw [if_pos hfreed] at hp
    cases hp
  · rw [if_neg hfreed] at hp ⊢
    obtain rfl := Option.some.inj (Except.ok.inj hp)
    exact ⟨_, rfl, labelRefsVisitor_same hsame _⟩

/-! ## Generating code for them -/

section Generate

variable {p p' : PrsResult T} {debug : Bool}

theorem codeSize_unplaced (l : List (PrsInstn T)) :
    codeSize debug (l.map PrsInstn.unplaced) = codeSize debug l := by
  rw [codeSize, List.filter_map, List.map_map]
  rfl

theorem encodeCode_unplaced (r : CStr → UInt32) (l : List (PrsInstn T)) :
    encodeCode debug r (l.map PrsInstn.unplaced) = encodeCode debug r l := by
  rw [encodeCode, List.filter_map, List.flatMap_map]
  rfl

theorem placedAddress_unplaced (l : List (PrsInstn T)) (k j : ℕ) :
    placedAddress debug (l.map PrsInstn.unplaced) k j = placedAddress debug l k j := by
  rw [placedAddress, ← List.map_take, ← List.map_drop, List.any_map, ← List.map_take,
    codeSize_unplaced]
  rfl

theorem placed_unplaced (l : List (PrsInstn T)) (k : ℕ) :
    (placed debug l k).map PrsInstn.unplaced = placed debug (l.map PrsInstn.unplaced) k := by
  apply List.ext_getElem?
  intro j
  rw [List.getElem?_map, getElem?_placed, getElem?_placed, List.getElem?_map,
    placedAddress_unplaced]
  cases l[j]? <;> rfl

/-- A label has the same number in both. -/
theorem PrsResult.Same.get (h : p.Same p') (k : CStr) :
    (p.labels.get k).map Label.unplaced = (p'.labels.get k).map Label.unplaced := by
  rw [← LabelMap.get_unplaced, ← LabelMap.get_unplaced, h.labels]

theorem PrsResult.Same.get_eq_some (h : p.Same p') {k : CStr} {l : Label}
    (hl : p.labels.get k = some l) :
    ∃ l', p'.labels.get k = some l' ∧ l'.offset = l.offset ∧ l'.isMemRef = l.isMemRef := by
  have hget := h.get k
  rw [hl] at hget
  rcases Option.map_eq_some_iff.1 hget.symm with ⟨l', hl', heq⟩
  have hoffset : l'.unplaced.offset = l.unplaced.offset := congrArg Label.offset heq
  have hmem : l'.unplaced.isMemRef = l.unplaced.isMemRef := congrArg Label.isMemRef heq
  exact ⟨l', hl', hoffset, hmem⟩

theorem PrsResult.Same.codeSize (h : p.Same p') :
    codeSize debug p.instns = codeSize debug p'.instns := by
  rw [← codeSize_unplaced, h.instns, codeSize_unplaced]

theorem PrsResult.Same.addressAt (h : p.Same p') (j : ℕ) :
    addressAt debug p.instns j = addressAt debug p'.instns j := by
  have hlen := h.nInstns
  unfold PrsResult.nInstns at hlen
  rw [BvgzVm.addressAt, BvgzVm.addressAt, ← placedAddress_unplaced, h.instns,
    placedAddress_unplaced, hlen]

theorem PrsResult.Same.resolveLabel (h : p.Same p') (k : CStr) :
    resolveLabel debug p.labels p.instns k = resolveLabel debug p'.labels p'.instns k := by
  unfold BvgzVm.resolveLabel
  cases hp : p.labels.get k with
  | none =>
      have hget := h.get k
      rw [hp] at hget
      rw [Option.map_eq_none_iff.1 hget.symm]
  | some l =>
      rcases h.get_eq_some hp with ⟨l', hl', hoffset, hmem⟩
      rw [hl']
      dsimp only
      rw [hoffset, hmem, h.addressAt]

/-- The code is the same. -/
theorem PrsResult.Same.code (h : p.Same p') : (p.layout debug).code = (p'.layout debug).code := by
  unfold PrsResult.layout
  dsimp only
  rw [funext h.resolveLabel, ← encodeCode_unplaced, h.instns, encodeCode_unplaced]

theorem PrsResult.Same.layout (h : p.Same p') :
    (p.layout debug).parse.Same (p'.layout debug).parse := by
  refine ⟨h.data, h.reports, ?_, h.labels, h.labelRefs⟩
  show (placed debug p.instns p.nInstns).map _ = (placed debug p'.instns p'.nInstns).map _
  rw [placed_unplaced, placed_unplaced, h.instns, h.nInstns]

/-- An instruction of the one is one of the other. -/
theorem PrsResult.Same.mem_instns (h : p.Same p') {i' : PrsInstn T} (hi' : i' ∈ p'.instns) :
    ∃ i ∈ p.instns, i.instn = i'.instn ∧ i.args = i'.args ∧ i.memOffset = i'.memOffset := by
  have hmem : i'.unplaced ∈ p.instns.map PrsInstn.unplaced := by
    rw [h.instns]
    exact List.mem_map_of_mem hi'
  rcases List.mem_map.1 hmem with ⟨i, hi, heq⟩
  have hinstn : i.unplaced.instn = i'.unplaced.instn := congrArg PrsInstn.instn heq
  have hargs : i.unplaced.args = i'.unplaced.args := congrArg PrsInstn.args heq
  have hoffset : i.unplaced.memOffset = i'.unplaced.memOffset := congrArg PrsInstn.memOffset heq
  exact ⟨i, hi, hinstn, hargs, hoffset⟩

theorem PrsResult.Same.errorFree (h : p.Same p') (hp : p.ErrorFree) : p'.ErrorFree := by
  constructor
  · rw [← h.errors]
    exact hp.errors
  · intro i' hi'
    rcases h.mem_instns hi' with ⟨i, hi, -, -, hoffset⟩
    rw [← hoffset]
    exact hp.fresh i hi
  · intro i' hi' k hk
    rcases h.mem_instns hi' with ⟨i, hi, -, hargs, -⟩
    have hmentions : i.mentions k := by
      unfold PrsInstn.mentions
      rw [hargs]
      exact hk
    rcases hp.defined i hi k hmentions with ⟨l, hl⟩
    rcases h.get_eq_some hl with ⟨l', hl', -⟩
    exact ⟨l', hl'⟩
  · intro k l' hl' hcode
    rcases h.symm.get_eq_some hl' with ⟨l, hl, hoffset, hmem⟩
    rw [← h.nInstns, ← hoffset]
    exact hp.codeLabels k l hl (hmem.trans hcode)
  · rw [← h.nInstns]
    exact hp.nInstns_lt

theorem PrsResult.Same.codeLabelsInside (h : p.Same p') (hp : p.CodeLabelsInside debug) :
    p'.CodeLabelsInside debug := by
  intro i' hi' hemitted k hk l' hl' hcode
  rcases h.mem_instns hi' with ⟨i, hi, hinstn, hargs, -⟩
  rcases h.symm.get_eq_some hl' with ⟨l, hl, hoffset, hmem⟩
  have hemitted' : i.emitted debug = true := by
    unfold PrsInstn.emitted at hemitted ⊢
    rw [hinstn]
    exact hemitted
  have hmentions : i.mentions k := by
    unfold PrsInstn.mentions
    rw [hargs]
    exact hk
  rw [← h.nInstns, ← hoffset]
  exact hp i hi hemitted' k hmentions l hl (hmem.trans hcode)

/-- The generator returns exactly when the code is not too long and its labels are inside it. -/
theorem parseToBytecode_ok_iff {fill : ℕ → UInt8} (hp : p.ErrorFree) {b : Bytecode T} :
    parseToBytecode fill p debug = .ok b ↔
      codeSize debug p.instns ≤ maxCodeSize ∧ p.CodeLabelsInside debug ∧ b = p.layout debug := by
  rcases parseToBytecode_spec fill debug hp with ⟨-, hindex, hok⟩
  constructor
  · intro h
    rcases parseToBytecode_eq_layout hp h with ⟨hb, hmax⟩
    refine ⟨hmax, ?_, hb⟩
    by_contra hout
    rw [hindex hmax hout] at h
    cases h
  · rintro ⟨hmax, hinside, rfl⟩
    exact hok hmax hinside

theorem parseToBytecode_same {fill : ℕ → UInt8} (hp : p.ErrorFree) (h : p.Same p')
    {b : Bytecode T} (hgen : parseToBytecode fill p debug = .ok b) :
    ∃ b', parseToBytecode fill p' debug = .ok b' ∧ b'.code = b.code ∧ b.parse.Same b'.parse := by
  rcases (parseToBytecode_ok_iff hp).1 hgen with ⟨hmax, hinside, rfl⟩
  refine ⟨p'.layout debug, (parseToBytecode_ok_iff (h.errorFree hp)).2 ⟨?_, ?_, rfl⟩, h.code.symm,
    h.layout⟩
  · rw [← h.codeSize]
    exact hmax
  · exact h.codeLabelsInside hinside

end Generate

/-! ## Writing the image -/

section Write

variable {p p' : PrsResult T}

theorem dataLabelValue_same (h : p.Same p') {l l' : Label} (hoffset : l'.offset = l.offset)
    (hmem : l'.isMemRef = l.isMemRef) : dataLabelValue p l = dataLabelValue p' l' := by
  have hget := congrArg (fun is => is[l.offset.toNat]?) h.instns
  rw [List.getElem?_map, List.getElem?_map] at hget
  unfold dataLabelValue
  rw [hoffset, hmem]
  cases hi : p.instns[l.offset.toNat]? with
  | none =>
      rw [hi] at hget
      rw [Option.map_eq_none_iff.1 hget.symm]
  | some i =>
      rw [hi] at hget
      rcases Option.map_eq_some_iff.1 hget.symm with ⟨i', hi', heq⟩
      have hsame : i'.unplaced.memOffset = i.unplaced.memOffset := congrArg PrsInstn.memOffset heq
      change i'.memOffset = i.memOffset at hsame
      rw [hi']
      dsimp only
      rw [hsame]

theorem resolveDataLabelRef_same {give : AsmFault} (h : p.Same p') {ref ref' : LabelRef}
    (href : ref.unplaced = ref'.unplaced) :
    UpTo give (fun r r' => r.1 = r'.1 ∧ r.2.Same r'.2) (resolveDataLabelRef ref p)
      (resolveDataLabelRef ref' p') := by
  have hlabel : ref.unplaced.label = ref'.unplaced.label := congrArg LabelRef.label href
  have hsize : ref.unplaced.size = ref'.unplaced.size := congrArg LabelRef.size href
  have hoffset : ref.unplaced.writeOffset = ref'.unplaced.writeOffset :=
    congrArg LabelRef.writeOffset href
  change ref.label = ref'.label at hlabel
  change ref.size = ref'.size at hsize
  change ref.writeOffset = ref'.writeOffset at hoffset
  unfold resolveDataLabelRef
  rw [hlabel, hsize, hoffset]
  cases hl : p.labels.get ref'.label with
  | none =>
      have hget := h.get ref'.label
      rw [hl] at hget
      rw [Option.map_eq_none_iff.1 hget.symm]
      exact .ok ⟨rfl, h.report _ _ _ _ _ _⟩
  | some l =>
      rcases h.get_eq_some hl with ⟨l', hl', hloffset, hmem⟩
      rw [hl']
      dsimp only
      rw [dataLabelValue_same h hloffset hmem]
      refine (UpTo.refl give _).bind ?_
      rintro value _ rfl
      cases value with
      | none => exact .ok ⟨rfl, h.report _ _ _ _ _ _⟩
      | some value =>
          dsimp only
          rw [h.data]
          cases Bytes.store p'.memory ref'.writeOffset.toNat (if ref'.size = 4 then 4 else 8)
              value.toNat with
          | none => exact .error _
          | some memory =>
              refine .ok ⟨rfl, ?_, h.reports, h.instns, h.labels, h.labelRefs⟩
              rfl

theorem resolveDataLabelRefs_same {give : AsmFault} (h : p.Same p') {refs refs' : List LabelRef}
    (hrefs : refs.map LabelRef.unplaced = refs'.map LabelRef.unplaced) :
    UpTo give (fun r r' => r.1 = r'.1 ∧ r.2.Same r'.2) (resolveDataLabelRefs refs p)
      (resolveDataLabelRefs refs' p') := by
  induction refs generalizing refs' p p' with
  | nil =>
      obtain rfl : refs' = [] := List.map_eq_nil_iff.1 hrefs.symm
      exact .ok ⟨rfl, h⟩
  | cons ref refs ih =>
      rcases List.map_eq_cons_iff.1 hrefs.symm with ⟨ref', rest', rfl, href, hrest⟩
      refine (resolveDataLabelRef_same h href.symm).bind ?_
      rintro ⟨ok, q⟩ ⟨_, q'⟩ ⟨rfl, hq⟩
      exact UpTo.ite (ih hq hrest.symm) (.ok ⟨rfl, hq⟩)

theorem resolveEntryPoint_same (h : p.Same p') (entryPtLabel : CStr) :
    resolveEntryPoint entryPtLabel p = resolveEntryPoint entryPtLabel p' := by
  unfold resolveEntryPoint
  cases hl : p.labels.get entryPtLabel with
  | none =>
      have hget := h.get entryPtLabel
      rw [hl] at hget
      rw [Option.map_eq_none_iff.1 hget.symm]
  | some l =>
      rcases h.get_eq_some hl with ⟨l', hl', hoffset, hmem⟩
      rw [hl']
      dsimp only
      rw [hoffset, hmem]

theorem writeBvgzImage_same (h : p.Same p') (code : List UInt8) (entry : UInt32) (debug : Bool) :
    writeBvgzImage p code entry debug = writeBvgzImage p' code entry debug := by
  unfold writeBvgzImage
  rw [h.data]

/-- The image without debug data. -/
theorem basmWrite_same {qsort : Qsort} {order : (p : PrsResult T) → VisitOrder p.labels}
    {fill : ℕ → UInt8} {entryPtLabel : CStr} (h : p.Same p') (hp : p.ErrorFree)
    {file : Option (List UInt8)}
    (hwrite : basmWrite qsort order fill p false entryPtLabel = .ok file) :
    basmWrite qsort order fill p' false entryPtLabel = .ok file := by
  unfold basmWrite at hwrite ⊢
  split at hwrite
  · cases hwrite
  · next b hb =>
      rcases parseToBytecode_same hp h hb with ⟨b', hb', hcode, hparse⟩
      rw [hb']
      dsimp only
      have hrefs : UpTo .instnIndex _ (resolveDataLabelRefs _ _) (resolveDataLabelRefs _ _) :=
        resolveDataLabelRefs_same hparse hparse.labelRefs
      split at hwrite
      · cases hwrite
      · next q hq =>
          rcases hrefs.of_ok hq with ⟨⟨ok, q'⟩, hq', hok, hsame⟩
          dsimp only at hok
          rw [hq', ← hok]
          exact hwrite
      · next q hq =>
          rcases hrefs.of_ok hq with ⟨⟨ok, q'⟩, hq', hok, hsame⟩
          dsimp only at hok
          rw [hq', ← hok]
          dsimp only at hwrite ⊢
          rw [← resolveEntryPoint_same hsame, hcode, ← writeBvgzImage_same hsame]
          exact hwrite

end Write

/-! ## Whole sources -/

section Sources

variable {env : PrsEnv} {includePaths : List CStr} {filename filename' : CStr}
  {depth depth' : ℕ} {lines : List CStr}

/-- A file of which no line includes another consists of its lines. -/
theorem joinAll_plain {f : FileName → Option (List ParseStep)} {name : FileName} {lineno : UInt32}
    (hplain : ∀ line ∈ lines, included env includePaths line = none) :
    ∃ es, Unfolding.joinAll f (fileItems env includePaths name lineno lines) = some es ∧
      es.filterMap (ParseStep.text env includePaths) = lines := by
  induction lines generalizing lineno with
  | nil => exact ⟨[.fileEnd], rfl, rfl⟩
  | cons line lines ih =>
      have hnone := hplain line List.mem_cons_self
      have hfirst : includesFirst env includePaths line = false := by
        by_contra hfirst
        exact included_of_first (Bool.eq_true_of_not_eq_false hfirst) hnone
      have hrest := fun line hline => hplain line (List.mem_cons_of_mem _ hline)
      obtain ⟨es, hes, htexts⟩ :
          ∃ es, Unfolding.joinAll f (fileItems env includePaths name (lineno + 1) lines) = some es ∧
            es.filterMap (ParseStep.text env includePaths) = lines := ih hrest
      refine ⟨.line name (lineno + 1) line :: es, ?_, ?_⟩
      · rw [fileItems, hnone, Option.map_none, Unfolding.joinAll, hes]
        rfl
      · have htext : ParseStep.text env includePaths (.line name (lineno + 1) line) =
            some line := by
          rw [ParseStep.text, hfirst, if_neg Bool.false_ne_true]
        rw [List.filterMap_cons, htext, htexts]

theorem sourceLines_plain (hlines : fileLines env filename = some lines)
    (hplain : ∀ line ∈ lines, included env includePaths line = none) (hdepth : 0 < depth) :
    sourceLines env includePaths depth filename = some lines := by
  obtain ⟨d, rfl⟩ : ∃ d, depth = d + 1 := ⟨depth - 1, by omega⟩
  obtain ⟨es, hes, htexts⟩ :
      ∃ es, Unfolding.joinAll (Unfolding.unfold (fileBody env includePaths) d)
          (fileItems env includePaths ⟨0, filename⟩ 0 lines) = some es ∧
        es.filterMap (ParseStep.text env includePaths) = lines := joinAll_plain hplain
  have hsteps : fileSteps env includePaths (d + 1) ⟨0, filename⟩ = some es := by
    refine Unfolding.unfold_succ.2 ⟨_, ?_, hes⟩
    rw [fileBody, hlines, Option.map_some]
  rw [sourceLines, hsteps, Option.map_some, htexts]

/-- **Sources with the same lines give the same image.** -/
theorem basmMain_lines {qsort : Qsort} {order : (p : PrsResult T) → VisitOrder p.labels}
    {fill : ℕ → UInt8} {entryPtLabel : CStr} (hbeside : Beside env filename filename')
    (hlines : sourceLines env ((directory filename).toList ++ includePaths) depth filename =
      some lines)
    (hlines' : sourceLines env ((directory filename).toList ++ includePaths) depth' filename' =
      some lines) {file : Option (List UInt8)}
    (h : basmMain qsort order fill env depth filename includePaths false entryPtLabel = .ok file) :
    basmMain qsort order fill env depth' filename' includePaths false entryPtLabel = .ok file := by
  unfold basmMain at h ⊢
  split at h
  · cases h
  · cases h
  · next p hp =>
      rcases parseAsm_lines hbeside hlines hlines' hp with ⟨p', hp', hsame⟩
      rw [hp']
      dsimp only
      have herrors : p.errors = 0 := by
        by_contra herr
        -- the assertion of `parse_to_bytecode` fails
        have hgen : parseToBytecode fill p false = .error .assertion := by
          rw [parseToBytecode, if_pos herr]
        rw [basmWrite, hgen] at h
        cases h
      exact basmWrite_same hsame (parseAsm_errorFree hp herrors) h

/-- **An included file is pasted.** Take a source whose `%include` lines find their files under the
first include path, and a file beside it that consists of the lines of the source with the lines
of the included files in their places. Both are parsed to results that are the same but for
places, or neither is parsed; and without debug data `basm` does the same with both, down to the
bytes of the image. -/
theorem include_pasted {qsort : Qsort} {order : (p : PrsResult T) → VisitOrder p.labels}
    (fill : ℕ → UInt8) (entryPtLabel : CStr) (hbeside : Beside env filename filename')
    (hlines : sourceLines env ((directory filename).toList ++ includePaths) depth filename =
      some lines)
    (hpasted : fileLines env filename' = some lines)
    (hplain : ∀ line ∈ lines,
      included env ((directory filename).toList ++ includePaths) line = none)
    (hdepth : 0 < depth') :
    (∀ (erange : Bool) (p : PrsResult T),
      parseAsm env depth erange filename includePaths = .ok (some p) →
        ∃ p', parseAsm env depth' erange filename' includePaths = .ok (some p') ∧ p.Same p') ∧
    (∀ (erange : Bool) (p' : PrsResult T),
      parseAsm env depth' erange filename' includePaths = .ok (some p') →
        ∃ p, parseAsm env depth erange filename includePaths = .ok (some p) ∧ p.Same p') ∧
    ∀ file,
      basmMain qsort order fill env depth filename includePaths false entryPtLabel = .ok file ↔
        basmMain qsort order fill env depth' filename' includePaths false entryPtLabel =
          .ok file := by
  have hlines' := sourceLines_plain hpasted hplain hdepth
  have hback : Beside env filename' filename :=
    ⟨hbeside.found', hbeside.found, hbeside.directory.symm⟩
  have hdir := hbeside.directory
  refine ⟨?_, ?_, ?_⟩
  · intro erange p hp
    exact parseAsm_lines hbeside hlines hlines' hp
  · intro erange p' hp'
    rw [hdir] at hlines hlines'
    rcases parseAsm_lines hback hlines' hlines hp' with ⟨p, hp, hsame⟩
    exact ⟨p, hp, hsame.symm⟩
  · intro file
    constructor
    · exact basmMain_lines hbeside hlines hlines'
    · rw [hdir] at hlines hlines'
      exact basmMain_lines hback hlines' hlines

end Sources

/-- `main` includes `x`, which is found as `./x`; `all` is `main` with `x` in its place. -/
def threeFiles : PrsEnv where
  stat path := [['m'], ['a'], ['.', '/', 'x']].contains path
  fopen path :=
    if path = ['m'] then some ("%include x\nabrt 3\n".toList.map byte)
    else if path = ['a'] then some ("_entry:\nabrt 3\n".toList.map byte)
    else if path = ['.', '/', 'x'] then some ("_entry:\n".toList.map byte)
    else none
  memAllocBlockSz := 4096
  freshType _ := 0

theorem include_pasted_three :
    basmMain mergeQsort (fun p : PrsResult stableTable => firstOrder p.labels) (fun _ => 0)
      threeFiles 2 ['m'] [['.']] false "_entry".toList = .ok (some abortFile) := by
  have hbeside : Beside threeFiles ['m'] ['a'] := ⟨rfl, rfl, rfl⟩
  have hpasted : basmMain mergeQsort (fun p : PrsResult stableTable => firstOrder p.labels)
      (fun _ => 0) threeFiles 1 ['a'] [['.']] false "_entry".toList = .ok (some abortFile) := by
    decide +kernel
  have hlines : sourceLines threeFiles [['.']] 2 ['m'] =
      some ["_entry:\n".toList, "abrt 3\n".toList] := by
    decide +kernel
  have hplain : ∀ line ∈ ["_entry:\n".toList, "abrt 3\n".toList],
      included threeFiles [['.']] line = none := by
    decide +kernel
  exact ((include_pasted (fun _ => 0) "_entry".toList hbeside hlines (by decide +kernel) hplain
    (Nat.one_pos)).2.2 _).2 hpasted

end BvgzVm
