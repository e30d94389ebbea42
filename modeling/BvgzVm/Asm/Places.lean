import BvgzVm.Asm.DataImage
import BvgzVm.Asm.LineEnds

set_option autoImplicit false

/-! # The parser does not look at places

A parse result records for each instruction, label, cell and report the file and the line it comes
from. `Prs.Same` compares parsers without these places. The own part of a line takes parsers that
are the same to parsers that are the same, wherever the line stands (`parseOwn_same`).
-/

namespace BvgzVm

open CLib Fallible

variable {T : InstnTable}

/-! ## Results without places -/

/-- A report without its place. -/
def Report.unplaced (r : Report) : Report := { r with source := [], line := 0 }

/-- An instruction without its place. -/
def PrsInstn.unplaced (i : PrsInstn T) : PrsInstn T := { i with filename := ⟨0, []⟩, lineno := 0 }

/-- A label without its place. -/
def Label.unplaced (l : Label) : Label := { l with filename := ⟨0, []⟩, lineno := 0 }

/-- A cell for a label without its place. -/
def LabelRef.unplaced (r : LabelRef) : LabelRef := { r with filename := ⟨0, []⟩, lineno := 0 }

/-- A table of labels without their places. -/
def LabelMap.unplaced (m : LabelMap) : LabelMap := m.map fun e => (e.1, e.2.unplaced)

/-- The results are the same but for places and the number of files. -/
structure PrsResult.Same (p p' : PrsResult T) : Prop where
  data : p.toDataArea = p'.toDataArea
  reports : p.reports.map Report.unplaced = p'.reports.map Report.unplaced
  instns : p.instns.map PrsInstn.unplaced = p'.instns.map PrsInstn.unplaced
  labels : LabelMap.unplaced p.labels = LabelMap.unplaced p'.labels
  labelRefs : p.labelRefs.map LabelRef.unplaced = p'.labelRefs.map LabelRef.unplaced

/-- The parsers are the same but for places and the number of files. -/
structure Prs.Same (s s' : Prs T) : Prop where
  result : s.result.Same s'.result
  labelRefs : s.labelRefs = s'.labelRefs
  erange : s.erange = s'.erange
  freedKey : s.freedKey = s'.freedKey

theorem LabelMap.unplaced_put (m : LabelMap) (k : CStr) (l : Label) :
    LabelMap.unplaced (m.put k l) = (LabelMap.unplaced m).put k l.unplaced := by
  unfold LabelMap.put LabelMap.unplaced
  rw [List.map_cons, List.filter_map]
  rfl

theorem LabelMap.get_unplaced (m : LabelMap) (k : CStr) :
    LabelMap.get (LabelMap.unplaced m) k = (m.get k).map Label.unplaced := by
  unfold LabelMap.get LabelMap.unplaced
  induction m with
  | nil => rfl
  | cons e m ih =>
      rw [List.map_cons, List.lookup_cons, List.lookup_cons, ih]
      cases k == e.1 <;> rfl

section Same

variable {p p' : PrsResult T} {s s' : Prs T} {filename filename' : FileName}
  {lineno lineno' : UInt32}

theorem PrsResult.Same.refl (p : PrsResult T) : p.Same p := ⟨rfl, rfl, rfl, rfl, rfl⟩

theorem PrsResult.Same.symm (h : p.Same p') : p'.Same p :=
  ⟨h.data.symm, h.reports.symm, h.instns.symm, h.labels.symm, h.labelRefs.symm⟩

theorem Prs.Same.refl (s : Prs T) : s.Same s := ⟨.refl _, rfl, rfl, rfl⟩

theorem PrsResult.Same.trans {q : PrsResult T} (h : p.Same p') (h' : p'.Same q) : p.Same q :=
  ⟨h.data.trans h'.data, h.reports.trans h'.reports, h.instns.trans h'.instns,
    h.labels.trans h'.labels, h.labelRefs.trans h'.labelRefs⟩

/-- A report. -/
theorem PrsResult.Same.report (h : p.Same p') (kind : ReportKind) (source source' : CStr)
    (line line' : UInt32) (message : CStr) :
    (p.report kind source line message).Same (p'.report kind source' line' message) := by
  refine ⟨h.data, ?_, h.instns, h.labels, h.labelRefs⟩
  show (p.reports ++ [_]).map Report.unplaced = (p'.reports ++ [_]).map Report.unplaced
  rw [List.map_append, List.map_append, h.reports]
  rfl

theorem Prs.Same.error (h : s.Same s') (message : CStr) :
    (s.error filename lineno message).Same (s'.error filename' lineno' message) :=
  ⟨h.result.report _ _ _ _ _ _, h.labelRefs, h.erange, h.freedKey⟩

theorem Prs.Same.warn (h : s.Same s') (message : CStr) :
    (s.warn filename lineno message).Same (s'.warn filename' lineno' message) :=
  ⟨h.result.report _ _ _ _ _ _, h.labelRefs, h.erange, h.freedKey⟩

theorem Prs.Same.setData (h : s.Same s') (d : DataArea) : (s.setData d).Same (s'.setData d) :=
  ⟨⟨rfl, h.result.reports, h.result.instns, h.result.labels, h.result.labelRefs⟩, h.labelRefs,
    h.erange, h.freedKey⟩

theorem Prs.Same.resize (h : s.Same s') (memsz : UInt32) :
    (s.setData { s.result.toDataArea with memsz }).Same
      (s'.setData { s'.result.toDataArea with memsz }) := by
  rw [h.result.data]
  exact h.setData _

theorem Prs.Same.setErange (h : s.Same s') (r : Strto) :
    (s.setErange r).Same (s'.setErange r) := by
  refine ⟨h.result, h.labelRefs, ?_, h.freedKey⟩
  show (s.erange || r.erange) = (s'.erange || r.erange)
  rw [h.erange]

theorem Prs.Same.withErange (h : s.Same s') (erange : Bool) :
    Prs.Same { s with erange } { s' with erange } :=
  ⟨h.result, h.labelRefs, rfl, h.freedKey⟩

theorem Prs.Same.addLabel (h : s.Same s') (label : CStr) (offset : UInt32) (isMemRef : Bool) :
    (s.addLabel filename lineno label offset isMemRef).Same
      (s'.addLabel filename' lineno' label offset isMemRef) := by
  refine ⟨⟨h.result.data, h.result.reports, h.result.instns, ?_, h.result.labelRefs⟩, h.labelRefs,
    h.erange, h.freedKey⟩
  show LabelMap.unplaced (s.result.labels.put _ _) = LabelMap.unplaced (s'.result.labels.put _ _)
  rw [LabelMap.unplaced_put, LabelMap.unplaced_put, h.result.labels]
  rfl

theorem Prs.Same.addLabelRef (h : s.Same s') (label : CStr) :
    (s.addLabelRef label).Same (s'.addLabelRef label) := by
  refine ⟨h.result, ?_, h.erange, h.freedKey⟩
  unfold Prs.addLabelRef
  rw [h.labelRefs]

/-- A new cell. -/
theorem Prs.Same.addCell (h : s.Same s') (label : CStr) (size writeOffset : UInt32) :
    Prs.Same
      { s with result := { s.result with
        labelRefs := ⟨filename, lineno, label, size, writeOffset⟩ :: s.result.labelRefs } }
      { s' with result := { s'.result with
        labelRefs := ⟨filename', lineno', label, size, writeOffset⟩ :: s'.result.labelRefs } } := by
  refine ⟨⟨h.result.data, h.result.reports, h.result.instns, h.result.labels, ?_⟩, h.labelRefs,
    h.erange, h.freedKey⟩
  show (_ :: s.result.labelRefs).map _ = (_ :: s'.result.labelRefs).map _
  rw [List.map_cons, List.map_cons, h.result.labelRefs]
  rfl

/-- A step that is made under a condition. -/
theorem Prs.Same.ite {c : Prop} [Decidable c] {t t' : Prs T} (h : s.Same s') (h' : t.Same t') :
    (if c then s else t).Same (if c then s' else t') := by
  by_cases hc : c
  · rw [if_pos hc, if_pos hc]
    exact h
  · rw [if_neg hc, if_neg hc]
    exact h'

theorem PrsResult.Same.nInstns (h : p.Same p') : p.nInstns = p'.nInstns := by
  have hlen := congrArg List.length h.instns
  rwa [List.length_map, List.length_map] at hlen

theorem PrsResult.Same.errors (h : p.Same p') : p.errors = p'.errors := by
  have hcount := congrArg (List.countP fun r => decide (r.kind = .error)) h.reports
  rwa [List.countP_map, List.countP_map] at hcount

end Same

/-! ## Instructions -/

section Instns

variable {give : PrsFault} (env : PrsEnv) (filename filename' : FileName)
  (lineno lineno' : UInt32) {s s' : Prs T}

theorem finishArg_same (token : CStr) (argIndex : ℕ) (negative reference immRef : Bool) (p : CStr)
    (r : Strto) (h : s.Same s') :
    (finishArg filename lineno token argIndex negative reference immRef p r s).1 =
        (finishArg filename' lineno' token argIndex negative reference immRef p r s').1 ∧
      (finishArg filename lineno token argIndex negative reference immRef p r s).2.Same
        (finishArg filename' lineno' token argIndex negative reference immRef p r s').2 := by
  unfold finishArg
  dsimp only
  rw [h.erange]
  split
  · exact ⟨rfl, h.error _⟩
  · have hwarned : Prs.Same
        (if negative = false ∧ int64MaxLess1 < r.value then
          s.warn filename lineno ("argument (".toList ++ showNat argIndex ++
            ") overflows to negative value: [".toList ++ token ++ [']']) else s)
        (if negative = false ∧ int64MaxLess1 < r.value then
          s'.warn filename' lineno' ("argument (".toList ++ showNat argIndex ++
            ") overflows to negative value: [".toList ++ token ++ [']']) else s') :=
      (h.warn _).ite h
    split
    · split
      · exact ⟨rfl, hwarned.error _⟩
      · exact ⟨rfl, hwarned.addLabelRef _⟩
    · split
      · exact ⟨rfl, hwarned.error _⟩
      · exact ⟨rfl, hwarned⟩

theorem parseArg_same (token : CStr) (argIndex : ℕ) (h : s.Same s') :
    (parseArg filename lineno token argIndex s).1 =
        (parseArg filename' lineno' token argIndex s').1 ∧
      (parseArg filename lineno token argIndex s).2.Same
        (parseArg filename' lineno' token argIndex s').2 :=
  finishArg_same filename filename' lineno lineno' token argIndex _ _ _ _ _ (h.setErange _)

theorem destroyInstn_same (argCount : ℕ) (parsed : List PrsArg) (h : s.Same s') :
    UpTo give Prs.Same (destroyInstn env argCount parsed s)
      (destroyInstn env argCount parsed s') := by
  unfold destroyInstn
  refine UpTo.ite (.error _) (.ok ⟨h.result, h.labelRefs, h.erange, ?_⟩)
  show (s.freedKey || _) = (s'.freedKey || _)
  rw [h.freedKey]

theorem parseArgs_same (fmt : InstnDef Op) (name : CStr) (tokens : List CStr)
    (args : List PrsArg) (h : s.Same s') :
    UpTo give (fun r r' => r.1 = r'.1 ∧ r.2.Same r'.2)
      (parseArgs env filename lineno fmt name args tokens s)
      (parseArgs env filename' lineno' fmt name args tokens s') := by
  induction tokens generalizing args s s' with
  | nil => exact .ok ⟨rfl, h⟩
  | cons token tokens ih =>
      rw [parseArgs, parseArgs]
      have harg := parseArg_same filename filename' lineno lineno' token args.length h
      generalize parseArg filename lineno token args.length s = r at harg ⊢
      generalize parseArg filename' lineno' token args.length s' = r' at harg ⊢
      rcases r with ⟨a, t⟩
      rcases r' with ⟨a', t'⟩
      rcases harg with ⟨heq, ht⟩
      dsimp only at heq ht
      subst heq
      cases a with
      | none =>
          dsimp only
          refine (destroyInstn_same env _ _ ht).bind ?_
          intro u u' hu
          exact .ok ⟨rfl, hu⟩
      | some a =>
          dsimp only
          refine UpTo.ite ?_ ?_
          · refine (destroyInstn_same env _ _ (ht.error _)).bind ?_
            intro u u' hu
            exact .ok ⟨rfl, hu⟩
          · refine (ih (args ++ [a]) ht).bind ?_
            rintro ⟨as, u⟩ ⟨_, u'⟩ ⟨rfl, hu⟩
            exact .ok ⟨rfl, hu⟩

theorem selectInstn_same (name : CStr) (tokens : List CStr)
    (rows : List {d : InstnDef Op // d ∈ T.entries}) (h : s.Same s') :
    UpTo give (fun r r' => r.1.map PrsInstn.unplaced = r'.1.map PrsInstn.unplaced ∧ r.2.Same r'.2)
      (selectInstn env filename lineno name tokens rows s)
      (selectInstn env filename' lineno' name tokens rows s') := by
  induction rows with
  | nil => exact .error _
  | cons fmt rows ih =>
      rw [selectInstn, selectInstn]
      refine UpTo.ite (.ok ⟨rfl, h.error _⟩) ?_
      split
      · refine (parseArgs_same env filename filename' lineno lineno' _ name tokens [] h).bind ?_
        rintro ⟨as, u⟩ ⟨_, u'⟩ ⟨rfl, hu⟩
        cases as with
        | none => exact .ok ⟨rfl, hu⟩
        | some as => exact .ok ⟨rfl, hu⟩
      · exact ih

theorem addInstn_same (name : CStr) (tokens : List CStr) (h : s.Same s') :
    UpTo give Prs.Same (addInstn env filename lineno name tokens s)
      (addInstn env filename' lineno' name tokens s') := by
  have hinstn : UpTo give
      (fun r r' => r.1.map PrsInstn.unplaced = r'.1.map PrsInstn.unplaced ∧ r.2.Same r'.2)
      (parseInstn env filename lineno name tokens s)
      (parseInstn env filename' lineno' name tokens s') := by
    unfold parseInstn
    dsimp only
    cases bsearch (T.entries.map fun d => d.name.toList) name with
    | none => exact .ok ⟨rfl, h.error _⟩
    | some fmt => exact selectInstn_same env filename filename' lineno lineno' name tokens _ h
  unfold addInstn
  refine hinstn.bind ?_
  rintro ⟨i, t⟩ ⟨i', t'⟩ ⟨hi, ht⟩
  dsimp only at hi ht
  cases i with
  | none =>
      obtain rfl : i' = none := Option.map_eq_none_iff.1 hi.symm
      exact .ok ht
  | some i =>
      rcases Option.map_eq_some_iff.1 hi.symm with ⟨j, rfl, hj⟩
      dsimp only
      rw [ht.result.nInstns]
      refine UpTo.ite (.error _) (.ok ?_)
      refine ⟨⟨ht.result.data, ht.result.reports, ?_, ht.result.labels, ht.result.labelRefs⟩,
        ht.labelRefs, ht.erange, ht.freedKey⟩
      show (t.result.instns ++ [i]).map _ = (t'.result.instns ++ [j]).map _
      rw [List.map_append, List.map_append, ht.result.instns, List.map_singleton,
        List.map_singleton, hj]

theorem scanLine_same (p : CStr) (ls : LineState) (h : s.Same s') :
    UpTo give (fun r r' => r.1 = r'.1 ∧ r.2.Same r'.2) (scanLine filename lineno p ls s)
      (scanLine filename' lineno' p ls s') := by
  induction p generalizing ls s s' with
  | nil => exact .ok ⟨rfl, h⟩
  | cons c p ih =>
      rw [scanLine, scanLine]
      refine UpTo.ite (.ok ⟨rfl, h⟩) (UpTo.ite (ih _ h) (UpTo.ite ?_ (UpTo.ite ?_ ?_)))
      · rw [h.result.nInstns]
        exact ih _ (h.addLabel _ _ _)
      · exact .ok ⟨rfl, h.error _⟩
      · exact UpTo.ite (UpTo.ite (ih _ h) (.error _)) (ih _ h)

end Instns

/-! ## Data -/

section Data

variable {give : PrsFault} (env : PrsEnv) (filename filename' : FileName)
  (lineno lineno' : UInt32) {s s' : Prs T}

theorem setMemorySize_same (block originalOffset size : UInt32) (h : s.Same s') :
    UpTo give Prs.Same (setMemorySize block filename lineno originalOffset size s)
      (setMemorySize block filename' lineno' originalOffset size s') := by
  unfold setMemorySize
  dsimp only
  rw [show s'.result.memsz = s.result.memsz by rw [h.result.data],
    show s'.result.toDataArea = s.result.toDataArea from h.result.data.symm]
  refine UpTo.ite (.ok h) (UpTo.ite (.ok ?_) ?_)
  · exact (h.warn _).resize _
  · refine (UpTo.refl give _).bind ?_
    rintro d _ rfl
    exact .ok (h.setData _)

theorem finishData_same (block originalOffset size : UInt32) (label : Option CStr)
    (h : s.Same s') :
    UpTo give Prs.Same (finishData block filename lineno originalOffset size label s)
      (finishData block filename' lineno' originalOffset size label s') := by
  unfold finishData
  refine (setMemorySize_same filename filename' lineno lineno' block originalOffset size h).bind ?_
  intro t t' ht
  cases label with
  | none => exact .ok ht
  | some label => exact .ok (ht.addLabel _ _ _)

/-- The end of a kind of data, on a new memory area. -/
theorem finishArea_same {x : Except PrsFault DataArea} (block originalOffset size : UInt32)
    (label : Option CStr) (h : s.Same s') :
    UpTo give Prs.Same
      (x >>= fun d => finishData block filename lineno originalOffset size label (s.setData d))
      (x >>= fun d => finishData block filename' lineno' originalOffset size label
        (s'.setData d)) := by
  refine (UpTo.refl give x).bind ?_
  rintro d _ rfl
  exact finishData_same filename filename' lineno lineno' _ _ _ _ (h.setData d)

theorem addFileToMemory_same (label : Option CStr) (inclFile : CStr) (size offset : UInt32)
    (includePaths : List CStr) (h : s.Same s') :
    UpTo give Prs.Same
      (addFileToMemory env filename lineno label inclFile size offset includePaths s)
      (addFileToMemory env filename' lineno' label inclFile size offset includePaths s') := by
  unfold addFileToMemory
  rw [h.erange]
  rcases findFile env inclFile includePaths s'.erange with ⟨_ | filepath, erange⟩
  · exact .ok ((h.withErange erange).error _)
  · dsimp only
    rw [show s'.result.toDataArea = s.result.toDataArea from h.result.data.symm]
    refine (UpTo.refl give _).bind ?_
    rintro d _ rfl
    cases env.fopen filepath with
    | none => exact .error _
    | some contents =>
        exact finishArea_same filename filename' lineno lineno' _ _ _ _ (h.withErange erange)

theorem addStrToMemory_same (label : Option CStr) (str : CStr) (size offset : UInt32)
    (h : s.Same s') :
    UpTo give Prs.Same (addStrToMemory env filename lineno label str size offset s)
      (addStrToMemory env filename' lineno' label str size offset s') := by
  unfold addStrToMemory
  rw [show s'.result.toDataArea = s.result.toDataArea from h.result.data.symm]
  refine (UpTo.refl give _).bind ?_
  rintro d _ rfl
  refine (UpTo.refl give _).bind ?_
  rintro ⟨stop, wOffset, d'⟩ _ rfl
  refine (UpTo.refl give _).bind ?_
  rintro d'' _ rfl
  apply finishData_same
  exact (h.setData d'').ite ((h.setData d'').error _)

theorem addHexToMemory_same (label : Option CStr) (hex : CStr) (size offset : UInt32)
    (h : s.Same s') :
    UpTo give Prs.Same (addHexToMemory env filename lineno label hex size offset s)
      (addHexToMemory env filename' lineno' label hex size offset s') := by
  unfold addHexToMemory
  rw [show s'.result.toDataArea = s.result.toDataArea from h.result.data.symm]
  refine (UpTo.refl give _).bind ?_
  rintro d _ rfl
  have hread := (h.setData d).setErange (strtoull hex 16)
  apply finishArea_same
  exact (hread.ite (hread.warn _)).ite ((hread.ite (hread.warn _)).warn _)

theorem addLabelToMemory_same (label : Option CStr) (labelValue : CStr) (size offset : UInt32)
    (h : s.Same s') :
    UpTo give Prs.Same (addLabelToMemory env filename lineno label labelValue size offset s)
      (addLabelToMemory env filename' lineno' label labelValue size offset s') := by
  unfold addLabelToMemory
  rw [show s'.result.toDataArea = s.result.toDataArea from h.result.data.symm]
  refine UpTo.ite (.ok (h.error _)) ?_
  refine (UpTo.refl give _).bind ?_
  rintro d _ rfl
  refine (UpTo.refl give _).bind ?_
  rintro d' _ rfl
  exact finishData_same filename filename' lineno lineno' _ _ _ _ ((h.setData d').addCell _ _ _)

theorem parsePreprocDataNo_same (numericStr dataName : CStr) (h : s.Same s') :
    (parsePreprocDataNo filename lineno numericStr dataName s).2.Same
      (parsePreprocDataNo filename' lineno' numericStr dataName s').2 := by
  unfold parsePreprocDataNo
  dsimp only
  split
  · exact h.setErange _
  · exact (h.setErange _).error _

/-- Options are read alike. -/
theorem optionsAlike_same :
    OptionsAlike filename filename' lineno lineno' (Prs.Same (T := T)) where
  error s s' message h := h.error message
  offset := by
    intro s s' numericStr o h
    have hmulti : Prs.Same
        (if o.offset = notGiven then s
          else s.error filename lineno "multiple offset definitions".toList)
        (if o.offset = notGiven then s'
          else s'.error filename' lineno' "multiple offset definitions".toList) :=
      h.ite (h.error _)
    have hno := parsePreprocDataNo_same filename filename' lineno lineno' numericStr
      "offset".toList hmulti
    unfold offsetOption
    dsimp only
    -- the number that is read does not depend on the place, and the warning asks for it
    rw [show (parsePreprocDataNo filename lineno numericStr "offset".toList _).1 =
        (parsePreprocDataNo filename' lineno' numericStr "offset".toList _).1
      from parsePreprocDataNo_fst numericStr "offset".toList _ _, hno.result.data]
    exact (hno.warn _).ite hno
  size := by
    intro s s' numericStr o h
    exact parsePreprocDataNo_same filename filename' lineno lineno' numericStr "size".toList
      (h.ite (h.error _))

theorem addData_same (label : Option CStr) (data : CStr) (o : DataOptions)
    (includePaths : List CStr) (h : s.Same s') :
    UpTo give (fun r r' => r.1 = r'.1 ∧ r.2.Same r'.2)
      (addData env filename lineno label data o includePaths s)
      (addData env filename' lineno' label data o includePaths s') := by
  have hflag (check : Bool) {x x' : Except PrsFault (Prs T)} (hx : UpTo give Prs.Same x x') :
      UpTo give (fun r r' => r.1 = r'.1 ∧ r.2.Same r'.2) (x >>= fun s => .ok (check, s))
        (x' >>= fun s => .ok (check, s)) :=
    hx.bind fun t t' ht => .ok ⟨rfl, ht⟩
  unfold addData
  split
  · exact hflag true (addFileToMemory_same env _ _ _ _ _ _ _ _ _ h)
  · exact hflag true (addStrToMemory_same env _ _ _ _ _ _ _ _ h)
  · exact hflag true (addHexToMemory_same env _ _ _ _ _ _ _ _ h)
  · exact hflag false (addLabelToMemory_same env _ _ _ _ _ _ _ _ h)
  · exact .ok ⟨rfl, h.error _⟩

theorem parsePreprocData_same (line : CStr) (includePaths : List CStr) (h : s.Same s') :
    UpTo give Prs.Same (parsePreprocData env filename lineno line includePaths s)
      (parsePreprocData env filename' lineno' line includePaths s') := by
  unfold parsePreprocData
  refine (UpTo.refl give (dataHead line)).bind ?_
  rintro head _ rfl
  cases head with
  | none => exact .ok (h.error _)
  | some head =>
      refine (dataOptions_alike give (optionsAlike_same filename filename' lineno lineno')
        s s' h).bind ?_
      rintro ⟨line', o, t⟩ ⟨_, _, t'⟩ ⟨rfl, rfl, ht⟩
      refine (UpTo.refl give (dataLabel line' head.label)).bind ?_
      rintro label _ rfl
      refine (UpTo.refl give (onLine (strAt line' head.data))).bind ?_
      rintro data _ rfl
      refine (addData_same env filename filename' lineno lineno' label data o includePaths
        ht).bind ?_
      rintro ⟨check, u⟩ ⟨_, u'⟩ ⟨rfl, hu⟩
      dsimp only at hu ⊢
      rw [show u'.result.toDataArea = u.result.toDataArea from hu.result.data.symm]
      exact UpTo.ite (.error _) (.ok hu)

end Data

/-! ## Lines -/

section Line

variable {give : PrsFault} (env : PrsEnv) (filename filename' : FileName)
  (lineno lineno' : UInt32) {s s' : Prs T}

theorem parsePreprocInclude_same (line : CStr) (includePaths : List CStr) (h : s.Same s') :
    UpTo give Prs.Same
      (parsePreprocInclude env filename lineno line includePaths (fun _ s => .ok s) s)
      (parsePreprocInclude env filename' lineno' line includePaths (fun _ s => .ok s) s') := by
  unfold parsePreprocInclude
  refine (UpTo.refl give _).bind ?_
  rintro file _ rfl
  refine (UpTo.refl give _).bind ?_
  rintro p _ rfl
  refine (UpTo.refl give _).bind ?_
  rintro line' _ rfl
  refine UpTo.ite (.ok (h.error _)) ?_
  refine (UpTo.refl give _).bind ?_
  rintro name _ rfl
  rw [h.erange]
  rcases findFile env name includePaths s'.erange with ⟨_ | filepath, erange⟩
  · exact .ok ((h.withErange erange).error _)
  · exact .ok (h.withErange erange)

/-- **A line does the same wherever it stands.** -/
theorem parseOwn_same (includePaths : List CStr) (line : CStr) (h : s.Same s') :
    UpTo give Prs.Same (parseOwn env filename lineno includePaths line s)
      (parseOwn env filename' lineno' includePaths line s') := by
  unfold parseOwn parseLine
  split
  · exact .ok h
  · refine UpTo.ite (.ok h) (UpTo.ite ?_ ?_)
    · unfold parsePreprocLine
      exact UpTo.ite (parsePreprocData_same env _ _ _ _ line includePaths h)
        (UpTo.ite (parsePreprocInclude_same env _ _ _ _ line includePaths h) (.ok h))
    · refine (scanLine_same filename filename' lineno lineno' _ _ h).bind ?_
      rintro ⟨ls, t⟩ ⟨_, t'⟩ ⟨rfl, ht⟩
      cases ls with
      | none => exact .ok ht
      | some ls =>
          refine UpTo.ite ?_ (.ok ht)
          split
          · exact .ok ht
          · exact addInstn_same env filename filename' lineno lineno' _ _ ht

end Line

end BvgzVm
