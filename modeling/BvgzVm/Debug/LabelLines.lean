import BvgzVm.Debug.Lines

set_option autoImplicit false

/-! # The labels in the debug data

The visitor `mk_label_debug_data`, for any order of the labels. `LabelInv` says what it has built
so far: a line for every data label, the last label of every instruction, and the names of the
labels in the table.
-/

namespace BvgzVm

open CLib Fallible

/-! ## One label -/

theorem getElem?_concat_eq_some {α : Type} {l : List α} {a b : α} {j : Nat} :
    (l ++ [a])[j]? = some b ↔ l[j]? = some b ∨ j = l.length ∧ b = a := by
  rw [List.getElem?_append]
  split
  · next hj =>
      constructor
      · exact Or.inl
      · rintro (hb | ⟨rfl, -⟩)
        · exact hb
        · exact absurd hj (Nat.lt_irrefl _)
  · next hj =>
      have hnone : l[j]? = none := List.getElem?_eq_none (by omega)
      rw [hnone, List.getElem?_singleton]
      split
      · next hzero =>
          simp only [Option.some.injEq, reduceCtorEq, false_or]
          constructor
          · rintro rfl
            exact ⟨by omega, rfl⟩
          · rintro ⟨-, rfl⟩
            rfl
      · next hzero =>
          simp only [reduceCtorEq, false_or, false_iff, not_and]
          intro hlen
          omega

/-- The `label_ref` of the `n`-th label. -/
def labelRefOf (n : Nat) : Int32 := (UInt32.ofNat n).toInt32

/-- The entry is a code label at instruction `i`. -/
def IsCodeAt (e : CStr × Label) (i : Nat) : Prop := e.2.isMemRef = false ∧ e.2.offset.toNat = i

/-- The `j`-th entry is the last code label at instruction `i`. -/
def LastAt (done : List (CStr × Label)) (i j : Nat) : Prop :=
  (∃ e, done[j]? = some e ∧ IsCodeAt e i) ∧
    ∀ j' e, done[j']? = some e → IsCodeAt e i → j' ≤ j

/-- What the visitor has built when it has come to the labels of `done`. -/
structure LabelInv (start : DebugT) (filenames : List FileName) (done : List (CStr × Label))
    (data : DbgLabel) : Prop where
  names : data.filenames = filenames
  files : data.dbg.files = start.files
  table : ∃ more, data.dbg.stringTable = start.stringTable ++ more
  length : data.dbg.stringTable.length =
    start.stringTable.length + ((done.map Prod.fst).map strSize).sum
  table_lt : data.dbg.stringTable.length < 2 ^ 32
  small : ∀ e ∈ done, strSize e.1 < 2 ^ 31
  labels : StringsAt data.dbg.stringTable data.dbg.labels (done.map Prod.fst)
  memLines : ∀ ln, ln ∈ data.dbg.memLines ↔
    ∃ j e, done[j]? = some e ∧ e.2.isMemRef = true ∧ ln = memLineOf filenames e.2 j
  /-- the lines of the instructions keep everything but the label -/
  codeLines : data.dbg.codeLines.map (fun ln => { ln with labelRef := -1 }) = start.codeLines
  lastLabel : ∀ i ln, data.dbg.codeLines[i]? = some ln →
    (∃ j, LastAt done i j ∧ ln.labelRef = labelRefOf j) ∨
      ln.labelRef = -1 ∧ ∀ e ∈ done, ¬ IsCodeAt e i
  inside : ∀ e ∈ done, e.2.isMemRef = false → e.2.offset.toNat < start.codeLines.length
  freed : data.freed = true ↔ filenames ≠ [] ∧
    ∃ e ∈ done, e.2.isMemRef = true ∧ e.2.filename ∉ filenames

section Visitor

variable {start : DebugT} {filenames : List FileName} {done : List (CStr × Label)}
  {data data' : DbgLabel} {k : CStr} {label : Label}

theorem LabelInv.length_labels (h : LabelInv start filenames done data) :
    data.dbg.labels.length = done.length := by
  rw [List.Forall₂.length_eq h.labels, List.length_map]

theorem LabelInv.length_codeLines (h : LabelInv start filenames done data) :
    data.dbg.codeLines.length = start.codeLines.length := by
  rw [← h.codeLines, List.length_map]

/-- The strings of a label, behind its line. -/
theorem mkLabelDebugData_eq_ok : mkLabelDebugData data k label = .ok data' ↔
    ∃ mid table labels, mkLabelLine data label = .ok mid ∧
      addString k mid.dbg.stringTable mid.dbg.labels = .ok (table, labels) ∧
      data' = { mid with dbg := { mid.dbg with stringTable := table, labels } } := by
  unfold mkLabelDebugData
  constructor
  · intro h
    rcases bind_eq_ok.1 h with ⟨mid, hline, h⟩
    rcases bind_eq_ok.1 h with ⟨⟨table, labels⟩, hadd, h⟩
    exact ⟨mid, table, labels, hline, hadd, (Except.ok.inj h).symm⟩
  · rintro ⟨mid, table, labels, hline, hadd, rfl⟩
    rw [hline, ok_bind, hadd]
    rfl

/-- The line of a data label. -/
theorem mkLabelLine_mem (hmem : label.isMemRef = true) {mid : DbgLabel} :
    mkLabelLine data label = .ok mid ↔ data.freed = false ∧
      mid = { data with
        dbg := { data.dbg with
          memLines := data.dbg.memLines ++ [memLineOf data.filenames label data.dbg.labels.length] }
        freed := decide (data.filenames ≠ []) && decide (label.filename ∉ data.filenames) } := by
  unfold mkLabelLine
  rw [if_pos hmem]
  split
  · next hfreed => simp [hfreed]
  · next hfreed => simp [hfreed, eq_comm]

/-- The line of a code label, which is that of its instruction. -/
theorem mkLabelLine_code (hcode : label.isMemRef = false) {mid : DbgLabel} :
    mkLabelLine data label = .ok mid ↔
      ∃ line, data.dbg.codeLines[label.offset.toNat]? = some line ∧
      mid = { data with
        dbg := { data.dbg with
          codeLines := data.dbg.codeLines.set label.offset.toNat
            { line with labelRef := labelRefOf data.dbg.labels.length } } } := by
  unfold mkLabelLine
  rw [if_neg (by simp [hcode])]
  split
  · next hnone => simp [hnone]
  · next line hline =>
      rw [hline]
      constructor
      · intro h
        exact ⟨line, rfl, (Except.ok.inj h).symm⟩
      · rintro ⟨line', hline', rfl⟩
        rw [Option.some.inj hline']
        rfl

theorem labelInv_start (table_lt : start.stringTable.length < 2 ^ 32)
    (hlabels : start.labels = []) (hmemLines : start.memLines = [])
    (hcodeLines : ∀ ln ∈ start.codeLines, ln.labelRef = -1) :
    LabelInv start filenames [] ⟨start, filenames, false⟩ where
  names := rfl
  files := rfl
  table := ⟨[], (List.append_nil _).symm⟩
  length := by simp
  table_lt := table_lt
  small := by simp
  labels := by
    rw [hlabels]
    exact List.Forall₂.nil
  memLines := by
    intro ln
    simp [hmemLines]
  codeLines := by
    have hsame : ∀ ln ∈ start.codeLines, { ln with labelRef := -1 } = ln := by
      intro ln hln
      rw [← hcodeLines ln hln]
    rw [List.map_congr_left hsame, List.map_id']
  lastLabel := by
    intro i ln hln
    exact Or.inr ⟨hcodeLines ln (List.mem_of_getElem? hln), by simp⟩
  inside := by simp
  freed := by simp

/-- The fields that the line of a label leaves alone, and the strings. -/
theorem LabelInv.strings_step (h : LabelInv start filenames done data) (label : Label)
    {mid : DbgLabel}
    {table : List UInt8} {labels : List UInt32}
    (htable : mid.dbg.stringTable = data.dbg.stringTable)
    (hlabels : mid.dbg.labels = data.dbg.labels)
    (hadd : addString k mid.dbg.stringTable mid.dbg.labels = .ok (table, labels)) :
    (∃ more, table = start.stringTable ++ more) ∧
      table.length = start.stringTable.length +
        (((done ++ [(k, label)]).map Prod.fst).map strSize).sum ∧
      table.length < 2 ^ 32 ∧ (∀ e ∈ done ++ [(k, label)], strSize e.1 < 2 ^ 31) ∧
      StringsAt table labels ((done ++ [(k, label)]).map Prod.fst) := by
  rw [htable, hlabels] at hadd
  rcases h.labels.addString hadd with ⟨hstrings, hlength, hlt⟩
  rcases addString_eq_ok.1 hadd with ⟨⟨hsmall, -⟩, htab, -⟩
  rcases h.table with ⟨more, hmore⟩
  refine ⟨⟨more ++ (cBytes k ++ [0]), by rw [htab, hmore, List.append_assoc]⟩, ?_, hlt, ?_, ?_⟩
  · rw [hlength, h.length]
    simp
    omega
  · intro e he
    rcases List.mem_append.1 he with he | he
    · exact h.small e he
    · rw [List.mem_singleton.1 he]
      exact hsmall
  · rw [List.map_append]
    exact hstrings

/-- Another label comes behind the last one of every instruction but its own. -/
theorem lastAt_concat {e : CStr × Label} {i j : Nat} (h : LastAt done i j) (hne : ¬ IsCodeAt e i) :
    LastAt (done ++ [e]) i j := by
  rcases h with ⟨⟨e', he', hcode⟩, hlast⟩
  refine ⟨⟨e', getElem?_concat_eq_some.2 (Or.inl he'), hcode⟩, ?_⟩
  intro j' e'' hj' hcode'
  rcases getElem?_concat_eq_some.1 hj' with hj' | ⟨-, rfl⟩
  · exact hlast j' e'' hj' hcode'
  · exact absurd hcode' hne

/-- A label is the last one of its own instruction. -/
theorem lastAt_self {e : CStr × Label} {i : Nat} (he : IsCodeAt e i) :
    LastAt (done ++ [e]) i done.length := by
  refine ⟨⟨e, getElem?_concat_eq_some.2 (Or.inr ⟨rfl, rfl⟩), he⟩, ?_⟩
  intro j' e' hj' _
  have hlt := (List.getElem?_eq_some_iff.1 hj').1
  rw [List.length_append, List.length_singleton] at hlt
  omega

/-- The line of an instruction that the label does not stand at refers to what it did before. -/
theorem LabelInv.lastLabel_concat (h : LabelInv start filenames done data) {e : CStr × Label}
    {i : Nat} {ln : DbgLineAssoc} (hln : data.dbg.codeLines[i]? = some ln) (hne : ¬ IsCodeAt e i) :
    (∃ j, LastAt (done ++ [e]) i j ∧ ln.labelRef = labelRefOf j) ∨
      ln.labelRef = -1 ∧ ∀ e' ∈ done ++ [e], ¬ IsCodeAt e' i := by
  rcases h.lastLabel i ln hln with ⟨j, hlast, href⟩ | ⟨href, hnone⟩
  · exact Or.inl ⟨j, lastAt_concat hlast hne, href⟩
  · exact Or.inr ⟨href, List.forall_mem_append.2 ⟨hnone, List.forall_mem_singleton.2 hne⟩⟩

/-- The lines of the data labels, with one more label. -/
theorem LabelInv.memLines_concat (h : LabelInv start filenames done data) (e : CStr × Label)
    (ln : DbgLineAssoc) :
    (∃ j e', (done ++ [e])[j]? = some e' ∧ e'.2.isMemRef = true ∧
        ln = memLineOf filenames e'.2 j) ↔
      ln ∈ data.dbg.memLines ∨ e.2.isMemRef = true ∧ ln = memLineOf filenames e.2 done.length := by
  rw [h.memLines]
  constructor
  · rintro ⟨j, e', he', hmem, hln⟩
    rcases getElem?_concat_eq_some.1 he' with he' | ⟨rfl, rfl⟩
    · exact Or.inl ⟨j, e', he', hmem, hln⟩
    · exact Or.inr ⟨hmem, hln⟩
  · rintro (⟨j, e', he', hmem, hln⟩ | ⟨hmem, hln⟩)
    · exact ⟨j, e', getElem?_concat_eq_some.2 (Or.inl he'), hmem, hln⟩
    · exact ⟨done.length, e, getElem?_concat_eq_some.2 (Or.inr ⟨rfl, rfl⟩), hmem, hln⟩

/-- The names have been freed if a data label of another file has come. -/
theorem LabelInv.freed_concat (h : LabelInv start filenames done data) (e : CStr × Label) :
    (filenames ≠ [] ∧ ∃ e' ∈ done ++ [e], e'.2.isMemRef = true ∧ e'.2.filename ∉ filenames) ↔
      data.freed = true ∨
        filenames ≠ [] ∧ e.2.isMemRef = true ∧ e.2.filename ∉ filenames := by
  rw [h.freed, ← and_or_left]
  refine and_congr_right fun _ => ?_
  constructor
  · rintro ⟨e', he', hnew⟩
    rcases List.mem_append.1 he' with he' | he'
    · exact Or.inl ⟨e', he', hnew⟩
    · rw [List.mem_singleton.1 he'] at hnew
      exact Or.inr hnew
  · rintro (⟨e', he', hnew⟩ | hnew)
    · exact ⟨e', List.mem_append_left _ he', hnew⟩
    · exact ⟨e, List.mem_append_right _ (List.mem_singleton_self e), hnew⟩

/-- A data label: a new line, and no line of an instruction changes. -/
theorem LabelInv.step_mem (h : LabelInv start filenames done data) (hmem : label.isMemRef = true)
    {mid : DbgLabel} {table : List UInt8} {labels : List UInt32}
    (hline : mkLabelLine data label = .ok mid)
    (hadd : addString k mid.dbg.stringTable mid.dbg.labels = .ok (table, labels)) :
    LabelInv start filenames (done ++ [(k, label)])
      { mid with dbg := { mid.dbg with stringTable := table, labels } } := by
  rcases (mkLabelLine_mem hmem).1 hline with ⟨hfreed, rfl⟩
  rcases h.strings_step label rfl rfl hadd with ⟨htable, hlength, hlt, hsmall, hstrings⟩
  have hnot (i : Nat) : ¬ IsCodeAt (k, label) i := by
    rintro ⟨hcode, -⟩
    rw [hmem] at hcode
    cases hcode
  exact {
    names := h.names
    files := h.files
    table := htable
    length := hlength
    table_lt := hlt
    small := hsmall
    labels := hstrings
    memLines := by
      intro ln
      rw [List.mem_append, List.mem_singleton, h.length_labels, h.names, h.memLines_concat]
      exact or_congr_right (iff_and_self.2 fun _ => hmem)
    codeLines := h.codeLines
    lastLabel := fun i ln hln => h.lastLabel_concat hln (hnot i)
    inside := by
      refine List.forall_mem_append.2 ⟨h.inside, List.forall_mem_singleton.2 fun hcode => ?_⟩
      rw [hmem] at hcode
      cases hcode
    freed := by
      rw [h.freed_concat, hfreed, h.names]
      simp [hmem] }

/-- A code label: the line of its instruction refers to it from now on. -/
theorem LabelInv.step_code (h : LabelInv start filenames done data) (hcode : label.isMemRef = false)
    {mid : DbgLabel} {table : List UInt8} {labels : List UInt32}
    (hline : mkLabelLine data label = .ok mid)
    (hadd : addString k mid.dbg.stringTable mid.dbg.labels = .ok (table, labels)) :
    LabelInv start filenames (done ++ [(k, label)])
      { mid with dbg := { mid.dbg with stringTable := table, labels } } := by
  rcases (mkLabelLine_code hcode).1 hline with ⟨line, hget, rfl⟩
  rcases h.strings_step label rfl rfl hadd with ⟨htable, hlength, hlt, hsmall, hstrings⟩
  have hoff : label.offset.toNat < data.dbg.codeLines.length := (List.getElem?_eq_some_iff.1 hget).1
  have hnomem : ¬ label.isMemRef = true := by simp [hcode]
  exact {
    names := h.names
    files := h.files
    table := htable
    length := hlength
    table_lt := hlt
    small := hsmall
    labels := hstrings
    memLines := by
      intro ln
      rw [h.memLines_concat, or_iff_left (fun hnew => hnomem hnew.1)]
    codeLines := by
      rw [List.map_set, ← h.codeLines]
      apply List.ext_getElem?
      intro i
      rw [List.getElem?_set]
      split
      · next hi =>
          rw [← hi, List.getElem?_map, hget, List.length_map, if_pos hoff]
          rfl
      · rfl
    lastLabel := by
      intro i ln hln
      rw [List.getElem?_set] at hln
      split at hln
      · next hi =>
          subst hi
          obtain rfl := Option.some.inj hln
          exact Or.inl ⟨done.length, lastAt_self ⟨hcode, rfl⟩, by rw [h.length_labels]⟩
      · next hi => exact h.lastLabel_concat hln fun hat => hi hat.2
    inside := by
      refine List.forall_mem_append.2 ⟨h.inside, List.forall_mem_singleton.2 fun _ => ?_⟩
      rw [← h.length_codeLines]
      exact hoff
    freed := by rw [h.freed_concat, or_iff_left (fun hnew => hnomem hnew.2.1)] }

/-- **One label**: what the visitor does keeps the invariant. -/
theorem LabelInv.step (h : LabelInv start filenames done data)
    (hstep : mkLabelDebugData data k label = .ok data') :
    LabelInv start filenames (done ++ [(k, label)]) data' := by
  rcases mkLabelDebugData_eq_ok.1 hstep with ⟨mid, table, labels, hline, hadd, rfl⟩
  cases hkind : label.isMemRef with
  | true => exact h.step_mem hkind hline hadd
  | false => exact h.step_code hkind hline hadd

/-- **All labels**: the invariant holds behind the visitor. -/
theorem visitLabels_inv {es : List (CStr × Label)} (h : LabelInv start filenames done data)
    (hvisit : visitLabels es data = .ok data') :
    LabelInv start filenames (done ++ es) data' := by
  induction es generalizing done data with
  | nil =>
      obtain rfl := Except.ok.inj hvisit
      rwa [List.append_nil]
  | cons e es ih =>
      rcases bind_eq_ok.1 hvisit with ⟨mid, hstep, hrest⟩
      rw [List.append_cons]
      exact ih (h.step hstep) hrest

/-- **The visitor meets no fault** when the files of the data labels are known, the code labels
are followed by instructions, and the strings are in range. -/
theorem visitLabels_ok {es : List (CStr × Label)} (h : LabelInv start filenames done data)
    (hfiles : filenames = [] ∨
      ∀ e ∈ done ++ es, e.2.isMemRef = true → e.2.filename ∈ filenames)
    (hinside : ∀ e ∈ es, e.2.isMemRef = false → e.2.offset.toNat < start.codeLines.length)
    (hsmall : ∀ e ∈ es, strSize e.1 < 2 ^ 31)
    (hsum : data.dbg.stringTable.length + ((es.map Prod.fst).map strSize).sum < 2 ^ 32) :
    ∃ data', visitLabels es data = .ok data' := by
  induction es generalizing done data with
  | nil => exact ⟨data, rfl⟩
  | cons e es ih =>
      rcases e with ⟨k, label⟩
      simp only [List.map_cons, List.sum_cons] at hsum
      have hfreed : data.freed = false := by
        by_contra htrue
        rcases h.freed.1 (by simpa using htrue) with ⟨hne, e, he, hmem, hnew⟩
        rcases hfiles with hnil | hall
        · exact hne hnil
        · exact hnew (hall e (List.mem_append_left _ he) hmem)
      have hline : ∃ mid, mkLabelLine data label = .ok mid ∧
          mid.dbg.stringTable = data.dbg.stringTable := by
        by_cases hkind : label.isMemRef = true
        · exact ⟨_, (mkLabelLine_mem hkind).2 ⟨hfreed, rfl⟩, rfl⟩
        · have hcode : label.isMemRef = false := by simpa using hkind
          have hoff := hinside (k, label) List.mem_cons_self hcode
          rw [← h.length_codeLines] at hoff
          exact ⟨_, (mkLabelLine_code hcode).2 ⟨_, List.getElem?_eq_getElem hoff, rfl⟩, rfl⟩
      rcases hline with ⟨mid, hline, htable⟩
      have hlength := congrArg List.length htable
      have hadd : addString k mid.dbg.stringTable mid.dbg.labels = .ok (_, _) :=
        addString_eq_ok.2 ⟨⟨hsmall (k, label) List.mem_cons_self, by omega⟩, rfl, rfl⟩
      have hstep := mkLabelDebugData_eq_ok.2 ⟨mid, _, _, hline, hadd, rfl⟩
      have hnext := h.step hstep
      rw [visitLabels, hstep, ok_bind]
      apply ih hnext
      · rwa [List.append_cons] at hfiles
      · exact fun e he => hinside e (List.mem_cons_of_mem _ he)
      · exact fun e he => hsmall e (List.mem_cons_of_mem _ he)
      · show (mid.dbg.stringTable ++ (cBytes k ++ [0])).length + _ < _
        rw [List.length_append, htable]
        have hsize : (cBytes k ++ [0]).length = strSize k := by simp [strSize]
        omega

end Visitor

end BvgzVm
