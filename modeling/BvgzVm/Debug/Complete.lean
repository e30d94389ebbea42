import BvgzVm.Asm.LabelEncoding
import BvgzVm.Debug.LabelLines

set_option autoImplicit false

/-! # Complete debug data

The three passes of `mk_debug_data` together. They build well-formed data with all lines and all
labels exactly on the inputs of `PrsResult.DebugFit` (`debugData_complete_iff`).
-/

namespace BvgzVm

open CLib Fallible

variable {T : InstnTable}

/-! ## The whole -/

theorem toInt_labelRefOf {n : Nat} (h : n < 2 ^ 31) : (labelRefOf n).toInt = n := by
  have hn : (UInt32.ofNat n).toNat = n := UInt32.toNat_ofNat_of_lt' (by
    show n < 2 ^ 32
    omega)
  rw [labelRefOf, ← Int32.toInt_toBitVec, UInt32.toBitVec_toInt32, BitVec.toInt_eq_toNat_bmod,
    UInt32.toNat_toBitVec, hn]
  exact Int.bmod_eq_of_le (by omega) (by omega)

theorem cBytes_eq {s : CStr} (hs : IsCString s) :
    cBytes s = s.map (fun c => UInt8.ofNat c.toNat) := by
  apply List.takeWhile_eq_self_iff.2
  intro b hb
  rcases List.mem_map.1 hb with ⟨c, hc, rfl⟩
  rcases hs c hc with ⟨hpos, hlt⟩
  have hnat : (UInt8.ofNat c.toNat).toNat = c.toNat := UInt8.toNat_ofNat_of_lt' hlt
  rw [decide_eq_true_iff]
  intro hzero
  rw [hzero] at hnat
  exact absurd hnat.symm hpos.ne'

/-- The string at a `char*`. -/
def textOf (bytes : List UInt8) : CStr := bytes.map (fun b => Char.ofNat b.toNat)

theorem textOf_cBytes {s : CStr} (hs : IsCString s) : textOf (cBytes s) = s := by
  have hchar : ∀ c ∈ s, Char.ofNat (UInt8.ofNat c.toNat).toNat = c := by
    intro c hc
    have hnat : (UInt8.ofNat c.toNat).toNat = c.toNat := UInt8.toNat_ofNat_of_lt' (hs c hc).2
    rw [hnat, Char.ofNat_toNat]
  rw [textOf, cBytes_eq hs, List.map_map]
  calc
    s.map _ = s.map id := List.map_congr_left hchar
    _ = s := List.map_id s

/-- Different strings have different bytes. -/
theorem cBytes_inj {s t : CStr} (hs : IsCString s) (ht : IsCString t) (h : cBytes s = cBytes t) :
    s = t := by
  calc
    s = textOf (cBytes s) := (textOf_cBytes hs).symm
    _ = textOf (cBytes t) := by rw [h]
    _ = t := textOf_cBytes ht

section Whole

variable {p : PrsResult T} {order : VisitOrder p.labels} {qsort : Qsort} {dbg : DebugT}

/-- The lines of the instructions, in front of the other passes. -/
def emptyDebug (p : PrsResult T) : DebugT where
  files := []
  labels := []
  codeLines := p.instns.map (codeLineOf p.codeFiles)
  memLines := []
  stringTable := []

theorem mkDebugData_eq : mkDebugData qsort p order = (do
    let start ← addFiles p.codeFiles (emptyDebug p)
    let data ← visitLabels order.entries ⟨start, p.codeFiles, false⟩
    if data.freed then .error .freed
    else .ok { data.dbg with
      codeLines := qsort.sort compareDbgLines data.dbg.codeLines
      memLines := qsort.sort compareDbgLines data.dbg.memLines }) := by
  rw [mkDebugData, codeLinesOf_eq]
  rfl

/-- The data in front of the pass over the labels. -/
theorem addFiles_start {start : DebugT} (h : addFiles p.codeFiles (emptyDebug p) = .ok start) :
    start.codeLines = p.instns.map (codeLineOf p.codeFiles) ∧
      (∀ f ∈ p.codeFiles, f.depth = 0 ∧ strSize f.path < 2 ^ 31) ∧
      StringsAt start.stringTable start.files (p.codeFiles.map FileName.path) ∧
      start.stringTable.length = ((p.codeFiles.map FileName.path).map strSize).sum ∧
      LabelInv start p.codeFiles [] ⟨start, p.codeFiles, false⟩ := by
  have hnil : StringsAt [] [] [] := List.Forall₂.nil
  have hzero : (emptyDebug p).stringTable.length < 2 ^ 32 := by simp [emptyDebug]
  rcases (addFiles_eq_ok (emptyDebug p) hnil hzero).1 start h with
    ⟨hdepth, hsame, hstrings, hlength, hlt⟩
  have hlines : start.codeLines = p.instns.map (codeLineOf p.codeFiles) := by
    rw [hsame]
    rfl
  refine ⟨hlines, hdepth, hstrings, by simpa [emptyDebug] using hlength, ?_⟩
  apply labelInv_start hlt
  · rw [hsame]
    rfl
  · rw [hsame]
    rfl
  · rw [hlines]
    intro ln hln
    rcases List.mem_map.1 hln with ⟨i, -, rfl⟩
    rfl

/-- **What `mk_debug_data` returns** is what the three passes have built, sorted. -/
theorem mkDebugData_inv (h : mkDebugData qsort p order = .ok dbg) :
    ∃ start data, start.codeLines = p.instns.map (codeLineOf p.codeFiles) ∧
      (∀ f ∈ p.codeFiles, f.depth = 0 ∧ strSize f.path < 2 ^ 31) ∧
      StringsAt start.stringTable start.files (p.codeFiles.map FileName.path) ∧
      start.stringTable.length = ((p.codeFiles.map FileName.path).map strSize).sum ∧
      LabelInv start p.codeFiles order.entries data ∧ data.freed = false ∧
      dbg = { data.dbg with
        codeLines := qsort.sort compareDbgLines data.dbg.codeLines
        memLines := qsort.sort compareDbgLines data.dbg.memLines } := by
  rw [mkDebugData_eq] at h
  rcases bind_eq_ok.1 h with ⟨start, hfiles, h⟩
  rcases bind_eq_ok.1 h with ⟨data, hvisit, h⟩
  rcases addFiles_start hfiles with ⟨hlines, hdepth, hstrings, hlength, hstart⟩
  refine ⟨start, data, hlines, hdepth, hstrings, hlength, visitLabels_inv hstart hvisit, ?_⟩
  split at h
  · cases h
  · next hfreed => exact ⟨by simpa using hfreed, (Except.ok.inj h).symm⟩

/-- **`mk_debug_data` meets no fault** on inputs on which its passes agree. -/
theorem mkDebugData_ok (hfit : p.DebugFit order)
    (hfollowed : ∀ k label, p.labels.get k = some label → label.isMemRef = false →
      label.offset.toNat < p.nInstns) : ∃ dbg, mkDebugData qsort p order = .ok dbg := by
  have htable := hfit.table
  rw [PrsResult.debugStrings, List.map_append, List.sum_append] at htable
  have hnil : StringsAt [] [] [] := List.Forall₂.nil
  have hzero : (emptyDebug p).stringTable.length = 0 := rfl
  have hstart : ∃ start, addFiles p.codeFiles (emptyDebug p) = .ok start := by
    apply (addFiles_eq_ok (emptyDebug p) hnil (by omega)).2
    · intro f hf
      rcases (mem_codeFiles p f).1 hf with ⟨i, hi, rfl⟩
      refine ⟨hfit.mainFile i hi, hfit.strings _ ?_⟩
      exact List.mem_append_left _ (List.mem_map_of_mem hf)
    · omega
  rcases hstart with ⟨start, hstart⟩
  rcases addFiles_start hstart with ⟨hlines, -, -, hlength, hinv⟩
  have hknown : ∀ e ∈ order.entries, e.2.isMemRef = true → e.2.filename ∈ p.codeFiles := by
    intro e he hmem
    exact (mem_codeFiles p _).2 (hfit.dataFiles e.1 e.2 ((order.mem_iff e.1 e.2).1 he) hmem)
  have hvisit : ∃ data, visitLabels order.entries ⟨start, p.codeFiles, false⟩ = .ok data := by
    apply visitLabels_ok hinv (Or.inr hknown)
    · intro e he hcode
      have hlt := hfollowed e.1 e.2 ((order.mem_iff e.1 e.2).1 he) hcode
      rwa [hlines, List.length_map]
    · intro e he
      exact hfit.strings _ (List.mem_append_right _ (List.mem_map_of_mem he))
    · show start.stringTable.length + _ < _
      rw [hlength]
      exact htable
  rcases hvisit with ⟨data, hdata⟩
  have hfreed : ¬ data.freed = true := by
    intro htrue
    rcases (visitLabels_inv hinv hdata).freed.1 htrue with ⟨-, e, he, hmem, hnew⟩
    exact hnew (hknown e he hmem)
  rw [mkDebugData_eq, hstart, ok_bind, hdata, ok_bind, if_neg hfreed]
  exact ⟨_, rfl⟩

end Whole

/-! ## Complete data -/

theorem StringsAt.of_name {table : List UInt8} {offsets : List UInt32} {names : List CStr}
    (h : StringsAt table offsets names) {n : Nat} {s : CStr} (hs : names[n]? = some s) :
    ∃ off, offsets[n]? = some off ∧ cstrAt table off.toNat = some (cBytes s) := by
  induction h generalizing n with
  | nil => simp at hs
  | cons hhead _ ih =>
      cases n with
      | zero =>
          obtain rfl := Option.some.inj hs
          exact ⟨_, rfl, hhead⟩
      | succ n => exact ih hs

theorem StringsAt.of_offset {table : List UInt8} {offsets : List UInt32} {names : List CStr}
    (h : StringsAt table offsets names) {n : Nat} {off : UInt32} (hoff : offsets[n]? = some off) :
    ∃ s, names[n]? = some s ∧ cstrAt table off.toNat = some (cBytes s) := by
  have hn : n < names.length := by
    rw [← List.Forall₂.length_eq h]
    exact (List.getElem?_eq_some_iff.1 hoff).1
  have hs : names[n]? = some names[n] := List.getElem?_eq_getElem hn
  rcases h.of_name hs with ⟨off', hoff', hstr⟩
  rw [hoff] at hoff'
  obtain rfl := Option.some.inj hoff'
  exact ⟨_, hs, hstr⟩

/-- Sorting the lines changes nothing. -/
theorem DebugT.Complete.perm {p : PrsResult T} {dbg dbg' : DebugT} (h : dbg.Complete p)
    (hfiles : dbg'.files = dbg.files) (hlabels : dbg'.labels = dbg.labels)
    (htable : dbg'.stringTable = dbg.stringTable) (hcode : dbg'.codeLines.Perm dbg.codeLines)
    (hmem : dbg'.memLines.Perm dbg.memLines) : dbg'.Complete p := by
  have hlines (ln : DbgLineAssoc) (hln : ln ∈ dbg'.codeLines ++ dbg'.memLines) :
      ln ∈ dbg.codeLines ++ dbg.memLines := (hcode.append hmem).mem_iff.1 hln
  have hfileName : dbg'.fileName = dbg.fileName := by
    funext fileno
    rw [DebugT.fileName, DebugT.fileName, hfiles, htable]
  have hlabelName : dbg'.labelName = dbg.labelName := by
    funext labelRef
    rw [DebugT.labelName, DebugT.labelName, hlabels, htable]
  refine ⟨?_, ?_, ?_, ?_, ?_⟩
  · intro ln hln
    rw [hfiles]
    exact h.fileno_lt ln (hlines ln hln)
  · intro ln hln
    rw [hlabels]
    exact h.labelRef_lt ln (hlines ln hln)
  · rw [hfiles, hlabels, htable]
    exact h.offset_lt
  · rw [hfileName]
    exact (hcode.map _).trans h.codeLines
  · intro k label hget
    rcases h.labels k label hget with ⟨ln, hln, haddress, hname⟩
    refine ⟨ln, ?_, haddress, by rw [hlabelName]; exact hname⟩
    split at hln
    · next hkind =>
        rw [if_pos hkind]
        exact hmem.mem_iff.2 hln
    · next hkind =>
        rw [if_neg hkind]
        exact hcode.mem_iff.2 hln

section Complete

variable {p : PrsResult T} {order : VisitOrder p.labels} {start : DebugT} {data : DbgLabel}

/-- The index of a file, as a number of a line. -/
theorem toNat_fileno (hn : p.nInstns < 2 ^ 32) (f : FileName) :
    (UInt32.ofNat (p.codeFiles.idxOf f)).toNat = p.codeFiles.idxOf f := by
  apply UInt32.toNat_ofNat_of_lt'
  have hle : p.codeFiles.idxOf f ≤ p.codeFiles.length := List.idxOf_le_length
  have hfiles := length_codeFiles_le p
  show _ < 2 ^ 32
  omega

/-- The entry of a label has an index. -/
theorem entry_index {k : CStr} {label : Label}
    (h : p.labels.get k = some label) : ∃ j : Nat, order.entries[j]? = some (k, label) :=
  List.mem_iff_getElem?.1 ((order.mem_iff k label).2 h)

/-- No two entries have the same name. -/
theorem entry_unique {j j' : Nat} {e e' : CStr × Label}
    (he : order.entries[j]? = some e) (he' : order.entries[j']? = some e') (hname : e.1 = e'.1) :
    j = j' := by
  have hj := congrArg (Option.map Prod.fst) he
  have hj' := congrArg (Option.map Prod.fst) he'
  rw [← List.getElem?_map] at hj hj'
  have hlt : j < (order.entries.map Prod.fst).length := (List.getElem?_eq_some_iff.1 hj).1
  apply (List.getElem?_inj hlt order.nodup).1
  rw [hj, hj', Option.map_some, Option.map_some, hname]

variable (hinv : LabelInv start p.codeFiles order.entries data)

include hinv

theorem fileStrings_data (hstrings : StringsAt start.stringTable start.files
      (p.codeFiles.map FileName.path)) :
    StringsAt data.dbg.stringTable data.dbg.files (p.codeFiles.map FileName.path) := by
  rcases hinv.table with ⟨more, hmore⟩
  rw [hmore, hinv.files]
  exact hstrings.extend more

/-- The strings of the labels are those of the entries. -/
theorem labelName_eq_some {r : Int32} {s : List UInt8} (h : data.dbg.labelName r = some s) :
    ∃ (j : Nat) (e : CStr × Label), r.toInt = (j : Int) ∧ order.entries[j]? = some e ∧
      cBytes e.1 = s := by
  unfold DebugT.labelName at h
  split at h
  · cases h
  · next hneg =>
      rcases Option.bind_eq_some_iff.1 h with ⟨off, hoff, hstr⟩
      rcases hinv.labels.of_offset hoff with ⟨k, hk, hstr'⟩
      rw [List.getElem?_map] at hk
      rcases Option.map_eq_some_iff.1 hk with ⟨e, he, rfl⟩
      refine ⟨_, e, by omega, he, ?_⟩
      rw [hstr] at hstr'
      exact (Option.some.inj hstr').symm

theorem labelName_labelRefOf {j : Nat} {e : CStr × Label} (hj : j < 2 ^ 31)
    (he : order.entries[j]? = some e) :
    data.dbg.labelName (labelRefOf j) = some (cBytes e.1) := by
  have hname : (order.entries.map Prod.fst)[j]? = some e.1 := by
    rw [List.getElem?_map, he]
    rfl
  rcases hinv.labels.of_name hname with ⟨off, hoff, hstr⟩
  unfold DebugT.labelName
  rw [toInt_labelRefOf hj, if_neg (by omega), Int.toNat_natCast, hoff]
  exact hstr

/-- The line of an instruction, with the label that came last. -/
theorem codeLine_getElem? (hlines : start.codeLines = p.instns.map (codeLineOf p.codeFiles))
    {i : Nat} {ln : DbgLineAssoc} (hln : data.dbg.codeLines[i]? = some ln) :
    ∃ instn, p.instns[i]? = some instn ∧
      ln = { codeLineOf p.codeFiles instn with labelRef := ln.labelRef } := by
  have hget := congrArg (fun l => l[i]?) hinv.codeLines
  simp only [List.getElem?_map, hln, hlines, Option.map_some] at hget
  rcases Option.map_eq_some_iff.1 hget.symm with ⟨instn, hinstn, heq⟩
  refine ⟨instn, hinstn, ?_⟩
  rw [heq]

section Fit

variable (hlines : start.codeLines = p.instns.map (codeLineOf p.codeFiles))
  (hstrings : StringsAt start.stringTable start.files (p.codeFiles.map FileName.path))
  (hn : p.nInstns < 2 ^ 32)

include hlines hstrings hn in
/-- The files of the lines are in the table. -/
theorem fileno_lt_of_fit (hfit : p.DebugFit order) :
    ∀ ln ∈ data.dbg.codeLines ++ data.dbg.memLines, ln.fileno.toNat < data.dbg.files.length := by
  have hlen : data.dbg.files.length = p.codeFiles.length := by
    rw [List.Forall₂.length_eq (fileStrings_data hinv hstrings), List.length_map]
  have hknown {f : FileName} (hf : f ∈ p.codeFiles) :
      (UInt32.ofNat (p.codeFiles.idxOf f)).toNat < data.dbg.files.length := by
    rw [toNat_fileno hn, hlen]
    exact List.idxOf_lt_length_iff.2 hf
  intro ln hln
  rcases List.mem_append.1 hln with hln | hln
  · rcases List.mem_iff_getElem?.1 hln with ⟨i, hi⟩
    rcases codeLine_getElem? hinv hlines hi with ⟨instn, hinstn, heq⟩
    rw [heq]
    exact hknown ((mem_codeFiles p _).2 ⟨instn, List.mem_of_getElem? hinstn, rfl⟩)
  · rcases (hinv.memLines ln).1 hln with ⟨j, e, he, hmem, rfl⟩
    apply hknown
    rw [mem_codeFiles]
    exact hfit.dataFiles e.1 e.2 ((order.mem_iff _ _).1 (List.mem_of_getElem? he)) hmem

/-- The labels of the lines are in the table. -/
theorem labelRef_lt_of_fit (hfit : p.DebugFit order) :
    ∀ ln ∈ data.dbg.codeLines ++ data.dbg.memLines,
      ln.labelRef = -1 ∨ 0 ≤ ln.labelRef.toInt ∧ ln.labelRef.toInt < data.dbg.labels.length := by
  have href {j : Nat} {e : CStr × Label} (he : order.entries[j]? = some e) :
      0 ≤ (labelRefOf j).toInt ∧ (labelRefOf j).toInt < data.dbg.labels.length := by
    have hj : j < order.entries.length := (List.getElem?_eq_some_iff.1 he).1
    have hcount := hfit.count
    rw [toInt_labelRefOf (by omega), hinv.length_labels]
    omega
  intro ln hln
  rcases List.mem_append.1 hln with hln | hln
  · rcases List.mem_iff_getElem?.1 hln with ⟨i, hi⟩
    rcases hinv.lastLabel i ln hi with ⟨j, ⟨⟨e, he, -⟩, -⟩, heq⟩ | ⟨heq, -⟩
    · rw [heq]
      exact Or.inr (href he)
    · exact Or.inl heq
  · rcases (hinv.memLines ln).1 hln with ⟨j, e, he, -, rfl⟩
    exact Or.inr (href he)

include hstrings in
/-- Every string ends in the table. -/
theorem offset_lt_of_strings :
    ∀ off ∈ data.dbg.files ++ data.dbg.labels, off.toNat < data.dbg.stringTable.length := by
  intro off hoff
  rcases List.mem_append.1 hoff with hoff | hoff
  · rcases List.mem_iff_getElem?.1 hoff with ⟨n, hn'⟩
    rcases (fileStrings_data hinv hstrings).of_offset hn' with ⟨s, -, hstr⟩
    exact cstrAt_lt hstr
  · rcases List.mem_iff_getElem?.1 hoff with ⟨n, hn'⟩
    rcases hinv.labels.of_offset hn' with ⟨s, -, hstr⟩
    exact cstrAt_lt hstr

include hstrings hn in
/-- The name of the file of an instruction. -/
theorem fileName_of_instn {i : PrsInstn T} (hi : i ∈ p.instns) :
    data.dbg.fileName (UInt32.ofNat (p.codeFiles.idxOf i.filename)) =
      some (cBytes i.filename.path) := by
  have hmem : i.filename ∈ p.codeFiles := (mem_codeFiles p _).2 ⟨i, hi, rfl⟩
  have hname : (p.codeFiles.map FileName.path)[p.codeFiles.idxOf i.filename]? =
      some i.filename.path := by
    rw [List.getElem?_map, List.getElem?_idxOf hmem]
    rfl
  rcases (fileStrings_data hinv hstrings).of_name hname with ⟨off, hoff, hstr⟩
  rw [DebugT.fileName, toNat_fileno hn, hoff]
  exact hstr

include hlines hstrings hn in
/-- There is a line for each instruction; its label does not matter. -/
theorem codeLines_of_inv :
    (data.dbg.codeLines.map fun ln => (ln.address, data.dbg.fileName ln.fileno, ln.lineno)).Perm
      (p.instns.map fun i => (i.memOffset, some (cBytes i.filename.path), i.lineno)) := by
  have herase : (data.dbg.codeLines.map fun ln =>
      (ln.address, data.dbg.fileName ln.fileno, ln.lineno)) =
      start.codeLines.map fun ln => (ln.address, data.dbg.fileName ln.fileno, ln.lineno) := by
    rw [← hinv.codeLines, List.map_map]
    rfl
  rw [herase, hlines, List.map_map]
  apply List.Perm.of_eq
  apply List.map_congr_left
  intro i hi
  simp only [Function.comp_apply, codeLineOf, fileName_of_instn hinv hstrings hn hi]

include hlines in
/-- A code label is found at its instruction: the last label there is the only one. -/
theorem codeLabel_of_fit (hfit : p.DebugFit order) {k : CStr} {label : Label} {j : Nat}
    (hget : p.labels.get k = some label) (hj : order.entries[j]? = some (k, label))
    (hcode : label.isMemRef = false) :
    ∃ ln ∈ data.dbg.codeLines, some ln.address = p.labelAddress label ∧
      data.dbg.labelName ln.labelRef = some (cBytes k) := by
  have hinside := hinv.inside _ (List.mem_of_getElem? hj) hcode
  rw [← hinv.length_codeLines] at hinside
  have hln := List.getElem?_eq_getElem hinside
  generalize data.dbg.codeLines[(k, label).2.offset.toNat] = ln at hln
  refine ⟨ln, List.mem_of_getElem? hln, ?_, ?_⟩
  · rcases codeLine_getElem? hinv hlines hln with ⟨instn, hinstn, heq⟩
    rw [PrsResult.labelAddress, if_neg (by simp [hcode]), hinstn, heq]
    rfl
  · rcases hinv.lastLabel _ _ hln with ⟨j', ⟨⟨e, he, hcode', hoff⟩, -⟩, href⟩ | ⟨-, hnone⟩
    · have hsame : e.1 = k := by
        apply hfit.oneLabel e.1 k e.2 label _ hget hcode' hcode (UInt32.toNat_inj.1 hoff)
        exact (order.mem_iff _ _).1 (List.mem_of_getElem? he)
      have hj' : j' < order.entries.length := (List.getElem?_eq_some_iff.1 he).1
      have hcount := hfit.count
      rw [href, ← hsame]
      exact labelName_labelRefOf hinv (by omega) he
    · exact absurd ⟨hcode, rfl⟩ (hnone _ (List.mem_of_getElem? hj))

/-- A data label has a line of its own. -/
theorem memLabel_of_fit (hfit : p.DebugFit order) {k : CStr} {label : Label} {j : Nat}
    (hj : order.entries[j]? = some (k, label)) (hmem : label.isMemRef = true) :
    ∃ ln ∈ data.dbg.memLines, some ln.address = p.labelAddress label ∧
      data.dbg.labelName ln.labelRef = some (cBytes k) := by
  have hlt : j < order.entries.length := (List.getElem?_eq_some_iff.1 hj).1
  have hcount := hfit.count
  refine ⟨memLineOf p.codeFiles label j, (hinv.memLines _).2 ⟨j, _, hj, hmem, rfl⟩, ?_, ?_⟩
  · rw [PrsResult.labelAddress, if_pos hmem]
    rfl
  · exact labelName_labelRefOf hinv (by omega) hj

include hlines hstrings hn in
/-- **The data is complete** where the passes agree. -/
theorem complete_of_fit (hfit : p.DebugFit order) : data.dbg.Complete p where
  fileno_lt := fileno_lt_of_fit hinv hlines hstrings hn hfit
  labelRef_lt := labelRef_lt_of_fit hinv hfit
  offset_lt := offset_lt_of_strings hinv hstrings
  codeLines := codeLines_of_inv hinv hlines hstrings hn
  labels := by
    intro k label hget
    rcases entry_index hget with ⟨j, hj⟩
    by_cases hkind : label.isMemRef = true
    · rw [if_pos hkind]
      exact memLabel_of_fit hinv hfit hj hkind
    · rw [if_neg hkind]
      exact codeLabel_of_fit hinv hlines hfit hget hj (by simpa using hkind)

end Fit

/-- A label that is found in the lines has been numbered there. -/
theorem labelRef_of_complete (hcomplete : data.dbg.Complete p)
    (hnames : ∀ k label, p.labels.get k = some label → IsCString k) {j : Nat} {k : CStr}
    {label : Label} (hj : order.entries[j]? = some (k, label)) :
    ∃ ln ∈ if label.isMemRef then data.dbg.memLines else data.dbg.codeLines,
      ln.labelRef.toInt = j := by
  have hget : p.labels.get k = some label := (order.mem_iff _ _).1 (List.mem_of_getElem? hj)
  rcases hcomplete.labels k label hget with ⟨ln, hln, -, hname⟩
  refine ⟨ln, hln, ?_⟩
  rcases labelName_eq_some hinv hname with ⟨j', e, href, he, hbytes⟩
  have hget' : p.labels.get e.1 = some e.2 := (order.mem_iff _ _).1 (List.mem_of_getElem? he)
  have hsame : e.1 = k := cBytes_inj (hnames _ _ hget') (hnames _ _ hget) hbytes
  rw [href, entry_unique he hj hsame]

/-- **The passes agree** where the data is complete. -/
theorem fit_of_complete (hdepth : ∀ f ∈ p.codeFiles, f.depth = 0 ∧ strSize f.path < 2 ^ 31)
    (hstrings : StringsAt start.stringTable start.files (p.codeFiles.map FileName.path))
    (hlength : start.stringTable.length = ((p.codeFiles.map FileName.path).map strSize).sum)
    (hn : p.nInstns < 2 ^ 32) (hnames : ∀ k label, p.labels.get k = some label → IsCString k)
    (hcomplete : data.dbg.Complete p) : p.DebugFit order := by
  have hcount : order.entries.length ≤ 2 ^ 31 := by
    by_contra hmany
    have hj : 2 ^ 31 < order.entries.length := by omega
    rcases labelRef_of_complete hinv hcomplete hnames (List.getElem?_eq_getElem hj) with
      ⟨ln, -, href⟩
    have hmax := ln.labelRef.toInt_lt
    omega
  refine ⟨?_, ?_, ?_, ?_, ?_, hcount⟩
  · intro i hi
    exact (hdepth _ ((mem_codeFiles p _).2 ⟨i, hi, rfl⟩)).1
  · -- the line of a data label has the index of its file
    intro k label hget hmem
    rcases entry_index hget with ⟨j, hj⟩
    have hln : memLineOf p.codeFiles label j ∈ data.dbg.memLines :=
      (hinv.memLines _).2 ⟨j, _, hj, hmem, rfl⟩
    have hlt := hcomplete.fileno_lt _ (List.mem_append_right _ hln)
    rw [memLineOf, toNat_fileno hn, List.Forall₂.length_eq (fileStrings_data hinv hstrings),
      List.length_map] at hlt
    exact (mem_codeFiles p _).1 (List.idxOf_lt_length_iff.1 hlt)
  · -- a label that is followed by another one at its instruction is in no line
    have hlast {j j' : Nat} {e e' : CStr × Label} (hj : order.entries[j]? = some e)
        (hj' : order.entries[j']? = some e') (hcode : e.2.isMemRef = false)
        (hcode' : e'.2.isMemRef = false) (hoff : e'.2.offset = e.2.offset) : j' ≤ j := by
      rcases labelRef_of_complete hinv hcomplete hnames hj with ⟨ln, hln, href⟩
      rw [hcode] at hln
      rcases List.mem_iff_getElem?.1 hln with ⟨i, hi⟩
      rcases hinv.lastLabel i ln hi with ⟨m, ⟨⟨e'', hm, hat⟩, hmax⟩, heq⟩ | ⟨heq, -⟩
      · have hmlt : m < order.entries.length := (List.getElem?_eq_some_iff.1 hm).1
        rw [heq, toInt_labelRefOf (by omega)] at href
        obtain rfl : m = j := by omega
        rw [hj] at hm
        obtain rfl := Option.some.inj hm
        exact hmax j' e' hj' ⟨hcode', by rw [hoff]; exact hat.2⟩
      · rw [heq] at href
        have hneg : (-1 : Int32).toInt = -1 := by decide
        omega
    intro k k' label label' hget hget' hcode hcode' hoff
    rcases entry_index hget with ⟨j, hj⟩
    rcases entry_index hget' with ⟨j', hj'⟩
    have hle := hlast hj hj' hcode hcode' hoff.symm
    have hge := hlast hj' hj hcode' hcode hoff
    obtain rfl : j = j' := by omega
    rw [hj] at hj'
    exact congrArg Prod.fst (Option.some.inj hj')
  · intro s hs
    rcases List.mem_append.1 hs with hs | hs
    · rcases List.mem_map.1 hs with ⟨f, hf, rfl⟩
      exact (hdepth f hf).2
    · rcases List.mem_map.1 hs with ⟨e, he, rfl⟩
      exact hinv.small e he
  · rw [PrsResult.debugStrings, List.map_append, List.sum_append, ← hlength, ← hinv.length]
    exact hinv.table_lt

end Complete

section Ends

variable (qsort : Qsort) (p : PrsResult T) (order : VisitOrder p.labels)
  (hn : p.nInstns < 2 ^ 32)

include hn

theorem debugFit_of_complete
    (hnames : ∀ k label, p.labels.get k = some label → IsCString k) {dbg : DebugT}
    (hdbg : mkDebugData qsort p order = .ok dbg) (hcomplete : dbg.Complete p) :
    p.DebugFit order := by
  rcases mkDebugData_inv hdbg with ⟨start, data, -, hdepth, hstrings, hlength, hinv, -, rfl⟩
  apply fit_of_complete hinv hdepth hstrings hlength hn hnames
  exact hcomplete.perm rfl rfl rfl (qsort.perm _ _).symm (qsort.perm _ _).symm

theorem complete_of_debugFit
    (hfollowed : ∀ k label, p.labels.get k = some label → label.isMemRef = false →
      label.offset.toNat < p.nInstns) (hfit : p.DebugFit order) :
    ∃ dbg, mkDebugData qsort p order = .ok dbg ∧ dbg.Complete p := by
  have hok : ∃ dbg, mkDebugData qsort p order = .ok dbg := mkDebugData_ok hfit hfollowed
  rcases hok with ⟨dbg, hdbg⟩
  refine ⟨dbg, hdbg, ?_⟩
  rcases mkDebugData_inv hdbg with ⟨start, data, hlines, -, hstrings, -, hinv, -, rfl⟩
  have hcomplete := complete_of_fit hinv hlines hstrings hn hfit
  exact hcomplete.perm rfl rfl rfl (qsort.perm _ _) (qsort.perm _ _)

end Ends

/-- **The debug data is complete** exactly when all instructions are in the main file, each data
label is in a file with instructions, no instruction has two labels, and the strings are in
range. -/
theorem debugData_complete_iff (qsort : Qsort) (p : PrsResult T) (order : VisitOrder p.labels)
    (hn : p.nInstns < 2 ^ 32) (hnames : ∀ k label, p.labels.get k = some label → IsCString k)
    (hfollowed : ∀ k label, p.labels.get k = some label → label.isMemRef = false →
      label.offset.toNat < p.nInstns) :
    (∃ dbg, mkDebugData qsort p order = .ok dbg ∧ dbg.Complete p) ↔ p.DebugFit order := by
  constructor
  · rintro ⟨dbg, hdbg, hcomplete⟩
    exact debugFit_of_complete qsort p order hn hnames hdbg hcomplete
  · exact complete_of_debugFit qsort p order hn hfollowed

/-! ## Sources -/

/-- The order of the list, for a table that is listed without repetition. -/
def listOrder (m : LabelMap) (h : (m.map Prod.fst).Nodup) : VisitOrder m where
  entries := m
  nodup := h
  mem_iff := by
    intro k v
    refine ⟨?_, LabelMap.mem_of_get⟩
    intro hmem
    induction m with
    | nil => cases hmem
    | cons e t ih =>
        rw [List.map_cons, List.nodup_cons] at h
        unfold LabelMap.get
        rw [List.lookup_cons]
        rcases List.mem_cons.1 hmem with rfl | hmem
        · rw [beq_self_eq_true]
        · have hne : k ≠ e.1 := by
            intro heq
            exact h.1 (List.mem_map.2 ⟨(k, v), hmem, heq⟩)
          rw [beq_eq_false_iff_ne.2 hne]
          exact ih h.2 hmem

/-- The only label of `jumpOver` is at its last instruction. -/
theorem jumpOver_labels {k : CStr} {label : Label} (h : jumpOver.labels.get k = some label) :
    k = ['e'] ∧ label = ⟨⟨0, []⟩, 3, 2, false⟩ := by
  have hmem := LabelMap.mem_of_get h
  exact Prod.mk.inj (List.mem_singleton.1 hmem)

/-- A sorting routine that is stable. -/
def mergeQsort : Qsort where
  sort compare l := l.mergeSort (fun a b => compare a b ≤ 0)
  perm _ l := List.mergeSort_perm l _

theorem debugData_complete_jump :
    ∃ dbg, mkDebugData mergeQsort jumpOver (listOrder jumpOver.labels (by decide)) = .ok dbg ∧
      dbg.Complete jumpOver := by
  apply (debugData_complete_iff mergeQsort jumpOver _ (by decide) _ _).2
  · refine ⟨by decide +kernel, ?_, ?_, by decide +kernel, by decide +kernel, by decide⟩
    · intro k label h hmem
      rw [(jumpOver_labels h).2] at hmem
      cases hmem
    · intro k k' label label' h h' _ _ _
      rw [(jumpOver_labels h).1, (jumpOver_labels h').1]
  · intro k label h
    rw [(jumpOver_labels h).1]
    decide
  · intro k label h _
    rw [(jumpOver_labels h).2]
    decide

/-- `nop` with two labels. -/
def twoLabels : PrsResult stableTable where
  nFiles := 1
  reports := []
  instns := [(srcNop 3).setOffset 0]
  memory := []
  memsz := 0
  memAlloc := 0
  labels := [(['b'], ⟨⟨0, []⟩, 2, 0, false⟩), (['a'], ⟨⟨0, []⟩, 1, 0, false⟩)]
  labelRefs := []

/-- Two labels at one instruction: only one of them is in the debug data. -/
theorem debugData_twoLabels :
    (∃ p, parseAsm (singleFile "a:\nb:\nnop\n".toList) 1 false [] [] = .ok (some p) ∧
      p.errors = 0 ∧ (parseToBytecode (fun _ => 0) p true).map Bytecode.parse = .ok twoLabels) ∧
    (∀ k label, twoLabels.labels.get k = some label → label.offset.toNat < twoLabels.nInstns) ∧
    ∀ (qsort : Qsort) (order : VisitOrder twoLabels.labels),
      ¬ ∃ dbg, mkDebugData qsort twoLabels order = .ok dbg ∧ dbg.Complete twoLabels := by
  have hlabels : ∀ e ∈ twoLabels.labels, IsCString e.1 ∧
      e.2.offset.toNat < twoLabels.nInstns := by
    decide +kernel
  refine ⟨?_, ?_, ?_⟩
  · refine ⟨{ twoLabels with instns := twoLabels.instns.map (PrsInstn.setOffset · noOffset) },
      by decide +kernel, rfl, by decide +kernel⟩
  · intro k label h
    exact (hlabels _ (LabelMap.mem_of_get h)).2
  · rintro qsort order ⟨dbg, hdbg, hcomplete⟩
    have hfit : twoLabels.DebugFit order := by
      apply debugFit_of_complete qsort twoLabels order (by decide) _ hdbg hcomplete
      intro k label h
      exact (hlabels _ (LabelMap.mem_of_get h)).1
    have hsame := hfit.oneLabel ['a'] ['b'] _ _ rfl rfl rfl rfl rfl
    exact absurd hsame (by decide)

end BvgzVm
