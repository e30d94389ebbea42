import BvgzVm.Asm.ParserInv

set_option autoImplicit false

/-! # The cells for labels

A `&label` directive leaves a cell of four or eight bytes in the memory area and a note of it in
`label_refs`. Directives only make the allocation larger, and nothing else in the parser touches it
(`SameData`), so every cell that is noted stays inside the allocation (`parseAsm_cells`).
-/

namespace BvgzVm

open Bytes CLib Fallible

variable {T : InstnTable}

/-- The bytes that `resolve_data_label_refs` stores in a cell. -/
def LabelRef.width (ref : LabelRef) : ℕ := if ref.size = 4 then 4 else 8

/-- The cell is inside the allocation. -/
def LabelRef.Inside (ref : LabelRef) (d : DataArea) : Prop :=
  ref.writeOffset.toNat + ref.width ≤ d.memory.length

/-- **The invariant**: all cells are inside. -/
def CellsInside (p : PrsResult T) : Prop := ∀ ref ∈ p.labelRefs, ref.Inside p.toDataArea

/-! ## What does not touch the data -/

/-- `s'` has the memory area and the cells of `s`. -/
structure SameData (s s' : Prs T) : Prop where
  area : s'.result.toDataArea = s.result.toDataArea
  cells : s'.result.labelRefs = s.result.labelRefs

theorem SameData.refl (s : Prs T) : SameData s s := ⟨rfl, rfl⟩

theorem SameData.trans {s s' s'' : Prs T} (h : SameData s s') (h' : SameData s' s'') :
    SameData s s'' := ⟨h'.area.trans h.area, h'.cells.trans h.cells⟩

theorem SameData.cellsInside {s s' : Prs T} (h : SameData s s') (hs : CellsInside s.result) :
    CellsInside s'.result := by
  intro ref href
  rw [h.area]
  rw [h.cells] at href
  exact hs ref href

section Operands

variable {env : PrsEnv} {filename : FileName} {lineno : UInt32} {s s' : Prs T}

theorem sameData_error (s : Prs T) (filename : FileName) (lineno : UInt32) (message : CStr) :
    SameData s (s.error filename lineno message) := ⟨rfl, rfl⟩

theorem sameData_warn (s : Prs T) (filename : FileName) (lineno : UInt32) (message : CStr) :
    SameData s (s.warn filename lineno message) := ⟨rfl, rfl⟩

theorem sameData_setErange (s : Prs T) (r : Strto) : SameData s (s.setErange r) := ⟨rfl, rfl⟩

theorem sameData_addLabel (s : Prs T) (filename : FileName) (lineno : UInt32) (label : CStr)
    (offset : UInt32) (isMemRef : Bool) :
    SameData s (s.addLabel filename lineno label offset isMemRef) := ⟨rfl, rfl⟩

theorem sameData_ite {c : Prop} [Decidable c] {t t' : Prs T} (h : SameData s t)
    (h' : SameData s t') : SameData s (if c then t else t') := by
  by_cases hc : c
  · rwa [if_pos hc]
  · rwa [if_neg hc]

theorem finishArg_sameData {token p : CStr} {argIndex : ℕ} {negative reference immRef : Bool}
    {r : Strto} {a : Option PrsArg}
    (h : finishArg filename lineno token argIndex negative reference immRef p r s = (a, s')) :
    SameData s s' := by
  unfold finishArg at h
  simp only at h
  split at h
  · obtain ⟨-, rfl⟩ := Prod.mk.inj h
    exact sameData_error s _ _ _
  · generalize hwarn : (if negative = false ∧ int64MaxLess1 < r.value then _ else s) = s₁ at h
    have hsame : SameData s s₁ := by
      rw [← hwarn]
      exact sameData_ite ⟨rfl, rfl⟩ (SameData.refl s)
    split at h
    · split at h
      · obtain ⟨-, rfl⟩ := Prod.mk.inj h
        exact hsame.trans (sameData_error s₁ _ _ _)
      · obtain ⟨-, rfl⟩ := Prod.mk.inj h
        exact hsame.trans ⟨rfl, rfl⟩
    · split at h
      · obtain ⟨-, rfl⟩ := Prod.mk.inj h
        exact hsame.trans (sameData_error s₁ _ _ _)
      · obtain ⟨-, rfl⟩ := Prod.mk.inj h
        exact hsame

theorem parseArg_sameData {token : CStr} {argIndex : ℕ} {a : Option PrsArg}
    (h : parseArg filename lineno token argIndex s = (a, s')) : SameData s s' := by
  exact (sameData_setErange s _).trans (finishArg_sameData h)

theorem destroyInstn_sameData {argCount : ℕ} {parsed : List PrsArg}
    (h : destroyInstn env argCount parsed s = .ok s') : SameData s s' := by
  unfold destroyInstn at h
  split at h
  · cases h
  · obtain rfl := Except.ok.inj h
    exact ⟨rfl, rfl⟩

theorem parseArgs_sameData {fmt : InstnDef Op} {name : CStr} {parsed : List PrsArg}
    {tokens : List CStr} {as : Option {as : List PrsArg // as.length = parsed.length + tokens.length}}
    (h : parseArgs env filename lineno fmt name parsed tokens s = .ok (as, s')) :
    SameData s s' := by
  induction tokens generalizing parsed s with
  | nil =>
      obtain ⟨-, rfl⟩ := Prod.mk.inj (Except.ok.inj h)
      exact SameData.refl s
  | cons token tokens ih =>
      rw [parseArgs] at h
      split at h
      · next s₁ harg =>
          rcases bind_eq_ok.1 h with ⟨s₂, hdestroy, h⟩
          obtain ⟨-, rfl⟩ := Prod.mk.inj (Except.ok.inj h)
          exact (parseArg_sameData harg).trans (destroyInstn_sameData hdestroy)
      · next a s₁ harg =>
          have hsame := parseArg_sameData harg
          split at h
          · rcases bind_eq_ok.1 h with ⟨s₂, hdestroy, h⟩
            obtain ⟨-, rfl⟩ := Prod.mk.inj (Except.ok.inj h)
            exact (hsame.trans (sameData_error s₁ _ _ _)).trans (destroyInstn_sameData hdestroy)
          · rcases bind_eq_ok.1 h with ⟨⟨as', s₂⟩, hrest, h⟩
            obtain ⟨-, rfl⟩ := Prod.mk.inj (Except.ok.inj h)
            exact hsame.trans (ih hrest)

theorem selectInstn_sameData {name : CStr} {tokens : List CStr}
    {rows : List {d : InstnDef Op // d ∈ T.entries}} {instn : Option (PrsInstn T)}
    (h : selectInstn env filename lineno name tokens rows s = .ok (instn, s')) :
    SameData s s' := by
  induction rows with
  | nil => cases h
  | cons fmt rows ih =>
      rw [selectInstn] at h
      split at h
      · obtain ⟨-, rfl⟩ := Prod.mk.inj (Except.ok.inj h)
        exact sameData_error s _ _ _
      · split at h
        · rcases bind_eq_ok.1 h with ⟨⟨as, s₁⟩, hargs, h⟩
          have hsame := parseArgs_sameData hargs
          cases as with
          | none =>
              obtain ⟨-, rfl⟩ := Prod.mk.inj (Except.ok.inj h)
              exact hsame
          | some as =>
              obtain ⟨-, rfl⟩ := Prod.mk.inj (Except.ok.inj h)
              exact hsame
        · exact ih h

/-- **An instruction** does not touch the data. -/
theorem addInstn_sameData {name : CStr} {tokens : List CStr}
    (h : addInstn env filename lineno name tokens s = .ok s') : SameData s s' := by
  rcases bind_eq_ok.1 h with ⟨⟨instn, s₁⟩, hparse, h⟩
  have hsame : SameData s s₁ := by
    unfold parseInstn at hparse
    simp only at hparse
    split at hparse
    · obtain ⟨-, rfl⟩ := Prod.mk.inj (Except.ok.inj hparse)
      exact sameData_error s _ _ _
    · exact selectInstn_sameData hparse
  cases instn with
  | none =>
      obtain rfl := Except.ok.inj h
      exact hsame
  | some i =>
      simp only at h
      split at h
      · cases h
      · obtain rfl := Except.ok.inj h
        exact hsame.trans ⟨rfl, rfl⟩

theorem scanLine_sameData {p : CStr} {ls : LineState} {ls' : Option LineState}
    (h : scanLine filename lineno p ls s = .ok (ls', s')) : SameData s s' := by
  induction p generalizing ls s with
  | nil =>
      obtain ⟨-, rfl⟩ := Prod.mk.inj (Except.ok.inj h)
      exact SameData.refl s
  | cons c p ih =>
      rw [scanLine] at h
      split at h
      · obtain ⟨-, rfl⟩ := Prod.mk.inj (Except.ok.inj h)
        exact SameData.refl s
      · split at h
        · exact ih h
        · split at h
          · exact (sameData_addLabel s filename lineno _ _ _).trans (ih h)
          · split at h
            · obtain ⟨-, rfl⟩ := Prod.mk.inj (Except.ok.inj h)
              exact sameData_error s _ _ _
            · split at h
              · split at h
                · exact ih h
                · cases h
              · exact ih h

end Operands

/-! ## Directives -/

/-- The allocation is at least as large as before. -/
abbrev Grows (d d' : DataArea) : Prop := d.memory.length ≤ d'.memory.length

section Data

variable {block : UInt32} {d d' : DataArea}

theorem ensureMemoryAlloc_grows {alloc : UInt32} (h : ensureMemoryAlloc block alloc d = .ok d') :
    Grows d d' := by
  unfold ensureMemoryAlloc at h
  split at h
  · split at h
    · cases h
    · split at h
      · obtain rfl := Except.ok.inj h
        show _ ≤ (d.memory ++ _).length
        rw [List.length_append]
        omega
      · obtain rfl := Except.ok.inj h
        exact le_rfl
  · obtain rfl := Except.ok.inj h
    exact le_rfl

theorem ensureMemoryAtOffset_grows {size offset : UInt32}
    (h : ensureMemoryAtOffset block size offset d = .ok d') : Grows d d' := by
  unfold ensureMemoryAtOffset at h
  split at h
  · obtain rfl := Except.ok.inj h
    exact le_rfl
  · exact ensureMemoryAlloc_grows h

/-- A write stays inside the allocation it leaves. -/
theorem writeToMemory_grows {src : List UInt8} {off : UInt32}
    (h : writeToMemory block src off d = .ok d') :
    Grows d d' ∧ off.toNat + src.length ≤ d'.memory.length := by
  rcases bind_eq_ok.1 h with ⟨d₁, halloc, h⟩
  have hgrows := ensureMemoryAlloc_grows halloc
  split at h
  · cases h
  · next memory hwrite =>
      obtain rfl := Except.ok.inj h
      have hlen := write_length hwrite
      have hin := (write_eq_some hwrite).1
      refine ⟨?_, ?_⟩
      · show d.memory.length ≤ memory.length
        rw [hlen]
        exact hgrows
      · show _ ≤ memory.length
        rw [hlen]
        exact hin

theorem writeBlocks_grows {fuel : ℕ} {contents : List UInt8} {w : UInt32}
    (h : writeBlocks block fuel contents w d = .ok d') : Grows d d' := by
  induction fuel generalizing contents w d with
  | zero =>
      obtain rfl := Except.ok.inj h
      exact le_rfl
  | succ fuel ih =>
      rw [writeBlocks] at h
      split at h
      · obtain rfl := Except.ok.inj h
        exact le_rfl
      · rcases bind_eq_ok.1 h with ⟨d₁, hwrite, hrest⟩
        exact Nat.le_trans (writeToMemory_grows hwrite).1 (ih hrest)

theorem writeStr_grows {str : CStr} {escapeChr stop : Bool} {w w' : UInt32}
    (h : writeStr block str escapeChr w d = .ok (stop, w', d')) : Grows d d' := by
  induction str generalizing escapeChr w d with
  | nil =>
      obtain ⟨-, -, rfl⟩ := Except.ok.inj h
      exact le_rfl
  | cons c cs ih =>
      rw [writeStr] at h
      split at h
      · exact ih h
      · split at h
        · obtain ⟨-, -, rfl⟩ := Except.ok.inj h
          exact le_rfl
        · split at h
          · rcases bind_eq_ok.1 h with ⟨d₁, hwrite, hrest⟩
            exact Nat.le_trans (writeToMemory_grows hwrite).1 (ih hrest)
          · split at h
            · rcases bind_eq_ok.1 h with ⟨d₁, hwrite, hrest⟩
              exact Nat.le_trans (writeToMemory_grows hwrite).1 (ih hrest)
            · rcases bind_eq_ok.1 h with ⟨d₁, hwrite, hrest⟩
              exact Nat.le_trans (writeToMemory_grows hwrite).1 (ih hrest)

end Data

/-- `s'` has at least the allocation of `s`, and the cells of `s`. -/
structure KeepsCells (s s' : Prs T) : Prop where
  grows : Grows s.result.toDataArea s'.result.toDataArea
  cells : s'.result.labelRefs = s.result.labelRefs

theorem KeepsCells.trans {s s' s'' : Prs T} (h : KeepsCells s s') (h' : KeepsCells s' s'') :
    KeepsCells s s'' := ⟨Nat.le_trans h.grows h'.grows, h'.cells.trans h.cells⟩

theorem SameData.keepsCells {s s' : Prs T} (h : SameData s s') : KeepsCells s s' :=
  ⟨le_of_eq (congrArg (fun d : DataArea => d.memory.length) h.area).symm, h.cells⟩

theorem KeepsCells.cellsInside {s s' : Prs T} (h : KeepsCells s s') (hs : CellsInside s.result) :
    CellsInside s'.result := by
  intro ref href
  rw [h.cells] at href
  exact Nat.le_trans (hs ref href) h.grows

section Directive

variable {block : UInt32} {env : PrsEnv} {filename : FileName} {lineno size offset : UInt32}
  {label : Option CStr} {s s' : Prs T}

theorem setMemorySize_keeps {off : UInt32}
    (h : setMemorySize block filename lineno off size s = .ok s') : KeepsCells s s' := by
  unfold setMemorySize at h
  split at h
  · obtain rfl := Except.ok.inj h
    exact (SameData.refl s).keepsCells
  · simp only at h
    split at h
    · obtain rfl := Except.ok.inj h
      exact ⟨le_rfl, rfl⟩
    · rcases bind_eq_ok.1 h with ⟨d, hgrow, h⟩
      obtain rfl := Except.ok.inj h
      refine ⟨?_, rfl⟩
      show s.result.memory.length ≤ d.memory.length
      unfold growTo at hgrow
      split at hgrow
      · exact ensureMemoryAlloc_grows hgrow
      · obtain rfl := Except.ok.inj hgrow
        exact le_rfl

theorem finishData_keeps {off : UInt32}
    (h : finishData block filename lineno off size label s = .ok s') : KeepsCells s s' := by
  rcases bind_eq_ok.1 h with ⟨s₁, hsize, h⟩
  have hkeeps := setMemorySize_keeps hsize
  cases label with
  | none =>
      obtain rfl := Except.ok.inj h
      exact hkeeps
  | some label =>
      obtain rfl := Except.ok.inj h
      exact hkeeps.trans ⟨le_rfl, rfl⟩

theorem addFileToMemory_keeps {inclFile : CStr} {includePaths : List CStr}
    (h : addFileToMemory env filename lineno label inclFile size offset includePaths s = .ok s') :
    KeepsCells s s' := by
  unfold addFileToMemory at h
  split at h
  · obtain rfl := Except.ok.inj h
    exact ⟨le_rfl, rfl⟩
  · next filepath erange _ =>
      rcases bind_eq_ok.1 h with ⟨d, hensure, h⟩
      split at h
      · cases h
      · rcases bind_eq_ok.1 h with ⟨d', hwrite, h⟩
        have hgrows := Nat.le_trans (ensureMemoryAtOffset_grows hensure)
          (writeBlocks_grows hwrite)
        have hkeeps : KeepsCells s ({ s with erange }.setData d') := ⟨hgrows, rfl⟩
        exact hkeeps.trans (finishData_keeps h)

theorem addStrToMemory_keeps {str : CStr}
    (h : addStrToMemory env filename lineno label str size offset s = .ok s') :
    KeepsCells s s' := by
  rcases bind_eq_ok.1 h with ⟨d, hensure, h⟩
  rcases bind_eq_ok.1 h with ⟨⟨stop, wOffset, d₁⟩, hstr, h⟩
  rcases bind_eq_ok.1 h with ⟨d₂, hwrite, h⟩
  have hgrows : Grows s.result.toDataArea d₂ := by
    calc s.result.memory.length ≤ d.memory.length := ensureMemoryAtOffset_grows hensure
      _ ≤ d₁.memory.length := writeStr_grows hstr
      _ ≤ d₂.memory.length := (writeToMemory_grows hwrite).1
  have hkeeps : KeepsCells s (s.setData d₂) := ⟨hgrows, rfl⟩
  have hreport := sameData_ite (c := stop = true) (SameData.refl (s.setData d₂))
    (sameData_error (s.setData d₂) filename lineno "bad string format".toList)
  exact (hkeeps.trans hreport.keepsCells).trans (finishData_keeps h)

theorem addHexToMemory_keeps {hex : CStr}
    (h : addHexToMemory env filename lineno label hex size offset s = .ok s') :
    KeepsCells s s' := by
  rcases bind_eq_ok.1 h with ⟨d, hensure, h⟩
  rcases bind_eq_ok.1 h with ⟨d', hwrite, h⟩
  have hgrows := Nat.le_trans (ensureMemoryAtOffset_grows hensure) (writeToMemory_grows hwrite).1
  refine KeepsCells.trans ⟨hgrows, ?_⟩ (finishData_keeps h)
  show (if _ then _ else _ : Prs T).result.labelRefs = _
  split
  · split
    · rfl
    · rfl
  · show (if _ then _ else _ : Prs T).result.labelRefs = _
    split
    · rfl
    · rfl

/-- **A label directive** notes a cell that it has just written. -/
theorem addLabelToMemory_cells {labelValue : CStr} (hs : CellsInside s.result)
    (h : addLabelToMemory env filename lineno label labelValue size offset s = .ok s') :
    CellsInside s'.result := by
  unfold addLabelToMemory at h
  simp only at h
  split at h
  · obtain rfl := Except.ok.inj h
    exact hs
  · next hsize =>
      rcases bind_eq_ok.1 h with ⟨d, hensure, h⟩
      rcases bind_eq_ok.1 h with ⟨d', hwrite, h⟩
      rcases writeToMemory_grows hwrite with ⟨hgrows, hin⟩
      refine (finishData_keeps h).cellsInside ?_
      intro ref href
      rcases List.mem_cons.1 href with rfl | href
      · show _ + (if labelCellSize size = 4 then 4 else 8) ≤ d'.memory.length
        rw [List.length_replicate] at hin
        rw [not_and_or, not_not, not_not] at hsize
        rcases hsize with hfour | height
        · rw [if_pos hfour]
          rw [hfour] at hin
          exact hin
        · rw [if_neg (by rw [height]; decide)]
          rw [height] at hin
          exact hin
      · have hold := hs ref href
        calc ref.writeOffset.toNat + ref.width ≤ s.result.memory.length := hold
          _ ≤ d.memory.length := ensureMemoryAtOffset_grows hensure
          _ ≤ d'.memory.length := hgrows

theorem addData_cells {data : CStr} {o : DataOptions} {includePaths : List CStr} {check : Bool}
    (hs : CellsInside s.result)
    (h : addData env filename lineno label data o includePaths s = .ok (check, s')) :
    CellsInside s'.result := by
  unfold addData at h
  split at h
  · rcases bind_eq_ok.1 h with ⟨s₁, h₁, h⟩
    obtain ⟨-, rfl⟩ := Prod.mk.inj (Except.ok.inj h)
    exact (addFileToMemory_keeps h₁).cellsInside hs
  · rcases bind_eq_ok.1 h with ⟨s₁, h₁, h⟩
    obtain ⟨-, rfl⟩ := Prod.mk.inj (Except.ok.inj h)
    exact (addStrToMemory_keeps h₁).cellsInside hs
  · rcases bind_eq_ok.1 h with ⟨s₁, h₁, h⟩
    obtain ⟨-, rfl⟩ := Prod.mk.inj (Except.ok.inj h)
    exact (addHexToMemory_keeps h₁).cellsInside hs
  · rcases bind_eq_ok.1 h with ⟨s₁, h₁, h⟩
    obtain ⟨-, rfl⟩ := Prod.mk.inj (Except.ok.inj h)
    exact addLabelToMemory_cells hs h₁
  · obtain ⟨-, rfl⟩ := Prod.mk.inj (Except.ok.inj h)
    exact hs

theorem parsePreprocDataNo_sameData (numericStr dataName : CStr) (s : Prs T) :
    SameData s (parsePreprocDataNo filename lineno numericStr dataName s).2 := by
  unfold parsePreprocDataNo
  simp only
  split
  · exact sameData_setErange s _
  · exact (sameData_setErange s _).trans (sameData_error _ _ _ _)

theorem offsetOption_sameData (numericStr : CStr) (o : DataOptions) (s : Prs T) :
    SameData s (offsetOption filename lineno numericStr o s).2 := by
  unfold offsetOption
  refine SameData.trans ?_ (sameData_ite (sameData_warn _ _ _ _) (SameData.refl _))
  refine SameData.trans ?_ (parsePreprocDataNo_sameData _ _ _)
  exact sameData_ite (SameData.refl s) (sameData_error s _ _ _)

theorem sizeOption_sameData (numericStr : CStr) (o : DataOptions) (s : Prs T) :
    SameData s (sizeOption filename lineno numericStr o s).2 := by
  unfold sizeOption
  refine SameData.trans ?_ (parsePreprocDataNo_sameData _ _ _)
  exact sameData_ite (SameData.refl s) (sameData_error s _ _ _)

theorem dataOptions_sameData {fuel token : ℕ} {line line' : CStr} {o o' : DataOptions}
    (h : dataOptions filename lineno fuel token line o s = .ok (line', o', s')) :
    SameData s s' := by
  induction fuel generalizing token line o s with
  | zero =>
      cases h
      exact SameData.refl s'
  | succ fuel ih =>
      rcases bind_eq_ok.1 h with ⟨t, -, h⟩
      cases t with
      | none =>
          cases h
          exact SameData.refl s'
      | some t =>
          rcases bind_eq_ok.1 h with ⟨first, -, h⟩
          split at h
          · cases h
            exact SameData.refl s'
          · split at h
            · rcases bind_eq_ok.1 h with ⟨numericStr, -, h⟩
              exact (offsetOption_sameData numericStr o s).trans (ih h)
            · split at h
              · rcases bind_eq_ok.1 h with ⟨numericStr, -, h⟩
                exact (sizeOption_sameData numericStr o s).trans (ih h)
              · rcases bind_eq_ok.1 h with ⟨token, -, h⟩
                cases h
                exact sameData_error s _ _ _

/-- **A `%data` directive** keeps the cells inside. -/
theorem parsePreprocData_cells {line : CStr} {includePaths : List CStr}
    (hs : CellsInside s.result)
    (h : parsePreprocData env filename lineno line includePaths s = .ok s') :
    CellsInside s'.result := by
  rcases bind_eq_ok.1 h with ⟨head, -, h⟩
  cases head with
  | none =>
      obtain rfl := Except.ok.inj h
      exact hs
  | some head =>
      rcases bind_eq_ok.1 h with ⟨⟨line', o, s₁⟩, hoptions, h⟩
      rcases bind_eq_ok.1 h with ⟨label, -, h⟩
      rcases bind_eq_ok.1 h with ⟨data, -, h⟩
      rcases bind_eq_ok.1 h with ⟨⟨check, s₂⟩, hdata, h⟩
      simp only at h
      split at h
      · cases h
      · obtain rfl := Except.ok.inj h
        exact addData_cells ((dataOptions_sameData hoptions).cellsInside hs) hdata

end Directive

/-! ## Lines and files -/

section Lines

variable {env : PrsEnv} {filename : FileName} {lineno : UInt32} {s s' : Prs T}

section Included

variable {includePaths : List CStr} {parseAsmInto : FileName → Prs T → Except PrsFault (Prs T)}
  (hinto : ∀ f s s', CellsInside s.result → parseAsmInto f s = .ok s' → CellsInside s'.result)

include hinto

theorem parsePreprocInclude_cells {line : CStr} (hs : CellsInside s.result)
    (h : parsePreprocInclude env filename lineno line includePaths parseAsmInto s = .ok s') :
    CellsInside s'.result := by
  rcases bind_eq_ok.1 h with ⟨file, -, h⟩
  rcases bind_eq_ok.1 h with ⟨p, -, h⟩
  rcases bind_eq_ok.1 h with ⟨line', -, h⟩
  split at h
  · obtain rfl := Except.ok.inj h
    exact hs
  · rcases bind_eq_ok.1 h with ⟨name, -, h⟩
    split at h
    · obtain rfl := Except.ok.inj h
      exact hs
    · next filepath erange _ => exact hinto _ { s with erange } s' hs h

theorem parseLine_cells {line : CStr} (hs : CellsInside s.result)
    (h : parseLine env filename lineno line includePaths parseAsmInto s = .ok s') :
    CellsInside s'.result := by
  unfold parseLine at h
  split at h
  · obtain rfl := Except.ok.inj h
    exact hs
  · split at h
    · obtain rfl := Except.ok.inj h
      exact hs
    · split at h
      · unfold parsePreprocLine at h
        split at h
        · exact parsePreprocData_cells hs h
        · split at h
          · exact parsePreprocInclude_cells hinto hs h
          · obtain rfl := Except.ok.inj h
            exact hs
      · rcases bind_eq_ok.1 h with ⟨⟨ls, s₁⟩, hscan, h⟩
        have hs₁ := (scanLine_sameData hscan).cellsInside hs
        cases ls with
        | none =>
            obtain rfl := Except.ok.inj h
            exact hs₁
        | some ls =>
            simp only at h
            split at h
            · split at h
              · obtain rfl := Except.ok.inj h
                exact hs₁
              · exact (addInstn_sameData h).cellsInside hs₁
            · obtain rfl := Except.ok.inj h
              exact hs₁

theorem parseLines_cells {lines : List CStr} (hs : CellsInside s.result)
    (h : parseLines env filename includePaths parseAsmInto lineno lines s = .ok s') :
    CellsInside s'.result := by
  induction lines generalizing lineno s with
  | nil =>
      obtain rfl := Except.ok.inj h
      exact hs
  | cons line lines ih =>
      rcases bind_eq_ok.1 h with ⟨s₁, hline, h⟩
      exact ih (parseLine_cells hinto hs hline) h

end Included

/-- **A file** keeps the cells inside, by induction on the depth of the files it includes. -/
theorem parseAsmInto_cells {includePaths : List CStr} {depth : ℕ} (hs : CellsInside s.result)
    (h : parseAsmInto env includePaths depth filename s = .ok s') : CellsInside s'.result := by
  induction depth generalizing filename s s' with
  | zero => cases h
  | succ depth ih =>
      rw [parseAsmInto] at h
      split at h
      · cases h
      · rcases bind_eq_ok.1 h with ⟨s₁, hlines, h⟩
        have hinto : ∀ f s s', CellsInside s.result →
            parseAsmInto env includePaths depth f s = .ok s' → CellsInside s'.result :=
          fun f s s' hs h => ih hs h
        have hs₁ := parseLines_cells hinto hs hlines
        obtain rfl := Except.ok.inj h
        exact hs₁

end Lines

/-- Looking up the noted labels leaves the data alone. -/
theorem labelRefsVisitor_data (refs : List CStr) (p : PrsResult T) :
    (refs.foldl labelRefsVisitor p).toDataArea = p.toDataArea ∧
      (refs.foldl labelRefsVisitor p).labelRefs = p.labelRefs := by
  induction refs generalizing p with
  | nil => exact ⟨rfl, rfl⟩
  | cons k refs ih =>
      rw [List.foldl_cons]
      rcases ih (labelRefsVisitor p k) with ⟨harea, hcells⟩
      have hstep : (labelRefsVisitor p k).toDataArea = p.toDataArea ∧
          (labelRefsVisitor p k).labelRefs = p.labelRefs := by
        unfold labelRefsVisitor
        split
        · exact ⟨rfl, rfl⟩
        · exact ⟨rfl, rfl⟩
      exact ⟨harea.trans hstep.1, hcells.trans hstep.2⟩

/-- **The cells of a parse result** are inside its allocation. -/
theorem parseAsm_cells {env : PrsEnv} {depth : ℕ} {erange : Bool} {filename : CStr}
    {includePaths : List CStr} {p : PrsResult T}
    (h : parseAsm env depth erange filename includePaths = .ok (some p)) : CellsInside p := by
  unfold parseAsm at h
  simp only at h
  split at h
  all_goals
    split at h
    · cases h
    · rcases bind_eq_ok.1 h with ⟨s, hinto, h⟩
      split at h
      · cases h
      · obtain rfl := Option.some.inj (Except.ok.inj h)
        have hempty : ∀ e, CellsInside (initParse e : Prs T).result := by
          intro e ref href
          cases href
        have hs := parseAsmInto_cells (hempty _) hinto
        rcases labelRefsVisitor_data s.labelRefs s.result with ⟨harea, hcells⟩
        intro ref href
        rw [harea]
        rw [hcells] at href
        exact hs ref href

end BvgzVm
