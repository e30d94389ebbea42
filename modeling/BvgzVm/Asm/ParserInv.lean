import BvgzVm.Asm.Parser

set_option autoImplicit false

/-! # What the parser hands over

A parse result without errors is well formed (`parseAsm_errorFree`): the labels of the operands
are defined, and a code label counts the instructions before it.

Most of the parser does not touch the code: it reports, builds the data, defines data labels and
notes references (`SameCode`). What is left are the two places that define a code label and add an
instruction (`KeptByLines`), and these keep the invariant `PrsInv`.
-/

namespace BvgzVm

open CLib Fallible

variable {T : InstnTable}

/-! ## What does not touch the code -/

/-- `s'` has the instructions of `s`, no code label that `s` does not have, all its label
references, and as many files. -/
structure SameCode (s s' : Prs T) : Prop where
  instns : s'.result.instns = s.result.instns
  codeLabels : ∀ k label, s'.result.labels.get k = some label → label.isMemRef = false →
    s.result.labels.get k = some label
  labelRefs : ∀ k ∈ s.labelRefs, k ∈ s'.labelRefs
  nFiles : s'.result.nFiles = s.result.nFiles

theorem SameCode.refl (s : Prs T) : SameCode s s := ⟨rfl, fun _ _ h _ => h, fun _ h => h, rfl⟩

theorem SameCode.trans {s s' s'' : Prs T} (h : SameCode s s') (h' : SameCode s' s'') :
    SameCode s s'' := by
  constructor
  · exact h'.instns.trans h.instns
  · intro k label hget hcode
    exact h.codeLabels k label (h'.codeLabels k label hget hcode) hcode
  · intro k hk
    exact h'.labelRefs k (h.labelRefs k hk)
  · exact h'.nFiles.trans h.nFiles

section Updates

variable (s : Prs T) (filename : FileName) (lineno : UInt32)

theorem sameCode_error (message : CStr) : SameCode s (s.error filename lineno message) :=
  ⟨rfl, fun _ _ h _ => h, fun _ h => h, rfl⟩

theorem sameCode_warn (message : CStr) : SameCode s (s.warn filename lineno message) :=
  ⟨rfl, fun _ _ h _ => h, fun _ h => h, rfl⟩

theorem sameCode_setData (d : DataArea) : SameCode s (s.setData d) :=
  ⟨rfl, fun _ _ h _ => h, fun _ h => h, rfl⟩

theorem sameCode_setErange (r : Strto) : SameCode s (s.setErange r) :=
  ⟨rfl, fun _ _ h _ => h, fun _ h => h, rfl⟩

theorem sameCode_erange (erange : Bool) : SameCode s { s with erange } :=
  ⟨rfl, fun _ _ h _ => h, fun _ h => h, rfl⟩

theorem sameCode_addDataLabel (label : CStr) (offset : UInt32) :
    SameCode s (s.addLabel filename lineno label offset true) := by
  constructor
  · rfl
  · intro k l hget hcode
    rw [Prs.addLabel, LabelMap.get_put] at hget
    split at hget
    · obtain rfl := Option.some.inj hget
      cases hcode
    · exact hget
  · exact fun _ h => h
  · rfl

theorem sameCode_addLabelRef (label : CStr) : SameCode s (s.addLabelRef label) := by
  constructor
  · rfl
  · exact fun _ _ h _ => h
  · intro k hk
    unfold Prs.addLabelRef
    split
    · exact hk
    · exact List.mem_cons_of_mem _ hk
  · rfl

theorem mem_addLabelRef (label : CStr) : label ∈ (s.addLabelRef label).labelRefs := by
  unfold Prs.addLabelRef
  split
  · next h => exact h
  · exact List.mem_cons_self

/-- A report that is made or not. -/
theorem sameCode_ite {c : Prop} [Decidable c] {s' s'' : Prs T} (h' : SameCode s s')
    (h'' : SameCode s s'') : SameCode s (if c then s' else s'') := by
  split
  · exact h'
  · exact h''

end Updates

/-! ## The data section -/

section Data

variable {block : UInt32} {env : PrsEnv} {filename : FileName} {lineno size offset : UInt32}
  {label : Option CStr} {s s' : Prs T}

theorem setMemorySize_sameCode {originalOffset : UInt32}
    (h : setMemorySize block filename lineno originalOffset size s = .ok s') : SameCode s s' := by
  unfold setMemorySize at h
  split at h
  · obtain rfl := Except.ok.inj h
    exact SameCode.refl s
  · simp only at h
    split at h
    · obtain rfl := Except.ok.inj h
      exact (sameCode_warn s _ _ _).trans (sameCode_setData _ _)
    · rcases bind_eq_ok.1 h with ⟨d, -, h⟩
      obtain rfl := Except.ok.inj h
      exact sameCode_setData s _

theorem finishData_sameCode {originalOffset : UInt32}
    (h : finishData block filename lineno originalOffset size label s = .ok s') :
    SameCode s s' := by
  rcases bind_eq_ok.1 h with ⟨s₁, hsize, h⟩
  have hsame := setMemorySize_sameCode hsize
  cases label with
  | none =>
      obtain rfl := Except.ok.inj h
      exact hsame
  | some label =>
      obtain rfl := Except.ok.inj h
      exact hsame.trans (sameCode_addDataLabel _ _ _ _ _)

theorem addFileToMemory_sameCode {inclFile : CStr} {includePaths : List CStr}
    (h : addFileToMemory env filename lineno label inclFile size offset includePaths s = .ok s') :
    SameCode s s' := by
  unfold addFileToMemory at h
  split at h
  · next erange _ =>
      obtain rfl := Except.ok.inj h
      exact (sameCode_erange s erange).trans (sameCode_error _ _ _ _)
  · next filepath erange _ =>
      rcases bind_eq_ok.1 h with ⟨d, -, h⟩
      split at h
      · cases h
      · rcases bind_eq_ok.1 h with ⟨d', -, h⟩
        have hdata := (sameCode_erange s erange).trans (sameCode_setData _ d')
        exact hdata.trans (finishData_sameCode h)

theorem addStrToMemory_sameCode {str : CStr}
    (h : addStrToMemory env filename lineno label str size offset s = .ok s') : SameCode s s' := by
  rcases bind_eq_ok.1 h with ⟨d, -, h⟩
  rcases bind_eq_ok.1 h with ⟨⟨stop, wOffset, d₁⟩, -, h⟩
  rcases bind_eq_ok.1 h with ⟨d₂, -, h⟩
  have hdata := sameCode_setData s d₂
  have hreport := sameCode_ite (c := stop = true) _ (SameCode.refl (s.setData d₂))
    (sameCode_error _ filename lineno "bad string format".toList)
  exact (hdata.trans hreport).trans (finishData_sameCode h)

theorem addHexToMemory_sameCode {hex : CStr}
    (h : addHexToMemory env filename lineno label hex size offset s = .ok s') : SameCode s s' := by
  rcases bind_eq_ok.1 h with ⟨d, -, h⟩
  rcases bind_eq_ok.1 h with ⟨d', -, h⟩
  refine SameCode.trans ?_ (finishData_sameCode h)
  refine SameCode.trans ?_ (sameCode_setData _ d')
  have hdata := (sameCode_setData s d).trans (sameCode_setErange _ (strtoull hex 16))
  refine SameCode.trans ?_ (sameCode_ite _ (SameCode.refl _) (sameCode_warn _ _ _ _))
  refine hdata.trans ?_
  exact sameCode_ite _ (SameCode.refl _) (sameCode_warn _ _ _ _)

theorem addLabelToMemory_sameCode {labelValue : CStr}
    (h : addLabelToMemory env filename lineno label labelValue size offset s = .ok s') :
    SameCode s s' := by
  unfold addLabelToMemory at h
  simp only at h
  split at h
  · obtain rfl := Except.ok.inj h
    exact sameCode_error s _ _ _
  · rcases bind_eq_ok.1 h with ⟨d, -, h⟩
    rcases bind_eq_ok.1 h with ⟨d', -, h⟩
    refine SameCode.trans ?_ (finishData_sameCode h)
    exact ⟨rfl, fun _ _ h _ => h, fun _ h => h, rfl⟩

theorem addData_sameCode {data : CStr} {o : DataOptions} {includePaths : List CStr} {check : Bool}
    (h : addData env filename lineno label data o includePaths s = .ok (check, s')) :
    SameCode s s' := by
  unfold addData at h
  split at h
  · rcases bind_eq_ok.1 h with ⟨s₁, h₁, h⟩
    obtain ⟨-, rfl⟩ := Prod.mk.inj (Except.ok.inj h)
    exact addFileToMemory_sameCode h₁
  · rcases bind_eq_ok.1 h with ⟨s₁, h₁, h⟩
    obtain ⟨-, rfl⟩ := Prod.mk.inj (Except.ok.inj h)
    exact addStrToMemory_sameCode h₁
  · rcases bind_eq_ok.1 h with ⟨s₁, h₁, h⟩
    obtain ⟨-, rfl⟩ := Prod.mk.inj (Except.ok.inj h)
    exact addHexToMemory_sameCode h₁
  · rcases bind_eq_ok.1 h with ⟨s₁, h₁, h⟩
    obtain ⟨-, rfl⟩ := Prod.mk.inj (Except.ok.inj h)
    exact addLabelToMemory_sameCode h₁
  · obtain ⟨-, rfl⟩ := Prod.mk.inj (Except.ok.inj h)
    exact sameCode_error s _ _ _

theorem parsePreprocDataNo_sameCode (numericStr dataName : CStr) :
    SameCode s (parsePreprocDataNo filename lineno numericStr dataName s).2 := by
  have herrno := sameCode_setErange s (strtoull numericStr 10)
  unfold parsePreprocDataNo
  simp only
  split
  · exact herrno
  · exact herrno.trans (sameCode_error _ _ _ _)

theorem offsetOption_sameCode (numericStr : CStr) (o : DataOptions) :
    SameCode s (offsetOption filename lineno numericStr o s).2 := by
  unfold offsetOption
  refine SameCode.trans ?_ (sameCode_ite _ (sameCode_warn _ _ _ _) (SameCode.refl _))
  refine SameCode.trans ?_ (parsePreprocDataNo_sameCode _ _)
  exact sameCode_ite s (SameCode.refl s) (sameCode_error _ _ _ _)

theorem sizeOption_sameCode (numericStr : CStr) (o : DataOptions) :
    SameCode s (sizeOption filename lineno numericStr o s).2 := by
  unfold sizeOption
  refine SameCode.trans ?_ (parsePreprocDataNo_sameCode _ _)
  exact sameCode_ite s (SameCode.refl s) (sameCode_error _ _ _ _)

theorem dataOptions_sameCode {fuel token : Nat} {line line' : CStr} {o o' : DataOptions}
    (h : dataOptions filename lineno fuel token line o s = .ok (line', o', s')) :
    SameCode s s' := by
  induction fuel generalizing token line o s with
  | zero =>
      cases h
      exact SameCode.refl s'
  | succ fuel ih =>
      rcases bind_eq_ok.1 h with ⟨t, -, h⟩
      cases t with
      | none =>
          cases h
          exact SameCode.refl s'
      | some t =>
          rcases bind_eq_ok.1 h with ⟨first, -, h⟩
          split at h
          · cases h
            exact SameCode.refl s'
          · split at h
            · rcases bind_eq_ok.1 h with ⟨numericStr, -, h⟩
              exact (offsetOption_sameCode numericStr o).trans (ih h)
            · split at h
              · rcases bind_eq_ok.1 h with ⟨numericStr, -, h⟩
                exact (sizeOption_sameCode numericStr o).trans (ih h)
              · rcases bind_eq_ok.1 h with ⟨token, -, h⟩
                cases h
                exact sameCode_error s _ _ _

/-- **A `%data` directive** does not touch the code. -/
theorem parsePreprocData_sameCode {line : CStr} {includePaths : List CStr}
    (h : parsePreprocData env filename lineno line includePaths s = .ok s') : SameCode s s' := by
  rcases bind_eq_ok.1 h with ⟨head, -, h⟩
  cases head with
  | none =>
      obtain rfl := Except.ok.inj h
      exact sameCode_error s _ _ _
  | some head =>
      rcases bind_eq_ok.1 h with ⟨⟨line', o, s₁⟩, hoptions, h⟩
      rcases bind_eq_ok.1 h with ⟨label, -, h⟩
      rcases bind_eq_ok.1 h with ⟨data, -, h⟩
      rcases bind_eq_ok.1 h with ⟨⟨check, s₂⟩, hdata, h⟩
      simp only at h
      split at h
      · cases h
      · obtain rfl := Except.ok.inj h
        exact (dataOptions_sameCode hoptions).trans (addData_sameCode hdata)

end Data

/-! ## Operands -/

section Operands

variable {env : PrsEnv} {filename : FileName} {lineno : UInt32} {s s' : Prs T}

/-- The labels of the operands are noted. -/
def Noted (s : Prs T) (as : List PrsArg) : Prop :=
  ∀ a ∈ as, ∀ k, a.label? = some k → k ∈ s.labelRefs

theorem Noted.mono {as : List PrsArg} (h : Noted s as) (hsame : SameCode s s') : Noted s' as :=
  fun a ha k hk => hsame.labelRefs k (h a ha k hk)

theorem Noted.append {as bs : List PrsArg} (h : Noted s as) (h' : Noted s bs) :
    Noted s (as ++ bs) := by
  intro a ha
  rcases List.mem_append.1 ha with ha | ha
  · exact h a ha
  · exact h' a ha

theorem noted_number {a : PrsArg} (h : a.label? = none) : Noted s [a] := by
  intro b hb k hk
  rw [List.mem_singleton.1 hb, h] at hk
  cases hk

theorem noted_immArg (negative : Bool) (imm : UInt64) : Noted s [immArg negative imm] := by
  apply noted_number
  unfold immArg
  split
  · rfl
  · split
    · rfl
    · split <;> rfl

theorem finishArg_spec {token p : CStr} {argIndex : Nat} {negative reference immRef : Bool}
    {r : Strto} {a : Option PrsArg}
    (h : finishArg filename lineno token argIndex negative reference immRef p r s = (a, s')) :
    SameCode s s' ∧ Noted s' a.toList := by
  unfold finishArg at h
  simp only at h
  split at h
  · obtain ⟨rfl, rfl⟩ := Prod.mk.inj h
    exact ⟨sameCode_error s _ _ _, by simp [Noted]⟩
  · -- the warning changes nothing
    generalize hwarn : (if negative = false ∧ int64MaxLess1 < r.value then _ else s) = s₁ at h
    have hsame : SameCode s s₁ := by
      rw [← hwarn]
      exact sameCode_ite s (sameCode_warn s _ _ _) (SameCode.refl s)
    split at h
    · split at h
      · obtain ⟨rfl, rfl⟩ := Prod.mk.inj h
        exact ⟨hsame.trans (sameCode_error s₁ _ _ _), by simp [Noted]⟩
      · obtain ⟨rfl, rfl⟩ := Prod.mk.inj h
        refine ⟨hsame.trans (sameCode_addLabelRef s₁ p), ?_⟩
        intro b hb k hk
        rw [Option.toList_some, List.mem_singleton] at hb
        have hkp : k = p := by
          rw [hb] at hk
          cases immRef
          · exact (Option.some.inj hk).symm
          · exact (Option.some.inj hk).symm
        rw [hkp]
        exact mem_addLabelRef s₁ p
    · split at h
      · obtain ⟨rfl, rfl⟩ := Prod.mk.inj h
        exact ⟨hsame.trans (sameCode_error s₁ _ _ _), by simp [Noted]⟩
      · obtain ⟨rfl, rfl⟩ := Prod.mk.inj h
        refine ⟨hsame, ?_⟩
        rw [Option.toList_some]
        cases reference
        · exact noted_immArg _ _
        · exact noted_number rfl

/-- **An operand**: its label is noted. -/
theorem parseArg_spec {token : CStr} {argIndex : Nat} {a : Option PrsArg}
    (h : parseArg filename lineno token argIndex s = (a, s')) :
    SameCode s s' ∧ Noted s' a.toList := by
  rcases finishArg_spec h with ⟨hsame, hnoted⟩
  exact ⟨(sameCode_setErange s _).trans hsame, hnoted⟩

theorem destroyInstn_sameCode {argCount : Nat} {parsed : List PrsArg}
    (h : destroyInstn env argCount parsed s = .ok s') : SameCode s s' := by
  unfold destroyInstn at h
  split at h
  · cases h
  · obtain rfl := Except.ok.inj h
    exact ⟨rfl, fun _ _ h _ => h, fun _ h => h, rfl⟩

/-- **The operands** of an instruction. -/
theorem parseArgs_spec {fmt : InstnDef Op} {name : CStr} {parsed : List PrsArg}
    {tokens : List CStr} {as : Option {as : List PrsArg // as.length = parsed.length + tokens.length}}
    (hparsed : Noted s parsed)
    (h : parseArgs env filename lineno fmt name parsed tokens s = .ok (as, s')) :
    SameCode s s' ∧ ∀ bs, as = some bs → Noted s' bs.1 := by
  induction tokens generalizing parsed s with
  | nil =>
      obtain ⟨rfl, rfl⟩ := Prod.mk.inj (Except.ok.inj h)
      refine ⟨SameCode.refl s, ?_⟩
      intro bs hbs
      rw [← Option.some.inj hbs]
      exact hparsed
  | cons token tokens ih =>
      rw [parseArgs] at h
      split at h
      · next s₁ harg =>
          rcases bind_eq_ok.1 h with ⟨s₂, hdestroy, h⟩
          obtain ⟨rfl, rfl⟩ := Prod.mk.inj (Except.ok.inj h)
          have hsame := (parseArg_spec harg).1
          exact ⟨hsame.trans (destroyInstn_sameCode hdestroy), fun bs hbs => by cases hbs⟩
      · next a s₁ harg =>
          rcases parseArg_spec harg with ⟨hsame, hnoted⟩
          split at h
          · rcases bind_eq_ok.1 h with ⟨s₂, hdestroy, h⟩
            obtain ⟨rfl, rfl⟩ := Prod.mk.inj (Except.ok.inj h)
            refine ⟨?_, fun bs hbs => by cases hbs⟩
            exact (hsame.trans (sameCode_error s₁ _ _ _)).trans (destroyInstn_sameCode hdestroy)
          · rcases bind_eq_ok.1 h with ⟨⟨as', s₂⟩, hrest, h⟩
            obtain ⟨rfl, rfl⟩ := Prod.mk.inj (Except.ok.inj h)
            rcases ih ((hparsed.mono hsame).append hnoted) hrest with ⟨hsame', hnoted'⟩
            refine ⟨hsame.trans hsame', ?_⟩
            intro bs hbs
            rcases Option.map_eq_some_iff.1 hbs with ⟨cs, hcs, rfl⟩
            exact hnoted' cs hcs

end Operands

/-! ## Instructions -/

section Instructions

variable {env : PrsEnv} {filename : FileName} {lineno : UInt32} {s s' : Prs T}

/-- **A selected instruction** has no address, and its labels are noted. -/
theorem selectInstn_spec {name : CStr} {tokens : List CStr}
    {rows : List {d : InstnDef Op // d ∈ T.entries}} {instn : Option (PrsInstn T)}
    (h : selectInstn env filename lineno name tokens rows s = .ok (instn, s')) :
    SameCode s s' ∧ ∀ i, instn = some i → i.memOffset = noOffset ∧ Noted s' i.args := by
  induction rows with
  | nil => cases h
  | cons fmt rows ih =>
      rw [selectInstn] at h
      split at h
      · obtain ⟨rfl, rfl⟩ := Prod.mk.inj (Except.ok.inj h)
        exact ⟨sameCode_error s _ _ _, fun i hi => by cases hi⟩
      · split at h
        · rcases bind_eq_ok.1 h with ⟨⟨as, s₁⟩, hargs, h⟩
          rcases parseArgs_spec (by simp [Noted]) hargs with ⟨hsame, hnoted⟩
          cases as with
          | none =>
              obtain ⟨rfl, rfl⟩ := Prod.mk.inj (Except.ok.inj h)
              exact ⟨hsame, fun i hi => by cases hi⟩
          | some as =>
              obtain ⟨rfl, rfl⟩ := Prod.mk.inj (Except.ok.inj h)
              refine ⟨hsame, ?_⟩
              intro i hi
              rw [← Option.some.inj hi]
              exact ⟨rfl, hnoted as rfl⟩
        · exact ih h

theorem parseInstn_spec {name : CStr} {tokens : List CStr} {instn : Option (PrsInstn T)}
    (h : parseInstn env filename lineno name tokens s = .ok (instn, s')) :
    SameCode s s' ∧ ∀ i, instn = some i → i.memOffset = noOffset ∧ Noted s' i.args := by
  unfold parseInstn at h
  simp only at h
  split at h
  · obtain ⟨rfl, rfl⟩ := Prod.mk.inj (Except.ok.inj h)
    exact ⟨sameCode_error s _ _ _, fun i hi => by cases hi⟩
  · exact selectInstn_spec h

end Instructions

/-! ## The invariant -/

/-- **The invariant of the parser**: instructions have no address and their labels are noted; a
code label counts the instructions before it. -/
structure PrsInv (s : Prs T) : Prop where
  fresh : ∀ i ∈ s.result.instns, i.memOffset = noOffset
  noted : ∀ i ∈ s.result.instns, Noted s i.args
  codeLabels : ∀ k label, s.result.labels.get k = some label → label.isMemRef = false →
    label.offset.toNat ≤ s.result.nInstns
  nInstns_lt : s.result.nInstns < 2 ^ 32

section Invariant

variable {filename : FileName} {lineno : UInt32} {s s' : Prs T}

theorem PrsInv.mono (h : PrsInv s) (hsame : SameCode s s') : PrsInv s' := by
  have hcount : s'.result.nInstns = s.result.nInstns := by
    rw [PrsResult.nInstns, hsame.instns, PrsResult.nInstns]
  constructor
  · rw [hsame.instns]
    exact h.fresh
  · rw [hsame.instns]
    intro i hi
    exact (h.noted i hi).mono hsame
  · intro k label hget hcode
    rw [hcount]
    exact h.codeLabels k label (hsame.codeLabels k label hget hcode) hcode
  · rw [hcount]
    exact h.nInstns_lt

/-- A label at the end of what has been parsed. -/
theorem PrsInv.addLabel (h : PrsInv s) (label : CStr) :
    PrsInv (s.addLabel filename lineno label (UInt32.ofNat s.result.nInstns) false) := by
  constructor
  · exact h.fresh
  · exact h.noted
  · intro k l hget hcode
    rw [Prs.addLabel, LabelMap.get_put] at hget
    split at hget
    · obtain rfl := Option.some.inj hget
      show (UInt32.ofNat s.result.nInstns).toNat ≤ s.result.nInstns
      rw [UInt32.toNat_ofNat_of_lt' h.nInstns_lt]
    · exact h.codeLabels k l hget hcode
  · exact h.nInstns_lt

/-- A new instruction. -/
theorem PrsInv.addInstn (h : PrsInv s) {i : PrsInstn T} (hfresh : i.memOffset = noOffset)
    (hnoted : Noted s i.args) (hcount : s.result.nInstns + 1 ≠ 2 ^ 32) :
    PrsInv { s with result := { s.result with instns := s.result.instns ++ [i] } } := by
  have hlt := h.nInstns_lt
  have hlength : (s.result.instns ++ [i]).length = s.result.nInstns + 1 := by
    rw [List.length_append, List.length_singleton, PrsResult.nInstns]
  constructor
  · intro x hx
    rcases List.mem_append.1 hx with hx | hx
    · exact h.fresh x hx
    · rw [List.mem_singleton.1 hx]
      exact hfresh
  · intro x hx
    rcases List.mem_append.1 hx with hx | hx
    · exact h.noted x hx
    · rw [List.mem_singleton.1 hx]
      exact hnoted
  · intro k label hget hcode
    have hle := h.codeLabels k label hget hcode
    show label.offset.toNat ≤ (s.result.instns ++ [i]).length
    omega
  · show (s.result.instns ++ [i]).length < 2 ^ 32
    omega

end Invariant

/-! ## Lines -/

/-- What every line keeps: it outlasts a change that does not touch the code, a code label behind
the instructions, and another instruction. -/
structure KeptByLines (P : Prs T → Prop) : Prop where
  mono : ∀ {s s' : Prs T}, P s → SameCode s s' → P s'
  label : ∀ {s : Prs T} (filename : FileName) (lineno : UInt32) (label : CStr), P s →
    P (s.addLabel filename lineno label (UInt32.ofNat s.result.nInstns) false)
  instn : ∀ {s : Prs T} {i : PrsInstn T}, P s → i.memOffset = noOffset → Noted s i.args →
    s.result.nInstns + 1 ≠ 2 ^ 32 →
    P { s with result := { s.result with instns := s.result.instns ++ [i] } }

theorem prsInv_keptByLines : KeptByLines (PrsInv (T := T)) where
  mono h hsame := h.mono hsame
  label _ _ label h := h.addLabel label
  instn h hfresh hnoted hcount := h.addInstn hfresh hnoted hcount

/-- Lines do not count files. -/
theorem nFiles_keptByLines (n : UInt32) :
    KeptByLines (fun s : Prs T => s.result.nFiles = n) where
  mono h hsame := hsame.nFiles.trans h
  label _ _ _ h := h
  instn h _ _ _ := h

section Lines

variable {env : PrsEnv} {filename : FileName} {lineno : UInt32} {s s' : Prs T}
  {P : Prs T → Prop} (hP : KeptByLines P)

include hP

theorem addInstn_keeps {name : CStr} {tokens : List CStr} (hs : P s)
    (h : addInstn env filename lineno name tokens s = .ok s') : P s' := by
  rcases bind_eq_ok.1 h with ⟨⟨instn, s₁⟩, hparse, h⟩
  rcases parseInstn_spec hparse with ⟨hsame, hinstn⟩
  have hs₁ := hP.mono hs hsame
  cases instn with
  | none =>
      obtain rfl := Except.ok.inj h
      exact hs₁
  | some i =>
      simp only at h
      split at h
      · cases h
      · next hcount =>
          obtain rfl := Except.ok.inj h
          rcases hinstn i rfl with ⟨hfresh, hnoted⟩
          exact hP.instn hs₁ hfresh hnoted hcount

theorem scanLine_keeps {p : CStr} {ls : LineState} {ls' : Option LineState} (hs : P s)
    (h : scanLine filename lineno p ls s = .ok (ls', s')) : P s' := by
  induction p generalizing ls s with
  | nil =>
      obtain ⟨-, rfl⟩ := Prod.mk.inj (Except.ok.inj h)
      exact hs
  | cons c p ih =>
      rw [scanLine] at h
      split at h
      · obtain ⟨-, rfl⟩ := Prod.mk.inj (Except.ok.inj h)
        exact hs
      · split at h
        · exact ih hs h
        · split at h
          · exact ih (hP.label _ _ _ hs) h
          · split at h
            · obtain ⟨-, rfl⟩ := Prod.mk.inj (Except.ok.inj h)
              exact hP.mono hs (sameCode_error s _ _ _)
            · split at h
              · split at h
                · exact ih hs h
                · cases h
              · exact ih hs h

section Included

variable {includePaths : List CStr} {parseAsmInto : FileName → Prs T → Except PrsFault (Prs T)}
  (hinto : ∀ f s s', P s → parseAsmInto f s = .ok s' → P s')

include hinto

theorem parsePreprocInclude_keeps {line : CStr} (hs : P s)
    (h : parsePreprocInclude env filename lineno line includePaths parseAsmInto s = .ok s') :
    P s' := by
  rcases bind_eq_ok.1 h with ⟨file, -, h⟩
  rcases bind_eq_ok.1 h with ⟨p, -, h⟩
  rcases bind_eq_ok.1 h with ⟨line', -, h⟩
  split at h
  · obtain rfl := Except.ok.inj h
    exact hP.mono hs (sameCode_error s _ _ _)
  · rcases bind_eq_ok.1 h with ⟨name, -, h⟩
    split at h
    · next erange _ =>
        obtain rfl := Except.ok.inj h
        exact hP.mono hs ((sameCode_erange s erange).trans (sameCode_error _ _ _ _))
    · next filepath erange _ =>
        exact hinto _ _ _ (hP.mono hs (sameCode_erange s erange)) h

theorem parseLine_keeps {line : CStr} (hs : P s)
    (h : parseLine env filename lineno line includePaths parseAsmInto s = .ok s') : P s' := by
  unfold parseLine at h
  split at h
  · obtain rfl := Except.ok.inj h
    exact hs
  · split at h
    · obtain rfl := Except.ok.inj h
      exact hs
    · split at h
      · unfold parsePreprocLine at h
        split at h
        · exact hP.mono hs (parsePreprocData_sameCode h)
        · split at h
          · exact parsePreprocInclude_keeps hP hinto hs h
          · obtain rfl := Except.ok.inj h
            exact hs
      · rcases bind_eq_ok.1 h with ⟨⟨ls, s₁⟩, hscan, h⟩
        have hs₁ := scanLine_keeps hP hs hscan
        cases ls with
        | none =>
            obtain rfl := Except.ok.inj h
            exact hs₁
        | some ls =>
            simp only at h
            split at h
            · split at h
              · obtain rfl := Except.ok.inj h
                exact hs₁
              · exact addInstn_keeps hP hs₁ h
            · obtain rfl := Except.ok.inj h
              exact hs₁

theorem parseLines_keeps {lines : List CStr} (hs : P s)
    (h : parseLines env filename includePaths parseAsmInto lineno lines s = .ok s') : P s' := by
  induction lines generalizing lineno s with
  | nil =>
      obtain rfl := Except.ok.inj h
      exact hs
  | cons line lines ih =>
      rcases bind_eq_ok.1 h with ⟨s₁, hline, h⟩
      exact ih (parseLine_keeps hP hinto hs hline) h

end Included

end Lines

section Files

variable {env : PrsEnv} {filename : FileName} {s s' : Prs T}

/-- **A file** keeps the invariant, by induction on the depth of the files it includes. -/
theorem parseAsmInto_inv {includePaths : List CStr} {depth : Nat} (hs : PrsInv s)
    (h : parseAsmInto env includePaths depth filename s = .ok s') : PrsInv s' := by
  induction depth generalizing filename s s' with
  | zero => cases h
  | succ depth ih =>
      rw [parseAsmInto] at h
      split at h
      · cases h
      · rcases bind_eq_ok.1 h with ⟨s₁, hlines, h⟩
        obtain rfl := Except.ok.inj h
        have hs₁ := parseLines_keeps prsInv_keptByLines (fun f s s' hs h => ih hs h) hs hlines
        exact ⟨hs₁.fresh, hs₁.noted, hs₁.codeLabels, hs₁.nInstns_lt⟩

theorem initParse_inv (erange : Bool) : PrsInv (initParse erange : Prs T) := by
  constructor
  · simp [initParse]
  · simp [initParse]
  · simp [initParse, LabelMap.get]
  · simp [initParse, PrsResult.nInstns]

end Files

/-! ## The whole parser -/

/-- Looking up the noted labels only reports. -/
theorem labelRefsVisitor_foldl (refs : List CStr) (p : PrsResult T) :
    (refs.foldl labelRefsVisitor p).instns = p.instns ∧
      (refs.foldl labelRefsVisitor p).labels = p.labels ∧
      p.errors ≤ (refs.foldl labelRefsVisitor p).errors ∧
      ((refs.foldl labelRefsVisitor p).errors = 0 →
        ∀ k ∈ refs, ∃ label, p.labels.get k = some label) := by
  induction refs generalizing p with
  | nil => exact ⟨rfl, rfl, le_refl _, fun _ k hk => by cases hk⟩
  | cons k refs ih =>
      rw [List.foldl_cons]
      cases hget : p.labels.get k with
      | some label =>
          have hstep : labelRefsVisitor p k = p := by rw [labelRefsVisitor, hget]
          rw [hstep]
          rcases ih p with ⟨hinstns, hlabels, hle, hall⟩
          refine ⟨hinstns, hlabels, hle, ?_⟩
          intro herr k' hk'
          rcases List.mem_cons.1 hk' with rfl | hk'
          · exact ⟨label, hget⟩
          · exact hall herr k' hk'
      | none =>
          rcases ih (labelRefsVisitor p k) with ⟨hinstns, hlabels, hle, -⟩
          have hstep : labelRefsVisitor p k = p.report .error "<top-level>".toList 0
              ("referenced label [".toList ++ k ++ "] is missing".toList) := by
            rw [labelRefsVisitor, hget]
          have herrors : (labelRefsVisitor p k).errors = p.errors + 1 := by
            rw [hstep]
            simp [PrsResult.errors, PrsResult.report]
          refine ⟨?_, ?_, by omega, fun herr => by omega⟩
          · rw [hinstns, hstep]
            rfl
          · rw [hlabels, hstep]
            rfl

/-- `parse_asm` returns what the labels of a state with the invariant are looked up in. -/
theorem parseAsm_eq_ok {env : PrsEnv} {depth : Nat} {erange : Bool} {filename : CStr}
    {includePaths : List CStr} {p : PrsResult T}
    (h : parseAsm env depth erange filename includePaths = .ok (some p)) :
    ∃ s : Prs T, PrsInv s ∧ s.labelRefs.foldl labelRefsVisitor s.result = p := by
  unfold parseAsm at h
  simp only at h
  split at h
  all_goals
    split at h
    · cases h
    · rcases bind_eq_ok.1 h with ⟨s, hinto, h⟩
      split at h
      · cases h
      · refine ⟨s, parseAsmInto_inv (initParse_inv _) hinto, ?_⟩
        exact Option.some.inj (Except.ok.inj h)

/-- **A parse without errors** is well formed. -/
theorem parseAsm_errorFree {env : PrsEnv} {depth : Nat} {erange : Bool} {filename : CStr}
    {includePaths : List CStr} {p : PrsResult T}
    (h : parseAsm env depth erange filename includePaths = .ok (some p)) (herr : p.errors = 0) :
    p.ErrorFree := by
  rcases parseAsm_eq_ok h with ⟨s, hs, rfl⟩
  rcases labelRefsVisitor_foldl s.labelRefs s.result with ⟨hinstns, hlabels, -, hall⟩
  have hdefined := hall herr
  constructor
  · exact herr
  · rw [hinstns]
    exact hs.fresh
  · rw [hinstns, hlabels]
    intro i hi k hk
    rcases hk with ⟨a, ha, hk⟩
    exact hdefined k (hs.noted i hi a ha k hk)
  · rw [hlabels, PrsResult.nInstns, hinstns]
    exact hs.codeLabels
  · rw [PrsResult.nInstns, hinstns]
    exact hs.nInstns_lt

end BvgzVm
