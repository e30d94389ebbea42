import BvgzVm.Asm.DataGrowth
import BvgzVm.Asm.LineBounds
import BvgzVm.Asm.Lookup
import BvgzVm.Asm.ParserInv
import BvgzVm.Asm.Tokens

set_option autoImplicit false

/-! # How a single line ends

What a line must be for `parse_line` to return (`LineEnds`), in the state before it: a directive
stays on its line and asks for an amount that can be allocated, at a place where its content fits;
an instruction has at most four words, is found in the table, and the operands of a rejected one
are not freed wrongly. `parseOwn_ends_iff` says that nothing else matters, the file that a line
includes left out.
-/

namespace BvgzVm

open Bytes CLib Fallible

variable {T : InstnTable}

/-! ## Directives -/

/-- A directive with which nothing goes wrong, with `memsz` bytes in use. -/
structure DataEnds (T : InstnTable) (env : PrsEnv) (l : DataLine) (memsz : UInt32) : Prop where
  length : 6 ≤ l.line.length
  options : ∀ spec, readSpec (l.line.drop 6) = some spec → spec.EndsInside
  demand : ∀ q, demandOf T env l = some q →
    ¬ q.Endless env.memAllocBlockSz memsz ∧ q.Fits memsz ∧ q.len.isSome

/-- The demand without content is that of a file that cannot be opened. -/
theorem dataDemand_unopened {env : PrsEnv} {data : CStr} {o : DataOptions}
    {includePaths : List CStr} :
    (∃ q, dataDemand env data o includePaths = some q ∧ q.len = none) ↔
      Unopened env includePaths data := by
  unfold dataDemand Unopened
  split
  · rename_i inclFile
    constructor
    · rintro ⟨q, hq, hlen⟩
      obtain ⟨filepath, hfile, rfl⟩ := Option.map_eq_some_iff.1 hq
      exact ⟨inclFile, filepath, rfl, hfile, by simpa using hlen⟩
    · rintro ⟨inclFile', filepath, heq, hfile, hcontents⟩
      obtain rfl : inclFile = inclFile' := (List.cons.inj heq).2
      refine ⟨_, Option.map_eq_some_iff.2 ⟨filepath, hfile, rfl⟩, ?_⟩
      simp [hcontents]
  · refine iff_of_false ?_ (by simp)
    rintro ⟨q, hq, hlen⟩
    rw [← Option.some.inj hq] at hlen
    cases hlen
  · refine iff_of_false ?_ (by simp)
    rintro ⟨q, hq, hlen⟩
    rw [← Option.some.inj hq] at hlen
    cases hlen
  · refine iff_of_false ?_ (by simp)
    rintro ⟨q, hq, hlen⟩
    dsimp only at hq
    split at hq
    · cases hq
    · rw [← Option.some.inj hq] at hlen
      cases hlen
  · rename_i hfile _ _ _
    refine iff_of_false (by simp) ?_
    rintro ⟨inclFile, filepath, rfl, -⟩
    exact hfile inclFile rfl

/-- **The functions that add data** return for the demands that can be met. -/
theorem addData_ends_iff (env : PrsEnv) (hblock : 0 < env.memAllocBlockSz) (filename : FileName)
    (lineno : UInt32) (label : Option CStr) (data : CStr) (o : DataOptions)
    (includePaths : List CStr) {s : Prs T} (hs : Grown env.memAllocBlockSz s.result.toDataArea) :
    (∃ r, addData env filename lineno label data o includePaths s = .ok r) ↔
      ∀ q, dataDemand env data o includePaths = some q →
        ¬ q.Endless env.memAllocBlockSz s.result.memsz ∧ q.Fits s.result.memsz ∧
          q.len.isSome := by
  have hmeets := addData_meets env hblock filename lineno label data o includePaths hs
  by_cases hopen : Unopened env includePaths data
  · obtain ⟨q, hq, hlen⟩ := (dataDemand_unopened (o := o)).2 hopen
    obtain ⟨e, he, -⟩ := addData_unopened env filename lineno label o s hopen
    refine iff_of_false ?_ fun h => ?_
    · rintro ⟨r, hr⟩
      rw [he] at hr
      cases hr
    · have := (h q hq).2.2
      rw [hlen] at this
      cases this
  · have hgrows := addData_growsOnly env filename lineno label data o includePaths s hopen
    cases hadd : addData env filename lineno label data o includePaths s with
    | ok r =>
        rw [hadd] at hmeets
        refine iff_of_true ⟨r, rfl⟩ fun q hq => ?_
        have hendless : ¬ q.Endless env.memAllocBlockSz s.result.memsz := by
          intro h
          cases hmeets.hang.2 ⟨q, hq, h⟩
        refine ⟨hendless, ?_, ?_⟩
        · by_contra h
          cases hmeets.outside.2 ⟨q, hq, hendless, h⟩
        · rw [Option.isSome_iff_ne_none]
          exact fun h => hopen (dataDemand_unopened.1 ⟨q, hq, h⟩)
    | error e =>
        rw [hadd] at hmeets
        refine iff_of_false (by simp) fun h => ?_
        rcases Classical.em (e = .hang) with rfl | hhang
        · obtain ⟨q, hq, hendless⟩ := hmeets.hang.1 rfl
          exact (h q hq).1 hendless
        · rcases Classical.em (e = .memoryWrite) with rfl | hwrite
          · obtain ⟨q, hq, -, hfits⟩ := hmeets.outside.1 rfl
            exact hfits (h q hq).2.1
          · exact hgrows e ⟨hhang, hwrite⟩ hadd

/-- **A directive** returns if it stays on its line and its demand can be met. -/
theorem parsePreprocData_returns_iff (env : PrsEnv) (hblock : 0 < env.memAllocBlockSz)
    (l : DataLine) {s : Prs T} (hs : Grown env.memAllocBlockSz s.result.toDataArea) :
    (∃ s', parsePreprocData env l.filename l.lineno l.line l.includePaths s = .ok s') ↔
      DataEnds T env l s.result.memsz := by
  have hstays := parsePreprocData_stays_iff env l.filename l.lineno l.includePaths l.line s
  by_cases hon : 6 ≤ l.line.length ∧
      ∀ spec, readSpec (l.line.drop 6) = some spec → spec.EndsInside
  · have hline := hstays.2 hon
    have hiff : DataEnds T env l s.result.memsz ↔ ∀ q, demandOf T env l = some q →
        ¬ q.Endless env.memAllocBlockSz s.result.memsz ∧ q.Fits s.result.memsz ∧
          q.len.isSome := ⟨fun h => h.demand, fun h => ⟨hon.1, hon.2, h⟩⟩
    rw [hiff]
    rw [parsePreprocData_eq env l.filename l.lineno hon.1 l.includePaths s] at hline ⊢
    unfold demandOf applySpec at *
    cases hspec : readSpec (l.line.drop 6) with
    | none => exact iff_of_true ⟨_, rfl⟩ fun q hq => by cases hq
    | some spec =>
        rw [hspec] at hline
        dsimp only at hline ⊢
        rcases readOptions_alike l.filename l.lineno (tokensFrom spec.options).2
            (tokensFrom spec.options).1 ⟨notGiven, notGiven⟩ s (initParse false : Prs T)
          with ⟨hs', -⟩ | ⟨o, s', t, hs', hsame, ht⟩
        · rw [hs'] at hline
          exact absurd rfl (hline _ rfl)
        · rw [hs', ht]
          have harea := hsame.area
          rw [← harea] at hs ⊢
          simp only [ok_bind]
          rw [asserted_eq fun r hr => addData_grown env hblock hs hr,
            ← addData_ends_iff env hblock l.filename l.lineno spec.label spec.data o
              l.includePaths hs]
          simp only [bind_eq_ok]
          exact ⟨fun ⟨_, r, hr, _⟩ => ⟨r, hr⟩, fun ⟨r, hr⟩ => ⟨r.2, r, hr, rfl⟩⟩
  · refine iff_of_false ?_ fun h => hon ⟨h.length, h.options⟩
    rintro ⟨s', hs'⟩
    refine hon (hstays.1 ?_)
    rw [hs']
    exact avoids_ok s'

/-! ## The flag for freed labels -/

/-- Directives free no label. -/
def KeepsKey (s : Prs T) (x : Except PrsFault (Prs T)) : Prop :=
  ∀ s', x = .ok s' → s'.freedKey = s.freedKey

section Keys

variable (env : PrsEnv) (filename : FileName) (lineno : UInt32) (label : Option CStr)

theorem keepsKey_ok {s s' : Prs T} (h : s'.freedKey = s.freedKey) : KeepsKey s (.ok s') := by
  rintro _ h'
  rwa [← Except.ok.inj h']

theorem keepsKey_bind {α : Type} {s : Prs T} {x : Except PrsFault α}
    {f : α → Except PrsFault (Prs T)} (h : ∀ a, x = .ok a → KeepsKey s (f a)) :
    KeepsKey s (x >>= f) := by
  intro s' hs'
  obtain ⟨a, ha, hs'⟩ := bind_eq_ok.1 hs'
  exact h a ha s' hs'

theorem finishData_keepsKey (block off size : UInt32) {s t : Prs T}
    (hkey : t.freedKey = s.freedKey) :
    KeepsKey s (finishData block filename lineno off size label t) := by
  unfold finishData setMemorySize
  refine keepsKey_bind fun t' ht' => ?_
  have hkey' : t'.freedKey = s.freedKey := by
    refine Eq.trans ?_ hkey
    dsimp only at ht'
    split at ht'
    · rw [← Except.ok.inj ht']
    · split at ht'
      · rw [← Except.ok.inj ht']
        rfl
      · obtain ⟨d, -, ht'⟩ := bind_eq_ok.1 ht'
        rw [← Except.ok.inj ht']
        rfl
  split
  · exact keepsKey_ok hkey'
  · exact keepsKey_ok hkey'

theorem addData_keepsKey (data : CStr) (o : DataOptions) (includePaths : List CStr) (s : Prs T) :
    KeepsKey s (addData env filename lineno label data o includePaths s >>= fun r => .ok r.2) := by
  have hflag : ∀ (flag : Bool) {x : Except PrsFault (Prs T)}, KeepsKey s x →
      KeepsKey s ((x >>= fun s => .ok (flag, s)) >>= fun r => .ok r.2) := by
    intro flag x h
    cases x <;> exact h
  unfold addData
  split
  · refine hflag true ?_
    unfold addFileToMemory
    split
    · exact keepsKey_ok rfl
    · refine keepsKey_bind fun d _ => ?_
      split
      · exact fun s' hs' => by cases hs'
      · exact keepsKey_bind fun d' _ => finishData_keepsKey _ _ _ _ _ _ rfl
  · refine hflag true (keepsKey_bind fun d _ => keepsKey_bind fun r _ => ?_)
    refine keepsKey_bind fun d' _ => finishData_keepsKey _ _ _ _ _ _ ?_
    split <;> rfl
  · refine hflag true (keepsKey_bind fun d _ => keepsKey_bind fun d' _ => ?_)
    refine finishData_keepsKey _ _ _ _ _ _ ?_
    dsimp only [Prs.setData, Prs.setErange, Prs.warn]
    split <;> split <;> rfl
  · refine hflag false ?_
    unfold addLabelToMemory
    dsimp only
    split
    · exact keepsKey_ok rfl
    · refine keepsKey_bind fun d _ => keepsKey_bind fun d' _ => ?_
      exact finishData_keepsKey _ _ _ _ _ _ rfl
  · exact keepsKey_ok rfl

theorem parsePreprocDataNo_keepsKey (number name : CStr) (s : Prs T) :
    (parsePreprocDataNo filename lineno number name s).2.freedKey = s.freedKey := by
  unfold parsePreprocDataNo
  dsimp only
  split <;> rfl

theorem freedKey_ite {c : Prop} [Decidable c] {s t t' : Prs T} (h : t.freedKey = s.freedKey)
    (h' : t'.freedKey = s.freedKey) : (if c then t else t').freedKey = s.freedKey := by
  split
  · exact h
  · exact h'

theorem offsetOption_keepsKey (number : CStr) (o : DataOptions) (s : Prs T) :
    (offsetOption filename lineno number o s).2.freedKey = s.freedKey := by
  have hno := (parsePreprocDataNo_keepsKey filename lineno number "offset".toList
    (if o.offset = notGiven then s
      else s.error filename lineno "multiple offset definitions".toList)).trans
    (freedKey_ite rfl rfl)
  exact freedKey_ite hno hno

theorem sizeOption_keepsKey (number : CStr) (o : DataOptions) (s : Prs T) :
    (sizeOption filename lineno number o s).2.freedKey = s.freedKey :=
  (parsePreprocDataNo_keepsKey _ _ _ _ _).trans (freedKey_ite rfl rfl)

theorem readOptions_keepsKey (inside : Bool) (ws : List CStr) (o : DataOptions) {s : Prs T}
    {r : DataOptions × Prs T}
    (h : readOptions filename lineno inside ws o s = .ok r) : r.2.freedKey = s.freedKey := by
  induction ws generalizing o s with
  | nil =>
      cases inside with
      | true =>
          rw [← Except.ok.inj h]
      | false => cases h
  | cons w ws ih =>
      cases w with
      | nil =>
          rw [← Except.ok.inj h]
          rfl
      | cons c number =>
          rw [readOptions_cons] at h
          split at h
          · exact (ih _ h).trans (offsetOption_keepsKey _ _ _ _ _)
          · split at h
            · exact (ih _ h).trans (sizeOption_keepsKey _ _ _ _ _)
            · rw [← Except.ok.inj h]
              rfl

/-- **A directive** frees no label. -/
theorem parsePreprocData_keepsKey {line : CStr} (includePaths : List CStr) {s s' : Prs T}
    (h : parsePreprocData env filename lineno line includePaths s = .ok s') :
    s'.freedKey = s.freedKey := by
  by_cases hlen : 6 ≤ line.length
  · rw [parsePreprocData_eq env filename lineno hlen] at h
    unfold applySpec at h
    cases hspec : readSpec (line.drop 6) with
    | none =>
        rw [hspec] at h
        rw [← Except.ok.inj h]
        rfl
    | some spec =>
        rw [hspec] at h
        obtain ⟨⟨o, t⟩, hoptions, h⟩ := bind_eq_ok.1 h
        obtain ⟨r, hr, h⟩ := bind_eq_ok.1 h
        have hadd := addData_keepsKey env filename lineno spec.label spec.data o includePaths t r.2
          (by rw [hr]; rfl)
        dsimp only at h
        by_cases hcheck : (r.1 && decide (r.2.result.memAlloc < r.2.result.memsz)) = true
        · rw [if_pos hcheck] at h
          cases h
        · rw [if_neg hcheck] at h
          rw [← Except.ok.inj h]
          exact hadd.trans (readOptions_keepsKey filename lineno _ _ _ hoptions)
  · rw [parsePreprocData, dataHead_short hlen] at h
    cases h

end Keys

/-! ## Instructions -/

/-- The operands that are filled in when one of them is rejected; `none` if none of them is. -/
def rejectedArgs (filename : FileName) (lineno : UInt32) (fmt : InstnDef Op) :
    List PrsArg → List CStr → Prs T → Option (List PrsArg)
  | _, [], _ => none
  | parsed, token :: tokens, s =>
      match parseArg filename lineno token parsed.length s with
      | (none, _) => some parsed
      | (some a, s) =>
          if parsed.length = 0 ∧ firstArgDisallowed fmt a = true then some (parsed ++ [a])
          else rejectedArgs filename lineno fmt (parsed ++ [a]) tokens s

/-- Operands of an instruction that can be given up: what `malloc` has left in the others does not
look like a label, and none of them is a label, which would stay in `label_refs`. -/
structure Freeable (env : PrsEnv) (argCount : ℕ) (as : List PrsArg) : Prop where
  rest : ∀ k, as.length ≤ k → k < argCount → isLabelType (env.freshType k) = false
  labels : ∀ a ∈ as, a.label? = none

/-- An instruction with which nothing goes wrong: the look-up does not come to the end of the
table, and the operands of a rejected instruction can be given up. -/
structure InstnEnds (env : PrsEnv) (filename : FileName) (lineno : UInt32) (name : CStr)
    (tokens : List CStr) (s : Prs T) : Prop where
  found : name = "xor".toList → tokens.length = 2 ∨ tokens.length = 3
  rejected : ∀ d ∈ T.entries, Selects name tokens.length d → ∀ as,
    rejectedArgs filename lineno d [] tokens s = some as → Freeable env d.argCount as
  accepted : ∀ d ∈ T.entries, Selects name tokens.length d →
    rejectedArgs filename lineno d [] tokens s = none → s.result.nInstns + 1 ≠ 2 ^ 32

section Instn

variable {env : PrsEnv} {filename : FileName} {lineno : UInt32} {name : CStr}
  {tokens : List CStr} {s : Prs T}

theorem finishArg_keepsKey {token p : CStr} {argIndex : ℕ} {negative reference immRef : Bool}
    {r : Strto} {a : Option PrsArg} {s' : Prs T}
    (h : finishArg filename lineno token argIndex negative reference immRef p r s = (a, s')) :
    s'.freedKey = s.freedKey := by
  unfold finishArg at h
  simp only at h
  split at h
  · obtain ⟨-, rfl⟩ := Prod.mk.inj h
    rfl
  · generalize hwarn : (if negative = false ∧ int64MaxLess1 < r.value then _ else s) = s₁ at h
    have hkey : s₁.freedKey = s.freedKey := by
      rw [← hwarn]
      exact freedKey_ite rfl rfl
    split at h
    · split at h
      · obtain ⟨-, rfl⟩ := Prod.mk.inj h
        exact hkey
      · obtain ⟨-, rfl⟩ := Prod.mk.inj h
        exact hkey
    · split at h
      · obtain ⟨-, rfl⟩ := Prod.mk.inj h
        exact hkey
      · obtain ⟨-, rfl⟩ := Prod.mk.inj h
        exact hkey

theorem parseArg_keepsKey {token : CStr} {argIndex : ℕ} {a : Option PrsArg} {s' : Prs T}
    (h : parseArg filename lineno token argIndex s = (a, s')) : s'.freedKey = s.freedKey :=
  (finishArg_keepsKey h).trans rfl

/-- Giving up an instruction. -/
theorem destroyInstn_ends {argCount : ℕ} {as : List PrsArg} {t : Prs T} (ht : t.freedKey = false) :
    (∃ s', destroyInstn env argCount as t = .ok s' ∧ s'.freedKey = false) ↔
      Freeable env argCount as := by
  have hrest : (List.range' as.length (argCount - as.length)).any
        (fun k => isLabelType (env.freshType k)) = true ↔
      ¬ ∀ k, as.length ≤ k → k < argCount → isLabelType (env.freshType k) = false := by
    simp only [List.any_eq_true, List.mem_range'_1, not_forall, Bool.not_eq_false, exists_prop]
    constructor
    · rintro ⟨k, ⟨hle, hlt⟩, hk⟩
      exact ⟨k, hle, by omega, hk⟩
    · rintro ⟨k, hle, hlt, hk⟩
      exact ⟨k, ⟨hle, by omega⟩, hk⟩
  have hlabels : (t.freedKey || as.any fun a => a.label?.isSome) = false ↔
      ∀ a ∈ as, a.label? = none := by
    rw [ht, Bool.false_or, List.any_eq_false]
    simp
  unfold destroyInstn
  by_cases hany : (List.range' as.length (argCount - as.length)).any
      (fun k => isLabelType (env.freshType k)) = true
  · rw [if_pos hany]
    exact iff_of_false (by simp) fun h => hrest.1 hany h.rest
  · rw [if_neg hany]
    have hfree := not_not.1 (mt hrest.2 hany)
    constructor
    · rintro ⟨s', hs', hkey⟩
      rw [← Except.ok.inj hs'] at hkey
      exact ⟨hfree, hlabels.1 hkey⟩
    · intro h
      exact ⟨_, rfl, hlabels.2 h.labels⟩

/-- **The operands** are all parsed, or those before the one that is rejected are given up. -/
theorem parseArgs_ends {fmt : InstnDef Op} {parsed : List PrsArg} :
    match rejectedArgs filename lineno fmt parsed tokens s with
    | none => ∃ as s', parseArgs env filename lineno fmt name parsed tokens s =
        .ok (some as, s') ∧ s'.freedKey = s.freedKey
    | some as => ∃ t : Prs T, t.freedKey = s.freedKey ∧
        parseArgs env filename lineno fmt name parsed tokens s =
          destroyInstn env fmt.argCount as t >>= fun s => .ok (none, s) := by
  induction tokens generalizing parsed s with
  | nil => exact ⟨_, s, rfl, rfl⟩
  | cons token tokens ih =>
      rw [rejectedArgs, parseArgs]
      rcases hparse : parseArg filename lineno token parsed.length s with ⟨_ | a, t⟩
      · exact ⟨t, parseArg_keepsKey hparse, rfl⟩
      · have hkey := parseArg_keepsKey hparse
        dsimp only
        by_cases hfirst : parsed.length = 0 ∧ firstArgDisallowed fmt a = true
        · rw [if_pos hfirst, if_pos hfirst]
          refine ⟨_, ?_, rfl⟩
          exact hkey
        · rw [if_neg hfirst, if_neg hfirst]
          have hrest := @ih t (parsed ++ [a])
          cases hrejected : rejectedArgs filename lineno fmt (parsed ++ [a]) tokens t with
          | none =>
              rw [hrejected] at hrest
              obtain ⟨as, s', hparse, hs'⟩ := hrest
              rw [hparse]
              exact ⟨_, s', rfl, hs'.trans hkey⟩
          | some as =>
              rw [hrejected] at hrest
              obtain ⟨t', ht', hparse⟩ := hrest
              refine ⟨t', ht'.trans hkey, ?_⟩
              rw [hparse]
              cases destroyInstn env fmt.argCount as t' <;> rfl

/-- The row that is selected. -/
theorem selectInstn_ends {d : {d : InstnDef Op // d ∈ T.entries}}
    (hselects : Selects name tokens.length d.1) :
    match rejectedArgs filename lineno d.1 [] tokens s with
    | none => ∃ instn s', selectInstn env filename lineno name tokens [d] s =
        .ok (some instn, s') ∧ s'.freedKey = s.freedKey
    | some as => ∃ t : Prs T, t.freedKey = s.freedKey ∧
        selectInstn env filename lineno name tokens [d] s =
          destroyInstn env d.1.argCount as t >>= fun s => .ok (none, s) := by
  have hargs := @parseArgs_ends T env filename lineno name tokens s d.1 []
  rw [selectInstn, if_neg (not_not.2 hselects.1.symm), dif_pos hselects.2]
  cases hrejected : rejectedArgs filename lineno d.1 [] tokens s with
  | none =>
      rw [hrejected] at hargs
      obtain ⟨as, s', hparse, hkey⟩ := hargs
      rw [hparse]
      exact ⟨_, s', rfl, hkey⟩
  | some as =>
      rw [hrejected] at hargs
      obtain ⟨t, hkey, hparse⟩ := hargs
      refine ⟨t, hkey, ?_⟩
      rw [hparse]
      cases destroyInstn env d.1.argCount as t <;> rfl

/-- **An instruction** returns, and frees no label, if nothing goes wrong with it. -/
theorem addInstn_ends_iff (hkey : s.freedKey = false) :
    (∃ s', addInstn env filename lineno name tokens s = .ok s' ∧ s'.freedKey = false) ↔
      InstnEnds env filename lineno name tokens s := by
  unfold addInstn
  rcases parseInstn_cases env filename lineno name tokens s with
    ⟨d, hd, hrun⟩ | ⟨hnone, ⟨hname, hrun⟩ | ⟨hname, text, hrun⟩⟩
  · -- the row is unique, so that the conditions are those on `d`
    have hends : InstnEnds env filename lineno name tokens s ↔
        (∀ as, rejectedArgs filename lineno d.1 [] tokens s = some as →
          Freeable env d.1.argCount as) ∧
        (rejectedArgs filename lineno d.1 [] tokens s = none →
          s.result.nInstns + 1 ≠ 2 ^ 32) := by
      constructor
      · intro h
        exact ⟨h.rejected d.1 d.2 hd, h.accepted d.1 d.2 hd⟩
      · rintro ⟨hrejected, haccepted⟩
        have hunique : ∀ d' ∈ T.entries, Selects name tokens.length d' → d' = d.1 := by
          intro d' hmem hd'
          exact congrArg Subtype.val (@Selects.unique T name ⟨d', hmem⟩ d _ hd' hd)
        refine ⟨?_, ?_, ?_⟩
        · rintro rfl
          exact (T.last_name.2 tokens.length).1 ⟨d.1, d.2, hd⟩
        · intro d' hmem hd'
          rw [hunique d' hmem hd']
          exact hrejected
        · intro d' hmem hd'
          rw [hunique d' hmem hd']
          exact haccepted
    have hselect := @selectInstn_ends T env filename lineno name tokens s d hd
    rw [hends]
    cases hrejected : rejectedArgs filename lineno d.1 [] tokens s with
    | none =>
        rw [hrejected] at hselect
        obtain ⟨instn, s', hselect, hs'⟩ := hselect
        have hparse := hrun.trans hselect
        have hcount : s'.result.nInstns = s.result.nInstns := by
          exact congrArg List.length (parseInstn_spec hparse).1.instns
        rw [hparse, ok_bind]
        dsimp only
        rw [hcount]
        by_cases hlast : s.result.nInstns + 1 = 2 ^ 32
        · rw [if_pos hlast]
          exact iff_of_false (by simp) fun h => h.2 rfl hlast
        · rw [if_neg hlast]
          refine iff_of_true ⟨_, rfl, ?_⟩ ⟨fun as h => (by cases h), fun _ => hlast⟩
          exact hs'.trans hkey
    | some as =>
        rw [hrejected] at hselect
        obtain ⟨t, ht, hselect⟩ := hselect
        have hdestroy := @destroyInstn_ends T env d.1.argCount as t (ht.trans hkey)
        rw [hrun, hselect, bind_assoc]
        have hend : ∀ x : Except PrsFault (Prs T), (x >>= fun a => .ok a) = x := bind_pure
        simp only [ok_bind, hend, hdestroy, Option.some.injEq, forall_eq', reduceCtorEq,
          false_imp_iff, and_true]
  · rw [hrun]
    refine iff_of_false (by simp) fun h => hnone ?_
    rw [hname]
    exact (T.last_name.2 tokens.length).2 (h.found hname)
  · rw [hrun]
    refine iff_of_true ⟨_, rfl, hkey⟩ ⟨fun h => absurd h hname, ?_, ?_⟩
    · intro d hmem hd
      exact absurd ⟨d, hmem, hd⟩ hnone
    · intro d hmem hd
      exact absurd ⟨d, hmem, hd⟩ hnone

/-- Labels that have been freed stay freed. -/
theorem addInstn_freed {s' : Prs T} (hkey : s.freedKey = true)
    (h : addInstn env filename lineno name tokens s = .ok s') : s'.freedKey = true := by
  obtain ⟨⟨instn, t⟩, hparse, h⟩ := bind_eq_ok.1 h
  have ht : t.freedKey = true := by
    rcases parseInstn_cases env filename lineno name tokens s with
      ⟨d, hd, hrun⟩ | ⟨-, ⟨-, hrun⟩ | ⟨-, text, hrun⟩⟩
    · rw [hrun] at hparse
      have hselect := @selectInstn_ends T env filename lineno name tokens s d hd
      split at hselect
      · obtain ⟨instn', s', hselect, hs'⟩ := hselect
        rw [hselect] at hparse
        obtain ⟨-, rfl⟩ := Prod.mk.inj (Except.ok.inj hparse)
        exact hs'.trans hkey
      · obtain ⟨t', ht', hselect⟩ := hselect
        rw [hselect] at hparse
        obtain ⟨t'', hdestroy, hparse⟩ := bind_eq_ok.1 hparse
        obtain ⟨-, rfl⟩ := Prod.mk.inj (Except.ok.inj hparse)
        unfold destroyInstn at hdestroy
        split at hdestroy
        · cases hdestroy
        · rw [← Except.ok.inj hdestroy]
          simp [ht', hkey]
    · rw [hrun] at hparse
      cases hparse
    · rw [hrun] at hparse
      obtain ⟨-, rfl⟩ := Prod.mk.inj (Except.ok.inj hparse)
      exact hkey
  dsimp only at h
  split at h
  · rw [← Except.ok.inj h]
    exact ht
  · split at h
    · cases h
    · rw [← Except.ok.inj h]
      exact ht

end Instn

/-! ## Lines -/

section Lines

variable (env : PrsEnv) (filename : FileName) (lineno : UInt32) (includePaths : List CStr)
  (line : CStr)

/-- What is left of a line with the included file cut out. -/
def parseOwn (s : Prs T) : Except PrsFault (Prs T) :=
  parseLine env filename lineno line includePaths (fun _ s => .ok s) s

/-- A line with which nothing goes wrong: its directive can be carried out, or it is a label, or it
has at most four words and nothing goes wrong with the instruction. -/
structure LineEnds (s : Prs T) : Prop where
  data : "%data".toList.isPrefixOf line = true →
    DataEnds T env ⟨filename, lineno, line, includePaths⟩ s.result.memsz
  incl : "%include".toList.isPrefixOf line = true → 9 ≤ line.length
  instn : ¬ IsDirective line → ¬ IsLabelText (lineText line) →
    (textWords (lineText line)).length ≤ maxTokens ∧
      ∀ name tokens, textWords (lineText line) = name :: tokens →
        InstnEnds env filename lineno name tokens s

variable {env filename lineno includePaths line}

/-- The own part of a `%include` line. -/
theorem parsePreprocInclude_own (hlen : 9 ≤ line.length) (s : Prs T) :
    ∃ s', parsePreprocInclude env filename lineno line includePaths (fun _ s => .ok s) s = .ok s' ∧
      SameData s s' ∧ s'.freedKey = s.freedKey := by
  rw [parsePreprocInclude_eq env filename lineno includePaths hlen]
  split
  · exact ⟨_, rfl, ⟨rfl, rfl⟩, rfl⟩
  · split
    · exact ⟨_, rfl, ⟨rfl, rfl⟩, rfl⟩
    · exact ⟨_, rfl, ⟨rfl, rfl⟩, rfl⟩

/-- The own part of a directive. -/
theorem parsePreprocLine_ends_iff (hblock : 0 < env.memAllocBlockSz) {s : Prs T}
    (hs : Grown env.memAllocBlockSz s.result.toDataArea) (hkey : s.freedKey = false) :
    (∃ s', parsePreprocLine env filename lineno line includePaths (fun _ s => .ok s) s = .ok s' ∧
        s'.freedKey = false) ↔
      ("%data".toList.isPrefixOf line = true →
          DataEnds T env ⟨filename, lineno, line, includePaths⟩ s.result.memsz) ∧
        ("%include".toList.isPrefixOf line = true → 9 ≤ line.length) := by
  unfold parsePreprocLine
  by_cases hdata : "%data".toList.isPrefixOf line = true
  · have hincl : ¬ "%include".toList.isPrefixOf line = true := by
      obtain ⟨text, rfl⟩ := List.isPrefixOf_iff_prefix.1 hdata
      exact Bool.false_ne_true
    have hreturns := parsePreprocData_returns_iff env hblock
      ⟨filename, lineno, line, includePaths⟩ hs
    rw [if_pos hdata, ← hreturns]
    constructor
    · rintro ⟨s', hs', -⟩
      exact ⟨fun _ => ⟨s', hs'⟩, fun h => absurd h hincl⟩
    · rintro ⟨hok, -⟩
      obtain ⟨s', hs'⟩ := hok hdata
      exact ⟨s', hs', (parsePreprocData_keepsKey env filename lineno includePaths hs').trans hkey⟩
  · rw [if_neg hdata]
    by_cases hincl : "%include".toList.isPrefixOf line = true
    · rw [if_pos hincl]
      by_cases hlen : 9 ≤ line.length
      · obtain ⟨s', hs', -, hkey'⟩ := @parsePreprocInclude_own T env filename lineno includePaths
          line hlen s
        exact iff_of_true ⟨s', hs', hkey'.trans hkey⟩ ⟨fun h => absurd h hdata, fun _ => hlen⟩
      · have hskip : skipWhile isspace line 9 = none := if_neg hlen
        refine iff_of_false ?_ fun h => hlen (h.2 hincl)
        rintro ⟨s', hs', -⟩
        rw [parsePreprocInclude, hskip] at hs'
        cases hs'
    · rw [if_neg hincl]
      exact iff_of_true ⟨s, rfl, hkey⟩ ⟨fun h => absurd h hdata, fun h => absurd h hincl⟩

/-- **A line** returns, and frees no label that is still noted, if nothing goes wrong with it. -/
theorem parseOwn_ends_iff (hblock : 0 < env.memAllocBlockSz) {s : Prs T}
    (hs : Grown env.memAllocBlockSz s.result.toDataArea) (hkey : s.freedKey = false) :
    (∃ s', parseOwn env filename lineno includePaths line s = .ok s' ∧ s'.freedKey = false) ↔
      LineEnds env filename lineno includePaths line s := by
  have hplain : ¬ IsDirective line →
      ¬ "%data".toList.isPrefixOf line = true ∧ ¬ "%include".toList.isPrefixOf line = true :=
    fun h => ⟨fun h' => h (isDirective_of_isPrefixOf h'),
      fun h' => h (isDirective_of_isPrefixOf h')⟩
  unfold parseOwn
  rcases parseLine_cases env filename lineno line includePaths (fun _ s => .ok s) s with
    ⟨hdirective, hrun⟩ | ⟨hdirective, ⟨htext, hrun⟩ | ⟨hlabel, -, s', -, hkey', hrun⟩ |
      ⟨hlabel, name, tokens, htokens, hrun⟩⟩
  · rw [hrun, parsePreprocLine_ends_iff hblock hs hkey]
    constructor
    · rintro ⟨hdata, hincl⟩
      exact ⟨hdata, hincl, fun h => absurd hdirective h⟩
    · intro h
      exact ⟨h.data, h.incl⟩
  · rw [hrun]
    obtain ⟨hdata, hincl⟩ := hplain hdirective
    refine iff_of_true ⟨s, rfl, hkey⟩ ⟨fun h => absurd h hdata, fun h => absurd h hincl, ?_⟩
    rw [htext]
    exact fun _ _ => ⟨Nat.zero_le _, fun name tokens h => by cases h⟩
  · rw [hrun]
    obtain ⟨hdata, hincl⟩ := hplain hdirective
    refine iff_of_true ⟨s', rfl, hkey'.trans hkey⟩
      ⟨fun h => absurd h hdata, fun h => absurd h hincl, fun _ h => absurd hlabel h⟩
  · rw [hrun]
    obtain ⟨hdata, hincl⟩ := hplain hdirective
    have hiff : LineEnds env filename lineno includePaths line s ↔
        tokens.length + 1 ≤ maxTokens ∧ InstnEnds env filename lineno name tokens s := by
      constructor
      · intro h
        obtain ⟨hroom, hinstn⟩ := h.instn hdirective hlabel
        rw [htokens] at hroom
        exact ⟨hroom, hinstn name tokens htokens⟩
      · rintro ⟨hroom, hinstn⟩
        refine ⟨fun h => absurd h hdata, fun h => absurd h hincl, fun _ _ => ?_⟩
        rw [htokens]
        refine ⟨hroom, ?_⟩
        rintro _ _ ⟨⟩
        exact hinstn
    rw [hiff]
    by_cases hroom : tokens.length + 1 ≤ maxTokens
    · rw [if_pos hroom, addInstn_ends_iff hkey, and_iff_right hroom]
    · rw [if_neg hroom]
      exact iff_of_false (by simp) fun h => hroom h.1

/-- What is left of a line keeps the form of the memory area, and labels that have been freed stay
freed. -/
theorem parseOwn_keeps (hblock : 0 < env.memAllocBlockSz) {s s' : Prs T}
    (h : parseOwn env filename lineno includePaths line s = .ok s') :
    (Grown env.memAllocBlockSz s.result.toDataArea →
        Grown env.memAllocBlockSz s'.result.toDataArea) ∧
      (s.freedKey = true → s'.freedKey = true) := by
  have hsame : SameData s s' → Grown env.memAllocBlockSz s.result.toDataArea →
      Grown env.memAllocBlockSz s'.result.toDataArea := by
    intro hsame hs
    rwa [hsame.area]
  unfold parseOwn at h
  rcases parseLine_cases env filename lineno line includePaths (fun _ s => .ok s) s with
    ⟨hdirective, hrun⟩ | ⟨hdirective, ⟨htext, hrun⟩ | ⟨hlabel, ls, t, hscan, hkey', hrun⟩ |
      ⟨hlabel, name, tokens, htokens, hrun⟩⟩
  · rw [hrun] at h
    unfold parsePreprocLine at h
    split at h
    · refine ⟨fun hs => ?_, fun hkey => ?_⟩
      · exact (parsePreprocData_meets env hblock ⟨filename, lineno, line, includePaths⟩ hs).grown
          s' h
      · exact (parsePreprocData_keepsKey env filename lineno includePaths h).trans hkey
    · split at h
      · by_cases hlen : 9 ≤ line.length
        · obtain ⟨t, ht, hdata, hkey⟩ := @parsePreprocInclude_own T env filename lineno
            includePaths line hlen s
          rw [ht] at h
          obtain rfl := Except.ok.inj h
          exact ⟨hsame hdata, hkey.trans⟩
        · have hskip : skipWhile isspace line 9 = none := if_neg hlen
          rw [parsePreprocInclude, hskip] at h
          cases h
      · obtain rfl := Except.ok.inj h
        exact ⟨id, id⟩
  · rw [hrun] at h
    obtain rfl := Except.ok.inj h
    exact ⟨id, id⟩
  · rw [hrun] at h
    obtain rfl := Except.ok.inj h
    exact ⟨hsame (scanLine_sameData hscan), hkey'.trans⟩
  · rw [hrun] at h
    split at h
    · exact ⟨hsame (addInstn_sameData h), fun hkey => addInstn_freed hkey h⟩
    · cases h

end Lines

end BvgzVm
