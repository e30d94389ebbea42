import BvgzVm.Debug.Complete
import BvgzVm.Debug.Symbols
import BvgzVm.Util.HashmapSpec
import Mathlib.Data.List.ReduceOption

set_option autoImplicit false

/-! # What the debugger knows of a source

`setup_state` of `vm_debug.c` puts the labels of the lines into a hash table. For debug data that
`mk_debug_data` has made from a source and that has been written and read back, the debugger finds
the labels of the source at their addresses and no others (`setupState_knows`).
-/

namespace BvgzVm

open CLib

variable {T : InstnTable}

/-! ## `setup_state` -/

/-- The `dbg_label_t` of a line, with the string at `DBG_LABEL`. -/
def symbolOf (data : VmDebugData) (isMemRef : Bool) (line : DbgLineAssoc) : Option DbgSymbol :=
  (dbgLabel data line.labelRef.toUInt32).map fun str => ⟨textOf str, isMemRef, line.address⟩

/-- A code line has a label if its `label_ref` is not negative. -/
def codeSymbolOf (data : VmDebugData) (line : DbgLineAssoc) : Option (Option DbgSymbol) :=
  if line.labelRef.toInt < 0 then some none else (symbolOf data false line).map some

/-- What the two loops of `setup_state` put into the table, one after the other; `none` if they
read outside the block. -/
def setupSymbols (data : VmDebugData) : Option (List DbgSymbol) := do
  let mem ← (List.range data.nMemLines.toNat).mapM fun m =>
    (dbgMemLine data (UInt32.ofNat m)).bind (symbolOf data true)
  let code ← (List.range data.nCodeLines.toNat).mapM fun c =>
    (dbgCodeLine data (UInt32.ofNat c)).bind (codeSymbolOf data)
  some (mem ++ code.reduceOption)

/-- The table after these calls of `hmap_put`, for which there is memory. -/
def setupLabels (room : ℕ) (symbols : List DbgSymbol) : Option (HashmapMap DbgSymbol) :=
  Steps.run MapOp.step (symbols.map (fun s => MapOp.put s.label s)) (hmapCreate room)

/-- A line with the string at `DBG_FILE`. -/
def codeLineAt (data : VmDebugData) (line : DbgLineAssoc) : Option CodeLine :=
  (dbgFile data line.fileno).map fun str => ⟨line.address, line.lineno, textOf str⟩

/-- The code lines, as the commands read them; `none` if that is outside the block. -/
def codeLinesAt (data : VmDebugData) : Option (List CodeLine) :=
  (List.range data.nCodeLines.toNat).mapM fun c =>
    (dbgCodeLine data (UInt32.ofNat c)).bind (codeLineAt data)

/-- `setup_state` -/
structure SetupState (room : ℕ) (data : VmDebugData) (t : DbgSymbols) : Prop where
  labels : ∃ symbols m, setupSymbols data = some symbols ∧ setupLabels room symbols = some m ∧
    t.labels = (hmapIterate m).map Prod.snd
  codeLines : codeLinesAt data = some t.codeLines

/-! ## The loops -/

section Loops

variable {α β : Type}

/-- A loop over the indices reads the elements. -/
theorem mapM_range {f : ℕ → Option β} {h : α → Option β} {xs : List α}
    (hf : ∀ (i : ℕ) x, xs[i]? = some x → f i = h x) :
    (List.range xs.length).mapM f = xs.mapM h := by
  induction xs generalizing f with
  | nil => rfl
  | cons x xs ih =>
      have hrest : (List.range xs.length).mapM (f ∘ Nat.succ) = xs.mapM h :=
        ih fun i y hy => hf (i + 1) y hy
      rw [List.length_cons, List.range_succ_eq_map, List.mapM_cons, List.mapM_cons,
        hf 0 x rfl, List.mapM_map, hrest]

/-- A loop in which nothing fails. -/
theorem mapM_eq_filterMap {h : α → Option β} {xs : List α}
    (hxs : ∀ x ∈ xs, (h x).isSome = true) : xs.mapM h = some (xs.filterMap h) := by
  induction xs with
  | nil => rfl
  | cons x xs ih =>
      rcases Option.isSome_iff_exists.1 (hxs x List.mem_cons_self) with ⟨y, hy⟩
      rw [List.mapM_cons, ih fun x' hx' => hxs x' (List.mem_cons_of_mem _ hx'),
        List.filterMap_cons_some hy, hy]
      rfl

end Loops

/-! ## Reading names back -/

section Loaded

variable {dbg : DebugT} (hsize : dbg.size < 2 ^ 32)

theorem toUInt32_of_nonneg {r : Int32} (h : ¬ r.toInt < 0) :
    r.toUInt32 = UInt32.ofNat r.toInt.toNat := by
  have hlt : r.toInt < 2 ^ 31 := r.toInt_lt
  apply UInt32.toNat_inj.1
  rw [UInt32.toNat_ofNat_of_lt' (by show r.toInt.toNat < 2 ^ 32; omega)]
  show r.toBitVec.toNat = r.toBitVec.toInt.toNat
  have hcond := BitVec.toInt_eq_toNat_cond r.toBitVec
  have hneg : ¬ r.toBitVec.toInt < 0 := h
  have hbound := r.toBitVec.isLt
  split at hcond <;> omega

include hsize

/-- The string of a label. -/
theorem dbgLabel_of_name {labelRef : Int32} {str : List UInt8}
    (h : dbg.labelName labelRef = some str) :
    dbgLabel dbg.loaded labelRef.toUInt32 = some str := by
  unfold DebugT.labelName at h
  split at h
  · cases h
  · next hneg =>
      rcases Option.bind_eq_some_iff.1 h with ⟨off, hoff, hstr⟩
      rw [toUInt32_of_nonneg hneg, dbgLabel, dbgLabelOffset_loaded hsize hoff]
      exact (cstrAt_loaded hsize off.toNat).trans hstr

/-- The string of a file. -/
theorem dbgFile_of_name {fileno : UInt32} {str : List UInt8}
    (h : dbg.fileName fileno = some str) : dbgFile dbg.loaded fileno = some str := by
  rcases Option.bind_eq_some_iff.1 h with ⟨off, hoff, hstr⟩
  have hread := dbgFileOffset_loaded hsize hoff
  rw [UInt32.ofNat_toNat] at hread
  rw [dbgFile, hread]
  exact (cstrAt_loaded hsize off.toNat).trans hstr

theorem toNat_length {n : ℕ} (hn : n ≤ dbg.size) : (UInt32.ofNat n).toNat = n :=
  UInt32.toNat_ofNat_of_lt' (by
    show n < 2 ^ 32
    omega)

end Loaded

/-! ## The labels of the source -/

/-- The symbol is a label of the source at its address. -/
def PrsResult.IsSymbol (p : PrsResult T) (s : DbgSymbol) : Prop :=
  ∃ label, p.labels.get s.label = some label ∧ label.isMemRef = s.isMemRef ∧
    p.labelAddress label = some s.address

/-- The line has the address and the name of a label of the source. -/
def DebugT.Names (dbg : DebugT) (p : PrsResult T) (isMemRef : Bool) (ln : DbgLineAssoc) : Prop :=
  ∃ k label, p.labels.get k = some label ∧ label.isMemRef = isMemRef ∧
    p.labelAddress label = some ln.address ∧ dbg.labelName ln.labelRef = some (cBytes k)

theorem PrsResult.IsSymbol.unique {p : PrsResult T} {s s' : DbgSymbol} (h : p.IsSymbol s)
    (h' : p.IsSymbol s') (hlabel : s.label = s'.label) : s = s' := by
  rcases h with ⟨label, hget, hkind, haddress⟩
  rcases h' with ⟨label', hget', hkind', haddress'⟩
  rw [← hlabel, hget] at hget'
  obtain rfl := Option.some.inj hget'
  rw [haddress] at haddress'
  cases s
  cases s'
  rw [DbgSymbol.mk.injEq]
  exact ⟨hlabel, hkind.symm.trans hkind', Option.some.inj haddress'⟩

section Names

variable {p : PrsResult T} {order : VisitOrder p.labels} {start : DebugT} {data : DbgLabel}
  (hinv : LabelInv start p.codeFiles order.entries data)
  (hcount : order.entries.length ≤ 2 ^ 31)

include hinv hcount

theorem names_memLine {ln : DbgLineAssoc} (hln : ln ∈ data.dbg.memLines) :
    data.dbg.Names p true ln := by
  rcases (hinv.memLines ln).1 hln with ⟨j, e, he, hkind, rfl⟩
  have hj : j < order.entries.length := (List.getElem?_eq_some_iff.1 he).1
  refine ⟨e.1, e.2, (order.mem_iff _ _).1 (List.mem_of_getElem? he), hkind, ?_,
    labelName_labelRefOf hinv (by omega) he⟩
  rw [PrsResult.labelAddress, if_pos hkind]
  rfl

theorem names_codeLine (hlines : start.codeLines = p.instns.map (codeLineOf p.codeFiles))
    {ln : DbgLineAssoc} (hln : ln ∈ data.dbg.codeLines) (href : ¬ ln.labelRef.toInt < 0) :
    data.dbg.Names p false ln := by
  rcases List.mem_iff_getElem?.1 hln with ⟨i, hi⟩
  rcases hinv.lastLabel i ln hi with ⟨j, ⟨⟨e, he, hkind, hoffset⟩, -⟩, heq⟩ | ⟨heq, -⟩
  · have hj : j < order.entries.length := (List.getElem?_eq_some_iff.1 he).1
    rcases codeLine_getElem? hinv hlines hi with ⟨instn, hinstn, hline⟩
    refine ⟨e.1, e.2, (order.mem_iff _ _).1 (List.mem_of_getElem? he), hkind, ?_, ?_⟩
    · rw [PrsResult.labelAddress, hkind, if_neg Bool.false_ne_true, hoffset, hinstn, hline]
      rfl
    · rw [heq]
      exact labelName_labelRefOf hinv (by omega) he
  · -- no label has come to this line
    rw [heq] at href
    exact absurd (by decide) href

end Names

section Symbols

variable {p : PrsResult T} {dbg : DebugT} (hsize : dbg.size < 2 ^ 32)
  (hnames : ∀ k label, p.labels.get k = some label → IsCString k)

include hsize hnames

/-- The symbol of a line that has a label. -/
theorem symbolOf_names {isMemRef : Bool} {ln : DbgLineAssoc} (h : dbg.Names p isMemRef ln) :
    ∃ s, symbolOf dbg.loaded isMemRef ln = some s ∧ p.IsSymbol s ∧
      dbg.labelName ln.labelRef = some (cBytes s.label) := by
  rcases h with ⟨k, label, hget, hkind, haddress, hname⟩
  have htext : textOf (cBytes k) = k := textOf_cBytes (hnames k label hget)
  refine ⟨⟨k, isMemRef, ln.address⟩, ?_, ⟨label, hget, hkind, haddress⟩, hname⟩
  rw [symbolOf, dbgLabel_of_name hsize hname, Option.map_some, htext]

/-- What the loop over the data lines reads. -/
theorem memSymbols_eq (hmem : ∀ ln ∈ dbg.memLines, dbg.Names p true ln) :
    (List.range dbg.loaded.nMemLines.toNat).mapM (fun m =>
      (dbgMemLine dbg.loaded (UInt32.ofNat m)).bind (symbolOf dbg.loaded true)) =
        some (dbg.memLines.filterMap (symbolOf dbg.loaded true)) := by
  have hcount : dbg.loaded.nMemLines.toNat = dbg.memLines.length :=
    toNat_length hsize (by unfold DebugT.size dbgLineSize; omega)
  rw [hcount, mapM_range fun i ln hi => by rw [dbgMemLine_loaded hsize hi, Option.bind_some],
    mapM_eq_filterMap]
  intro ln hln
  rcases symbolOf_names hsize hnames (hmem ln hln) with ⟨s, hs, -⟩
  rw [hs, Option.isSome_some]

/-- What the loop over the code lines reads. -/
theorem codeSymbols_eq
    (hcode : ∀ ln ∈ dbg.codeLines, ¬ ln.labelRef.toInt < 0 → dbg.Names p false ln) :
    (List.range dbg.loaded.nCodeLines.toNat).mapM (fun c =>
      (dbgCodeLine dbg.loaded (UInt32.ofNat c)).bind (codeSymbolOf dbg.loaded)) =
        some (dbg.codeLines.filterMap (codeSymbolOf dbg.loaded)) := by
  have hcount : dbg.loaded.nCodeLines.toNat = dbg.codeLines.length :=
    toNat_length hsize (by unfold DebugT.size dbgLineSize; omega)
  rw [hcount, mapM_range fun i ln hi => by rw [dbgCodeLine_loaded hsize hi, Option.bind_some],
    mapM_eq_filterMap]
  intro ln hln
  unfold codeSymbolOf
  split
  · rfl
  · next href =>
      rcases symbolOf_names hsize hnames (hcode ln hln href) with ⟨s, hs, -⟩
      rw [hs, Option.map_some, Option.isSome_some]

/-- **What `setup_state` puts**: labels of the source, and all of them. -/
theorem setupSymbols_spec (hcomplete : dbg.Complete p)
    (hmem : ∀ ln ∈ dbg.memLines, dbg.Names p true ln)
    (hcode : ∀ ln ∈ dbg.codeLines, ¬ ln.labelRef.toInt < 0 → dbg.Names p false ln) :
    ∃ symbols, setupSymbols dbg.loaded = some symbols ∧ (∀ s ∈ symbols, p.IsSymbol s) ∧
      ∀ k label, p.labels.get k = some label → ∃ s ∈ symbols, s.label = k := by
  refine ⟨dbg.memLines.filterMap (symbolOf dbg.loaded true) ++
    (dbg.codeLines.filterMap (codeSymbolOf dbg.loaded)).reduceOption, ?_, ?_, ?_⟩
  · unfold setupSymbols
    rw [memSymbols_eq hsize hnames hmem, codeSymbols_eq hsize hnames hcode]
    rfl
  · intro s hs
    rcases List.mem_append.1 hs with hs | hs
    · rcases List.mem_filterMap.1 hs with ⟨ln, hln, heq⟩
      rcases symbolOf_names hsize hnames (hmem ln hln) with ⟨s', hs', hsymbol, -⟩
      rw [hs'] at heq
      obtain rfl := Option.some.inj heq
      exact hsymbol
    · rcases List.mem_filterMap.1 (List.reduceOption_mem_iff.1 hs) with ⟨ln, hln, heq⟩
      unfold codeSymbolOf at heq
      split at heq
      · cases heq
      · next href =>
          rcases symbolOf_names hsize hnames (hcode ln hln href) with ⟨s', hs', hsymbol, -⟩
          rw [hs'] at heq
          cases heq
          exact hsymbol
  · intro k label hget
    rcases hcomplete.labels k label hget with ⟨ln, hln, -, hname⟩
    -- the symbol of that line has the same bytes
    have hsame {s : DbgSymbol} (hsymbol : p.IsSymbol s)
        (hs : dbg.labelName ln.labelRef = some (cBytes s.label)) : s.label = k := by
      rcases hsymbol with ⟨label', hget', -⟩
      rw [hname] at hs
      exact cBytes_inj (hnames _ _ hget') (hnames _ _ hget) (Option.some.inj hs).symm
    split at hln
    · rcases symbolOf_names hsize hnames (hmem ln hln) with ⟨s, hs, hsymbol, hs'⟩
      exact ⟨s, List.mem_append_left _ (List.mem_filterMap.2 ⟨ln, hln, hs⟩), hsame hsymbol hs'⟩
    · have href : ¬ ln.labelRef.toInt < 0 := by
        intro hneg
        rw [DebugT.labelName, if_pos hneg] at hname
        cases hname
      rcases symbolOf_names hsize hnames (hcode ln hln href) with ⟨s, hs, hsymbol, hs'⟩
      refine ⟨s, List.mem_append_right _ (List.reduceOption_mem_iff.2 ?_), hsame hsymbol hs'⟩
      refine List.mem_filterMap.2 ⟨ln, hln, ?_⟩
      rw [codeSymbolOf, if_neg href, hs, Option.map_some]

/-- What a line shows, of its address, the name of its file and its number. -/
def shownLine (l : UInt32 × Option (List UInt8) × UInt32) : CodeLine :=
  ⟨l.1, l.2.2, textOf (l.2.1.getD [])⟩

omit hnames in
/-- The code lines are those of the instructions, sorted. -/
theorem codeLinesAt_spec (hcomplete : dbg.Complete p) :
    ∃ lines, codeLinesAt dbg.loaded = some lines ∧
      lines.Perm (p.instns.map fun i =>
        ⟨i.memOffset, i.lineno, textOf (cBytes i.filename.path)⟩) := by
  have hnCode : dbg.loaded.nCodeLines.toNat = dbg.codeLines.length :=
    toNat_length hsize (by unfold DebugT.size dbgLineSize; omega)
  have hline : ∀ ln ∈ dbg.codeLines, codeLineAt dbg.loaded ln =
      some (shownLine (ln.address, dbg.fileName ln.fileno, ln.lineno)) := by
    intro ln hln
    have hmem := hcomplete.codeLines.mem_iff.1 (List.mem_map_of_mem hln)
    rcases List.mem_map.1 hmem with ⟨i, -, heq⟩
    have hname : dbg.fileName ln.fileno = some (cBytes i.filename.path) :=
      (congrArg (fun l => l.2.1) heq).symm
    rw [codeLineAt, dbgFile_of_name hsize hname, Option.map_some, hname]
    rfl
  refine ⟨dbg.codeLines.map fun ln => shownLine (ln.address, dbg.fileName ln.fileno, ln.lineno),
    ?_, ?_⟩
  · rw [codeLinesAt, hnCode,
      mapM_range fun i ln hi => by rw [dbgCodeLine_loaded hsize hi, Option.bind_some],
      mapM_eq_filterMap fun ln hln => by rw [hline ln hln, Option.isSome_some],
      List.filterMap_congr hline, List.filterMap_eq_map']
  · have hperm := hcomplete.codeLines.map shownLine
    rw [List.map_map, List.map_map] at hperm
    exact hperm

end Symbols

/-! ## The table of the debugger -/

/-- The table has the symbols that are put, under their names. -/
theorem mapAfter_symbols (symbols : List DbgSymbol) (k : CStr) :
    (∀ s, mapAfter (symbols.map (fun s => MapOp.put s.label s)) k = some s →
      s ∈ symbols ∧ s.label = k) ∧
    ((∃ s ∈ symbols, s.label = k) →
      mapAfter (symbols.map (fun s => MapOp.put s.label s)) k ≠ none) := by
  induction symbols using List.reverseRecOn with
  | nil =>
      constructor
      · intro s hs
        cases hs
      · rintro ⟨s, hs, -⟩
        cases hs
  | append_singleton symbols last ih =>
      rw [List.map_append, List.map_singleton, mapAfter_append, MapOp.apply,
        Function.update_apply]
      split
      · next hk =>
          constructor
          · intro s hs
            obtain rfl := Option.some.inj hs
            exact ⟨List.mem_append_right _ (List.mem_singleton_self _), hk.symm⟩
          · intro _
            exact Option.some_ne_none _
      · next hk =>
          constructor
          · intro s hs
            exact ⟨List.mem_append_left _ (ih.1 s hs).1, (ih.1 s hs).2⟩
          · rintro ⟨s, hs, hlabel⟩
            rcases List.mem_append.1 hs with hs | hs
            · exact ih.2 ⟨s, hs, hlabel⟩
            · rw [List.mem_singleton.1 hs] at hlabel
              exact absurd hlabel.symm hk

theorem mem_hmapIterate {room : ℕ} {symbols : List DbgSymbol} {m : HashmapMap DbgSymbol}
    (hrun : setupLabels room symbols = some m) (k : CStr) (s : DbgSymbol) :
    (k, s) ∈ hmapIterate m ↔
      mapAfter (symbols.map (fun s => MapOp.put s.label s)) k = some s := by
  have h := hashed_run (putsNew_map symbols) hrun
  rw [hmapIterate_eq h.sound, Probing.mem_entries, h.holds]

/-- There is a state for every table. -/
theorem exists_setupState {room : ℕ} {data : VmDebugData} {symbols : List DbgSymbol}
    {m : HashmapMap DbgSymbol} {lines : List CodeLine} (hsymbols : setupSymbols data = some symbols)
    (hrun : setupLabels room symbols = some m) (hlines : codeLinesAt data = some lines) :
    ∃ t, SetupState room data t := by
  have h := hashed_run (putsNew_map symbols) hrun
  have hkeys : ((hmapIterate m).map Prod.snd).map DbgSymbol.label =
      (hmapIterate m).map Prod.fst := by
    rw [List.map_map]
    apply List.map_congr_left
    rintro ⟨k, s⟩ hmem
    exact ((mapAfter_symbols symbols k).1 s ((mem_hmapIterate hrun k s).1 hmem)).2
  have hnodup : (((hmapIterate m).map Prod.snd).map DbgSymbol.label).Nodup := by
    rw [hkeys, hmapIterate_eq h.sound]
    exact h.sound.valid.nodup_entries
  exact ⟨⟨lines, _, hnodup⟩, ⟨symbols, m, hsymbols, hrun, rfl⟩, hlines⟩

/-- Of several symbols of an address, `address_label` has one. -/
theorem foldl_findLabel (address : UInt32) (isMemRef : Bool) (labels : List DbgSymbol)
    (descr : Option CStr) :
    (∀ k, labels.foldl (findLabel address isMemRef) descr = some k →
      descr = some k ∨ ⟨k, isMemRef, address⟩ ∈ labels) ∧
    (labels.foldl (findLabel address isMemRef) descr = none →
      descr = none ∧ ∀ k, ⟨k, isMemRef, address⟩ ∉ labels) := by
  induction labels generalizing descr with
  | nil =>
      refine ⟨fun k hk => Or.inl hk, fun hnone => ⟨hnone, fun k hk => ?_⟩⟩
      cases hk
  | cons l labels ih =>
      rw [List.foldl_cons]
      rcases ih (findLabel address isMemRef descr l) with ⟨hsome, hnone⟩
      constructor
      · intro k hk
        rcases hsome k hk with hfind | hmem
        · unfold findLabel at hfind
          split at hfind
          · next hat =>
              rcases hat with ⟨rfl, rfl⟩
              obtain rfl := Option.some.inj hfind
              exact Or.inr List.mem_cons_self
          · exact Or.inl hfind
        · exact Or.inr (List.mem_cons_of_mem _ hmem)
      · intro hk
        rcases hnone hk with ⟨hfind, hrest⟩
        unfold findLabel at hfind
        split at hfind
        · cases hfind
        · next hat =>
            refine ⟨hfind, fun k hmem => ?_⟩
            rcases List.mem_cons.1 hmem with rfl | hmem
            · exact hat ⟨rfl, rfl⟩
            · exact hrest k hmem

section Table

variable {p : PrsResult T} {room : ℕ} {data : VmDebugData} {t : DbgSymbols}
  {symbols : List DbgSymbol} (ht : SetupState room data t)
  (hsymbols : setupSymbols data = some symbols) (hall : ∀ s ∈ symbols, p.IsSymbol s)

include ht hsymbols

theorem SetupState.mem_labels (s : DbgSymbol) : s ∈ t.labels ↔
    ∃ k, mapAfter (symbols.map (fun s => MapOp.put s.label s)) k = some s := by
  rcases ht.labels with ⟨symbols', m, hsymbols', hrun, hlabels⟩
  rw [hsymbols] at hsymbols'
  obtain rfl := Option.some.inj hsymbols'
  rw [hlabels, List.mem_map]
  constructor
  · rintro ⟨⟨k, s⟩, hmem, rfl⟩
    exact ⟨k, (mem_hmapIterate hrun k s).1 hmem⟩
  · rintro ⟨k, hk⟩
    exact ⟨(k, s), (mem_hmapIterate hrun k s).2 hk, rfl⟩

include hall

theorem SetupState.isSymbol {s : DbgSymbol} (hs : s ∈ t.labels) : p.IsSymbol s := by
  rcases (ht.mem_labels hsymbols s).1 hs with ⟨k, hk⟩
  exact hall s ((mapAfter_symbols symbols k).1 s hk).1

/-- **A name is looked up** and found exactly if it is a label of the source. -/
theorem SetupState.get_eq_some
    (hcover : ∀ k label, p.labels.get k = some label → ∃ s ∈ symbols, s.label = k) {k : CStr}
    {s : DbgSymbol} : t.get k = some s ↔ s.label = k ∧ p.IsSymbol s := by
  have hfound {s : DbgSymbol} (h : t.get k = some s) : s.label = k ∧ p.IsSymbol s := by
    have hlabel := List.find?_some h
    exact ⟨of_decide_eq_true hlabel, ht.isSymbol hsymbols hall (List.mem_of_find?_eq_some h)⟩
  constructor
  · exact hfound
  · rintro ⟨hlabel, hsymbol⟩
    rcases hsymbol with ⟨label, hget, hrest⟩
    have hne := (mapAfter_symbols symbols k).2 (hcover k label (hlabel ▸ hget))
    rcases Option.ne_none_iff_exists'.1 hne with ⟨s₁, hs₁⟩
    have hmem : s₁ ∈ t.labels := (ht.mem_labels hsymbols s₁).2 ⟨k, hs₁⟩
    have hlabel₁ : s₁.label = k := ((mapAfter_symbols symbols k).1 s₁ hs₁).2
    cases hget₂ : t.get k with
    | none =>
        have hno := List.find?_eq_none.1 hget₂ s₁ hmem
        exact absurd (decide_eq_true hlabel₁) hno
    | some s₂ =>
        rcases hfound hget₂ with ⟨hlabel₂, hsymbol₂⟩
        rw [hsymbol₂.unique ⟨label, hget, hrest⟩ (hlabel₂.trans hlabel.symm)]

end Table

/-- What the debugger knows of a source: `resolve_address` gives the address of a label of the kind
it is asked for, rejects one of the other kind, and takes every other name for a number;
`address_label` finds a label of the address if there is one; and the lines are those of the
instructions. -/
structure DbgSymbols.Knows (t : DbgSymbols) (p : PrsResult T) : Prop where
  labels : ∀ k label, p.labels.get k = some label → ∃ address,
    p.labelAddress label = some address ∧ ∀ isMemRef,
      resolveAddress k (some t) isMemRef = if label.isMemRef = isMemRef then address else badNumber
  numbers : ∀ k, p.labels.get k = none → ∀ isMemRef,
    resolveAddress k (some t) isMemRef = resolveAddress k none isMemRef
  named : ∀ address isMemRef k, addressLabel address (some t) isMemRef = some k →
    p.IsSymbol ⟨k, isMemRef, address⟩
  unnamed : ∀ address isMemRef, addressLabel address (some t) isMemRef = none →
    ∀ k, ¬ p.IsSymbol ⟨k, isMemRef, address⟩
  codeLines : t.codeLines.Perm (p.instns.map fun i =>
    ⟨i.memOffset, i.lineno, textOf (cBytes i.filename.path)⟩)

/-- **The debugger knows the source** for which the debug data is complete: `setup_state` reads
inside the block, and whatever table it makes has the labels of the source and no others. -/
theorem setupState_knows {p : PrsResult T} {qsort : Qsort} {order : VisitOrder p.labels}
    {dbg : DebugT} (hn : p.nInstns < 2 ^ 32)
    (hnames : ∀ k label, p.labels.get k = some label → IsCString k) (hfit : p.DebugFit order)
    (hdbg : mkDebugData qsort p order = .ok dbg) (hsize : dbg.size < 2 ^ 32) :
    (∃ symbols lines, setupSymbols dbg.loaded = some symbols ∧
      codeLinesAt dbg.loaded = some lines) ∧
      ∀ room t, SetupState room dbg.loaded t → t.Knows p := by
  rcases mkDebugData_inv hdbg with ⟨start, data, hlines, -, hstrings, -, hinv, -, hsorted⟩
  have hmem : dbg.memLines.Perm data.dbg.memLines := by
    rw [hsorted]
    exact qsort.perm _ _
  have hcode : dbg.codeLines.Perm data.dbg.codeLines := by
    rw [hsorted]
    exact qsort.perm _ _
  have hcomplete : dbg.Complete p := by
    refine (complete_of_fit hinv hlines hstrings hn hfit).perm ?_ ?_ ?_ hcode hmem <;> rw [hsorted]
  have hname (isMemRef : Bool) (ln : DbgLineAssoc) (h : data.dbg.Names p isMemRef ln) :
      dbg.Names p isMemRef ln := by
    rw [hsorted]
    exact h
  rcases setupSymbols_spec hsize hnames hcomplete
      (fun ln hln => hname _ _ (names_memLine hinv hfit.count (hmem.mem_iff.1 hln)))
      (fun ln hln href =>
        hname _ _ (names_codeLine hinv hfit.count hlines (hcode.mem_iff.1 hln) href)) with
    ⟨symbols, hsymbols, hall, hcover⟩
  rcases codeLinesAt_spec hsize hcomplete with ⟨lines, hcodeLines, hperm⟩
  refine ⟨⟨symbols, lines, hsymbols, hcodeLines⟩, fun room t ht => ?_⟩
  have hget {k : CStr} {s : DbgSymbol} : t.get k = some s ↔ s.label = k ∧ p.IsSymbol s :=
    ht.get_eq_some hsymbols hall hcover
  constructor
  · intro k label hlabel
    rcases hcover k label hlabel with ⟨s, hs, rfl⟩
    have hfound : t.get s.label = some s := hget.2 ⟨rfl, hall s hs⟩
    rcases hall s hs with ⟨label', hlabel', hkind, haddress⟩
    rw [hlabel] at hlabel'
    obtain rfl := Option.some.inj hlabel'
    refine ⟨s.address, haddress, ?_⟩
    intro isMemRef
    rw [resolveAddress, Option.bind_some, hfound, hkind]
    exact ite_not _ _ _
  · intro k hnone isMemRef
    have hmissing : t.get k = none := by
      cases hfound : t.get k with
      | none => rfl
      | some s =>
          rcases hget.1 hfound with ⟨rfl, label, hlabel, -⟩
          rw [hnone] at hlabel
          cases hlabel
    rw [resolveAddress, resolveAddress, Option.bind_some, hmissing, Option.bind_none]
  · intro address isMemRef k hk
    rcases (foldl_findLabel address isMemRef t.labels none).1 k hk with hdescr | hlabel
    · cases hdescr
    · exact ht.isSymbol hsymbols hall hlabel
  · intro address isMemRef hnone k hsymbol
    have hfound : t.get k = some ⟨k, isMemRef, address⟩ := hget.2 ⟨rfl, hsymbol⟩
    have hno := ((foldl_findLabel address isMemRef t.labels none).2 hnone).2 k
    exact hno (List.mem_of_find?_eq_some hfound)
  · obtain rfl : lines = t.codeLines := Option.some.inj (hcodeLines.symm.trans ht.codeLines)
    exact hperm

end BvgzVm
