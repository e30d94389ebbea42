import BvgzVm.Asm.EntryPoint
import BvgzVm.Asm.LabelCells
import BvgzVm.Asm.LabelEncoding
import BvgzVm.Lib.Overlay

set_option autoImplicit false

/-! # Labels in the data

`write_args` and `resolve_data_label_refs` both turn a label into an address, one for the operands
of instructions and one for the cells of `&label` directives. After `parse_to_bytecode` both take
it from the `mem_offset` of the instruction that the label counts up to.

`resolve_data_label_refs` looks that instruction up before it asks whether it exists, and it writes
one cell after the other without looking at what the earlier ones hold. So the cells hold what the
operands hold exactly when the first label without an address, if there is one, is not behind the
last instruction, and cells that overlap ask for the same bytes (`dataLabels_iff`).
-/

namespace BvgzVm

open Bytes CLib Fallible Overlay

variable {T : InstnTable}

/-! ## What the cells are for -/

/-- The label is a data label, or an emitted instruction follows it. -/
def PrsResult.hasAddress (debugMode : Bool) (p : PrsResult T) (k : CStr) : Bool :=
  match p.labels.get k with
  | none => false
  | some label =>
      label.isMemRef || (firstEmitted debugMode p.instns label.offset.toNat).isSome

/-- The label is a code label behind the last instruction. -/
def PrsResult.AtEnd (p : PrsResult T) (k : CStr) : Prop :=
  ∃ label, p.labels.get k = some label ∧ label.isMemRef = false ∧ p.nInstns ≤ label.offset.toNat

/-- The bytes of the number that the label of a cell stands for. -/
def LabelRef.bytes (debugMode : Bool) (p : PrsResult T) (ref : LabelRef) : List UInt8 :=
  toLE ref.width (resolveLabel debugMode p.labels p.instns ref.label).toNat

/-- The bytes outside all cells are the same in `p` and `p'`. -/
def RestKept (p p' : PrsResult T) : Prop :=
  ∀ i, (∀ ref ∈ p.labelRefs,
      ¬ (ref.writeOffset.toNat ≤ i ∧ i < ref.writeOffset.toNat + ref.width)) →
    p'.memory[i]? = p.memory[i]?

/-- What `resolve_data_label_refs` may come to: every cell holds the number of its label, or some
label has no address. It does not access what is not there. -/
inductive CellsResolved (debugMode : Bool) (p : PrsResult T) :
    Except AsmFault (Bool × PrsResult T) → Prop
  | stored {p' : PrsResult T} (rest : RestKept p p')
      (cells : ∀ ref ∈ p.labelRefs, load p'.memory ref.writeOffset.toNat ref.width =
        some (resolveLabel debugMode p.labels p.instns ref.label).toNat) :
      CellsResolved debugMode p (.ok (true, p'))
  | failed {p' : PrsResult T} (rest : RestKept p p') (ref : LabelRef)
      (first : p.labelRefs.find? (fun ref => !p.hasAddress debugMode ref.label) = some ref) :
      CellsResolved debugMode p (.ok (false, p'))

/-- The cells are resolved, and every operand of an emitted instruction that is a label is encoded
as the same number. -/
structure DataLabelsResolved (debugMode : Bool) (p : PrsResult T) (b : Bytecode T) : Prop where
  data : CellsResolved debugMode p (resolveDataLabelRefs b.parse.labelRefs b.parse)
  operands : ∀ i ∈ b.parse.instns, i.emitted debugMode = true →
    ∀ (j : Nat) a k, i.args[j]? = some a → a.label? = some k →
      load b.code (i.memOffset.toNat + i.operandOffset j) 4 =
        some (resolveLabel debugMode p.labels p.instns k).toNat

/-- The first cell whose label has no address is not for a label behind the last instruction. -/
def PrsResult.EndNotReached (debugMode : Bool) (p : PrsResult T) : Prop :=
  ∀ ref, p.labelRefs.find? (fun ref => !p.hasAddress debugMode ref.label) = some ref →
    ¬ p.AtEnd ref.label

/-- If all labels of cells have addresses, then cells that overlap ask for the same bytes. -/
def PrsResult.CellsAgree (debugMode : Bool) (p : PrsResult T) : Prop :=
  (∀ ref ∈ p.labelRefs, p.hasAddress debugMode ref.label = true) →
    ∀ ref ∈ p.labelRefs, ∀ ref' ∈ p.labelRefs, ∀ i x x',
      at? ref.writeOffset.toNat (ref.bytes debugMode p) i = some x →
      at? ref'.writeOffset.toNat (ref'.bytes debugMode p) i = some x' → x = x'

/-! ## One label -/

section Layout

variable {debugMode : Bool} {p q : PrsResult T}

/-- `q` has the labels of `p`, its instructions with their addresses, and as much memory. -/
structure LaidOut (debugMode : Bool) (p q : PrsResult T) : Prop where
  labels : q.labels = p.labels
  instns : q.instns = placed debugMode p.instns p.instns.length
  memory : q.memory.length = p.memory.length

theorem hasAddress_of_some {k : CStr} {label : Label} (hget : p.labels.get k = some label) :
    p.hasAddress debugMode k =
      (label.isMemRef || (firstEmitted debugMode p.instns label.offset.toNat).isSome) := by
  unfold PrsResult.hasAddress
  rw [hget]

theorem resolveLabel_of_some {k : CStr} {label : Label} (hget : p.labels.get k = some label) :
    resolveLabel debugMode p.labels p.instns k =
      if label.isMemRef then label.offset else addressAt debugMode p.instns label.offset.toNat := by
  unfold resolveLabel
  rw [hget]

/-- A label behind the last instruction has no address. -/
theorem hasAddress_of_atEnd {k : CStr} (h : p.AtEnd k) : p.hasAddress debugMode k = false := by
  rcases h with ⟨label, hget, hcode, hend⟩
  rw [hasAddress_of_some hget, hcode, Bool.false_or, firstEmitted,
    List.drop_of_length_le hend, List.find?_nil, Option.isSome_none]

/-- A label behind the last instruction is looked up outside the instructions. -/
theorem dataLabelValue_atEnd (hq : LaidOut debugMode p q) {label : Label}
    (hcode : label.isMemRef = false) (hend : p.nInstns ≤ label.offset.toNat) :
    dataLabelValue q label = .error .instnIndex := by
  have hnone : q.instns[label.offset.toNat]? = none := by
    apply List.getElem?_eq_none
    rw [hq.instns, length_placed]
    exact hend
  unfold dataLabelValue
  rw [hcode, if_neg Bool.false_ne_true, hnone]

/-- **The number of a label** that has an address is the one that its operands get; a label without
one has none. -/
theorem dataLabelValue_layout (hmax : codeSize debugMode p.instns ≤ maxCodeSize)
    (hq : LaidOut debugMode p q) {k : CStr} {label : Label} (hget : p.labels.get k = some label)
    (hinside : label.isMemRef = false → label.offset.toNat < p.nInstns) :
    dataLabelValue q label = .ok (if p.hasAddress debugMode k
      then some (resolveLabel debugMode p.labels p.instns k) else none) := by
  rw [hasAddress_of_some hget, resolveLabel_of_some hget]
  unfold dataLabelValue
  by_cases hmem : label.isMemRef = true
  · rw [if_pos hmem, if_pos hmem, hmem, Bool.true_or, if_pos rfl]
  · have hcode : label.isMemRef = false := Bool.eq_false_of_not_eq_true hmem
    have hlt : label.offset.toNat < p.instns.length := hinside hcode
    have hinstn : q.instns[label.offset.toNat]? = some (p.instns[label.offset.toNat].setOffset
        (addressAt debugMode p.instns label.offset.toNat)) := by
      rw [hq.instns, getElem?_placed, List.getElem?_eq_getElem hlt, Option.map_some, addressAt]
    rw [if_neg hmem, if_neg hmem, hinstn, hcode, Bool.false_or]
    by_cases hsome : (firstEmitted debugMode p.instns label.offset.toNat).isSome = true
    · -- the address is a real one, so it is not the sentinel
      have hne : addressAt debugMode p.instns label.offset.toNat ≠ noOffset := by
        intro heq
        have htoNat := toNat_addressAt hmax hsome
        have hle : codeSize debugMode (p.instns.take label.offset.toNat) ≤
            codeSize debugMode p.instns := codeSize_take_le_all _
        have hno : noOffset.toNat = 2 ^ 32 - 1 := rfl
        unfold maxCodeSize at hmax
        rw [heq] at htoNat
        omega
      rw [if_pos hsome]
      exact if_neg hne
    · have hnone := Bool.eq_false_of_not_eq_true hsome
      rw [if_neg hsome]
      exact if_pos (addressAt_eq_noOffset hnone)

/-! ## One cell -/

/-- The bytes at all indices; `none` outside the block. -/
def contents (p : PrsResult T) : ℕ → Option UInt8 := fun i => p.memory[i]?

/-- A cell as a piece that is laid over the memory. -/
def LabelRef.piece (debugMode : Bool) (p : PrsResult T) (ref : LabelRef) :
    ℕ × List (Option UInt8) := (ref.writeOffset.toNat, (ref.bytes debugMode p).map some)

theorem length_bytes (ref : LabelRef) : (ref.bytes debugMode p).length = ref.width :=
  length_toLE _ _

theorem write_overlay {buf buf' bs : List UInt8} {off : ℕ} (h : write buf off bs = some buf') :
    (fun i => buf'[i]?) = overlay (fun i => buf[i]?) off (bs.map some) := by
  funext i
  rw [write_getElem? h, overlay_eq_getD, at?_map]
  unfold at?
  by_cases hlow : off ≤ i
  · by_cases hhigh : i < off + bs.length
    · have hget : bs[i - off]? = some bs[i - off] := List.getElem?_eq_getElem (by omega)
      rw [if_pos ⟨hlow, by omega⟩, if_pos hlow, hget, Option.map_some, Option.getD_some]
    · have hget : bs[i - off]? = none := List.getElem?_eq_none (by omega)
      rw [if_neg (by omega), if_pos hlow, hget, Option.map_none, Option.getD_none]
  · rw [if_neg (by omega), if_neg hlow, Option.map_none, Option.getD_none]

variable {ref : LabelRef}

theorem resolveDataLabelRef_atEnd (hq : LaidOut debugMode p q) (h : p.AtEnd ref.label) :
    resolveDataLabelRef ref q = .error .instnIndex := by
  rcases h with ⟨label, hget, hcode, hend⟩
  unfold resolveDataLabelRef
  rw [hq.labels, hget]
  simp only [dataLabelValue_atEnd hq hcode hend, error_bind]

/-- A cell whose label has no address stops the loop. -/
theorem resolveDataLabelRef_stops (hmax : codeSize debugMode p.instns ≤ maxCodeSize)
    (hq : LaidOut debugMode p q) (h : p.hasAddress debugMode ref.label = false)
    (hend : ¬ p.AtEnd ref.label) :
    ∃ q', resolveDataLabelRef ref q = .ok (false, q') ∧ contents q' = contents q := by
  unfold resolveDataLabelRef
  cases hget : p.labels.get ref.label with
  | none =>
      rw [hq.labels, hget]
      exact ⟨_, rfl, rfl⟩
  | some label =>
      have hinside : label.isMemRef = false → label.offset.toNat < p.nInstns := by
        intro hcode
        by_contra hge
        exact hend ⟨label, hget, hcode, Nat.le_of_not_lt hge⟩
      rw [hq.labels, hget]
      simp only [dataLabelValue_layout hmax hq hget hinside, h, Bool.false_eq_true, if_false,
        ok_bind]
      exact ⟨_, rfl, rfl⟩

/-- **A cell whose label has an address** gets the bytes of this address. -/
theorem resolveDataLabelRef_stores (hmax : codeSize debugMode p.instns ≤ maxCodeSize)
    (hq : LaidOut debugMode p q) (h : p.hasAddress debugMode ref.label = true)
    (hin : ref.Inside p.toDataArea) :
    ∃ q', resolveDataLabelRef ref q = .ok (true, q') ∧ LaidOut debugMode p q' ∧
      contents q' = overlay (contents q) ref.writeOffset.toNat ((ref.bytes debugMode p).map some) := by
  have hend : ¬ p.AtEnd ref.label := by
    intro hend
    rw [hasAddress_of_atEnd hend] at h
    cases h
  unfold resolveDataLabelRef
  cases hget : p.labels.get ref.label with
  | none =>
      unfold PrsResult.hasAddress at h
      rw [hget] at h
      cases h
  | some label =>
      have hinside : label.isMemRef = false → label.offset.toNat < p.nInstns := by
        intro hcode
        by_contra hge
        exact hend ⟨label, hget, hcode, Nat.le_of_not_lt hge⟩
      have hsome : (store q.memory ref.writeOffset.toNat ref.width
          (resolveLabel debugMode p.labels p.instns ref.label).toNat).isSome = true := by
        rw [store_isSome, hq.memory]
        exact hin
      rcases Option.isSome_iff_exists.1 hsome with ⟨memory, hstore⟩
      have hget' : q.labels.get ref.label = some label := by rw [hq.labels, hget]
      rw [hget']
      simp only [dataLabelValue_layout hmax hq hget hinside, h, if_true, ok_bind]
      rw [LabelRef.width] at hstore
      rw [hstore]
      exact ⟨{ q with memory }, rfl, ⟨hq.labels, hq.instns, (store_length hstore).trans hq.memory⟩,
        write_overlay hstore⟩

/-! ## All cells -/

/-- How the loop over the cells `refs` ends, started on `q`. -/
inductive Ends (debugMode : Bool) (p : PrsResult T) (refs : List LabelRef) (q : PrsResult T) :
    Except AsmFault (Bool × PrsResult T) → Prop
  | outside (ref : LabelRef)
      (first : refs.find? (fun ref => !p.hasAddress debugMode ref.label) = some ref)
      (atEnd : p.AtEnd ref.label) : Ends debugMode p refs q (.error .instnIndex)
  | stopped (ref : LabelRef) {q' : PrsResult T}
      (first : refs.find? (fun ref => !p.hasAddress debugMode ref.label) = some ref)
      (inside : ¬ p.AtEnd ref.label)
      (before : ∃ pre : List LabelRef, (∀ ref ∈ pre, ref ∈ refs) ∧
        contents q' = overlays (contents q) (pre.map (LabelRef.piece debugMode p))) :
      Ends debugMode p refs q (.ok (false, q'))
  | done {q' : PrsResult T} (all : ∀ ref ∈ refs, p.hasAddress debugMode ref.label = true)
      (laid : contents q' = overlays (contents q) (refs.map (LabelRef.piece debugMode p))) :
      Ends debugMode p refs q (.ok (true, q'))

/-- **`resolve_data_label_refs`** lays the cells over the memory one after the other, up to the
first one whose label has no address. -/
theorem resolveDataLabelRefs_ends (hmax : codeSize debugMode p.instns ≤ maxCodeSize)
    {refs : List LabelRef} (hq : LaidOut debugMode p q)
    (hin : ∀ ref ∈ refs, ref.Inside p.toDataArea) :
    Ends debugMode p refs q (resolveDataLabelRefs refs q) := by
  induction refs generalizing q with
  | nil => exact Ends.done (fun ref href => by cases href) rfl
  | cons ref refs ih =>
      rw [resolveDataLabelRefs]
      by_cases haddr : p.hasAddress debugMode ref.label = true
      · have hfind : (ref :: refs).find? (fun ref => !p.hasAddress debugMode ref.label) =
            refs.find? (fun ref => !p.hasAddress debugMode ref.label) := by
          rw [List.find?_cons, haddr, Bool.not_true]
        rcases resolveDataLabelRef_stores hmax hq haddr (hin ref List.mem_cons_self) with
          ⟨q₁, hstep, hq₁, hcontents⟩
        simp only [hstep, ok_bind, if_true]
        have hrest := ih hq₁ (fun ref href => hin ref (List.mem_cons_of_mem _ href))
        generalize resolveDataLabelRefs refs q₁ = r at hrest ⊢
        cases hrest with
        | outside ref' first atEnd => exact Ends.outside ref' (hfind.trans first) atEnd
        | stopped ref' first inside before =>
            rcases before with ⟨pre, hpre, hpieces⟩
            refine Ends.stopped ref' (hfind.trans first) inside ⟨ref :: pre, ?_, ?_⟩
            · intro r hr
              rcases List.mem_cons.1 hr with rfl | hr
              · exact List.mem_cons_self
              · exact List.mem_cons_of_mem _ (hpre r hr)
            · rw [hpieces, hcontents]
              rfl
        | done all laid =>
            refine Ends.done ?_ ?_
            · intro r hr
              rcases List.mem_cons.1 hr with rfl | hr
              · exact haddr
              · exact all r hr
            · rw [laid, hcontents]
              rfl
      · have hnone := Bool.eq_false_of_not_eq_true haddr
        have hfind : (ref :: refs).find? (fun ref => !p.hasAddress debugMode ref.label) =
            some ref := by
          rw [List.find?_cons, hnone, Bool.not_false]
        by_cases hend : p.AtEnd ref.label
        · rw [resolveDataLabelRef_atEnd hq hend, error_bind]
          exact Ends.outside ref hfind hend
        · rcases resolveDataLabelRef_stops hmax hq hnone hend with ⟨q', hstep, hcontents⟩
          simp only [hstep, ok_bind, Bool.false_eq_true, if_false]
          exact Ends.stopped ref hfind hend ⟨[], by simp, hcontents⟩

/-- A cell holds its number exactly when its bytes are there. -/
theorem load_cell_iff {memory : List UInt8} (hlen : memory.length = p.memory.length)
    (hin : ref.Inside p.toDataArea) :
    load memory ref.writeOffset.toNat ref.width =
        some (resolveLabel debugMode p.labels p.instns ref.label).toNat ↔
      ∀ i x, at? ref.writeOffset.toNat (ref.bytes debugMode p) i = some x → memory[i]? = some x := by
  have hlt : (resolveLabel debugMode p.labels p.instns ref.label).toNat < 256 ^ ref.width := by
    have hword := (resolveLabel debugMode p.labels p.instns ref.label).toNat_lt
    have hpow : 256 ^ 4 ≤ 256 ^ ref.width := by
      apply Nat.pow_le_pow_right (by omega)
      unfold LabelRef.width
      split <;> omega
    omega
  have hread := @read_eq_some_iff_getElem? memory (ref.bytes debugMode p) ref.writeOffset.toNat
  rw [length_bytes] at hread
  rw [load_eq_some_iff hlt]
  refine hread.trans ?_
  constructor
  · rintro ⟨-, hget⟩ i x hx
    unfold at? at hx
    split at hx
    · next hlow =>
        have hk := (List.getElem?_eq_some_iff.1 hx).1
        rw [length_bytes] at hk
        rw [← hx, ← hget _ hk, Nat.add_sub_cancel' hlow]
    · cases hx
  · intro hat
    refine ⟨hlen ▸ hin, fun k hk => ?_⟩
    have hk' : k < (ref.bytes debugMode p).length := by
      rw [length_bytes]
      exact hk
    have hbyte : (ref.bytes debugMode p)[k]? = some (ref.bytes debugMode p)[k] :=
      List.getElem?_eq_getElem hk'
    rw [hbyte]
    apply hat
    unfold at?
    rw [if_pos (by omega), Nat.add_sub_cancel_left, hbyte]

/-! ## The cells and the operands -/

/-- No piece covers an index outside all cells. -/
theorem overlays_rest {refs : List LabelRef} (href : ∀ ref ∈ refs, ref ∈ p.labelRefs) {i : ℕ}
    (hout : ∀ ref ∈ p.labelRefs,
      ¬ (ref.writeOffset.toNat ≤ i ∧ i < ref.writeOffset.toNat + ref.width))
    (f : ℕ → Option UInt8) : overlays f (refs.map (LabelRef.piece debugMode p)) i = f i := by
  apply overlays_outside
  intro piece hpiece
  rcases List.mem_map.1 hpiece with ⟨ref, hmem, rfl⟩
  show at? _ ((ref.bytes debugMode p).map some) i = none
  rw [at?_eq_none, List.length_map, length_bytes]
  exact hout ref (href ref hmem)

/-- The byte of a cell at an index, seen as a piece. -/
theorem at?_piece {i : ℕ} {x : Option UInt8} :
    at? (ref.piece debugMode p).1 (ref.piece debugMode p).2 i = some x ↔
      ∃ y, at? ref.writeOffset.toNat (ref.bytes debugMode p) i = some y ∧ some y = x := by
  show at? ref.writeOffset.toNat ((ref.bytes debugMode p).map some) i = some x ↔ _
  rw [at?_map, Option.map_eq_some_iff]

/-- All cells can be read back after all have been written exactly when they agree. -/
theorem cellsAgree_iff {q' : PrsResult T} (hcells : CellsInside p)
    (hlen : q'.memory.length = p.memory.length)
    (hall : ∀ ref ∈ p.labelRefs, p.hasAddress debugMode ref.label = true)
    (hlaid : contents q' =
      overlays (contents p) (p.labelRefs.map (LabelRef.piece debugMode p))) :
    (∀ ref ∈ p.labelRefs, load q'.memory ref.writeOffset.toNat ref.width =
        some (resolveLabel debugMode p.labels p.instns ref.label).toNat) ↔
      p.CellsAgree debugMode := by
  constructor
  · intro hload _ ref href ref' href' i x x' hx hx'
    have hget := (load_cell_iff hlen (hcells ref href)).1 (hload ref href) i x hx
    have hget' := (load_cell_iff hlen (hcells ref' href')).1 (hload ref' href') i x' hx'
    exact Option.some.inj (hget.symm.trans hget')
  · intro hagree ref href
    rw [load_cell_iff hlen (hcells ref href)]
    intro i x hx
    have hat := overlays_of_agree (f := contents p) (i := i) (a := some x) ?_
      (List.mem_map_of_mem href) (at?_piece.2 ⟨x, hx, rfl⟩)
    · rw [← hlaid] at hat
      exact hat
    · -- two pieces of cells that agree
      intro piece hpiece piece' hpiece' j a a' ha ha'
      rcases List.mem_map.1 hpiece with ⟨r, hr, rfl⟩
      rcases List.mem_map.1 hpiece' with ⟨r', hr', rfl⟩
      rcases at?_piece.1 ha with ⟨y, hy, rfl⟩
      rcases at?_piece.1 ha' with ⟨y', hy', rfl⟩
      rw [hagree hall r hr r' hr' j y y' hy hy']

end Layout

/-- **Labels in the data.** For a source that is parsed without errors and turned into bytecode,
`resolve_data_label_refs` stays inside the instructions and stores in every cell the number that
operands with the same label are encoded as, or stops at a label without an address, if and only if
the first cell whose label has no address is not for a label behind the last instruction, and cells
that overlap ask for the same bytes. -/
theorem dataLabels_iff {env : PrsEnv} {depth : ℕ} {erange : Bool} {filename : CStr}
    {includePaths : List CStr} {p : PrsResult T} {fill : ℕ → UInt8} {debugMode : Bool}
    {b : Bytecode T} (hparse : parseAsm env depth erange filename includePaths = .ok (some p))
    (herr : p.errors = 0) (hgen : parseToBytecode fill p debugMode = .ok b) :
    DataLabelsResolved debugMode p b ↔
      p.EndNotReached debugMode ∧ p.CellsAgree debugMode := by
  rcases parseToBytecode_eq_layout (parseAsm_errorFree hparse herr) hgen with ⟨rfl, hmax⟩
  have hcells := parseAsm_cells hparse
  have hlaid : LaidOut debugMode p (p.layout debugMode).parse := ⟨rfl, rfl, rfl⟩
  have hends := resolveDataLabelRefs_ends hmax hlaid hcells
  have hoperands : ∀ i ∈ (p.layout debugMode).parse.instns, i.emitted debugMode = true →
      ∀ (j : ℕ) a k, i.args[j]? = some a → a.label? = some k →
        load (p.layout debugMode).code (i.memOffset.toNat + i.operandOffset j) 4 =
          some (resolveLabel debugMode p.labels p.instns k).toNat := by
    intro i hi hie j a k ha hk
    rcases mem_layout hi with ⟨n, x, hx, rfl⟩
    rw [PrsInstn.setOffset_memOffset]
    have hxe : x.emitted debugMode = true := hie
    have hxa : x.args[j]? = some a := ha
    have hload := load_layout hmax hx hxe hxa hk
    exact hload
  have hdata : DataLabelsResolved debugMode p (p.layout debugMode) ↔ CellsResolved debugMode p
      (resolveDataLabelRefs p.labelRefs (p.layout debugMode).parse) :=
    ⟨DataLabelsResolved.data, fun h => ⟨h, hoperands⟩⟩
  rw [hdata]
  generalize hrun : resolveDataLabelRefs p.labelRefs (p.layout debugMode).parse = r at hends ⊢
  cases hends with
  | outside ref first atEnd =>
      constructor
      · intro h
        cases h
      · rintro ⟨hend, -⟩
        exact absurd atEnd (hend ref first)
  | stopped ref first inside before =>
      rcases before with ⟨pre, hpre, hpieces⟩
      constructor
      · intro _
        refine ⟨?_, ?_⟩
        · intro ref' first'
          rw [first] at first'
          obtain rfl := Option.some.inj first'
          exact inside
        · intro hall
          have hno := List.find?_some first
          rw [hall ref (List.mem_of_find?_eq_some first)] at hno
          cases hno
      · intro _
        refine CellsResolved.failed ?_ ref first
        intro i hout
        exact (congrFun hpieces i).trans (overlays_rest hpre hout _)
  | @done q' all laid =>
      have hlen : q'.memory.length = p.memory.length := (resolveDataLabelRefs_labels hrun).2.1
      have hiff := cellsAgree_iff hcells hlen all laid
      constructor
      · rintro ⟨-, hload⟩
        refine ⟨?_, hiff.1 hload⟩
        intro ref first
        have hno := List.find?_some first
        rw [all ref (List.mem_of_find?_eq_some first)] at hno
        cases hno
      · rintro ⟨-, hagree⟩
        refine CellsResolved.stored ?_ (hiff.2 hagree)
        intro i hout
        exact (congrFun laid i).trans (overlays_rest (fun r hr => hr) hout _)

/-! ## Sources -/

/-- `singleFile` with a memory that grows by 16 bytes. -/
def smallFile (contents : CStr) : PrsEnv := { singleFile contents with memAllocBlockSz := 16 }

/-- A cell for `e`, and a `nop` on each of the lines `linenos`. -/
def cellFor (linenos : List UInt32) (lineno : UInt32) : PrsResult stableTable where
  nFiles := 1
  reports := []
  instns := linenos.map srcNop
  memory := List.replicate 16 0
  memsz := 4
  memAlloc := 16
  labels := [(['e'], ⟨⟨0, []⟩, 3, 1, false⟩)]
  labelRefs := [⟨⟨0, []⟩, lineno, ['e'], 4, 0⟩]

/-- No instruction of these sources has an operand. -/
theorem cellFor_generated {linenos : List UInt32} {lineno : UInt32} (debugMode : Bool)
    (hp : (cellFor linenos lineno).ErrorFree)
    (hmax : codeSize debugMode (cellFor linenos lineno).instns ≤ maxCodeSize) :
    parseToBytecode (fun _ => 0) (cellFor linenos lineno) debugMode =
      .ok ((cellFor linenos lineno).layout debugMode) := by
  apply (parseToBytecode_spec (fun _ => 0) debugMode hp).2.2 hmax
  rintro i hi - k ⟨a, ha, -⟩
  rcases List.mem_map.1 hi with ⟨n, -, rfl⟩
  cases ha

theorem parseAsm_cellBetween :
    parseAsm (smallFile "nop
%data &e
e:
nop
".toList) 1 false [] [] =
      .ok (some (cellFor [1, 4] 2)) := by
  decide +kernel

/-- A label between two instructions: the cell gets its address. -/
theorem dataLabels_between :
    DataLabelsResolved false (cellFor [1, 4] 2) ((cellFor [1, 4] 2).layout false) := by
  have hgen := cellFor_generated false (parseAsm_errorFree parseAsm_cellBetween rfl)
    (by decide +kernel)
  refine (dataLabels_iff parseAsm_cellBetween rfl hgen).2 ⟨?_, ?_⟩
  · intro ref first
    have hnone : (cellFor [1, 4] 2).labelRefs.find?
        (fun ref => !(cellFor [1, 4] 2).hasAddress false ref.label) = none := by
      decide +kernel
    rw [hnone] at first
    cases first
  · intro _ ref href ref' href' i x x' hx hx'
    obtain rfl := List.mem_singleton.1 href
    obtain rfl := List.mem_singleton.1 href'
    exact Option.some.inj (hx.symm.trans hx')

theorem parseAsm_cellAtEnd :
    parseAsm (smallFile "nop
%data &e
e:
".toList) 1 false [] [] =
      .ok (some (cellFor [1] 2)) := by
  decide +kernel

/-- A label at the end of the source: `resolve_data_label_refs` accesses the instruction behind
the last one. -/
theorem dataLabel_at_end :
    parseAsm (smallFile "nop
%data &e
e:
".toList) 1 false [] [] =
        .ok (some (cellFor [1] 2)) ∧
      (cellFor [1] 2).errors = 0 ∧
      parseToBytecode (fun _ => 0) (cellFor [1] 2) false = .ok ((cellFor [1] 2).layout false) ∧
      resolveDataLabelRefs (cellFor [1] 2).labelRefs ((cellFor [1] 2).layout false).parse =
        .error .instnIndex ∧
      ¬ DataLabelsResolved false (cellFor [1] 2) ((cellFor [1] 2).layout false) := by
  have hgen := cellFor_generated false (parseAsm_errorFree parseAsm_cellAtEnd rfl)
    (by decide +kernel)
  have hfault : resolveDataLabelRefs (cellFor [1] 2).labelRefs
      ((cellFor [1] 2).layout false).parse = .error .instnIndex := by
    decide +kernel
  refine ⟨parseAsm_cellAtEnd, rfl, hgen, hfault, ?_⟩
  intro h
  have hdata := h.data
  have hsame : ((cellFor [1] 2).layout false).parse.labelRefs = (cellFor [1] 2).labelRefs := rfl
  rw [hsame, hfault] at hdata
  cases hdata

end BvgzVm
