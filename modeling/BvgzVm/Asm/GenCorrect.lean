import BvgzVm.Asm.Addresses
import BvgzVm.Lib.Patch

set_option autoImplicit false

/-! # The generator produces the layout

`parse_to_bytecode` returns exactly when the code fits in the buffer and every code label of an
emitted instruction is the index of an instruction, and then it returns the code and the addresses
of `Asm/Layout.lean` (`parseToBytecode_spec`).

The proof follows the loop. `GenInv` is the state after `i` instructions: the offset is the size
of what is emitted before, the buffer agrees with the final code outside the delayed references,
each of which stands where the final code has the address of its instruction, and the addresses
are those known so far.
-/

namespace BvgzVm

open Bytes CLib Patch Fallible

variable {T : InstnTable}

/-! ## Growing the buffer -/

/-- The loop ends with enough room, and keeps what is written. -/
theorem growLoop_of_le (fill : Nat → UInt8) {need fuel nBlocks : Nat} {buffer : List UInt8}
    (hlen : buffer.length = nBlocks * 256) (hblocks : nBlocks < 2 ^ 24)
    (hneed : need ≤ maxCodeSize) (hfuel : 2 ^ 24 ≤ nBlocks + fuel) :
    ∃ n' buffer', growLoop fill need fuel nBlocks buffer = .ok (n', buffer') ∧
      n' < 2 ^ 24 ∧ buffer'.length = n' * 256 ∧ need ≤ buffer'.length ∧
      ∀ w target gaps n, Agrees w target gaps n buffer → Agrees w target gaps n buffer' := by
  unfold maxCodeSize at hneed
  induction fuel generalizing nBlocks buffer with
  | zero => omega
  | succ fuel ih =>
      have hmod : nBlocks * bufBlockSize % 2 ^ 32 = nBlocks * 256 := by
        unfold bufBlockSize
        omega
      rw [growLoop, hmod]
      by_cases hroom : need > nBlocks * 256
      · have hmod' : (nBlocks + 1) * bufBlockSize % 2 ^ 32 = (nBlocks + 1) * 256 := by
          unfold bufBlockSize
          omega
        rw [if_pos hroom, hmod']
        have hgrown := length_resize fill buffer ((nBlocks + 1) * 256)
        rcases ih hgrown (by omega) (by omega) with ⟨n', buffer', heq, hn', hlen', hle, hkeep⟩
        refine ⟨n', buffer', heq, hn', hlen', hle, ?_⟩
        intro w target gaps n h
        exact hkeep w target gaps n (h.resize fill (by omega))
      · rw [if_neg hroom]
        exact ⟨nBlocks, buffer, rfl, hblocks, hlen, by omega, fun _ _ _ _ h => h⟩

/-- No multiple of the block size is large enough: the loop does not end. -/
theorem growLoop_of_lt (fill : Nat → UInt8) {need : Nat} (fuel nBlocks : Nat)
    (buffer : List UInt8) (hneed : maxCodeSize < need) :
    growLoop fill need fuel nBlocks buffer = .error .hang := by
  induction fuel generalizing nBlocks buffer with
  | zero => rfl
  | succ fuel ih =>
      have hlt : nBlocks * bufBlockSize % 2 ^ 32 < need := by
        unfold maxCodeSize at hneed
        unfold bufBlockSize
        omega
      rw [growLoop, if_pos hlt]
      exact ih _ _

/-- Every code label of an emitted instruction is the index of an instruction. -/
def PrsResult.CodeLabelsInside (p : PrsResult T) (debugMode : Bool) : Prop :=
  ∀ i ∈ p.instns, i.emitted debugMode = true → ∀ k, i.mentions k →
    ∀ label, p.labels.get k = some label → label.isMemRef = false →
      label.offset.toNat < p.nInstns

/-! ## The state of the generator -/

section Generator

variable (labels : LabelMap) (debugMode : Bool) (l : List (PrsInstn T)) (target : List UInt8)

/-- The code label `k` is the index of an instruction, or a reference to it is delayed. -/
def Recorded (g : Gen T) (k : CStr) : Prop :=
  ∀ label, labels.get k = some label → label.isMemRef = false →
    label.offset.toNat < l.length ∨ ∃ r ∈ g.delayedRefs, r.instn = label.offset.toNat

/-- `idx` is the offset of a code label of an emitted instruction. -/
def Named (idx : Nat) : Prop :=
  ∃ x ∈ l, x.emitted debugMode = true ∧ ∃ k, x.mentions k ∧
    ∃ label, labels.get k = some label ∧ label.isMemRef = false ∧ label.offset.toNat = idx

/-- What is written agrees with `target` outside the delayed references. These stand where
`target` has the address of their instruction, which is that of a label. -/
structure Written (g : Gen T) : Prop where
  agrees : Agrees 4 target (g.delayedRefs.map Ref.offset) g.offset g.buffer
  delayed : ∀ r ∈ g.delayedRefs, r.offset + 4 ≤ g.offset ∧
    toLE 4 (addressAt debugMode l r.instn).toNat <+: target.drop r.offset
  named : ∀ r ∈ g.delayedRefs, Named labels debugMode l r.instn

/-- `g'` comes after `g` when `n` bytes have been written into the buffer. -/
structure Advances (n : Nat) (g g' : Gen T) : Prop where
  offset : g'.offset = g.offset + n
  instns : g'.instns = g.instns
  nBlocks : g'.nBlocks = g.nBlocks
  length : g'.buffer.length = g.buffer.length
  delayedRefs : ∀ r ∈ g.delayedRefs, r ∈ g'.delayedRefs

/-- **The state after `i` instructions.** -/
structure GenInv (i : Nat) (g : Gen T) : Prop where
  written : Written labels debugMode l target g
  offset : g.offset = codeSize debugMode (l.take i)
  size : codeSize debugMode (l.take i) ≤ maxCodeSize
  instns : g.instns = placed debugMode l i
  blocks : g.buffer.length = g.nBlocks * 256
  nBlocks : g.nBlocks < 2 ^ 24
  recorded : ∀ x ∈ l.take i, x.emitted debugMode = true → ∀ k, x.mentions k →
    Recorded labels l g k

variable {labels debugMode l target}

theorem Advances.refl (g : Gen T) : Advances 0 g g :=
  ⟨rfl, rfl, rfl, rfl, fun _ h => h⟩

theorem Advances.trans {n m : Nat} {g g' g'' : Gen T} (h : Advances n g g')
    (h' : Advances m g' g'') : Advances (n + m) g g'' where
  offset := by rw [h'.offset, h.offset, Nat.add_assoc]
  instns := h'.instns.trans h.instns
  nBlocks := h'.nBlocks.trans h.nBlocks
  length := h'.length.trans h.length
  delayedRefs := fun r hr => h'.delayedRefs r (h.delayedRefs r hr)

theorem Recorded.mono {g g' : Gen T} {k : CStr} (h : Recorded labels l g k)
    (hsub : ∀ r ∈ g.delayedRefs, r ∈ g'.delayedRefs) : Recorded labels l g' k := by
  intro label hget hcode
  rcases h label hget hcode with hlt | ⟨r, hr, heq⟩
  · exact Or.inl hlt
  · exact Or.inr ⟨r, hsub r hr, heq⟩

/-! ## Writing -/

/-- The next bytes of the target can be written where there is room. -/
theorem emit_spec {bs : List UInt8} {g : Gen T} (hg : Written labels debugMode l target g)
    (hbs : bs <+: target.drop g.offset) (hroom : g.offset + bs.length ≤ g.buffer.length) :
    ∃ g', emit bs g = .ok g' ∧ Written labels debugMode l target g' ∧ Advances bs.length g g' := by
  rcases Option.isSome_iff_exists.1 (write_isSome.2 hroom) with ⟨buffer, hw⟩
  refine ⟨{ g with buffer, offset := g.offset + bs.length }, ?_, ?_, ?_⟩
  · rw [emit, hw]
  · constructor
    · exact hg.agrees.write hbs hw
    · intro r hr
      rcases hg.delayed r hr with ⟨hle, htarget⟩
      exact ⟨Nat.le_trans hle (Nat.le_add_right _ _), htarget⟩
    · exact hg.named
  · exact ⟨rfl, rfl, rfl, write_length hw, fun _ h => h⟩

/-- A delayed reference to an instruction whose address the target has here. -/
theorem addDelayedRef_spec {idx : Nat} {g : Gen T} (hg : Written labels debugMode l target g)
    (hnamed : Named labels debugMode l idx)
    (hbs : toLE 4 (addressAt debugMode l idx).toNat <+: target.drop g.offset)
    (hroom : g.offset + 4 ≤ g.buffer.length) :
    Written labels debugMode l target (addDelayedRef idx g) ∧ Advances 4 g (addDelayedRef idx g) := by
  constructor
  · constructor
    · have hskip := hg.agrees.skip hroom
      rw [addDelayedRef, List.map_append]
      exact hskip
    · intro r hr
      rcases List.mem_append.1 hr with hr | hr
      · rcases hg.delayed r hr with ⟨hle, htarget⟩
        exact ⟨Nat.le_trans hle (Nat.le_add_right _ _), htarget⟩
      · obtain rfl := List.mem_singleton.1 hr
        exact ⟨le_refl _, hbs⟩
    · intro r hr
      rcases List.mem_append.1 hr with hr | hr
      · exact hg.named r hr
      · obtain rfl := List.mem_singleton.1 hr
        exact hnamed
  · exact ⟨rfl, rfl, rfl, rfl, fun r hr => List.mem_append_left _ hr⟩

variable {i : Nat} {x : PrsInstn T}

/-- Up to the current instruction, the addresses that are known are the final ones. -/
theorem placedAddress_eq_addressAt (h : l[i]? = some x) (hx : x.emitted debugMode = true) {j : Nat}
    (hj : j ≤ i) : placedAddress debugMode l (i + 1) j = addressAt debugMode l j := by
  have hlen : i < l.length := (List.getElem?_eq_some_iff.1 h).1
  have hany : (l.drop j).any (PrsInstn.emitted debugMode) = true := by
    rw [List.any_eq_true]
    refine ⟨x, ?_, hx⟩
    apply List.mem_of_getElem? (i := i - j)
    rw [List.getElem?_drop, ← h]
    congr 1
    omega
  rw [placedAddress_succ_emitted h hx hj, addressAt, placedAddress, List.take_length, if_pos hany]

/-- **A label operand**: what is written, now or later, is the number the label stands for. -/
theorem writeLabelArg_spec (h : l[i]? = some x) (hx : x.emitted debugMode = true) {k : CStr}
    (hk : x.mentions k) {label : Label} (hget : labels.get k = some label) {g : Gen T}
    (hg : Written labels debugMode l target g) (hinstns : g.instns = placed debugMode l (i + 1))
    (hbs : toLE 4 (resolveLabel debugMode labels l k).toNat <+: target.drop g.offset)
    (hroom : g.offset + 4 ≤ g.buffer.length) :
    ∃ g', writeLabelArg labels i k g = .ok g' ∧ Written labels debugMode l target g' ∧
      Advances 4 g g' ∧ Recorded labels l g' k := by
  have hlen : i < l.length := (List.getElem?_eq_some_iff.1 h).1
  have hlabel (label' : Label) (hget' : labels.get k = some label') : label' = label := by
    rw [hget] at hget'
    exact (Option.some.inj hget').symm
  rw [resolveLabel, hget] at hbs
  rw [writeLabelArg, hget]
  cases hmem : label.isMemRef with
  | true =>
      simp only [hmem, if_true] at hbs ⊢
      rcases emit_spec hg hbs (by rw [length_toLE]; exact hroom) with ⟨g', heq, hw, hadv⟩
      rw [length_toLE] at hadv
      refine ⟨g', heq, hw, hadv, ?_⟩
      intro label' hget' hcode
      rw [hlabel label' hget', hmem] at hcode
      cases hcode
  | false =>
      simp only [hmem, Bool.false_eq_true, if_false] at hbs ⊢
      by_cases hidx : label.offset.toNat ≤ i
      · -- the instruction has been placed: its address is final
        have hinside : label.offset.toNat < l.length := by omega
        have hinstn : g.instns[label.offset.toNat]? =
            some (l[label.offset.toNat].setOffset (addressAt debugMode l label.offset.toNat)) := by
          rw [hinstns, getElem?_placed, List.getElem?_eq_getElem hinside, Option.map_some,
            placedAddress_eq_addressAt h hx hidx]
        rw [if_pos hidx, hinstn]
        rcases emit_spec hg hbs (by rw [length_toLE]; exact hroom) with ⟨g', heq, hw, hadv⟩
        rw [length_toLE] at hadv
        refine ⟨g', heq, hw, hadv, ?_⟩
        intro label' hget' hcode
        rw [hlabel label' hget']
        exact Or.inl hinside
      · rw [if_neg hidx]
        have hnamed : Named labels debugMode l label.offset.toNat :=
          ⟨x, List.mem_of_getElem? h, hx, k, hk, label, hget, hmem, rfl⟩
        rcases addDelayedRef_spec hg hnamed hbs hroom with ⟨hw, hadv⟩
        refine ⟨_, rfl, hw, hadv, ?_⟩
        intro label' hget' hcode
        rw [hlabel label' hget']
        exact Or.inr ⟨_, List.mem_append_right _ List.mem_cons_self, rfl⟩

/-- One operand. -/
theorem writeArg_spec (h : l[i]? = some x) (hx : x.emitted debugMode = true)
    (hdef : ∀ k, x.mentions k → ∃ label, labels.get k = some label) {a : PrsArg}
    (ha : a ∈ x.args) {g : Gen T}
    (hg : Written labels debugMode l target g) (hinstns : g.instns = placed debugMode l (i + 1))
    (hbs : encodeArg (resolveLabel debugMode labels l) a <+: target.drop g.offset)
    (hroom : g.offset + a.nBytes ≤ g.buffer.length) :
    ∃ g', writeArg labels i a g = .ok g' ∧ Written labels debugMode l target g' ∧
      Advances a.nBytes g g' ∧ ∀ k, a.label? = some k → Recorded labels l g' k := by
  have hlabel {k : CStr} (hk : a.label? = some k) (hn : a.nBytes = 4)
      (henc : encodeArg (resolveLabel debugMode labels l) a =
        toLE 4 (resolveLabel debugMode labels l k).toNat) :
      ∃ g', writeLabelArg labels i k g = .ok g' ∧ Written labels debugMode l target g' ∧
        Advances a.nBytes g g' ∧ ∀ k, a.label? = some k → Recorded labels l g' k := by
    rcases hdef k ⟨a, ha, hk⟩ with ⟨label, hget⟩
    rw [henc] at hbs
    rw [hn] at hroom ⊢
    rcases writeLabelArg_spec h hx ⟨a, ha, hk⟩ hget hg hinstns hbs hroom with ⟨g', heq, hw, hadv, hrec⟩
    refine ⟨g', heq, hw, hadv, ?_⟩
    intro k' hk'
    rw [hk] at hk'
    rw [← Option.some.inj hk']
    exact hrec
  cases a with
  | imm w value fits =>
      rcases emit_spec hg hbs (by rw [length_encodeArg]; exact hroom) with ⟨g', heq, hw, hadv⟩
      rw [length_encodeArg] at hadv
      exact ⟨g', heq, hw, hadv, fun k hk => by cases hk⟩
  | refNum value =>
      rcases emit_spec hg hbs (by rw [length_encodeArg]; exact hroom) with ⟨g', heq, hw, hadv⟩
      rw [length_encodeArg] at hadv
      exact ⟨g', heq, hw, hadv, fun k hk => by cases hk⟩
  | refLbl k => exact hlabel rfl rfl rfl
  | immLbl k => exact hlabel rfl rfl rfl

/-- A prefix of two parts, at its offset and behind the first part. -/
theorem prefix_drop_append {bs bs' : List UInt8} {n : Nat} (h : bs ++ bs' <+: target.drop n) :
    bs <+: target.drop n ∧ bs' <+: target.drop (n + bs.length) := by
  constructor
  · exact (List.prefix_append bs bs').trans h
  · rcases h with ⟨post, hpost⟩
    refine ⟨post, ?_⟩
    rw [← List.drop_drop, ← hpost, List.append_assoc, List.drop_left]

/-- **The operands of an instruction.** -/
theorem writeArgs_spec (h : l[i]? = some x) (hx : x.emitted debugMode = true)
    (hdef : ∀ k, x.mentions k → ∃ label, labels.get k = some label) {as : List PrsArg}
    (has : as ⊆ x.args) {g : Gen T}
    (hg : Written labels debugMode l target g) (hinstns : g.instns = placed debugMode l (i + 1))
    (hbs : as.flatMap (encodeArg (resolveLabel debugMode labels l)) <+: target.drop g.offset)
    (hroom : g.offset + argsSize as ≤ g.buffer.length) :
    ∃ g', writeArgs labels i as g = .ok g' ∧ Written labels debugMode l target g' ∧
      Advances (argsSize as) g g' ∧
      ∀ a ∈ as, ∀ k, a.label? = some k → Recorded labels l g' k := by
  induction as generalizing g with
  | nil => exact ⟨g, rfl, hg, Advances.refl g, fun a ha => by cases ha⟩
  | cons a as ih =>
      have hsum := argsSize_cons a as
      rw [List.flatMap_cons] at hbs
      rcases prefix_drop_append hbs with ⟨hfirst, hrest⟩
      rw [length_encodeArg] at hrest
      rcases writeArg_spec h hx hdef (has List.mem_cons_self) hg hinstns hfirst (by omega) with
        ⟨g₁, heq₁, hw₁, hadv₁, hrec₁⟩
      rcases ih (fun b hb => has (List.mem_cons_of_mem _ hb)) hw₁
        (hadv₁.instns.trans hinstns) (by rw [hadv₁.offset]; exact hrest)
        (by rw [hadv₁.offset, hadv₁.length]; omega) with ⟨g₂, heq₂, hw₂, hadv₂, hrec₂⟩
      refine ⟨g₂, ?_, hw₂, ?_, ?_⟩
      · rw [writeArgs, heq₁, ok_bind, heq₂]
      · rw [hsum]
        exact hadv₁.trans hadv₂
      · intro b hb k hk
        rcases List.mem_cons.1 hb with rfl | hb
        · exact (hrec₁ k hk).mono hadv₂.delayedRefs
        · exact hrec₂ b hb k hk

/-! ## One instruction -/

/-- The code from an emitted instruction on. -/
theorem encodeCode_drop (h : l[i]? = some x) (hx : x.emitted debugMode = true)
    (r : CStr → UInt32) :
    encodeInstn r x <+: (encodeCode debugMode r l).drop (codeSize debugMode (l.take i)) := by
  have hlen : i < l.length := (List.getElem?_eq_some_iff.1 h).1
  have hl : l = l.take i ++ (x :: l.drop (i + 1)) := by
    have hget : l[i] = x := Option.some.inj ((List.getElem?_eq_getElem hlen).symm.trans h)
    rw [← hget, ← List.drop_eq_getElem_cons hlen, List.take_append_drop]
  have hcode : encodeCode debugMode r l = encodeCode debugMode r (l.take i) ++
      (encodeInstn r x ++ encodeCode debugMode r (l.drop (i + 1))) := by
    conv_lhs => rw [hl]
    rw [encodeCode_append]
    congr 1
    rw [encodeCode, List.filter_cons_of_pos hx, List.flatMap_cons, encodeCode]
  rw [hcode, ← length_encodeCode debugMode r, List.drop_left]
  exact List.prefix_append _ _

/-- The header and then the operands, in a buffer with room for the instruction. -/
theorem writeInstn_spec (h : l[i]? = some x) (hx : x.emitted debugMode = true)
    (hdef : ∀ k, x.mentions k → ∃ label, labels.get k = some label) {g : Gen T}
    (hg : Written labels debugMode l target g) (hinstns : g.instns = placed debugMode l (i + 1))
    (hbs : encodeInstn (resolveLabel debugMode labels l) x <+: target.drop g.offset)
    (hroom : g.offset + x.size ≤ g.buffer.length) :
    ∃ g', (do
        let g ← emit (toLE 2 x.word) g
        let g ← emitSizes x.word (sizeBits x.args) g
        writeArgs labels i x.args g) = .ok g' ∧ Written labels debugMode l target g' ∧
      Advances x.size g g' ∧ ∀ k, x.mentions k → Recorded labels l g' k := by
  have hsize : x.size = x.headerSize + argsSize x.args := rfl
  have hhead : x.headerSize = 2 + (if x.hasSizes then [UInt8.ofNat (sizeBits x.args)]
      else []).length := by
    rw [PrsInstn.headerSize]
    split <;> rfl
  rw [encodeInstn, PrsInstn.header, List.append_assoc] at hbs
  rcases prefix_drop_append hbs with ⟨hword, hrest⟩
  rcases prefix_drop_append hrest with ⟨hsizes, hargs⟩
  rw [length_toLE] at hsizes hargs
  rcases emit_spec hg hword (by rw [length_toLE]; omega) with ⟨g₁, heq₁, hw₁, hadv₁⟩
  rw [length_toLE] at hadv₁
  rw [heq₁, ok_bind]
  have hsizes_spec : ∃ g₂, emitSizes x.word (sizeBits x.args) g₁ = .ok g₂ ∧
      Written labels debugMode l target g₂ ∧
      Advances (if x.hasSizes then [UInt8.ofNat (sizeBits x.args)] else []).length g₁ g₂ := by
    rw [emitSizes]
    by_cases hs : x.hasSizes
    · have hbits : x.word &&& 0x7 ≠ 0 := hs
      rw [if_pos hs] at hsizes hhead ⊢
      rw [if_pos hbits]
      rw [← hadv₁.offset] at hsizes
      exact emit_spec hw₁ hsizes (by rw [hadv₁.offset, hadv₁.length]; omega)
    · have hbits : ¬ x.word &&& 0x7 ≠ 0 := hs
      rw [if_neg hs, if_neg hbits]
      exact ⟨g₁, rfl, hw₁, Advances.refl g₁⟩
  rcases hsizes_spec with ⟨g₂, heq₂, hw₂, hadv₂⟩
  rw [heq₂, ok_bind]
  have hadv₁₂ := hadv₁.trans hadv₂
  rw [← hhead] at hadv₁₂
  rw [Nat.add_assoc, ← hhead, ← hadv₁₂.offset] at hargs
  rcases writeArgs_spec h hx hdef (List.Subset.refl _) hw₂ (hadv₁₂.instns.trans hinstns) hargs
    (by rw [hadv₁₂.offset, hadv₁₂.length]; omega) with ⟨g₃, heq₃, hw₃, hadv₃, hrec⟩
  refine ⟨g₃, heq₃, hw₃, ?_, ?_⟩
  · rw [hsize]
    exact hadv₁₂.trans hadv₃
  · rintro k ⟨a, ha, hk⟩
    exact hrec a ha k hk

/-- What `genInstn` does with an emitted instruction. -/
theorem genInstn_emitted (fill : Nat → UInt8) {g : Gen T} {y : PrsInstn T}
    (hy : g.instns[i]? = some y) (hye : y.emitted debugMode = true) :
    genInstn fill labels debugMode i g = (do
      let g ← growBuffer fill y.size g
      let g ← emit (toLE 2 y.word) (place i y g)
      let g ← emitSizes y.word (sizeBits y.args) g
      writeArgs labels i y.args g) := by
  rw [genInstn, hy]
  simp only [hye, if_true, computeLayout_eq]

/-- **One instruction** keeps the invariant, if the code still fits. -/
theorem genInstn_spec (fill : Nat → UInt8)
    (htarget : target = encodeCode debugMode (resolveLabel debugMode labels l) l)
    (h : l[i]? = some x)
    (hdef : x.emitted debugMode = true → ∀ k, x.mentions k → ∃ label, labels.get k = some label)
    {g : Gen T} (hg : GenInv labels debugMode l target i g) :
    (codeSize debugMode (l.take (i + 1)) ≤ maxCodeSize →
      ∃ g', genInstn fill labels debugMode i g = .ok g' ∧
        GenInv labels debugMode l target (i + 1) g') ∧
    (maxCodeSize < codeSize debugMode (l.take (i + 1)) →
      genInstn fill labels debugMode i g = .error .hang) := by
  have hy : g.instns[i]? = some (x.setOffset (placedAddress debugMode l i i)) := by
    rw [hg.instns, getElem?_placed, h, Option.map_some]
  have hsucc : codeSize debugMode (l.take (i + 1)) =
      codeSize debugMode (l.take i) + if x.emitted debugMode then x.size else 0 :=
    codeSize_take_succ h
  cases hx : x.emitted debugMode with
  | false =>
      rw [hx, if_neg (by simp), Nat.add_zero] at hsucc
      have hskip : genInstn fill labels debugMode i g = .ok g := by
        rw [genInstn, hy]
        simp [hx]
      rw [hskip, hsucc]
      constructor
      · intro _
        refine ⟨g, rfl, hg.written, ?_, ?_, ?_, hg.blocks, hg.nBlocks, ?_⟩
        · rw [hsucc, hg.offset, Nat.add_zero]
        · rw [hsucc]
          exact hg.size
        · rw [hg.instns, placed_succ_skipped h hx]
        · intro y hy' hye
          rw [take_succ_eq h] at hy'
          rcases List.mem_append.1 hy' with hy' | hy'
          · exact hg.recorded y hy' hye
          · obtain rfl := List.mem_singleton.1 hy'
            rw [hx] at hye
            cases hye
      · intro hlt
        have := hg.size
        omega
  | true =>
      rw [hx, if_pos rfl] at hsucc
      rw [genInstn_emitted fill hy (by rw [emitted_setOffset, hx]), size_setOffset]
      constructor
      · intro hle
        rcases growLoop_of_le fill hg.blocks hg.nBlocks
          (show g.offset + x.size ≤ maxCodeSize by rw [hg.offset]; omega)
          (show 2 ^ 24 ≤ g.nBlocks + (2 ^ 24 + 1) by omega) with
          ⟨nBlocks, buffer, hgrow, hn, hblen, hroom, hkeep⟩
        have hgrown : growBuffer fill x.size g = .ok { g with nBlocks, buffer } := by
          rw [growBuffer, hgrow, ok_bind]
        rw [hgrown, ok_bind]
        -- the instruction and the skipped ones before it get the address `g.offset`
        have hplace : (place i (x.setOffset (placedAddress debugMode l i i))
            { g with nBlocks, buffer }).instns = placed debugMode l (i + 1) := by
          rw [← backfill_placed h hx hg.size, ← hg.instns, ← hg.offset]
          rfl
        have hw : Written labels debugMode l target (place i (x.setOffset (placedAddress debugMode l i i))
            { g with nBlocks, buffer }) :=
          ⟨hkeep _ _ _ _ hg.written.agrees, hg.written.delayed, hg.written.named⟩
        have hbs : encodeInstn (resolveLabel debugMode labels l) x <+: target.drop g.offset := by
          rw [htarget, hg.offset]
          exact encodeCode_drop h hx _
        rcases writeInstn_spec h hx (hdef hx) hw hplace hbs hroom with
          ⟨g', heq, hw', hadv, hrec⟩
        refine ⟨g', heq, hw', ?_, hle, ?_, ?_, ?_, ?_⟩
        · rw [hsucc, hadv.offset, ← hg.offset]
          rfl
        · rw [hadv.instns, hplace]
        · rw [hadv.length, hadv.nBlocks]
          exact hblen
        · rw [hadv.nBlocks]
          exact hn
        · intro y hy' hye k hk
          rw [take_succ_eq h] at hy'
          rcases List.mem_append.1 hy' with hy' | hy'
          · exact (hg.recorded y hy' hye k hk).mono hadv.delayedRefs
          · obtain rfl := List.mem_singleton.1 hy'
            exact hrec k hk
      · intro hlt
        have hneed : maxCodeSize < g.offset + x.size := by
          rw [hg.offset]
          omega
        rw [growBuffer, growLoop_of_lt fill _ _ _ hneed, error_bind, error_bind]

/-! ## The loop -/

theorem codeSize_take_le_all (k : Nat) :
    codeSize debugMode (l.take k) ≤ codeSize debugMode l := by
  have hsplit := codeSize_append debugMode (l.take k) (l.drop k)
  rw [List.take_append_drop] at hsplit
  omega

/-- **The loop over the instructions**, from instruction `i` on. -/
theorem genLoop_spec (fill : Nat → UInt8)
    (htarget : target = encodeCode debugMode (resolveLabel debugMode labels l) l)
    (hdef : ∀ x ∈ l, x.emitted debugMode = true → ∀ k, x.mentions k →
      ∃ label, labels.get k = some label)
    {todo : Nat} (htodo : i + todo = l.length) {g : Gen T}
    (hg : GenInv labels debugMode l target i g) :
    (codeSize debugMode l ≤ maxCodeSize →
      ∃ g', genLoop fill labels debugMode todo i g = .ok g' ∧
        GenInv labels debugMode l target l.length g') ∧
    (maxCodeSize < codeSize debugMode l →
      genLoop fill labels debugMode todo i g = .error .hang) := by
  induction todo generalizing i g with
  | zero =>
      have hi : i = l.length := htodo
      subst hi
      refine ⟨fun _ => ⟨g, rfl, hg⟩, fun hlt => ?_⟩
      have hsize := hg.size
      rw [List.take_length] at hsize
      omega
  | succ todo ih =>
      have hlen : i < l.length := by omega
      have hget := List.getElem?_eq_getElem hlen
      have hstep := genInstn_spec fill htarget hget (hdef _ (List.getElem_mem hlen)) hg
      rw [genLoop]
      by_cases hle : codeSize debugMode (l.take (i + 1)) ≤ maxCodeSize
      · rcases hstep.1 hle with ⟨g', heq, hg'⟩
        rw [heq, ok_bind]
        exact ih (by omega) hg'
      · have hall : codeSize debugMode (l.take (i + 1)) ≤ codeSize debugMode l :=
          codeSize_take_le_all (i + 1)
        rw [hstep.2 (by omega), error_bind]
        exact ⟨fun hle' => by omega, fun _ => rfl⟩

/-- **The delayed references** are filled in when they all name an instruction. -/
theorem patchRefs_spec {refs : List Ref} {n : Nat} {buffer : List UInt8}
    (hagrees : Agrees 4 target (refs.map Ref.offset) n buffer)
    (hdelayed : ∀ r ∈ refs, r.offset + 4 ≤ n ∧
      toLE 4 (addressAt debugMode l r.instn).toNat <+: target.drop r.offset) :
    ((∀ r ∈ refs, r.instn < l.length) →
      ∃ buffer', patchRefs (placed debugMode l l.length) refs buffer = .ok buffer' ∧
        Agrees 4 target [] n buffer') ∧
    ((∃ r ∈ refs, l.length ≤ r.instn) →
      patchRefs (placed debugMode l l.length) refs buffer = .error .instnIndex) := by
  induction refs generalizing buffer with
  | nil => exact ⟨fun _ => ⟨buffer, rfl, hagrees⟩, fun ⟨r, hr, _⟩ => by cases hr⟩
  | cons r rs ih =>
      rcases hdelayed r List.mem_cons_self with ⟨hle, htarget⟩
      by_cases hin : r.instn < l.length
      · have hinstn : (placed debugMode l l.length)[r.instn]? =
            some (l[r.instn].setOffset (addressAt debugMode l r.instn)) := by
          rw [getElem?_placed, List.getElem?_eq_getElem hin, Option.map_some, addressAt]
        have hroom : (write buffer r.offset
            (toLE 4 (addressAt debugMode l r.instn).toNat)).isSome := by
          rw [write_isSome, length_toLE]
          exact Nat.le_trans hle hagrees.le_length
        rcases Option.isSome_iff_exists.1 hroom with ⟨buffer', hw⟩
        rw [List.map_cons] at hagrees
        have hpatched := hagrees.patch htarget (length_toLE _ _) hw
        have hrest := ih hpatched (fun r' hr' => hdelayed r' (List.mem_cons_of_mem _ hr'))
        rw [patchRefs, hinstn]
        simp only [PrsInstn.setOffset_memOffset, hw]
        constructor
        · intro hall
          exact hrest.1 (fun r' hr' => hall r' (List.mem_cons_of_mem _ hr'))
        · rintro ⟨r', hr', hout⟩
          rcases List.mem_cons.1 hr' with rfl | hr'
          · omega
          · exact hrest.2 ⟨r', hr', hout⟩
      · have hnone : (placed debugMode l l.length)[r.instn]? = none := by
          rw [List.getElem?_eq_none_iff, length_placed]
          omega
        rw [patchRefs, hnone]
        exact ⟨fun hall => absurd (hall r List.mem_cons_self) hin, fun _ => rfl⟩

end Generator

/-! ## The generator -/

theorem placed_zero {debugMode : Bool} {l : List (PrsInstn T)}
    (hfresh : ∀ i ∈ l, i.memOffset = noOffset) : placed debugMode l 0 = l := by
  apply List.ext_getElem?
  intro j
  rw [getElem?_placed, placedAddress_of_le (Nat.zero_le j)]
  cases hj : l[j]? with
  | none => rfl
  | some x =>
      have hoff := hfresh x (List.mem_of_getElem? hj)
      rw [Option.map_some, ← hoff]
      rfl

/-- The code and the addresses the generator is meant to return. -/
def PrsResult.layout (p : PrsResult T) (debugMode : Bool) : Bytecode T where
  code := encodeCode debugMode (resolveLabel debugMode p.labels p.instns) p.instns
  parse := { p with instns := placed debugMode p.instns p.nInstns }

variable {p : PrsResult T}

/-- The state before the first instruction. -/
theorem genInv_zero (labels : LabelMap) (debugMode : Bool) {l : List (PrsInstn T)}
    (target : List UInt8) (hfresh : ∀ i ∈ l, i.memOffset = noOffset) :
    GenInv labels debugMode l target 0 ⟨l, [], 0, 0, []⟩ := by
  constructor
  · exact ⟨agrees_zero 4 target [], by simp, by simp⟩
  · simp [codeSize]
  · simp [codeSize]
  · exact (placed_zero hfresh).symm
  · simp
  · simp
  · simp

/-- **What `parse_to_bytecode` does** with an error-free parse: it does not end when the code is
too long; it accesses an instruction that is not there when a code label is not the index of one;
otherwise it returns the layout. -/
theorem parseToBytecode_spec (fill : Nat → UInt8) (debugMode : Bool) (hp : p.ErrorFree) :
    (maxCodeSize < codeSize debugMode p.instns →
      parseToBytecode fill p debugMode = .error .hang) ∧
    (codeSize debugMode p.instns ≤ maxCodeSize → ¬ p.CodeLabelsInside debugMode →
      parseToBytecode fill p debugMode = .error .instnIndex) ∧
    (codeSize debugMode p.instns ≤ maxCodeSize → p.CodeLabelsInside debugMode →
      parseToBytecode fill p debugMode = .ok (p.layout debugMode)) := by
  have hloop := genLoop_spec fill rfl (fun x hx _ => hp.defined x hx)
    (Nat.zero_add p.instns.length) (genInv_zero p.labels debugMode _ hp.fresh)
  unfold parseToBytecode
  rw [if_neg (by simpa using hp.errors), PrsResult.nInstns]
  refine ⟨fun hlt => ?_, fun hle hout => ?_, fun hle hin => ?_⟩
  · rw [hloop.2 hlt, error_bind]
  · rcases hloop.1 hle with ⟨g, heq, hg⟩
    have hpatch := patchRefs_spec hg.written.agrees hg.written.delayed
    rw [heq, ok_bind, hg.instns, hpatch.2, error_bind]
    -- the label that is no index has been delayed
    by_contra hnone
    apply hout
    intro x hx hxe k hk label hget hcode
    rcases hg.recorded x (by rw [List.take_length]; exact hx) hxe k hk label hget hcode with
      hlt | ⟨r, hr, heq'⟩
    · exact hlt
    · by_contra hge
      exact hnone ⟨r, hr, by rw [heq']; exact Nat.le_of_not_lt hge⟩
  · rcases hloop.1 hle with ⟨g, heq, hg⟩
    have hpatch := patchRefs_spec hg.written.agrees hg.written.delayed
    have hinside : ∀ r ∈ g.delayedRefs, r.instn < p.instns.length := by
      intro r hr
      rcases hg.written.named r hr with ⟨x, hx, hxe, k, hk, label, hget, hcode, hidx⟩
      rw [← hidx]
      exact hin x hx hxe k hk label hget hcode
    rcases hpatch.1 hinside with ⟨buffer, hbuf, hfinal⟩
    have hoffset : g.offset = codeSize debugMode p.instns := by
      rw [hg.offset, List.take_length]
    rw [heq, ok_bind, hg.instns, hbuf, ok_bind,
      hfinal.take_eq (by rw [length_encodeCode, hoffset])]
    rfl

end BvgzVm
