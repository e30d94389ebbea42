import BvgzVm.Asm.DataSection
import BvgzVm.Asm.RoundTrip
import BvgzVm.Vm.Image

set_option autoImplicit false

/-! # The entry point

`resolve_data_label_refs` and `resolve_entry_point` of `parser.c` and what `main` of `basm_app.c`
does between parsing and the debug data. `resolve_entry_point` returns the offset of a label as it
stands in the label table, which for a code label is the index of an instruction;
`read_bvgz_image` starts a procedure there as at a byte offset. The two agree exactly when the
instructions before the label take as many bytes as there are instructions (`entryLoads_iff`).
-/

namespace BvgzVm

open Bytes CLib Fallible

variable {T : InstnTable} {σ : Type}

/-- Why the assembler does not come to an end. -/
inductive AsmFault
  /-- `parse_to_bytecode` -/
  | gen (f : GenFault)
  /-- an access outside `result->instns` -/
  | instnIndex
  /-- a write outside the memory block -/
  | memoryWrite
  /-- `fwrite` reads past the end of the memory block -/
  | memoryRead
  deriving DecidableEq, Repr

/-! ## Labels in the data -/

/-- The number that is stored for a label; `none` if its instruction has no address. -/
def dataLabelValue (p : PrsResult T) (label : Label) : Except AsmFault (Option UInt32) :=
  if label.isMemRef then .ok (some label.offset)
  else match p.instns[label.offset.toNat]? with
    | none => .error .instnIndex
    | some instn =>
        if instn.memOffset = noOffset then .ok none else .ok (some instn.memOffset)

/-- The body of the loop of `resolve_data_label_refs`; the flag says whether to go on. -/
def resolveDataLabelRef (ref : LabelRef) (p : PrsResult T) : Except AsmFault (Bool × PrsResult T) :=
  match p.labels.get ref.label with
  | none => .ok (false, p.report .error ref.filename.path ref.lineno
      ("label not found: ".toList ++ ref.label))
  | some label => do
      match ← dataLabelValue p label with
      | none => .ok (false, p.report .error ref.filename.path ref.lineno
          ("label not yet resolved: ".toList ++ ref.label))
      | some value =>
          let w := if ref.size = 4 then 4 else 8
          match store p.memory ref.writeOffset.toNat w value.toNat with
          | none => .error .memoryWrite
          | some memory => .ok (true, { p with memory })

/-- `resolve_data_label_refs`: whether it succeeds, and the result it leaves. -/
def resolveDataLabelRefs : List LabelRef → PrsResult T → Except AsmFault (Bool × PrsResult T)
  | [], p => .ok (true, p)
  | ref :: refs, p => do
      let (ok, p) ← resolveDataLabelRef ref p
      if ok then resolveDataLabelRefs refs p else .ok (false, p)

/-! ## The entry -/

/-- `resolve_entry_point` -/
def resolveEntryPoint (entryLabel : CStr) (p : PrsResult T) : UInt32 :=
  match p.labels.get entryLabel with
  | none => 0xffffffff
  | some elbl => if elbl.isMemRef then 0xffffffff else elbl.offset

/-! ## The image -/

/-- The flags of `write_bvgz_image`. -/
def imageFlags (debug : Bool) : Nat :=
  if debug then bvgzImgFExec ||| bvgzImgFDebug else bvgzImgFExec

/-- `write_bvgz_image` without the debug data it may append; `none` is a negative result. -/
def writeBvgzImage (p : PrsResult T) (code : List UInt8) (entryLabel : UInt32) (debug : Bool) :
    Except AsmFault (Option (List UInt8)) :=
  if p.memory.length < p.memsz.toNat then .error .memoryRead
  else .ok (writeBvgzImageDirect code (p.memory.take p.memsz.toNat) entryLabel
    (imageFlags debug))

/-- `main`, from the parse result to the image; `none` if it gives up before. -/
def assemble (fill : Nat → UInt8) (p : PrsResult T) (debug : Bool) (entryLabel : CStr) :
    Except AsmFault (Option (List UInt8)) :=
  match parseToBytecode fill p debug with
  | .error f => .error (.gen f)
  | .ok b => do
      let (ok, p) ← resolveDataLabelRefs b.parse.labelRefs b.parse
      if !ok then .ok none
      else if resolveEntryPoint entryLabel p = 0xffffffff then .ok none
      else writeBvgzImage p b.code (resolveEntryPoint entryLabel p) debug

/-! ## What the steps leave alone -/

/-- Resolving a reference writes into the memory and changes nothing else. -/
theorem resolveDataLabelRef_labels {ref : LabelRef} {p p' : PrsResult T}
    (h : resolveDataLabelRef ref p = .ok (true, p')) :
    p'.labels = p.labels ∧ p'.memory.length = p.memory.length ∧ p'.memsz = p.memsz := by
  unfold resolveDataLabelRef at h
  split at h
  · cases h
  · rcases bind_eq_ok.1 h with ⟨value, -, h⟩
    cases value with
    | none => cases h
    | some value =>
        simp only at h
        split at h
        · cases h
        · next memory hstore =>
            obtain ⟨-, rfl⟩ := Prod.mk.inj (Except.ok.inj h)
            exact ⟨rfl, store_length hstore, rfl⟩

theorem resolveDataLabelRefs_labels {refs : List LabelRef} {p p' : PrsResult T}
    (h : resolveDataLabelRefs refs p = .ok (true, p')) :
    p'.labels = p.labels ∧ p'.memory.length = p.memory.length ∧ p'.memsz = p.memsz := by
  induction refs generalizing p with
  | nil =>
      obtain ⟨-, rfl⟩ := Prod.mk.inj (Except.ok.inj h)
      exact ⟨rfl, rfl, rfl⟩
  | cons ref refs ih =>
      rcases bind_eq_ok.1 h with ⟨⟨ok, p₁⟩, hstep, h⟩
      cases ok with
      | false => cases h
      | true =>
          rcases resolveDataLabelRef_labels hstep with ⟨hlabels, hlen, hsz⟩
          rcases ih h with ⟨hlabels', hlen', hsz'⟩
          exact ⟨hlabels'.trans hlabels, hlen'.trans hlen, hsz'.trans hsz⟩

/-- **What an image consists of**: the generated code, some memory, and the entry that
`resolve_entry_point` finds in the label table. -/
theorem assemble_eq_ok {fill : Nat → UInt8} {p : PrsResult T} {debug : Bool} {entryLabel : CStr}
    {image : List UInt8} (h : assemble fill p debug entryLabel = .ok (some image)) :
    ∃ b memory flags, parseToBytecode fill p debug = .ok b ∧ flags < 2 ^ 16 ∧
      flags &&& bvgzImgFExec ≠ 0 ∧ List.length memory < 2 ^ 32 ∧
      writeBvgzImageDirect b.code memory (resolveEntryPoint entryLabel b.parse) flags =
        some image := by
  unfold assemble at h
  split at h
  · cases h
  · next b hb =>
      rcases bind_eq_ok.1 h with ⟨⟨ok, p'⟩, hrefs, h⟩
      cases ok with
      | false => cases h
      | true =>
          have hlabels := (resolveDataLabelRefs_labels hrefs).1
          have hentry : resolveEntryPoint entryLabel p' = resolveEntryPoint entryLabel b.parse := by
            rw [resolveEntryPoint, hlabels, resolveEntryPoint]
          simp only [Bool.not_true, Bool.false_eq_true, if_false] at h
          split at h
          · cases h
          · unfold writeBvgzImage at h
            split at h
            · cases h
            · rw [hentry] at h
              have hmemsz := p'.memsz.toNat_lt
              refine ⟨b, _, _, hb, ?_, ?_, ?_, Except.ok.inj h⟩
              · cases debug <;> decide
              · cases debug <;> decide
              · rw [List.length_take]
                omega

/-! ## The entry of a loaded image -/

/-- The image, followed by anything, loads into a machine with exactly one procedure, at the
`mem_offset` of the first emitted instruction at or after the label. -/
def EntryLoads (fill : Nat → UInt8) (p : PrsResult T) (debug : Bool) (label : Label)
    (image : List UInt8) : Prop :=
  ∃ b, parseToBytecode fill p debug = .ok b ∧
    ∃ i, firstEmitted debug b.parse.instns label.offset.toNat = some i ∧
      ∀ (σ : Type) (host : σ) (fillCode : Nat → UInt8) (suffix : List UInt8),
        ∃ vm proc, readBvgzImage fillCode host (image ++ suffix) = some (vm, suffix) ∧
          vm.procedures = [proc] ∧ proc.iptr = i.memOffset

/-- **The entry of an image is right exactly when** the instructions before the entry label take
as many bytes as there are instructions before it. -/
theorem entryLoads_iff (fill : Nat → UInt8) {p : PrsResult T} (hp : p.ErrorFree) (debug : Bool)
    {entryLabel : CStr} {label : Label} (hget : p.labels.get entryLabel = some label)
    (hcode : label.isMemRef = false)
    (hemitted : (firstEmitted debug p.instns label.offset.toNat).isSome = true)
    {image : List UInt8} (himage : assemble fill p debug entryLabel = .ok (some image)) :
    EntryLoads fill p debug label image ↔
      encodedSize debug (p.instns.take label.offset.toNat) = label.offset.toNat := by
  rcases assemble_eq_ok himage with ⟨b, memory, flags, hb, hflags, hexec, hmemory, hwrite⟩
  -- the code was generated, so the result is the layout
  have hspec := parseToBytecode_spec fill debug hp
  have hle : codeSize debug p.instns ≤ maxCodeSize := by
    by_contra hlt
    rw [hspec.1 (by omega)] at hb
    cases hb
  have hinside : p.CodeLabelsInside debug := by
    by_contra hout
    rw [hspec.2.1 hle hout] at hb
    cases hb
  have hlayout : b = p.layout debug := by
    rw [hspec.2.2 hle hinside] at hb
    exact (Except.ok.inj hb).symm
  have hentry : resolveEntryPoint entryLabel b.parse = label.offset := by
    have hget' : b.parse.labels.get entryLabel = some label := by
      rw [hlayout]
      exact hget
    rw [resolveEntryPoint, hget']
    simp only [hcode, Bool.false_eq_true, if_false]
  -- the first emitted instruction and its address
  have hinstns : b.parse.instns = placed debug p.instns p.instns.length := by
    rw [hlayout]
    rfl
  have hsome : (firstEmitted debug b.parse.instns label.offset.toNat).isSome = true := by
    rw [hinstns, firstEmitted_isSome, any_drop_placed, ← firstEmitted_isSome]
    exact hemitted
  rcases Option.isSome_iff_exists.1 hsome with ⟨i, hi⟩
  have haddress : i.memOffset.toNat = codeSize debug (p.instns.take label.offset.toNat) := by
    rw [hinstns] at hi
    rw [firstEmitted_placed hi, toNat_addressAt hle hemitted]
  have hcodesz : b.code.length = codeSize debug p.instns := by
    rw [hlayout, PrsResult.layout, length_encodeCode]
  -- what is loaded
  have hlt : b.code.length < 2 ^ 32 := by
    unfold maxCodeSize at hle
    omega
  have hload (σ : Type) (host : σ) (fillCode : Nat → UInt8) (suffix : List UInt8) :=
    readBvgzImage_write fillCode host hflags hexec
      (show writeBvgzImageDirect (Segment.mk b.code hlt).bytes (Segment.mk memory hmemory).bytes
        (resolveEntryPoint entryLabel b.parse) flags = some image from hwrite) suffix
  have hprocs (σ : Type) (host : σ) (fillCode : Nat → UInt8) :
      (makeVm fillCode (UInt32.ofNat b.code.length) (UInt32.ofNat memory.length)
        (resolveEntryPoint entryLabel b.parse) host).procedures =
      if b.code.length ≤ label.offset.toNat then [] else [newProc label.offset] := by
    rw [makeVm_procedures, hentry, UInt32.toNat_ofNat_of_lt' hlt]
  constructor
  · rintro ⟨b', hb', i', hi', hloads⟩
    rw [hb] at hb'
    obtain rfl := Except.ok.inj hb'
    rw [hi] at hi'
    obtain rfl := Option.some.inj hi'
    rcases hloads Unit () (fun _ => 0) [] with ⟨vm, proc, hread, hproc, hiptr⟩
    rw [hload] at hread
    obtain ⟨rfl, -⟩ := Prod.mk.inj (Option.some.inj hread)
    have hproc' := (hprocs Unit () (fun _ => 0)).symm.trans hproc
    split at hproc'
    · cases hproc'
    · have hsame : label.offset = proc.iptr := by
        obtain rfl := (List.cons.inj hproc').1
        rfl
      rw [encodedSize_eq, ← haddress, ← hiptr, hsame]
  · intro hsize
    rw [encodedSize_eq] at hsize
    have hbefore := codeSize_take_lt hemitted
    refine ⟨b, hb, i, hi, ?_⟩
    intro σ host fillCode suffix
    refine ⟨_, newProc label.offset, hload σ host fillCode suffix, ?_, ?_⟩
    · exact (hprocs σ host fillCode).trans (if_neg (by omega))
    · apply UInt32.toNat_inj.1
      rw [haddress, hsize]
      rfl

/-- The image of `jumpOver` with `end` as its entry: 9 bytes of code, entry 2. -/
def jumpOverImage : List UInt8 :=
  [0xC5, 0xB0, 1, 0, 2, 0, 0, 0, 9, 0, 0, 0, 0, 0, 0, 0,
    0x79, 0, 2, 7, 0, 0, 0, 0, 1]

theorem jumpOver_assemble :
    assemble (fun _ => 0) jumpOver false ['e'] = .ok (some jumpOverImage) := by
  decide +kernel

theorem entryLoads_iff_jump :
    EntryLoads (fun _ => 0) jumpOver false ⟨⟨0, []⟩, 3, 2, false⟩ jumpOverImage ↔
      encodedSize false (jumpOver.instns.take 2) = 2 :=
  have hget : jumpOver.labels.get ['e'] = some ⟨⟨0, []⟩, 3, 2, false⟩ := rfl
  entryLoads_iff (fun _ => 0) jumpOver_errorFree false hget rfl (by decide +kernel)
    jumpOver_assemble

/-- The procedure of this image starts in the middle of the first instruction: at 2, not at 7. -/
theorem entry_not_at_label :
    jumpOver.ErrorFree ∧ jumpOver.labels.get ['e'] = some ⟨⟨0, []⟩, 3, 2, false⟩ ∧
      (firstEmitted false jumpOver.instns 2).isSome = true ∧
      assemble (fun _ => 0) jumpOver false ['e'] = .ok (some jumpOverImage) ∧
      ¬ EntryLoads (fun _ => 0) jumpOver false ⟨⟨0, []⟩, 3, 2, false⟩ jumpOverImage := by
  have haddress : (parseToBytecode (fun _ => 0) jumpOver false).toOption.bind
      (fun b => (firstEmitted false b.parse.instns 2).map PrsInstn.memOffset) = some 7 := by
    decide +kernel
  have hentry : (readBvgzImage (fun _ => 0) () jumpOverImage).map
      (fun r => r.1.procedures.map Proc.iptr) = some [2] := by
    decide +kernel
  refine ⟨jumpOver_errorFree, rfl, by decide +kernel, jumpOver_assemble, ?_⟩
  rintro ⟨b, hb, i, hi, hloads⟩
  rcases hloads Unit () (fun _ => 0) [] with ⟨vm, proc, hread, hproc, hiptr⟩
  have hi' : firstEmitted false b.parse.instns 2 = some i := hi
  have h7 : i.memOffset = 7 := by
    rw [hb] at haddress
    simpa [Except.toOption, hi'] using haddress
  have h2 : proc.iptr = 2 := by
    rw [← List.append_nil jumpOverImage, hread, Option.map_some, hproc] at hentry
    simpa using hentry
  rw [h2, h7] at hiptr
  exact absurd hiptr (by decide)

end BvgzVm
