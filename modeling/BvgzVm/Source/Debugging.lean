import BvgzVm.Debug.Setup
import BvgzVm.Source.Toolchain
import Mathlib.Data.List.Sort

set_option autoImplicit false

/-! # The debugger on an image of `basm`

`basm -g` writes the debug data behind the image, and `bvgz -d` reads both. The debugger then has
the program of the image, and it knows the labels of the source wherever the debug data is complete
(`bvgz_debugs_basm`).
-/

namespace BvgzVm

open CLib Fallible

variable {T : InstnTable} {ω : Type}

/-- `main` of `bvgz.c` with `-d` up to `debug_vm`: the machine and the debug data, or `none` if
there is no image. -/
def bvgzLoad (fill : Nat → UInt8) (world : ω) (imgfile : Option (List UInt8)) :
    Option (Vm (Sys ω) × Option VmDebugData) := do
  let fp ← imgfile
  let (vm, fp) ← readBvgzImage fill (newSys world) fp
  some (vm, (readBvgzDebugData fp).map Prod.fst)

/-- A source as `basm` has laid it out, with its data. -/
abbrev PrsResult.written (p : PrsResult T) (memory : List UInt8) : PrsResult T :=
  { (p.layout true).parse with memory }

/-- Resolving the references of the data changes the data only. -/
theorem resolveDataLabelRefs_memory {refs : List LabelRef} {p q : PrsResult T}
    (h : resolveDataLabelRefs refs p = .ok (true, q)) : ∃ memory, q = { p with memory } := by
  induction refs generalizing p with
  | nil =>
      obtain ⟨-, rfl⟩ := Prod.mk.inj (Except.ok.inj h)
      exact ⟨p.memory, rfl⟩
  | cons ref refs ih =>
      rcases bind_eq_ok.1 h with ⟨⟨ok, p₁⟩, hstep, hrest⟩
      cases ok with
      | false => cases hrest
      | true =>
          obtain ⟨memory₁, rfl⟩ : ∃ memory, p₁ = { p with memory } := by
            unfold resolveDataLabelRef at hstep
            split at hstep
            · cases hstep
            · rcases bind_eq_ok.1 hstep with ⟨value, -, hstore⟩
              cases value with
              | none => cases hstore
              | some value =>
                  dsimp only at hstore
                  split at hstore
                  · cases hstore
                  · next memory _ =>
                      obtain ⟨-, rfl⟩ := Prod.mk.inj (Except.ok.inj hstore)
                      exact ⟨memory, rfl⟩
          rcases ih hrest with ⟨memory, rfl⟩
          exact ⟨memory, rfl⟩

theorem nInstns_written (p : PrsResult T) (memory : List UInt8) :
    (p.written memory).nInstns = p.nInstns := by
  show (placed true p.instns p.nInstns).length = p.nInstns
  exact length_placed ..

/-- **From the source to the debugger.** When `basm -g` writes a file, `bvgz -d` reads the code and
the debug data from it. Where the debug data is complete, and names are C strings, `setup_state`
reads inside the data, and whatever table it makes, the debugger knows the labels of the source at
the addresses of the code and the lines of its instructions. -/
theorem bvgz_debugs_basm {qsort : Qsort} {order : (p : PrsResult T) → VisitOrder p.labels}
    {fill : ℕ → UInt8} (fillCode : ℕ → UInt8) (world : ω) {env : PrsEnv} {depth : ℕ}
    {asmfile : CStr} {includePaths : List CStr} {entryPtLabel : CStr} {file : List UInt8}
    (h : basmMain qsort order fill env depth asmfile includePaths true entryPtLabel =
      .ok (some file)) :
    ∃ (p : PrsResult T) (memory : List UInt8) (dbg : DebugT),
      parseAsm env depth false asmfile includePaths = .ok (some p) ∧ p.ErrorFree ∧
      mkDebugData qsort (p.written memory) (order (p.written memory)) = .ok dbg ∧
      (dbg.size < 2 ^ 32 →
        (∃ vm, bvgzLoad fillCode world (some file) = some (vm, some dbg.loaded) ∧
          vm.code.bytes = (p.layout true).code) ∧
        ((p.written memory).DebugFit (order (p.written memory)) →
          (∀ k label, p.labels.get k = some label → IsCString k) →
            (∃ symbols lines, setupSymbols dbg.loaded = some symbols ∧
              codeLinesAt dbg.loaded = some lines) ∧
            ∀ room t, SetupState room dbg.loaded t → t.Knows (p.written memory))) := by
  rcases basmMain_eq_ok h with ⟨p, hparse, hp, hwrite⟩
  rcases basmWrite_eq_ok hwrite with
    ⟨b, q, data, image, suffix, hgen, hrefs, -, hdatasz, -, himage, rfl, hdebug⟩
  rcases hdebug rfl with ⟨dbg, hdbg, hsuffix⟩
  obtain ⟨rfl, hmax⟩ := parseToBytecode_eq_layout hp hgen
  obtain ⟨memory, rfl⟩ := resolveDataLabelRefs_memory hrefs
  refine ⟨p, memory, dbg, hparse, hp, hdbg, fun hsize => ⟨?_, ?_⟩⟩
  · have hcodesz : (p.layout true).code.length < 2 ^ 32 := by
      rw [PrsResult.layout, length_encodeCode]
      unfold maxCodeSize at hmax
      omega
    have hread := readBvgzImage_write fillCode (newSys world)
      (show imageFlags true < 2 ^ 16 by decide)
      (show imageFlags true &&& bvgzImgFExec ≠ 0 by decide)
      (show writeBvgzImageDirect (Segment.mk _ hcodesz).bytes (Segment.mk data hdatasz).bytes _ _ =
        some image from himage) suffix
    have hdata := readBvgzDebugData_of_write hsize hsuffix []
    rw [List.append_nil] at hdata
    refine ⟨imageVm fillCode ⟨(p.layout true).code, hcodesz⟩ ⟨data, hdatasz⟩
      (resolveEntryPoint entryPtLabel (p.layout true).parse) world, ?_, rfl⟩
    rw [bvgzLoad, Option.bind_eq_bind, Option.bind_some, hread, Option.bind_eq_bind,
      Option.bind_some]
    dsimp only
    rw [hdata]
    rfl
  · intro hfit hnames
    have hn := hp.nInstns_lt
    rw [← nInstns_written p memory] at hn
    exact setupState_knows hn hnames hfit hdbg hsize

/-- A sorting routine that inserts the lines one by one. -/
def insertQsort : Qsort where
  sort compare l := l.insertionSort (fun a b => compare a b ≤ 0)
  perm _ l := List.perm_insertionSort _ l

/-- A `nop` at `_entry` and one at `end`. -/
def endProgram : PrsResult stableTable where
  nFiles := 1
  reports := []
  instns := [srcNop 2, srcNop 4]
  memory := []
  memsz := 0
  memAlloc := 0
  labels := [("end".toList, ⟨⟨0, []⟩, 3, 1, false⟩), ("_entry".toList, ⟨⟨0, []⟩, 1, 0, false⟩)]
  labelRefs := []

/-- Its debug data. -/
def endDebugData : DebugT where
  files := [0]
  labels := [1, 5]
  codeLines := [⟨0, 0, 2, 1⟩, ⟨2, 0, 4, 0⟩]
  memLines := []
  stringTable := [0, 0x65, 0x6e, 0x64, 0, 0x5f, 0x65, 0x6e, 0x74, 0x72, 0x79, 0]

/-- What `basm -g` writes for it. -/
def endFile : List UInt8 :=
  [0xC5, 0xB0, 3, 0, 0, 0, 0, 0, 4, 0, 0, 0, 0, 0, 0, 0, 0, 1, 0, 1] ++
    (endDebugData.header ++ endDebugData.sections)

theorem basmMain_end :
    basmMain insertQsort (fun p : PrsResult stableTable => firstOrder p.labels) (fun _ => 0)
      (singleFile "_entry:\nnop\nend:\nnop\n".toList) 1 [] [] true "_entry".toList =
        .ok (some endFile) := by
  decide +kernel

theorem endProgram_labels {k : CStr} {label : Label} (h : endProgram.labels.get k = some label) :
    IsCString k ∧ label.isMemRef = false ∧
      (k = "end".toList ∧ label.offset = 1 ∨ k = "_entry".toList ∧ label.offset = 0) := by
  have hall : ∀ e ∈ endProgram.labels, IsCString e.1 ∧ e.2.isMemRef = false ∧
      (e.1 = "end".toList ∧ e.2.offset = 1 ∨ e.1 = "_entry".toList ∧ e.2.offset = 0) := by
    decide +kernel
  exact hall _ (LabelMap.mem_of_get h)

theorem endProgram_debugFit (memory : List UInt8) :
    (endProgram.written memory).DebugFit (firstOrder (endProgram.written memory).labels) := by
  refine ⟨?_, ?_, ?_, ?_, ?_, ?_⟩
  · show ∀ i ∈ (endProgram.layout true).parse.instns, i.filename.depth = 0
    decide +kernel
  · intro k label h hmem
    rw [(endProgram_labels h).2.1] at hmem
    cases hmem
  · intro k k' label label' h h' _ _ hoffset
    rcases (endProgram_labels h).2.2 with ⟨rfl, hone⟩ | ⟨rfl, hzero⟩ <;>
      rcases (endProgram_labels h').2.2 with ⟨rfl, hone'⟩ | ⟨rfl, hzero'⟩
    · rfl
    · rw [hone, hzero'] at hoffset
      exact absurd hoffset (by decide)
    · rw [hzero, hone'] at hoffset
      exact absurd hoffset (by decide)
    · rfl
  · show ∀ s ∈ (endProgram.written []).debugStrings (firstOrder endProgram.labels),
      strSize s < 2 ^ 31
    decide +kernel
  · show (((endProgram.written []).debugStrings (firstOrder endProgram.labels)).map strSize).sum <
      2 ^ 32
    decide +kernel
  · show (firstOrder endProgram.labels).entries.length ≤ 2 ^ 31
    decide +kernel

/-- `end` is at the address 2. -/
theorem bvgz_debugs_basm_end :
    ∃ t, (∃ vm data, bvgzLoad (fun _ => 0) () (some endFile) = some (vm, some data) ∧
      SetupState 0 data t) ∧ resolveAddress "end".toList (some t) false = 2 := by
  rcases bvgz_debugs_basm (fun _ => 0) () basmMain_end with
    ⟨p, memory, dbg, hparse, -, hdbg, hall⟩
  have hend : parseAsm (singleFile "_entry:\nnop\nend:\nnop\n".toList) 1 false [] [] =
      .ok (some endProgram) := by
    decide +kernel
  rw [hend] at hparse
  obtain rfl := Option.some.inj (Except.ok.inj hparse)
  have hdata : mkDebugData insertQsort (endProgram.written [])
      (firstOrder (endProgram.written []).labels) = .ok endDebugData := by
    decide +kernel
  obtain rfl : endDebugData = dbg := Except.ok.inj (hdata.symm.trans hdbg)
  rcases hall (by decide) with ⟨⟨vm, hload, -⟩, hknows⟩
  rcases hknows (endProgram_debugFit memory) fun k label h => (endProgram_labels h).1 with
    ⟨⟨symbols, lines, hsymbols, hlines⟩, ht⟩
  have hputs : setupSymbols endDebugData.loaded =
      some [⟨"_entry".toList, false, 0⟩, ⟨"end".toList, false, 2⟩] := by
    decide +kernel
  have hrun : (setupLabels 0 [⟨"_entry".toList, false, 0⟩, ⟨"end".toList, false, 2⟩]).isSome =
      true := by
    decide +kernel
  rcases Option.isSome_iff_exists.1 hrun with ⟨m, hm⟩
  rcases exists_setupState hputs hm hlines with ⟨t, hstate⟩
  rcases (ht 0 t hstate).labels "end".toList ⟨⟨0, []⟩, 3, 1, false⟩ rfl with
    ⟨address, haddress, hresolve⟩
  have htwo : (endProgram.written memory).labelAddress ⟨⟨0, []⟩, 3, 1, false⟩ = some 2 := by
    show (endProgram.layout true).parse.labelAddress _ = _
    decide +kernel
  rw [haddress] at htwo
  obtain rfl := Option.some.inj htwo
  exact ⟨t, ⟨vm, endDebugData.loaded, hload, hstate⟩, hresolve false⟩

end BvgzVm
