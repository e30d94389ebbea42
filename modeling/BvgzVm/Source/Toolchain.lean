import BvgzVm.Asm.EntryPoint
import BvgzVm.Debug.Complete
import BvgzVm.Source.Correct

set_option autoImplicit false

/-! # From a source file to an exit status

`main` of `basm_app.c` and `main` of `bvgz.c`, without the debugger. `basm` writes an image for a
source file and `bvgz` runs it. Its exit status shows how the program ended (`bvgz_runs_basm`), but
it is `exceptions << 1`, of which a parent process sees the lowest byte: the exception of a failed
assertion is the highest of eight bits and is lost.
-/

namespace BvgzVm

open CLib Fallible Outcomes

variable {T : InstnTable} {ω : Type}

/-! ## `basm` -/

/-- Why `basm` does not come to an end. -/
inductive BasmFault
  | parse (f : PrsFault)
  /-- `parse_to_bytecode` reads the result of a file that was not found -/
  | nullResult
  | asm (f : AsmFault)
  | debug (f : DbgFault)
  deriving DecidableEq

/-- The debug data behind an image: `write_bvgz_image_debug`. -/
def writeBvgzImageDebug (qsort : Qsort) (order : (p : PrsResult T) → VisitOrder p.labels)
    (p : PrsResult T) (image : List UInt8) : Except BasmFault (Option (List UInt8)) :=
  match mkDebugData qsort p (order p) with
  | .error f => .error (.debug f)
  | .ok dbg => .ok ((writeDebugT dbg).map fun data => image ++ data)

/-- `main` of `basm_app.c` from the end of `parse_asm` on: the file it writes, or `none` for the
status 1. -/
def basmWrite (qsort : Qsort) (order : (p : PrsResult T) → VisitOrder p.labels)
    (fill : Nat → UInt8) (p : PrsResult T) (debug : Bool) (entryPtLabel : CStr) :
    Except BasmFault (Option (List UInt8)) :=
  match parseToBytecode fill p debug with
  | .error f => .error (.asm (.gen f))
  | .ok b =>
      match resolveDataLabelRefs b.parse.labelRefs b.parse with
      | .error f => .error (.asm f)
      | .ok (false, _) => .ok none
      | .ok (true, p) =>
          let entryOffset := resolveEntryPoint entryPtLabel p
          if entryOffset = 0xffffffff then .ok none
          else match writeBvgzImage p b.code entryOffset debug with
            | .error f => .error (.asm f)
            | .ok none => .ok none
            | .ok (some image) =>
                if debug then writeBvgzImageDebug qsort order p image else .ok (some image)

/-- `main` of `basm_app.c` behind its arguments, where the output file can be written. -/
def basmMain (qsort : Qsort) (order : (p : PrsResult T) → VisitOrder p.labels)
    (fill : Nat → UInt8) (env : PrsEnv) (depth : Nat) (asmfile : CStr)
    (includePaths : List CStr) (debug : Bool) (entryPtLabel : CStr) :
    Except BasmFault (Option (List UInt8)) :=
  match parseAsm env depth false asmfile includePaths with
  | .error f => .error (.parse f)
  | .ok none => .error .nullResult
  | .ok (some p) => basmWrite qsort order fill p debug entryPtLabel

/-- What the data of a program is when it is written to the image: the references to labels in it
are resolved. -/
def IsImageData (fill : Nat → UInt8) (p : PrsResult T) (debug : Bool) (memory : List UInt8) :
    Prop :=
  ∃ b q, parseToBytecode fill p debug = .ok b ∧
    resolveDataLabelRefs b.parse.labelRefs b.parse = .ok (true, q) ∧
      memory = q.memory.take q.memsz.toNat

section Basm

variable {qsort : Qsort} {order : (p : PrsResult T) → VisitOrder p.labels} {fill : Nat → UInt8}
  {p : PrsResult T} {debug : Bool} {entryPtLabel : CStr} {file : List UInt8}

theorem writeBvgzImageDebug_eq_ok {image : List UInt8}
    (h : writeBvgzImageDebug qsort order p image = .ok (some file)) :
    ∃ dbg suffix, mkDebugData qsort p (order p) = .ok dbg ∧ writeDebugT dbg = some suffix ∧
      file = image ++ suffix := by
  unfold writeBvgzImageDebug at h
  split at h
  · cases h
  · next dbg hdbg =>
      rcases Option.map_eq_some_iff.1 (Except.ok.inj h) with ⟨suffix, hsuffix, rfl⟩
      exact ⟨dbg, suffix, hdbg, hsuffix, rfl⟩

/-- **What `basm` writes**: an image with the code, the data and the entry, and behind it the debug
data. -/
theorem basmWrite_eq_ok (h : basmWrite qsort order fill p debug entryPtLabel = .ok (some file)) :
    ∃ b q memory image suffix, parseToBytecode fill p debug = .ok b ∧
      resolveDataLabelRefs b.parse.labelRefs b.parse = .ok (true, q) ∧
      IsImageData fill p debug memory ∧ memory.length < 2 ^ 32 ∧
      resolveEntryPoint entryPtLabel b.parse ≠ 0xffffffff ∧
      writeBvgzImageDirect b.code memory (resolveEntryPoint entryPtLabel b.parse)
        (imageFlags debug) = some image ∧ file = image ++ suffix ∧
      (debug = true → ∃ dbg, mkDebugData qsort q (order q) = .ok dbg ∧
        writeDebugT dbg = some suffix) := by
  unfold basmWrite at h
  split at h
  · cases h
  · next b hb =>
      split at h
      · cases h
      · cases h
      · next q hrefs =>
          dsimp only at h
          have hentry : resolveEntryPoint entryPtLabel q =
              resolveEntryPoint entryPtLabel b.parse := by
            rw [resolveEntryPoint, (resolveDataLabelRefs_labels hrefs).1, resolveEntryPoint]
          rw [hentry] at h
          split at h
          · cases h
          · next hfound =>
            split at h
            · cases h
            · cases h
            · next image himage =>
                unfold writeBvgzImage at himage
                split at himage
                · cases himage
                · have hmemsz := q.memsz.toNat_lt
                  have hsuffix : ∃ suffix, file = image ++ suffix ∧ (debug = true →
                      ∃ dbg, mkDebugData qsort q (order q) = .ok dbg ∧
                        writeDebugT dbg = some suffix) := by
                    split at h
                    · rcases writeBvgzImageDebug_eq_ok h with ⟨dbg, suffix, hdbg, hsuffix, heq⟩
                      exact ⟨suffix, heq, fun _ => ⟨dbg, hdbg, hsuffix⟩⟩
                    · next hplain =>
                        refine ⟨[], ?_, fun htrue => absurd htrue hplain⟩
                        rw [List.append_nil, Option.some.inj (Except.ok.inj h)]
                  rcases hsuffix with ⟨suffix, rfl, hdebug⟩
                  refine ⟨b, q, _, image, suffix, hb, hrefs, ⟨b, q, hb, hrefs, rfl⟩, ?_, hfound,
                    Except.ok.inj himage, rfl, hdebug⟩
                  rw [List.length_take]
                  omega

end Basm

/-! ## `bvgz` -/

/-- Why `bvgz` does not come to an end. -/
inductive BvgzFault
  /-- `free(dbg)`, where a `goto` has passed the initialization of `dbg` -/
  | freeUninit
  | run (u : Ub)
  deriving DecidableEq

/-- The status that the parent of a process with this result of `main` gets. -/
def exitStatus (exceptions : UInt32) : Nat := (exceptions <<< 1).toNat % 256

/-- What `main` of `bvgz.c` makes of `execute_vm`; the status is `none` as long as that runs. -/
def runStatus : Except Ub (Option (Vm (Sys ω))) → Except BvgzFault (Option Nat)
  | .error u => .error (.run u)
  | .ok none => .ok none
  | .ok (some vm) => .ok (some (exitStatus vm.exceptions))

/-- `main` of `bvgz.c` without `-d`, on the contents of the image file, or `none` if it cannot be
opened. -/
def bvgzMain (T : InstnTable) (fill : Nat → UInt8) (os : Os ω) (world : ω)
    (imgfile : Option (List UInt8)) (n : Nat) : Except BvgzFault (Option Nat) :=
  match imgfile with
  | none => .error .freeUninit
  | some fp =>
      match readBvgzImage fill (newSys world) fp with
      | none => .error .freeUninit
      | some (vm, _) => runStatus (executeVm T.entries (sysHost os) n vm)

/-- The exit status for the end of a program. -/
def SrcResult.exitStatus : SrcResult → Nat
  | .ended _ => 0
  | .failed e _ => BvgzVm.exitStatus e
  | .asserted _ _ => 0

theorem exitStatus_shown {σ : Type} {r : SrcResult} {vm : Vm σ} (h : r.Shown vm) :
    exitStatus vm.exceptions = r.exitStatus := by
  cases r with
  | ended memory =>
      rw [h.2.1]
      rfl
  | failed e memory =>
      rw [h.2.1]
      rfl
  | asserted id memory =>
      rw [h.2.1]
      rfl

/-- The machine that `read_bvgz_image` makes of an image. -/
abbrev imageVm (fill : Nat → UInt8) (code memory : Segment) (entry : UInt32) (world : ω) :
    Vm (Sys ω) :=
  { makeVm fill (UInt32.ofNat code.size) (UInt32.ofNat memory.size) entry (newSys world) with
    code, memory }

theorem bvgzMain_image (T : InstnTable) (fill : Nat → UInt8) (os : Os ω) (world : ω)
    {code memory : Segment} {entry : UInt32} {debug : Bool} {image : List UInt8}
    (h : writeBvgzImageDirect code.bytes memory.bytes entry (imageFlags debug) = some image)
    (suffix : List UInt8) (n : ℕ) :
    bvgzMain T fill os world (some (image ++ suffix)) n =
      runStatus (executeVm T.entries (sysHost os) n (imageVm fill code memory entry world)) := by
  have hflags : imageFlags debug < 2 ^ 16 ∧ imageFlags debug &&& bvgzImgFExec ≠ 0 := by
    cases debug <;> decide
  unfold bvgzMain
  dsimp only
  rw [readBvgzImage_write fill (newSys world) hflags.1 hflags.2 h suffix]

/-! ## A program between its file and its status -/

section Run

variable {p : PrsResult T} {debug : Bool} {memory : Segment} {label : Label} {k : ℕ}

/-- A machine without procedures returns at once. -/
theorem executeVm_idle (os : Os ω) (world : ω) {vm : Vm (Sys ω)} (hhost : vm.host = newSys world)
    (hnil : vm.procedures = []) (n : ℕ) :
    executeVm T.entries (sysHost os) (n + 1) vm =
      .ok (some { vm with instnsSinceLastCleanup := 0 }) := by
  have hquiet := quietAt_new os world
  have hstep : roundStep T.entries (sysHost os) vm = some (.inr vm) :=
    roundStep_nil hquiet hhost hnil
  rcases executeVm_succ T.entries (sysHost os) vm n with
    ⟨u, hnone, -⟩ | ⟨vm', hdone, hrun⟩ | ⟨vm', hnext, -⟩
  · rw [hstep] at hnone
    cases hnone
  · rw [hstep] at hdone
    cases hdone
    rw [hrun, cleanupVm_quiet hquiet hhost, ok_bind]
  · rw [hstep] at hnext
    cases hnext

/-- Nothing is emitted behind the last instruction that is. -/
theorem codeSize_take_of_nothing {l : List (PrsInstn T)} (h : firstEmitted debug l k = none) :
    codeSize debug (l.take k) = codeSize debug l := by
  have hnone : (l.drop k).any (PrsInstn.emitted debug) = false := by
    rw [← firstEmitted_isSome, h]
    rfl
  rcases Nat.le_total l.length k with hle | hle
  · rw [List.take_of_length_le hle]
  · have hskipped : ((l.take l.length).drop k).any (PrsInstn.emitted debug) = false := by
      rw [List.take_length]
      exact hnone
    rw [← codeSize_take_of_skipped hle hskipped, List.take_length]

/-- How the status of `main` shows the end of a program. -/
structure StatusMeans (p : PrsResult T) (debug : Bool) (start : SrcState)
    (status : ℕ → Except BvgzFault (Option ℕ)) : Prop where
  ends : ∀ r, Outcomes.Ends (p.step debug) start r → ∃ n, status n = .ok (some r.exitStatus)
  safe : Defined (p.step debug) start → ∀ n f, status n ≠ .error f
  shows : Defined (p.step debug) start → ∀ n e, status n = .ok (some e) →
    ∃ r, Outcomes.Ends (p.step debug) start r ∧ e = r.exitStatus

/-- A machine that is loaded at the beginning of a program. -/
theorem statusMeans_loaded (os : Os ω) (hp : p.ErrorFree) {fill : ℕ → UInt8} {b : Bytecode T}
    (hgen : parseToBytecode fill p debug = .ok b)
    (hk : (firstEmitted debug p.instns k).isSome = true) {vm : Vm (Sys ω)}
    (hvm : Loaded b k memory vm) :
    StatusMeans p debug (srcStart k memory)
      (fun n => runStatus (executeVm T.entries (sysHost os) n vm)) := by
  constructor
  · intro r hr
    rcases assembled_ends os hp hgen hk hvm hr with ⟨n, vm', hrun, hshown⟩
    refine ⟨n, ?_⟩
    rw [hrun, runStatus, exitStatus_shown hshown]
  · intro hdef n f hf
    have hsafe := (assembled_defined os hp hgen hk hvm hdef n).1
    cases hrun : executeVm T.entries (sysHost os) n vm with
    | error u => exact hsafe u hrun
    | ok out =>
        rw [hrun] at hf
        cases out <;> cases hf
  · intro hdef n e he
    have hends := (assembled_defined os hp hgen hk hvm hdef n).2
    cases hrun : executeVm T.entries (sysHost os) n vm with
    | error u =>
        rw [hrun] at he
        cases he
    | ok out =>
        rw [hrun] at he
        cases out with
        | none => cases he
        | some vm' =>
            rcases hends vm' hrun with ⟨r, hr, hshown⟩
            cases he
            exact ⟨r, hr, exitStatus_shown hshown⟩

section Image

variable {b : Bytecode T} {code : Segment} {fill fillCode : ℕ → UInt8} {entry : UInt32}

theorem imageVm_host (world : ω) :
    (imageVm fillCode code memory entry world).host = newSys world := by
  show (makeVm _ _ _ _ _).host = _
  unfold makeVm Vm.makeProcedure
  dsimp only
  split <;> rfl

/-- `make_vm` rejects an entry outside the code, and nobody asks whether it has. -/
theorem imageVm_entry (world : ω) :
    (code.size ≤ entry.toNat →
      (imageVm fillCode code memory entry world).exceptions = vmEBadInstnPointer ∧
        (imageVm fillCode code memory entry world).procedures = []) ∧
    (entry.toNat < code.size →
      (imageVm fillCode code memory entry world).exceptions = 0 ∧
        (imageVm fillCode code memory entry world).procedures = [newProc entry]) := by
  have hsize : ((List.range (UInt32.ofNat code.bytes.length).toNat).map fillCode).length =
      code.bytes.length := by
    rw [List.length_map, List.length_range]
    exact UInt32.toNat_ofNat_of_lt' code.size_lt'
  constructor
  · intro hout
    unfold imageVm makeVm Vm.makeProcedure Segment.size
    dsimp only
    rw [hsize, if_pos (show code.bytes.length ≤ entry.toNat from hout)]
    exact ⟨UInt32.zero_or, rfl⟩
  · intro hin
    unfold imageVm makeVm Vm.makeProcedure Segment.size
    dsimp only
    rw [hsize, if_neg (show ¬ code.bytes.length ≤ entry.toNat from Nat.not_le.2 hin)]
    exact ⟨rfl, rfl⟩

/-- **The status of a loaded program**, where the entry label is found at its address. -/
theorem statusMeans_image (os : Os ω) (world : ω) (hp : p.ErrorFree)
    (hgen : parseToBytecode fill p debug = .ok b) (hcode : code.bytes = b.code)
    (hk : (firstEmitted debug p.instns entry.toNat).isSome = true)
    (hentry : encodedSize debug (p.instns.take entry.toNat) = entry.toNat) :
    StatusMeans p debug (srcStart entry.toNat memory) (fun n =>
      runStatus (executeVm T.entries (sysHost os) n
        (imageVm fillCode code memory entry world))) := by
  apply statusMeans_loaded os hp hgen hk
  rcases parseToBytecode_eq_layout hp hgen with ⟨rfl, hmax⟩
  rw [encodedSize_eq] at hentry
  have hsize : code.size = codeSize debug p.instns := by
    rw [Segment.size, hcode, PrsResult.layout, length_encodeCode]
  have hlt := codeSize_take_lt hk
  have hin : entry.toNat < code.size := by omega
  rcases (imageVm_entry world).2 hin with ⟨hexceptions, hprocs⟩
  -- the header has the index of the instruction, and `make_vm` takes it for its address
  have haddress : addressAt debug p.instns entry.toNat = entry := by
    apply UInt32.toNat_inj.1
    rw [toNat_addressAt hmax hk, hentry]
  have hget := List.getElem?_eq_getElem (firstEmitted_lt hk)
  refine ⟨hcode, rfl, hexceptions, ⟨_, getElem?_layout hget, ?_⟩, world, imageVm_host world⟩
  show _ = [newProc (addressAt debug p.instns entry.toNat)]
  rw [hprocs, haddress]

/-- **Without an instruction at its entry** an image does not run, and the status says so. -/
theorem status_nothing (os : Os ω) (world : ω) (hp : p.ErrorFree)
    (hgen : parseToBytecode fill p debug = .ok b) (hcode : code.bytes = b.code)
    (hk : firstEmitted debug p.instns entry.toNat = none)
    (hentry : encodedSize debug (p.instns.take entry.toNat) = entry.toNat) (n : ℕ) :
    runStatus (executeVm T.entries (sysHost os) (n + 1)
      (imageVm fillCode code memory entry world)) =
        .ok (some (exitStatus vmEBadInstnPointer)) := by
  rcases parseToBytecode_eq_layout hp hgen with ⟨rfl, -⟩
  rw [encodedSize_eq, codeSize_take_of_nothing hk] at hentry
  have hsize : code.size = codeSize debug p.instns := by
    rw [Segment.size, hcode, PrsResult.layout, length_encodeCode]
  have hout : code.size ≤ entry.toNat := by omega
  rcases (imageVm_entry world).1 hout with ⟨hexceptions, hnil⟩
  rw [executeVm_idle os world (imageVm_host world) hnil, runStatus, hexceptions]

end Image

/-- What `basm` accepts: an entry label of the code. -/
theorem basmMain_eq_ok {qsort : Qsort} {order : (p : PrsResult T) → VisitOrder p.labels}
    {fill : ℕ → UInt8} {env : PrsEnv} {depth : ℕ} {asmfile : CStr} {includePaths : List CStr}
    {entryPtLabel : CStr} {file : List UInt8}
    (h : basmMain qsort order fill env depth asmfile includePaths debug entryPtLabel =
      .ok (some file)) :
    ∃ p, parseAsm env depth false asmfile includePaths = .ok (some p) ∧ p.ErrorFree ∧
      basmWrite qsort order fill p debug entryPtLabel = .ok (some file) := by
  unfold basmMain at h
  split at h
  · cases h
  · cases h
  · next p hparse =>
      refine ⟨p, hparse, parseAsm_errorFree hparse ?_, h⟩
      by_contra herr
      -- `parse_to_bytecode` asserts that there is none
      have hgen : parseToBytecode fill p debug = .error .assertion := by
        rw [parseToBytecode, if_pos herr]
      rw [basmWrite, hgen] at h
      cases h

end Run

/-- The table of a list in which a label may stand more than once. -/
def LabelMap.firsts : LabelMap → LabelMap
  | [] => []
  | (k, v) :: m => LabelMap.put (firsts m) k v

theorem LabelMap.get_firsts (m : LabelMap) (k : CStr) :
    LabelMap.get (firsts m) k = LabelMap.get m k := by
  induction m with
  | nil => rfl
  | cons e m ih =>
      rw [LabelMap.firsts, LabelMap.get_put, ih]
      unfold LabelMap.get
      rw [List.lookup_cons]
      by_cases h : k = e.1
      · rw [if_pos h, beq_iff_eq.2 h]
      · rw [if_neg h, beq_eq_false_iff_ne.2 h]

theorem LabelMap.nodup_firsts (m : LabelMap) : ((LabelMap.firsts m).map Prod.fst).Nodup := by
  induction m with
  | nil => exact List.nodup_nil
  | cons e m ih =>
      rw [LabelMap.firsts, LabelMap.put, List.map_cons, List.nodup_cons]
      constructor
      · intro hmem
        rcases List.mem_map.1 hmem with ⟨e', he', heq⟩
        have hne := (List.mem_filter.1 he').2
        exact absurd heq (of_decide_eq_true hne)
      · exact ih.sublist (List.filter_sublist.map _)

/-- An order for any table. -/
def firstOrder (m : LabelMap) : VisitOrder m where
  entries := (LabelMap.firsts m)
  nodup := (LabelMap.nodup_firsts m)
  mem_iff := by
    intro k v
    rw [← LabelMap.get_firsts m]
    exact (listOrder (LabelMap.firsts m) (LabelMap.nodup_firsts m)).mem_iff k v

/-- **From the source to the exit status.** When `basm` writes a file for a source, then this has
no errors and its entry label stands in the code. Let the instructions before that label take as
many bytes as they are many. If an instruction is emitted at or behind it, then the status of
`bvgz` on the file shows how the program ends; if none is, then the status is that of a bad
instruction pointer. -/
theorem bvgz_runs_basm (os : Os ω) (world : ω) {qsort : Qsort}
    {order : (p : PrsResult T) → VisitOrder p.labels} {fill : ℕ → UInt8} (fillCode : ℕ → UInt8)
    {env : PrsEnv} {depth : ℕ} {asmfile : CStr} {includePaths : List CStr} {debug : Bool}
    {entryPtLabel : CStr} {file : List UInt8}
    (h : basmMain qsort order fill env depth asmfile includePaths debug entryPtLabel =
      .ok (some file)) :
    ∃ (p : PrsResult T) (label : Label) (memory : Segment),
      parseAsm env depth false asmfile includePaths = .ok (some p) ∧ p.ErrorFree ∧
      p.labels.get entryPtLabel = some label ∧ label.isMemRef = false ∧
      IsImageData fill p debug memory.bytes ∧
      (encodedSize debug (p.instns.take label.offset.toNat) = label.offset.toNat →
        ((firstEmitted debug p.instns label.offset.toNat).isSome = true →
          StatusMeans p debug (srcStart label.offset.toNat memory)
            (bvgzMain T fillCode os world (some file))) ∧
        (firstEmitted debug p.instns label.offset.toNat = none → ∀ n,
          bvgzMain T fillCode os world (some file) (n + 1) =
            .ok (some (exitStatus vmEBadInstnPointer)))) := by
  rcases basmMain_eq_ok h with ⟨p, hparse, hp, hwrite⟩
  rcases basmWrite_eq_ok hwrite with
    ⟨b, -, data, image, suffix, hgen, -, hdata, hdatasz, hfound, himage, rfl, -⟩
  have hlabels : b.parse.labels = p.labels := by
    rw [(parseToBytecode_eq_layout hp hgen).1]
    rfl
  rw [resolveEntryPoint, hlabels] at himage hfound
  cases hget : p.labels.get entryPtLabel with
  | none =>
      rw [hget] at hfound
      exact absurd rfl hfound
  | some label =>
      rw [hget] at himage hfound
      dsimp only at himage hfound
      cases hcode : label.isMemRef with
      | true =>
          rw [hcode] at hfound
          exact absurd rfl hfound
      | false =>
          rw [hcode, if_neg Bool.false_ne_true] at himage
          -- the code and the data are read back as they were written
          have hcodesz : b.code.length < 2 ^ 32 := by
            rcases parseToBytecode_eq_layout hp hgen with ⟨rfl, hmax⟩
            rw [PrsResult.layout, length_encodeCode]
            unfold maxCodeSize at hmax
            omega
          have hstatus : bvgzMain T fillCode os world (some (image ++ suffix)) = fun n =>
              runStatus (executeVm T.entries (sysHost os) n
                (imageVm fillCode ⟨b.code, hcodesz⟩ ⟨data, hdatasz⟩ label.offset world)) := by
            funext n
            exact bvgzMain_image T fillCode os world himage suffix n
          refine ⟨p, label, ⟨data, hdatasz⟩, hparse, hp, hget, hcode, hdata, ?_⟩
          intro hentry
          rw [hstatus]
          constructor
          · intro hk
            exact statusMeans_image os world hp hgen rfl hk hentry
          · intro hk n
            exact status_nothing os world hp hgen rfl hk hentry n

/-- `_entry: abrt 3` -/
def abortProgram : PrsResult stableTable where
  nFiles := 1
  reports := []
  instns := [⟨⟨0, []⟩, 2, tableRow ⟨0, by decide⟩, [byteArg 3], noOffset, List.get_mem _ _, rfl⟩]
  memory := []
  memsz := 0
  memAlloc := 0
  labels := [("_entry".toList, ⟨⟨0, []⟩, 1, 0, false⟩)]
  labelRefs := []

theorem parseAsm_abort :
    parseAsm (singleFile "_entry:\nabrt 3\n".toList) 1 false [] [] = .ok (some abortProgram) := by
  decide +kernel

/-- What `basm` writes for it: the header and four bytes of code. -/
def abortFile : List UInt8 :=
  [0xC5, 0xB0, 1, 0, 0, 0, 0, 0, 4, 0, 0, 0, 0, 0, 0, 0, 1, 0, 0, 3]

theorem basmMain_abort :
    basmMain mergeQsort (fun p : PrsResult stableTable => firstOrder p.labels) (fun _ => 0)
      (singleFile "_entry:\nabrt 3\n".toList) 1 [] [] false "_entry".toList =
        .ok (some abortFile) := by
  decide +kernel

/-- `abrt 3` leaves the status 6. -/
theorem bvgz_runs_basm_abort :
    ∃ n, bvgzMain stableTable (fun _ => 0) deadOs () (some abortFile) n = .ok (some 6) := by
  rcases bvgz_runs_basm deadOs () (fun _ => 0) basmMain_abort with
    ⟨p, label, memory, hparse, -, hget, -, -, hruns⟩
  rw [parseAsm_abort] at hparse
  obtain rfl := Option.some.inj (Except.ok.inj hparse)
  have hlabel : label = ⟨⟨0, []⟩, 1, 0, false⟩ := (Option.some.inj hget).symm
  subst hlabel
  have habort : Fetches abortProgram false 0 .abrt1 [.value 3] :=
    ⟨_, rfl, by decide +kernel, by decide +kernel, by decide +kernel⟩
  have hends : Outcomes.Ends (abortProgram.step false) (srcStart 0 memory) (.failed 3 memory) :=
    .done (step_eq_exec habort rfl rfl)
  have hmeans := (hruns (by decide +kernel)).1 (by decide +kernel)
  exact hmeans.ends _ hends

end BvgzVm
