import BvgzVm.Strip.Rounds
import BvgzVm.Syscalls.Runs

set_option autoImplicit false

/-! # Stripping assertions

The code that is generated without `debug_mode` does the same as the one with it, apart from
`assert` (`stripped_sameSteps`), in the programs whose jumps and calls go to labels: only what
refers to a label is relocated (`numericJump_differs`).
-/

namespace BvgzVm

open CLib CallStack Fallible Stutter

variable {T : InstnTable}

/-! ## The simulation -/

section Simulation

variable {σ : Type} {p : PrsResult T} {h h' : σ} {vm vm' : Vm σ} {host : Host σ}

/-- The code behind the running procedure. -/
def codeAhead (vm : Vm σ) : Nat :=
  match vm.procedures with
  | [] => 0
  | q :: _ => vm.code.size - q.iptr.toNat

/-- The machine that decodes an instruction of `n` bytes for its first procedure. -/
def decodedVm (vm : Vm σ) (q : Proc) (n : Nat) (qs : List Proc) : Vm σ :=
  { vm with iptr := q.iptr, procedures := { q with iptr := q.iptr + UInt32.ofNat n } :: qs }

/-- **An `assert`** that comes next is passed by the debug run alone. -/
theorem executeTurn_hides (hp : p.Relocates) (hquiet : QuietAt host h)
    (hvm : SameVm p h h' vm vm') {q q' : Proc} {qs qs' : List Proc}
    (hprocs : vm.procedures = q :: qs) (hprocs' : vm'.procedures = q' :: qs')
    (hq : SameProc p q q') (hqs : List.Forall₂ (SameProc p) qs qs') {k : Nat} {x : PrsInstn T}
    (hk : p.instns[k]? = some x) (hassert : x.instn.handler = .assert2)
    (ha : q.iptr.toNat = codeSize true (p.instns.take k))
    (ha' : q'.iptr.toNat = codeSize false (p.instns.take k))
    (hfetch : fetchInstn T.entries host vm =
      .ok (.decoded (x.decoded (p.resolved true)) (decodedVm vm q x.size qs)))
    (hexec : vmExecInstn T.entries host (x.decoded (p.resolved true)) (decodedVm vm q x.size qs) =
      .ok (0, decodedVm vm q x.size qs)) :
    Hides (executeTurn T.entries host) (notAssert T) (SameVm p h h') codeAhead vm vm' := by
  have hsize := x.size_pos
  have hbehind := toNat_behind hp hk (emitted_true x) ha
  have hskipped : ¬ x.emitted false = true := by
    rw [emitted_false_iff, not_not]
    exact hassert
  have hproc : SameProc p { q with iptr := q.iptr + UInt32.ofNat x.size } q' := by
    apply hq.jump
    apply Corresponds.next hk hbehind
    rw [if_neg hskipped, ha', Nat.add_zero]
  have hsame : SameVm p h h' (decodedVm vm q x.size qs) vm' := by
    refine ⟨hvm.code, hvm.code', hvm.memory, hvm.exceptions, hvm.host, hvm.host', ?_⟩
    rw [hprocs']
    exact .cons hproc hqs
  rcases executeTurn_assert hquiet hassert hsame hfetch hexec with
    ⟨hshown, s, hnext, hs, hsprocs, hscode⟩
  refine ⟨hshown, s, hnext, hs, ?_⟩
  have hlt : codeSize true (p.instns.take k) < codeSize true p.instns :=
    codeSize_take_lt (firstEmitted_self hk (emitted_true x))
  have hcode := hvm.codeSize.1
  unfold codeAhead
  rw [hsprocs, hscode, hprocs]
  show vm.code.size - (q.iptr + UInt32.ofNat x.size).toNat < vm.code.size - q.iptr.toNat
  omega

/-- **A round of the debug run** is hidden or answered by a round of the stripped run. -/
theorem executeTurn_simulates (hp : p.Relocates) (hquiet : QuietAt host h)
    (hquiet' : QuietAt host h') (hvm : SameVm p h h' vm vm')
    (hplain : PlainRound host (p.layout true) vm) :
    Hides (executeTurn T.entries host) (notAssert T) (SameVm p h h') codeAhead vm vm' ∨
      Answers (notAssert T) (SameStep (p.layout true) (p.layout false)) (SameVm p h h')
        (executeTurn T.entries host vm) (executeTurn T.entries host vm') := by
  cases hprocs : vm.procedures with
  | nil =>
      have hprocs' : vm'.procedures = [] := by
        have hall := hvm.procedures
        rw [hprocs] at hall
        exact List.forall₂_nil_left_iff.1 hall
      right
      unfold executeTurn executeRound
      rw [fetchInstn_nil hprocs (hquiet.pending vm hvm.host),
        fetchInstn_nil hprocs' (hquiet'.pending vm' hvm.host')]
      exact ⟨.nil, Or.inl ⟨rfl, rfl⟩⟩
  | cons q qs =>
      have hall := hvm.procedures
      rw [hprocs] at hall
      rcases List.forall₂_cons_left_iff.1 hall with ⟨q', qs', hq, hqs, hprocs'⟩
      have houtside := hvm.outside_iff hp.strippable hq.iptr
      by_cases hout : vm.code.size ≤ q.iptr.toNat
      · -- the procedure is at the end of the program
        right
        unfold executeTurn executeRound
        rw [fetchInstn_outside hprocs hout, fetchInstn_outside hprocs' (houtside.2 hout)]
        exact ⟨.nil, Or.inr ⟨_, _, rfl, rfl, hvm.code, hvm.code', hvm.memory, hvm.exceptions,
          hvm.host, hvm.host', hqs⟩⟩
      · have hout' := mt houtside.1 hout
        have hfetch : fetchInstn T.entries host vm = _ := fetchInstn_inside hprocs hout
        have hfetch' : fetchInstn T.entries host vm' = _ := fetchInstn_inside hprocs' hout'
        rcases hq.iptr with ⟨k, hk, ha, ha'⟩
        have hlt : k < p.instns.length := by
          rcases Nat.lt_or_ge k p.instns.length with hlt | hge
          · exact hlt
          · rw [List.take_of_length_le hge, ← hvm.codeSize.1] at ha
            exact absurd (Nat.le_of_eq ha.symm) hout
        have hget := List.getElem?_eq_getElem hlt
        rw [ha] at hfetch
        rw [ha'] at hfetch'
        have hdecode := decodeInstn_alike hp.strippable hget vm.memory
        by_cases hassert : p.instns[k].instn.handler = .assert2
        · left
          have hiptr : q.iptr = addressAt true p.instns k := by
            rw [← UInt32.toNat_inj, ha, toNat_addressAt hp.size
              (firstEmitted_self hget (emitted_true _))]
          rcases hplain.asserts _ (List.mem_of_getElem? (getElem?_layout hget)) hassert q qs
            hprocs hiptr with ⟨instn, s, hdecoded, hexec⟩
          rcases hdecode with hrejected | haccepted
          · rw [hrejected true vm.code (emitted_true _) hvm.code] at hfetch
            rw [hfetch] at hdecoded
            cases hdecoded
          · rw [haccepted true vm.code (emitted_true _) hvm.code] at hfetch
            rw [hfetch] at hdecoded
            cases hdecoded
            exact executeTurn_hides hp hquiet hvm hprocs hprocs' hq hqs hget hassert ha ha' hfetch
              hexec
        · right
          have hxe : p.instns[k].emitted false = true := (emitted_false_iff _).2 hassert
          rcases hdecode with hrejected | haccepted
          · have hbad := hrejected false vm'.code hxe hvm.code'
            rw [← hvm.memory] at hbad
            rw [hrejected true vm.code (emitted_true _) hvm.code] at hfetch
            rw [hbad] at hfetch'
            unfold executeTurn executeRound
            rw [hfetch, hfetch']
            exact ⟨.nil, Or.inl ⟨rfl, rfl⟩⟩
          · have hgood := haccepted false vm'.code hxe hvm.code'
            rw [← hvm.memory] at hgood
            rw [haccepted true vm.code (emitted_true _) hvm.code] at hfetch
            rw [hgood] at hfetch'
            have hbehind := toNat_behind hp hget (emitted_true _) ha
            have hbehind' := toNat_behind hp hget hxe ha'
            have hproc := hq.jump (Corresponds.next hget hbehind (by rw [if_pos hxe, hbehind']))
            have hexecutes : Executes p h h' k (decodedVm vm q p.instns[k].size qs)
                (decodedVm vm' q' p.instns[k].size qs') :=
              ⟨⟨hvm.code, hvm.code', hvm.memory, hvm.exceptions, hvm.host, hvm.host',
                .cons hproc hqs⟩, ha, ha'⟩
            refine executeTurn_decoded hp hquiet hquiet' hget hassert hexecutes ?_ hfetch hfetch'
            intro hret
            apply hplain.returns _ _ hfetch
            rw [handlerAt_decoded, hret]

end Simulation

/-! ## Whole runs -/

section Runs

variable {ω : Type}

/-- A new machine that begins with instruction `k` of the code and has this memory. -/
structure Loaded (b : Bytecode T) (k : Nat) (memory : Segment) (vm : Vm (Sys ω)) : Prop where
  code : vm.code.bytes = b.code
  memory : vm.memory = memory
  exceptions : vm.exceptions = 0
  procedures : ∃ i, b.parse.instns[k]? = some i ∧ vm.procedures = [newProc i.memOffset]
  host : ∃ world, vm.host = newSys world

/-- The machine comes to this one at the beginning of a round of `execute_vm`. -/
abbrev Comes (T : InstnTable) (os : Os ω) : Vm (Sys ω) → Vm (Sys ω) → Prop :=
  Visits (executeTurn T.entries (sysHost os))

/-- The instructions other than `assert` that are executed in `n` rounds, each with the machine
after it. -/
def performed (T : InstnTable) (os : Os ω) (n : Nat) (vm : Vm (Sys ω)) :
    List (Instn × Vm (Sys ω)) :=
  (executeTrace T.entries (sysHost os) n vm).filter (notAssert T)

/-- The two runs perform the same sequence of instructions other than `assert`, with the same
memory after each: what is performed in some number of rounds of the one run is performed in some
number of rounds of the other. -/
def SameRuns (os : Os ω) (bd bs : Bytecode T) (vm vm' : Vm (Sys ω)) : Prop :=
  (∀ n, ∃ m, List.Forall₂ (SameStep bd bs) (performed T os n vm) (performed T os m vm')) ∧
    ∀ m, ∃ n, List.Forall₂ (SameStep bd bs) (performed T os n vm) (performed T os m vm')

/-- In a new machine no events are pending, and there are no children. -/
theorem quietAt_new (os : Os ω) (world : ω) : QuietAt (sysHost os) (newSys world) where
  pending := by
    intro vm hvm
    show ((decide (vm.host.timers ≠ []) || vm.host.io.hasPending) || vm.host.proc.hasPending) = _
    rw [hvm]
    rfl
  fire := by
    intro vm hvm
    show fireProcs os vm.host.proc.nProc 0 vm = _
    rw [hvm]
    rfl

/-- The addresses of an instruction in the two codes. -/
theorem corresponds_memOffset {p : PrsResult T} (hp : p.Relocates) {k : Nat} {i i' : PrsInstn T}
    (hi : (p.layout true).parse.instns[k]? = some i)
    (hi' : (p.layout false).parse.instns[k]? = some i') : Corresponds p i.memOffset i'.memOffset := by
  have hlt : k < p.instns.length := by
    have hlt := (List.getElem?_eq_some_iff.1 hi).1
    rw [← length_placed true p.instns p.instns.length]
    exact hlt
  have hget := List.getElem?_eq_getElem hlt
  rw [getElem?_layout hget] at hi hi'
  rw [← Option.some.inj hi, ← Option.some.inj hi']
  exact ⟨k, Nat.le_of_lt hlt, toNat_addressAt hp.size (hp.strippable.emitted_behind true hlt),
    toNat_addressAt (hp.size_le false) (hp.strippable.emitted_behind false hlt)⟩

/-- What is performed in the stripped run is all that is executed. -/
theorem filter_sameStep {bd bs : Bytecode T} {l l' : List (Instn × Vm (Sys ω))}
    (h : List.Forall₂ (SameStep bd bs) (l.filter (notAssert T)) l') :
    l'.filter (notAssert T) = l' := by
  rw [List.filter_eq_self]
  intro e' he'
  rcases List.mem_iff_getElem.1 he' with ⟨j, hj, rfl⟩
  have hlen := h.length_eq
  have hsame := h.get (show j < (l.filter (notAssert T)).length by omega) hj
  have hvisible := List.of_mem_filter
    (List.getElem_mem (show j < (l.filter (notAssert T)).length by omega))
  unfold notAssert at hvisible ⊢
  rw [List.get_eq_getElem, List.get_eq_getElem] at hsame
  rw [hsame.word]
  exact hvisible

/-- **Stripping assertions.** Take a program without errors and system calls, with code labels as
the targets of jumps and calls only, and of all of them, and with a last instruction that is not
for debugging. If in the debug run every `assert` that comes next is decoded and does nothing, and
no `ret` shrinks the call stack, then the debug run and the stripped run perform the same sequence
of instructions other than `assert`, with the same memory after each. -/
theorem stripped_sameRuns (os : Os ω) {fill fill' : Nat → UInt8} {p : PrsResult T}
    (hp : p.Strippable) (htargets : p.TargetsLabels) {bd bs : Bytecode T}
    (hd : parseToBytecode fill p true = .ok bd) (hs : parseToBytecode fill' p false = .ok bs)
    {k : Nat} {memory : Segment} {vm vm' : Vm (Sys ω)} (hvm : Loaded bd k memory vm)
    (hvm' : Loaded bs k memory vm')
    (hplain : ∀ s, Comes T os vm s → PlainRound (sysHost os) bd s) : SameRuns os bd bs vm vm' := by
  have hinside : p.CodeLabelsInside true := by
    by_contra hout
    rw [(parseToBytecode_spec fill true hp.errorFree).2.1
      (parseToBytecode_eq_layout hp.errorFree hd).2 hout] at hd
    cases hd
  rcases parseToBytecode_eq_layout hp.errorFree hd with ⟨rfl, hsize⟩
  rcases parseToBytecode_eq_layout hp.errorFree hs with ⟨rfl, -⟩
  have hrel : p.Relocates := ⟨hp, htargets, hsize, hinside⟩
  rcases hvm.host with ⟨world, hworld⟩
  rcases hvm'.host with ⟨world', hworld'⟩
  rcases hvm.procedures with ⟨i, hi, hprocs⟩
  rcases hvm'.procedures with ⟨i', hi', hprocs'⟩
  have hstart : SameVm p (newSys world) (newSys world') vm vm' := by
    refine ⟨hvm.code, hvm'.code, ?_, ?_, hworld, hworld', ?_⟩
    · rw [hvm.memory, hvm'.memory]
    · rw [hvm.exceptions, hvm'.exceptions]
    · rw [hprocs, hprocs']
      exact .cons (sameProc_new (corresponds_memOffset hrel hi hi')) .nil
  have hsim := simulation_visits fun s t hR hplain => executeTurn_simulates hrel
    (quietAt_new os world) (quietAt_new os world') hR hplain
  unfold SameRuns performed
  simp only [← trace_executeTurn]
  constructor
  · intro n
    rcases hsim.forward n ⟨hstart, hplain⟩ with ⟨m, hm⟩
    refine ⟨m, ?_⟩
    rw [filter_sameStep hm]
    exact hm
  · intro m
    rcases hsim.backward m ⟨hstart, hplain⟩ with ⟨n, hn⟩
    refine ⟨n, ?_⟩
    rw [filter_sameStep hn]
    exact hn

end Runs

/-! ## An assertion that does nothing -/

/-- A new machine for this code, with 8 bytes of memory. -/
def newVm (code : Segment) : Vm (Sys Unit) where
  code := code
  memory := ⟨List.replicate 8 0, by decide⟩
  exceptions := 0
  procedures := [newProc 0]
  iptr := 0xffffffff
  instns := 0
  assertId := 0
  instnsSinceLastCleanup := 0
  host := newSys ()

theorem loaded_newVm {b : Bytecode T} {code : Segment} (hcode : code.bytes = b.code)
    (hentry : (b.parse.instns[0]?).map PrsInstn.memOffset = some 0) :
    Loaded b 0 ⟨List.replicate 8 0, by decide⟩ (newVm code) where
  code := hcode
  memory := rfl
  exceptions := rfl
  procedures := by
    rcases Option.map_eq_some_iff.1 hentry with ⟨i, hi, hzero⟩
    refine ⟨i, hi, ?_⟩
    rw [hzero]
    rfl
  host := ⟨(), rfl⟩

/-- `jmp &e`, and an `assert` and `nop` at `e`. -/
def jumpToAssert : PrsResult stableTable where
  nFiles := 1
  reports := []
  instns := [srcJmp 1 (.immLbl ['e']), srcAssert 3 (.refNum 0) (byteArg 0), srcNop 4]
  memory := []
  memsz := 0
  memAlloc := 0
  labels := [(['e'], ⟨⟨0, []⟩, 2, 1, false⟩)]
  labelRefs := []

theorem jumpToAssert_mentions :
    ∀ i ∈ jumpToAssert.instns, ∀ a ∈ i.args, ∀ k, a.label? = some k → k = ['e'] := by
  decide +kernel

/-- The debug code and the stripped code of `jumpToAssert`. -/
def jumpDebug : Segment :=
  ⟨[121, 0, 2, 7, 0, 0, 0, 50, 0, 0, 0, 0, 0, 0, 0, 0, 1], by decide⟩
def jumpStripped : Segment := ⟨[121, 0, 2, 7, 0, 0, 0, 0, 1], by decide⟩

/-- No `assert` of the code comes next. -/
def notAtAssert (bd : Bytecode stableTable) (vm : Vm (Sys Unit)) : Bool :=
  bd.parse.instns.all fun i =>
    i.instn.handler ≠ .assert2 || vm.procedures.all fun q => q.iptr ≠ i.memOffset

/-- What comes next is an `assert` whose condition is zero, or neither an `assert` nor a `ret`. -/
def plainNext (bd : Bytecode stableTable) (vm : Vm (Sys Unit)) : Bool :=
  match fetchInstn stableTable.entries (sysHost deadOs) vm with
  | .ok (.decoded instn vm₁) =>
      match handlerAt stableTable.entries (instn.code >>> 3) with
      | .ok .assert2 => (argValue instn 1 vm₁).toOption == some 0
      | .ok .ret0 => false
      | _ => notAtAssert bd vm
  | _ => notAtAssert bd vm

theorem not_atAssert {bd : Bytecode stableTable} {vm : Vm (Sys Unit)}
    (h : notAtAssert bd vm = true) {i : PrsInstn stableTable} (hi : i ∈ bd.parse.instns)
    (hassert : i.instn.handler = .assert2) {q : Proc} {qs : List Proc}
    (hprocs : vm.procedures = q :: qs) : q.iptr ≠ i.memOffset := by
  have hall := List.all_eq_true.1 h i hi
  rw [hassert, hprocs] at hall
  simp only [ne_eq, not_true_eq_false, decide_false, Bool.false_or, List.all_cons,
    Bool.and_eq_true, decide_eq_true_eq] at hall
  exact hall.1

theorem plainRound_of_next {bd : Bytecode stableTable} {vm : Vm (Sys Unit)}
    (h : plainNext bd vm = true) : PlainRound (sysHost deadOs) bd vm := by
  unfold plainNext at h
  constructor
  · intro i hi hassert q qs hprocs hiptr
    split at h
    · next instn vm₁ hfetch =>
        split at h
        · next hop =>
            refine ⟨instn, vm₁, hfetch, ?_⟩
            have hc : argValue instn 1 vm₁ = .ok 0 := by
              rw [beq_iff_eq] at h
              cases hvalue : argValue instn 1 vm₁ with
              | error u =>
                  rw [hvalue] at h
                  cases h
              | ok c =>
                  rw [hvalue] at h
                  exact congrArg Except.ok (Option.some.inj h)
            rw [vmExecInstn, hop, ok_bind, handlerOf, opAssert2, hc, ok_bind]
            rfl
        · cases h
        · exact absurd hiptr (not_atAssert h hi hassert hprocs)
    · exact absurd hiptr (not_atAssert h hi hassert hprocs)
  · intro instn vm₁ hfetch hop
    rw [hfetch] at h
    dsimp only at h
    rw [hop] at h
    cases h

/-- The jump goes to the `assert` in the debug run and to the `nop` in the stripped run. -/
theorem stripped_sameRuns_jump :
    ∃ bd bs, parseToBytecode (fun _ => 0) jumpToAssert true = .ok bd ∧
      parseToBytecode (fun _ => 0) jumpToAssert false = .ok bs ∧
      SameRuns deadOs bd bs (newVm jumpDebug) (newVm jumpStripped) := by
  have hparse : parseAsm (singleFile "jmp &e\ne:\nassert *0, 0\nnop\n".toList) 1 false [] [] =
      .ok (some jumpToAssert) := by
    decide +kernel
  have herror : jumpToAssert.ErrorFree := parseAsm_errorFree hparse (by decide)
  have hlabels (debugMode : Bool) : jumpToAssert.LabelsEmitted debugMode := by
    rintro i hi - k ⟨a, ha, hk⟩
    rw [jumpToAssert_mentions i hi a ha k hk]
    refine ⟨_, rfl, fun _ => ?_⟩
    cases debugMode <;> decide +kernel
  have hgen (debugMode : Bool) : parseToBytecode (fun _ => 0) jumpToAssert debugMode =
      .ok (jumpToAssert.layout debugMode) := by
    refine (parseToBytecode_spec _ debugMode herror).2.2 ?_ (hlabels debugMode).inside
    cases debugMode <;> decide +kernel
  have hstrippable : jumpToAssert.Strippable := by
    refine ⟨herror, by decide +kernel, ?_, ?_⟩
    · intro i hi j a k ha hk _
      have hall : ∀ i ∈ jumpToAssert.instns, ∀ j < 3, ∀ a, i.args[j]? = some a →
          ∀ k, a.label? = some k → j = 0 ∧ a = .immLbl k ∧ i.instn.handler.jumps = true := by
        decide +kernel
      have hlt : j < 3 := lt_of_lt_of_le (List.getElem?_eq_some_iff.1 ha).1 i.length_args_le
      exact hall i hi j hlt a ha k hk
    · intro i hi
      obtain rfl := Option.some.inj hi
      decide +kernel
  have htargets : jumpToAssert.TargetsLabels := by
    have hall : ∀ i ∈ jumpToAssert.instns, i.instn.handler.jumps = true →
        i.args[0]? = some (.immLbl ['e']) := by
      decide +kernel
    intro i hi hjumps
    exact ⟨['e'], hall i hi hjumps, _, rfl, rfl⟩
  have hcode : jumpDebug.bytes = (jumpToAssert.layout true).code := by decide +kernel
  have hcode' : jumpStripped.bytes = (jumpToAssert.layout false).code := by decide +kernel
  have hplain : ∀ s, Comes stableTable deadOs (newVm jumpDebug) s →
      PlainRound (sysHost deadOs) (jumpToAssert.layout true) s := by
    intro s hs
    have hends : ends (executeTurn stableTable.entries (sysHost deadOs)) 5 (newVm jumpDebug) =
        true := by
      decide +kernel
    have hall : (path (executeTurn stableTable.entries (sysHost deadOs)) 5
        (newVm jumpDebug)).all (plainNext (jumpToAssert.layout true)) = true := by
      decide +kernel
    exact plainRound_of_next (List.all_eq_true.1 hall s (hs.mem_path hends))
  exact ⟨_, _, hgen true, hgen false, stripped_sameRuns deadOs hstrippable htargets (hgen true)
    (hgen false) (loaded_newVm hcode (by decide +kernel)) (loaded_newVm hcode' (by decide +kernel))
    hplain⟩

/-! ## Targets that are numbers -/

section Targets

variable {ω : Type}

/-- Every `assert` that is executed in the run has a condition that is not zero. -/
def TrueAsserts (T : InstnTable) (os : Os ω) (vm : Vm (Sys ω)) : Prop :=
  ∀ s, Comes T os vm s → ∀ instn vm₁,
    fetchInstn T.entries (sysHost os) s = .ok (.decoded instn vm₁) →
      handlerAt T.entries (instn.code >>> 3) = .ok .assert2 →
        ∃ c, argValue instn 1 vm₁ = .ok c ∧ c ≠ 0

/-- No `assert` stops the run. -/
def AssertsHold (T : InstnTable) (os : Os ω) (vm : Vm (Sys ω)) : Prop :=
  ∀ s, Comes T os vm s → ∀ instn vm₁ r vm₂,
    fetchInstn T.entries (sysHost os) s = .ok (.decoded instn vm₁) →
      handlerAt T.entries (instn.code >>> 3) = .ok .assert2 →
        vmExecInstn T.entries (sysHost os) instn vm₁ = .ok (r, vm₂) → 0 ≤ r

/-- Stripping preserves the meaning of the program, whatever its jumps go to. -/
def StrippingPreserves (os : Os ω) (p : PrsResult T) : Prop :=
  p.Strippable → ∀ (fill : Nat → UInt8) (bd bs : Bytecode T),
    parseToBytecode fill p true = .ok bd → parseToBytecode fill p false = .ok bs →
      ∀ (k : Nat) (memory : Segment) (vm vm' : Vm (Sys ω)), Loaded bd k memory vm →
        Loaded bs k memory vm' → TrueAsserts T os vm →
          AssertsHold T os vm ∧ SameRuns os bd bs vm vm'

end Targets

/-- `jmp 12`, an `assert`, and `nop` at the address `12` of the debug code. -/
def numericJump : PrsResult stableTable where
  nFiles := 1
  reports := []
  instns := [srcJmp 1 (byteArg 12), srcAssert 2 (.refNum 0) (byteArg 7), srcNop 3]
  memory := []
  memsz := 0
  memAlloc := 0
  labels := []
  labelRefs := []

/-- A program without labels has a code. -/
theorem parseToBytecode_noLabels {p : PrsResult T} (hp : p.ErrorFree) (hlabels : p.labels = [])
    (fill : Nat → UInt8) (debugMode : Bool) (hsize : codeSize debugMode p.instns ≤ maxCodeSize) :
    parseToBytecode fill p debugMode = .ok (p.layout debugMode) := by
  refine (parseToBytecode_spec fill debugMode hp).2.2 hsize ?_
  intro i _ _ k _ label hget
  rw [hlabels] at hget
  cases hget

/-- The debug code and the stripped code of `numericJump`. -/
def numericDebug : Segment := ⟨[121, 0, 0, 12, 50, 0, 0, 0, 0, 0, 0, 7, 0, 1], by decide⟩
def numericStripped : Segment := ⟨[121, 0, 0, 12, 0, 1], by decide⟩

/-- The run does not come to an `assert`. -/
def noAssertNext (vm : Vm (Sys Unit)) : Bool :=
  match fetchInstn stableTable.entries (sysHost deadOs) vm with
  | .ok (.decoded instn _) => notAssert stableTable (instn, vm)
  | _ => true

/-- **A jump to a number** is not relocated: the debug run goes on behind the `assert`, which it
never executes, and the stripped run jumps out of its code. -/
theorem numericJump_differs :
    parseAsm (singleFile "jmp 12\nassert *0, 7\nnop\n".toList) 1 false [] [] =
        .ok (some numericJump) ∧
      ¬ StrippingPreserves deadOs numericJump := by
  have hparse : parseAsm (singleFile "jmp 12\nassert *0, 7\nnop\n".toList) 1 false [] [] =
      .ok (some numericJump) := by
    decide +kernel
  have herror : numericJump.ErrorFree := parseAsm_errorFree hparse (by decide)
  have hstrippable : numericJump.Strippable := by
    refine ⟨herror, by decide +kernel, ?_, ?_⟩
    · rintro i hi j a k - - ⟨label, hget, -⟩
      cases hget
    · intro i hi
      obtain rfl := Option.some.inj hi
      decide +kernel
  have hcode : (numericJump.layout true).code = numericDebug.bytes := by decide +kernel
  have hcode' : (numericJump.layout false).code = numericStripped.bytes := by decide +kernel
  have hd := parseToBytecode_noLabels herror rfl (fun _ => 0) true (by decide +kernel)
  have hs := parseToBytecode_noLabels herror rfl (fun _ => 0) false (by decide +kernel)
  have hvm := loaded_newVm hcode.symm (by decide +kernel)
  have hvm' := loaded_newVm hcode'.symm (by decide +kernel)
  have hasserts : TrueAsserts stableTable deadOs (newVm numericDebug) := by
    intro s hs instn vm₁ hfetch hop
    have hends : ends (executeTurn stableTable.entries (sysHost deadOs)) 4 (newVm numericDebug) =
        true := by
      decide +kernel
    have hall : (path (executeTurn stableTable.entries (sysHost deadOs)) 4
        (newVm numericDebug)).all noAssertNext = true := by
      decide +kernel
    have hnext := List.all_eq_true.1 hall s (hs.mem_path hends)
    rw [noAssertNext, hfetch] at hnext
    dsimp only at hnext
    rw [notAssert, hop] at hnext
    cases hnext
  refine ⟨hparse, ?_⟩
  intro hclaim
  rcases hclaim hstrippable _ _ _ hd hs 0 _ _ _ hvm hvm' hasserts with ⟨-, hsame, -⟩
  -- two instructions are executed in two rounds of the debug run
  rcases hsame 2 with ⟨m, hm⟩
  have hlen := hm.length_eq
  have htwo : (performed stableTable deadOs 2 (newVm numericDebug)).length = 2 := by
    decide +kernel
  have hone : (performed stableTable deadOs m (newVm numericStripped)).length ≤ 1 := by
    have hend : (executeTurn stableTable.entries (sysHost deadOs) (newVm numericStripped)).next =
        none := by
      rw [← Option.isNone_iff_eq_none]
      decide +kernel
    have hshown : (executeTurn stableTable.entries (sysHost deadOs)
        (newVm numericStripped)).shown.length = 1 := by
      decide +kernel
    unfold performed
    rw [← trace_executeTurn]
    refine le_trans (List.length_filter_le _ _) ?_
    cases m with
    | zero => exact Nat.zero_le 1
    | succ m =>
        rw [trace_of_end hend, hshown]
  omega

end BvgzVm
