import BvgzVm.Source.Machine
import BvgzVm.Strip.Runs

set_option autoImplicit false

/-! # The assembled program means what the source means

A round of `execute_vm` is a step of the machine (`roundStep`), and the machine simulates the
program (`roundStep_simulates`). So the run of the assembled code ends exactly if the program ends,
with its memory, its exceptions and the id of its failed assertion, and it runs into no undefined
behaviour as long as the program has a meaning (`assembled_means`).
-/

namespace BvgzVm

open CLib CallStack Fallible Outcomes

variable {T : InstnTable} {σ : Type}

/-! ## Rounds as steps -/

/-- The body of the loop of `execute_vm`: the machine of the next round, or the last one. -/
def roundStep (defs : List (InstnDef Op)) (host : Host σ) : Step (Vm σ) (Vm σ) := fun vm =>
  match executeRound defs host vm with
  | .error _ => none
  | .ok (.stop vm) | .ok (.fail _ vm) => some (.inr vm)
  | .ok (.again vm) | .ok (.ran _ vm) => some (.inl vm)

section Rounds

variable {defs : List (InstnDef Op)} {host : Host σ} {vm vm₁ vm₂ : Vm σ}

/-- One round of `execute_vm`. -/
theorem executeVm_succ (defs : List (InstnDef Op)) (host : Host σ) (vm : Vm σ) (n : ℕ) :
    (∃ u, roundStep defs host vm = none ∧ executeVm defs host (n + 1) vm = .error u) ∨
      (∃ vm₁, roundStep defs host vm = some (.inr vm₁) ∧
        executeVm defs host (n + 1) vm = cleanupVm host vm₁ >>= fun vm => .ok (some vm)) ∨
      ∃ vm₁, roundStep defs host vm = some (.inl vm₁) ∧
        executeVm defs host (n + 1) vm = executeVm defs host n vm₁ := by
  rw [executeVm]
  unfold roundStep
  cases executeRound defs host vm with
  | error u => exact Or.inl ⟨u, rfl, rfl⟩
  | ok round =>
      right
      cases round with
      | stop vm₁ => exact Or.inl ⟨vm₁, rfl, rfl⟩
      | fail instn vm₁ => exact Or.inl ⟨vm₁, rfl, rfl⟩
      | again vm₁ => exact Or.inr ⟨vm₁, rfl, rfl⟩
      | ran instn vm₁ => exact Or.inr ⟨vm₁, rfl, rfl⟩

/-- **The loop returns** when the machine ends. -/
theorem executeVm_of_ends (h : Outcomes.Ends (roundStep defs host) vm vm₁)
    (hclean : cleanupVm host vm₁ = .ok vm₂) : ∃ n, executeVm defs host n vm = .ok (some vm₂) := by
  induction h with
  | @done vm vm₁ hs =>
      refine ⟨1, ?_⟩
      rcases executeVm_succ defs host vm 0 with
        ⟨u, hstep, -⟩ | ⟨vm', hstep, hrun⟩ | ⟨vm', hstep, -⟩
      · rw [hs] at hstep
        cases hstep
      · rw [hs] at hstep
        cases hstep
        rw [hrun, hclean, ok_bind]
      · rw [hs] at hstep
        cases hstep
  | @next vm vm' vm₁ hs _ ih =>
      rcases ih hclean with ⟨n, hn⟩
      refine ⟨n + 1, ?_⟩
      rcases executeVm_succ defs host vm n with
        ⟨u, hstep, -⟩ | ⟨vm'', hstep, -⟩ | ⟨vm'', hstep, hrun⟩
      · rw [hs] at hstep
        cases hstep
      · rw [hs] at hstep
        cases hstep
      · rw [hs] at hstep
        cases hstep
        rw [hrun, hn]

/-- **The machine ends** when the loop returns. -/
theorem ends_of_executeVm {n : ℕ} (h : executeVm defs host n vm = .ok (some vm₂)) :
    ∃ vm₁, Outcomes.Ends (roundStep defs host) vm vm₁ ∧ cleanupVm host vm₁ = .ok vm₂ := by
  induction n generalizing vm with
  | zero => cases h
  | succ n ih =>
      rcases executeVm_succ defs host vm n with
        ⟨u, -, hrun⟩ | ⟨vm₁, hstep, hrun⟩ | ⟨vm₁, hstep, hrun⟩
      · rw [hrun] at h
        cases h
      · rw [hrun] at h
        rcases bind_eq_ok.1 h with ⟨vm', hclean, hvm'⟩
        cases hvm'
        exact ⟨vm₁, .done hstep, hclean⟩
      · rw [hrun] at h
        rcases ih h with ⟨vm', hends, hclean⟩
        exact ⟨vm', .next hstep hends, hclean⟩

/-- The loop runs into undefined behaviour where the machine has no meaning, or in the cleanup
at its end. -/
theorem executeVm_ne_error (hdef : Defined (roundStep defs host) vm)
    (hclean : ∀ vm₁, Outcomes.Ends (roundStep defs host) vm vm₁ →
      ∃ vm₂, cleanupVm host vm₁ = .ok vm₂)
    (n : ℕ) (u : Ub) : executeVm defs host n vm ≠ .error u := by
  induction n generalizing vm with
  | zero =>
      intro h
      cases h
  | succ n ih =>
      intro h
      rcases executeVm_succ defs host vm n with
        ⟨_, hstep, -⟩ | ⟨vm₁, hstep, hrun⟩ | ⟨vm₁, hstep, hrun⟩
      · exact hdef.self hstep
      · rcases hclean vm₁ (.done hstep) with ⟨vm₂, hvm₂⟩
        rw [hrun, hvm₂] at h
        cases h
      · rw [hrun] at h
        exact ih (hdef.next hstep) (fun vm₂ hends => hclean vm₂ (.next hstep hends)) h

end Rounds

/-! ## The simulation -/

section Program

variable {p : PrsResult T} {debugMode : Bool} {x : PrsInstn T} {os : List Operand} {s : SrcState}
  {h : σ} {vm : Vm σ} {host : Host σ}

/-- Behind the last instruction the procedure of the machine ends, and the machine with it. -/
theorem roundStep_nil (hquiet : QuietAt host h) (hhost : vm.host = h) (hnil : vm.procedures = []) :
    roundStep T.entries host vm = some (.inr vm) := by
  unfold roundStep executeRound
  rw [fetchInstn_nil hnil (hquiet.pending vm hhost), ok_bind]

theorem roundStep_behind (hquiet : QuietAt host h) (hvm : RunsAs p debugMode h s vm)
    (hend : p.instns.length ≤ s.place) :
    ∃ vm', Outcomes.Ends (roundStep T.entries host) vm vm' ∧
      (SrcResult.ended s.memory).Shown vm' ∧ vm'.host = h := by
  rcases hvm.procedure with ⟨q, hprocs, hq⟩
  -- one round takes the procedure away, and the next finds none
  have hout : vm.code.size ≤ q.iptr.toNat := by
    rw [hvm.codeSize, hq.iptr, List.take_of_length_le hend]
  have hstep : roundStep T.entries host vm = some (.inl { vm with procedures := [] }) := by
    unfold roundStep executeRound
    rw [fetchInstn_outside hprocs hout, ok_bind]
  exact ⟨_, .next hstep (.done (roundStep_nil hquiet hvm.host rfl)),
    ⟨hvm.memory, hvm.exceptions, rfl⟩, hvm.host⟩

/-- A cell among the operands is a reference that is decoded, and conversely. -/
theorem outside_iff (hos : p.operands debugMode x.args = some os) (memory : Segment) :
    os.any (Operand.outside memory) = true ↔
      ∃ a ∈ x.args, ∃ ref, a.decoded (p.resolved debugMode) = .ptr ref ∧
        derefMemPtr ref 4 memory.size = none := by
  rcases operands_get hos with ⟨hlen, hget⟩
  rw [List.any_eq_true]
  constructor
  · rintro ⟨o, ho, hout⟩
    rcases List.mem_iff_getElem?.1 ho with ⟨j, hj⟩
    rcases hget j o hj with ⟨a, ha, hop⟩
    cases o with
    | value v => cases hout
    | cell ref =>
        exact ⟨a, List.mem_of_getElem? ha, ref, (operand_cell hop).2,
          Option.isNone_iff_eq_none.1 hout⟩
    | place k => cases hout
  · rintro ⟨a, ha, ref, hdec, hnone⟩
    rcases List.mem_iff_getElem.1 ha with ⟨j, hj, rfl⟩
    have hj' : os[j]? = some os[j] := List.getElem?_eq_getElem (by omega)
    rcases hget j _ hj' with ⟨a, ha', hop⟩
    rw [List.getElem?_eq_getElem hj] at ha'
    obtain rfl := Option.some.inj ha'
    refine ⟨os[j], List.getElem_mem _, ?_⟩
    revert hop
    cases os[j] with
    | value v =>
        intro hop
        rw [(operand_value hop).2.1] at hdec
        cases hdec
    | cell ref' =>
        intro hop
        rw [(operand_cell hop).2] at hdec
        cases hdec
        exact Option.isNone_iff_eq_none.2 hnone
    | place k =>
        intro hop
        rcases operand_label hop with ⟨l, label, heq, -⟩
        rw [heq] at hdec
        cases hdec

/-- The machine that has decoded an instruction of `n` bytes. -/
abbrev decodedAt (vm : Vm σ) (q : Proc) (n : ℕ) : Vm σ :=
  { vm with iptr := q.iptr, procedures := [{ q with iptr := q.iptr + UInt32.ofNat n }] }

/-- An address behind an instruction that is emitted. -/
theorem toNat_next (hmax : codeSize debugMode p.instns ≤ maxCodeSize)
    (hx : p.instns[s.place]? = some x) (hxe : x.emitted debugMode = true) {a : UInt32}
    (ha : a.toNat = codeSize debugMode (p.instns.take s.place)) :
    (a + UInt32.ofNat x.size).toNat = codeSize debugMode (p.instns.take (s.place + 1)) := by
  have hle : codeSize debugMode (p.instns.take (s.place + 1)) ≤ codeSize debugMode p.instns :=
    codeSize_take_le_all (s.place + 1)
  have hsucc : codeSize debugMode (p.instns.take (s.place + 1)) = _ := codeSize_take_succ hx
  rw [hxe, if_pos rfl] at hsucc
  unfold maxCodeSize at hmax
  rw [UInt32.toNat_add, UInt32.toNat_ofNat', ha]
  omega

/-- **What the machine fetches** at an instruction that is emitted: the decoded instruction, or the
fault of a cell outside the memory. -/
theorem fetchInstn_emitted (host : Host σ) (hmax : codeSize debugMode p.instns ≤ maxCodeSize)
    (hvm : RunsAs p debugMode h s vm) (hx : p.instns[s.place]? = some x)
    (hxe : x.emitted debugMode = true) (hos : p.operands debugMode x.args = some os) :
    (os.any (Operand.outside s.memory) = true →
      ∃ vm', fetchInstn T.entries host vm = .ok (.stop vm') ∧
        (SrcResult.failed vmEMemFault s.memory).Shown vm' ∧ vm'.host = h) ∧
    (os.any (Operand.outside s.memory) = false →
      ∃ vm', fetchInstn T.entries host vm =
          .ok (.decoded (x.decoded (p.resolved debugMode)) vm') ∧
        RunsAs p debugMode h { s with place := s.place + 1 } vm') := by
  rcases hvm.procedure with ⟨q, hprocs, hq⟩
  have hlt : codeSize debugMode (p.instns.take s.place) < codeSize debugMode p.instns :=
    codeSize_take_lt (firstEmitted_self hx hxe)
  have hin : ¬ vm.code.size ≤ q.iptr.toNat := by
    rw [hvm.codeSize, hq.iptr]
    omega
  have hbytes : encodeInstn (p.resolved debugMode) x <+: vm.code.bytes.drop q.iptr.toNat := by
    rw [hvm.code, hq.iptr]
    exact encodeCode_drop hx hxe _
  have hfetch : fetchInstn T.entries host vm = _ := fetchInstn_inside hprocs hin
  have hcells := outside_iff hos vm.memory
  rw [hvm.memory] at hcells
  constructor
  · intro hout
    rw [decodeInstn_rejected hbytes (by rw [hvm.memory]; exact hcells.1 hout)] at hfetch
    refine ⟨_, hfetch, ⟨hvm.memory, ?_, ?_⟩, hvm.host⟩
    · show vm.exceptions ||| vmEMemFault = vmEMemFault
      rw [hvm.exceptions, UInt32.zero_or]
    · show vm.procedures ≠ []
      rw [hprocs]
      exact List.cons_ne_nil q []
  · intro hinside
    have hmem : ∀ a ∈ x.args, ∀ ref, a.decoded (p.resolved debugMode) = .ptr ref →
        derefMemPtr ref 4 vm.memory.size = some ref := by
      intro a ha ref hdec
      by_contra hfail
      -- a cell that is rejected would stand among the operands outside
      have hnone : derefMemPtr ref 4 s.memory.size = none := by
        rw [← hvm.memory]
        unfold derefMemPtr at hfail ⊢
        split at hfail
        · next hlt => rw [if_pos hlt]
        · exact absurd rfl hfail
      rw [hcells.2 ⟨a, ha, ref, hdec, hnone⟩] at hinside
      cases hinside
    rw [decodeInstn_encoded hbytes hmem] at hfetch
    refine ⟨decodedAt vm q x.size, hfetch, hvm.code, hvm.memory, hvm.exceptions, hvm.host, _, rfl,
      ?_⟩
    exact hq.jump (toNat_next hmax hx hxe hq.iptr)

/-- The counters do not matter. -/
theorem RunsAs.counted (hvm : RunsAs p debugMode h s vm) (n : UInt64) (c : UInt32) :
    RunsAs p debugMode h s { vm with instns := n, instnsSinceLastCleanup := c } :=
  ⟨hvm.code, hvm.memory, hvm.exceptions, hvm.host, hvm.procedure⟩

/-- A round in which an instruction is executed. -/
theorem roundStep_decoded (hquiet : QuietAt host h) {vm₁ : Vm σ} {r : ℤ × Vm σ}
    {out : SrcState ⊕ SrcResult}
    (hfetch : fetchInstn T.entries host vm =
      .ok (.decoded (x.decoded (p.resolved debugMode)) vm₁))
    (hrun : handlerOf x.instn.handler host (x.decoded (p.resolved debugMode)) vm₁ = .ok r)
    (hr : Matches p debugMode h out r) :
    (∀ s', out = .inl s' →
      ∃ vm', roundStep T.entries host vm = some (.inl vm') ∧ RunsAs p debugMode h s' vm') ∧
    ∀ r', out = .inr r' →
      ∃ vm', Outcomes.Ends (roundStep T.entries host) vm vm' ∧ r'.Shown vm' ∧ vm'.host = h := by
  have hexec : vmExecInstn T.entries host (x.decoded (p.resolved debugMode)) vm₁ = .ok r := by
    rw [vmExecInstn, handlerAt_decoded, ok_bind, hrun]
  have hround : executeRound T.entries host vm =
      if r.1 < 0 then .ok (.fail (x.decoded (p.resolved debugMode)) r.2)
      else countInstn host r.2 >>= fun vm => .ok (.ran (x.decoded (p.resolved debugMode)) vm) := by
    unfold executeRound
    rw [hfetch, ok_bind]
    dsimp only
    rw [hexec, ok_bind]
  cases hr with
  | @next s' vm' hruns =>
      constructor
      · rintro s' heq
        cases heq
        rcases countInstn_quiet hquiet hruns.host with ⟨c, hc⟩
        refine ⟨_, ?_, hruns.counted (vm'.instns + 1) c⟩
        unfold roundStep
        rw [hround]
        dsimp only
        rw [if_neg (by decide), hc, ok_bind]
      · intro r' hr'
        cases hr'
  | @ended memory vm' hshown hhost =>
      constructor
      · intro s' hs'
        cases hs'
      · rintro r' heq
        cases heq
        rcases countInstn_quiet hquiet hhost with ⟨c, hc⟩
        have hstep : roundStep T.entries host vm = some (.inl { vm' with
            instns := vm'.instns + 1
            instnsSinceLastCleanup := c }) := by
          unfold roundStep
          rw [hround]
          dsimp only
          rw [if_neg (by decide), hc, ok_bind]
        -- the last procedure has returned, and the next round ends the machine
        exact ⟨_, .next hstep (.done (roundStep_nil hquiet hhost hshown.2.2)), hshown, hhost⟩
  | @stopped r' vm' hshown hhost _ =>
      constructor
      · intro s' hs'
        cases hs'
      · rintro r'' heq
        cases heq
        have hstep : roundStep T.entries host vm = some (.inr vm') := by
          unfold roundStep
          rw [hround]
          dsimp only
          rw [if_pos (by decide)]
        exact ⟨vm', .done hstep, hshown, hhost⟩

/-- **The machine simulates the program.** What is not emitted is left out. -/
theorem roundStep_simulates (hmax : codeSize debugMode p.instns ≤ maxCodeSize)
    (hquiet : QuietAt host h) :
    Simulation (p.step debugMode) (roundStep T.entries host) (RunsAs p debugMode h)
      (fun r vm => r.Shown vm ∧ vm.host = h) (fun s => p.instns.length - s.place) := by
  constructor
  · intro s vm s' hvm hstep
    unfold PrsResult.step at hstep
    split at hstep
    · cases hstep
    · next x hx =>
        split at hstep
        · next hxe =>
            right
            split at hstep
            · cases hstep
            · next os hos =>
                split at hstep
                · cases hstep
                · next hinside =>
                    rcases (fetchInstn_emitted host hmax hvm hx hxe hos).2
                      (Bool.eq_false_iff.2 hinside) with ⟨vm₁, hfetch, hvm₁⟩
                    rcases exec_matches host hmax hos hvm₁ hstep with ⟨r, hrun, hr⟩
                    exact (roundStep_decoded hquiet hfetch hrun hr).1 s' rfl
        · next hxe =>
            -- nothing stands in the code for it, and the machine waits
            left
            cases hstep
            have hlt := (List.getElem?_eq_some_iff.1 hx).1
            rcases hvm.procedure with ⟨q, hprocs, hq⟩
            have hsame : codeSize debugMode (p.instns.take (s.place + 1)) =
                codeSize debugMode (p.instns.take s.place) := by
              rw [codeSize_take_succ hx, if_neg hxe, Nat.add_zero]
            refine ⟨⟨hvm.code, hvm.memory, hvm.exceptions, hvm.host, q, hprocs, ?_, hq.block,
              hq.frames⟩, ?_⟩
            · exact hq.iptr.trans hsame.symm
            · show p.instns.length - (s.place + 1) < p.instns.length - s.place
              omega
  · intro s vm r hvm hstep
    unfold PrsResult.step at hstep
    split at hstep
    · next hx =>
        cases hstep
        exact roundStep_behind hquiet hvm (List.getElem?_eq_none_iff.1 hx)
    · next x hx =>
        split at hstep
        · next hxe =>
            split at hstep
            · cases hstep
            · next os hos =>
                have hfetched := fetchInstn_emitted host hmax hvm hx hxe hos
                split at hstep
                · next hout =>
                    cases hstep
                    rcases hfetched.1 hout with ⟨vm', hfetch, hshown, hhost⟩
                    have hround : roundStep T.entries host vm = some (.inr vm') := by
                      unfold roundStep executeRound
                      rw [hfetch, ok_bind]
                    exact ⟨vm', .done hround, hshown, hhost⟩
                · next hinside =>
                    rcases hfetched.2 (Bool.eq_false_iff.2 hinside) with ⟨vm₁, hfetch, hvm₁⟩
                    rcases exec_matches host hmax hos hvm₁ hstep with ⟨r', hrun, hr⟩
                    exact (roundStep_decoded hquiet hfetch hrun hr).2 r rfl
        · cases hstep

end Program

/-! ## Whole runs -/

section Runs

variable {ω : Type} {p : PrsResult T} {debugMode : Bool} {b : Bytecode T} {k : ℕ}
  {memory : Segment} {vm : Vm (Sys ω)}

/-- The program before its first step. -/
def srcStart (k : ℕ) (memory : Segment) : SrcState := ⟨k, [], memory⟩

/-- A new machine is at its first instruction. -/
theorem runsAs_loaded (hp : p.ErrorFree) {fill : ℕ → UInt8}
    (hgen : parseToBytecode fill p debugMode = .ok b)
    (hk : (firstEmitted debugMode p.instns k).isSome = true) (hvm : Loaded b k memory vm) :
    RunsAs p debugMode vm.host (srcStart k memory) vm := by
  rcases parseToBytecode_eq_layout hp hgen with ⟨rfl, hmax⟩
  rcases hvm.procedures with ⟨i, hi, hprocs⟩
  refine ⟨hvm.code, hvm.memory, hvm.exceptions, rfl, newProc i.memOffset, hprocs, ?_, ?_, [],
    good_new _, .nil⟩
  · have hget := List.getElem?_eq_getElem (firstEmitted_lt hk)
    rw [getElem?_layout hget] at hi
    cases hi
    exact toNat_addressAt hmax hk
  · exact Nat.zero_le _

theorem shown_cleaned {r : SrcResult} (h : r.Shown vm) :
    r.Shown { vm with instnsSinceLastCleanup := 0 } := by
  cases r with
  | ended memory => exact h
  | failed e memory => exact h
  | asserted id memory => exact h

/-- Where nothing is observed and no timer is due, `cleanup_vm` only resets its counter. -/
theorem cleanupVm_quiet {os : Os ω} {h : Sys ω} (hquiet : QuietAt (sysHost os) h)
    (hhost : vm.host = h) :
    cleanupVm (sysHost os) vm = .ok { vm with instnsSinceLastCleanup := 0 } := by
  unfold cleanupVm
  rw [hquiet.fire vm hhost, ok_bind]

/-- A program that ends does so in `execute_vm`. -/
theorem assembled_ends (os : Os ω) (hp : p.ErrorFree) {fill : ℕ → UInt8}
    (hgen : parseToBytecode fill p debugMode = .ok b)
    (hk : (firstEmitted debugMode p.instns k).isSome = true) (hvm : Loaded b k memory vm)
    {r : SrcResult} (hr : Outcomes.Ends (p.step debugMode) (srcStart k memory) r) :
    ∃ n vm', executeVm T.entries (sysHost os) n vm = .ok (some vm') ∧ r.Shown vm' := by
  have hruns := runsAs_loaded hp hgen hk hvm
  rcases hvm.host with ⟨world, hworld⟩
  rw [hworld] at hruns
  have hquiet := quietAt_new os world
  have hsim := roundStep_simulates (parseToBytecode_eq_layout hp hgen).2 hquiet
  rcases hsim.ends hr hruns with ⟨vm₁, hends, hr₁, hhost⟩
  rcases executeVm_of_ends hends (cleanupVm_quiet hquiet hhost) with ⟨n, hn⟩
  exact ⟨n, _, hn, shown_cleaned hr₁⟩

/-- As long as a program has a meaning, `execute_vm` does not run into undefined behaviour, and if
it returns, then it shows how the program ends. -/
theorem assembled_defined (os : Os ω) (hp : p.ErrorFree) {fill : ℕ → UInt8}
    (hgen : parseToBytecode fill p debugMode = .ok b)
    (hk : (firstEmitted debugMode p.instns k).isSome = true) (hvm : Loaded b k memory vm)
    (hdef : Defined (p.step debugMode) (srcStart k memory)) (n : ℕ) :
    (∀ u, executeVm T.entries (sysHost os) n vm ≠ .error u) ∧
      ∀ vm', executeVm T.entries (sysHost os) n vm = .ok (some vm') →
        ∃ r, Outcomes.Ends (p.step debugMode) (srcStart k memory) r ∧ r.Shown vm' := by
  have hruns := runsAs_loaded hp hgen hk hvm
  rcases hvm.host with ⟨world, hworld⟩
  rw [hworld] at hruns
  have hquiet := quietAt_new os world
  have hsim := roundStep_simulates (parseToBytecode_eq_layout hp hgen).2 hquiet
  constructor
  · apply executeVm_ne_error (hsim.defined hdef hruns)
    intro vm₁ hends
    rcases hsim.ends_of hends hdef hruns with ⟨r, -, -, hhost⟩
    exact ⟨_, cleanupVm_quiet hquiet hhost⟩
  · intro vm' hrun
    rcases ends_of_executeVm hrun with ⟨vm₁, hends, hvm₁⟩
    rcases hsim.ends_of hends hdef hruns with ⟨r, hr, hr₁, hhost⟩
    rw [cleanupVm_quiet hquiet hhost] at hvm₁
    cases hvm₁
    exact ⟨r, hr, shown_cleaned hr₁⟩

/-- **The assembled program means what the source means.** Take a program without errors that is
loaded at an instruction behind which something is emitted. If it ends, then `execute_vm` returns
and shows how. As long as it has a meaning, `execute_vm` does not run into undefined behaviour,
and if it returns, then the program ends in the way that is shown. -/
theorem assembled_means (os : Os ω) (hp : p.ErrorFree) {fill : ℕ → UInt8}
    (hgen : parseToBytecode fill p debugMode = .ok b)
    (hk : (firstEmitted debugMode p.instns k).isSome = true) (hvm : Loaded b k memory vm) :
    (∀ r, Outcomes.Ends (p.step debugMode) (srcStart k memory) r →
      ∃ n vm', executeVm T.entries (sysHost os) n vm = .ok (some vm') ∧ r.Shown vm') ∧
    (Defined (p.step debugMode) (srcStart k memory) → ∀ n,
      (∀ u, executeVm T.entries (sysHost os) n vm ≠ .error u) ∧
        ∀ vm', executeVm T.entries (sysHost os) n vm = .ok (some vm') →
          ∃ r, Outcomes.Ends (p.step debugMode) (srcStart k memory) r ∧ r.Shown vm') := by
  constructor
  · intro r hr
    exact assembled_ends os hp hgen hk hvm hr
  · intro hdef n
    exact assembled_defined os hp hgen hk hvm hdef n

/-- `jmp &e; assert *0, 7; e: nop` jumps over its assertion. -/
theorem assembled_means_jump :
    ∃ n vm', executeVm stableTable.entries (sysHost deadOs) n (newVm jumpStripped) =
      .ok (some vm') ∧ vm'.exceptions = 0 ∧ vm'.procedures = [] := by
  have hgen : parseToBytecode (fun _ => 0) jumpOver false = .ok (jumpOver.layout false) := by
    refine (parseToBytecode_spec _ false jumpOver_errorFree).2.2 (by decide +kernel) ?_
    have hlabels : jumpOver.LabelsEmitted false := by
      rintro i hi - k ⟨a, ha, hk⟩
      rw [jumpOver_mentions i hi a ha k hk]
      exact ⟨_, rfl, fun _ => by decide +kernel⟩
    exact hlabels.inside
  have hloaded : Loaded (jumpOver.layout false) 0 ⟨List.replicate 8 0, by decide⟩
      (newVm jumpStripped) :=
    loaded_newVm (by decide +kernel) (by decide +kernel)
  have hjmp : Fetches jumpOver false 0 .jmp1 [.place 2] :=
    ⟨_, rfl, by decide +kernel, by decide +kernel, by decide +kernel⟩
  have hnop : Fetches jumpOver false 2 .nop0 [] :=
    ⟨_, rfl, by decide +kernel, by decide +kernel, by decide +kernel⟩
  have hstart : jumpOver.step false (srcStart 0 ⟨List.replicate 8 0, by decide⟩) =
      some (.inl ⟨2, [], _⟩) := step_eq_exec hjmp rfl rfl
  have hsecond : jumpOver.step false ⟨2, [], ⟨List.replicate 8 0, by decide⟩⟩ =
      some (.inl ⟨3, [], _⟩) := step_eq_exec hnop rfl rfl
  have hends : Outcomes.Ends (jumpOver.step false) (srcStart 0 ⟨List.replicate 8 0, by decide⟩)
      (.ended ⟨List.replicate 8 0, by decide⟩) :=
    .next hstart (.next hsecond (.done rfl))
  have hmeans := assembled_means deadOs jumpOver_errorFree hgen (by decide +kernel) hloaded
  rcases hmeans.1 _ hends with ⟨n, vm', hrun, -, hexceptions, hprocedures⟩
  exact ⟨n, vm', hrun, hexceptions, hprocedures⟩

end Runs

end BvgzVm
