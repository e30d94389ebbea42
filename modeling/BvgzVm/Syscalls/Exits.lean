import BvgzVm.Syscalls.Lengths

set_option autoImplicit false

/-! # Children that terminate

When a child is gone, `fire_proc_events` starts a procedure for each callback that was registered
for it and whose arguments are in memory, in the order of the registrations
(`fireEventsOfProc_starts`). What is registered is what the history of the table says, so after
every interleaving of `exec`, `run`, `onexit` and terminations no callback is lost or started twice
(`child_table`).
-/

namespace BvgzVm

open Stateful Std.Do

set_option mvcgen.warning false

variable {ω : Type}

attribute [local spec high] derefMem_exact storeAll_exact onProc_exact

attribute [local grind =] raise_memory raise_host reaches_raise InMemory

attribute [local grind →] Same.code Same.memsz

@[local grind =] theorem raise_code (vm : Vm (Sys ω)) (e : UInt32) :
    (vm.raise e).code = vm.code := rfl

/-! ## Procedures that are started -/

/-- The procedure is at the start of the callback, with the arguments of the callback. -/
def Runs (cb : VmCallback) (p : Proc) : Prop :=
  p.iptr = cb.callback ∧ HasFrames p [⟨0, cb.args, 0xffffffff⟩]

/-- `make_func_procedure` has room for the first call. -/
theorem newFuncProc_runs (os : Os ω) (cb : VmCallback) :
    ∃ p, newFuncProc os cb.callback cb.args 0 = .ok p ∧ Runs cb p := by
  have hfits : CallStack.PushFits (newProc cb.callback) := fun _ => show 0 + 64 < 2 ^ 32 by decide
  rcases CallStack.push_good (CallStack.good_new cb.callback) hfits os.fill
    ⟨0, cb.args, 0xffffffff⟩ with ⟨p, hp, hgood, hiptr⟩
  exact ⟨p, hp, hiptr, hgood.hasFrames⟩

/-- **A callback inside the code is started.** -/
@[local spec high] theorem makeFuncProcedure_starts (os : Os ω) (s0 : Vm (Sys ω)) {cb : VmCallback}
    (hcb : cb.callback.toNat < s0.code.size) :
    ⦃fun vm => ⌜vm = s0⌝⦄ (makeFuncProcedure os cb.callback cb.args 0 : SysM ω Unit)
    ⦃post⟨fun _ vm => ⌜∃ p, Runs cb p ∧ vm = { s0 with procedures := s0.procedures ++ [p] }⌝,
      fun _ => ⌜False⌝⟩⦄ := by
  rcases newFuncProc_runs os cb with ⟨p, hp, hruns⟩
  have hmake : makeFuncProcedure os cb.callback cb.args 0 s0 =
      .ok ((), { s0 with procedures := s0.procedures ++ [p] }) := by
    unfold makeFuncProcedure
    rw [if_neg (Nat.not_le.2 hcb), hp]
  refine exact_of ?_ ?_
  · intro a vm h
    rw [hmake] at h
    cases h
    exact ⟨p, hruns, rfl⟩
  · intro e h
    rw [hmake] at h
    cases h

/-! ## The callbacks of a child -/

/-- What the callbacks of a child leave behind: the procedures of those whose arguments are
accepted, in order. -/
structure Started (cbs : List VmCallback) (vm vm' : Vm (Sys ω)) : Prop where
  code : vm'.code = vm.code
  memsz : vm'.memory.size = vm.memory.size
  host : vm'.host = vm.host
  procedures : ∃ ps, vm'.procedures = vm.procedures ++ ps ∧
    List.Forall₂ Runs (cbs.filter (fun cb => Reaches vm cb.args 56)) ps

/-- A callback whose arguments are not accepted is passed over. -/
theorem Started.skip {cb : VmCallback} {cbs : List VmCallback} {e : UInt32} {vm vm' : Vm (Sys ω)}
    (h : Started cbs (vm.raise e) vm') (hcb : ¬ Reaches vm cb.args 56) :
    Started (cb :: cbs) vm vm' := by
  refine ⟨h.code, h.memsz, h.host, ?_⟩
  rw [List.filter_cons_of_neg (by simpa using hcb)]
  exact h.procedures

/-- A callback whose arguments are accepted is started before the others. -/
theorem Started.cons {cb : VmCallback} {cbs : List VmCallback} {p : Proc} {vm vm₁ vm' : Vm (Sys ω)}
    (h : Started cbs { vm₁ with procedures := vm₁.procedures ++ [p] } vm') (hsame : Same vm vm₁)
    (hhost : vm₁.host = vm.host) (hcb : Reaches vm cb.args 56) (hruns : Runs cb p) :
    Started (cb :: cbs) vm vm' := by
  rcases h.procedures with ⟨ps, hps, hall⟩
  have hfilter : cbs.filter (fun cb => Reaches vm₁ cb.args 56) =
      cbs.filter (fun cb => Reaches vm cb.args 56) := by
    refine List.filter_congr ?_
    intro cb' _
    apply decide_eq_decide.2
    unfold Reaches
    rw [hsame.memsz]
  refine ⟨h.code.trans hsame.code, h.memsz.trans hsame.memsz, h.host.trans hhost, p :: ps, ?_, ?_⟩
  · calc vm'.procedures = (vm₁.procedures ++ [p]) ++ ps := hps
      _ = vm.procedures ++ p :: ps := by rw [hsame.procedures, List.append_assoc]; rfl
  · rw [List.filter_cons_of_pos (by simpa using hcb), ← hfilter]
    exact .cons hruns hall

/-- The arguments of the callbacks that `deref_mem_ptr` accepts are in memory. -/
def ArgsInside (cbs : List VmCallback) (vm : Vm (Sys ω)) : Prop :=
  ∀ cb ∈ cbs, Reaches vm cb.args 56 → InMemory vm cb.args 56

theorem argsInside_cons {cb : VmCallback} {cbs : List VmCallback} {vm vm' : Vm (Sys ω)}
    (hsize : vm'.memory.size = vm.memory.size) :
    ArgsInside (cb :: cbs) vm ↔
      (Reaches vm cb.args 56 → InMemory vm cb.args 56) ∧ ArgsInside cbs vm' := by
  unfold ArgsInside InMemory Reaches
  rw [hsize]
  exact List.forall_mem_cons

theorem fireEventsOfProc_starts (os : Os ω) (s0 : Vm (Sys ω)) (pid : Int32) (status : UInt32)
    {cbs : List VmCallback} (hcbs : ∀ cb ∈ cbs, cb.callback.toNat < s0.code.size) :
    ⦃fun s => ⌜s = s0⌝⦄ fireEventsOfProc os pid status cbs
    ⦃post⟨fun _ vm => ⌜Started cbs s0 vm ∧ ArgsInside cbs s0⌝,
      fun _ => ⌜¬ ArgsInside cbs s0⌝⟩⦄ := by
  induction cbs generalizing s0 with
  | nil =>
      unfold fireEventsOfProc
      mvcgen
      rename_i h
      subst h
      exact ⟨⟨rfl, rfl, rfl, [], (List.append_nil _).symm, .nil⟩, by simp [ArgsInside]⟩
  | cons cb cbs ih =>
      have hlen : (exitArgs pid status).length = 7 := rfl
      have hne : exitArgs pid status ≠ [] := by simp [exitArgs]
      have hfirst : cb.callback.toNat < s0.code.size := hcbs cb List.mem_cons_self
      have hrest : ∀ cb ∈ cbs, cb.callback.toNat < s0.code.size :=
        fun cb hcb => hcbs cb (List.mem_cons_of_mem _ hcb)
      have hargs := fun vm' => @argsInside_cons ω cb cbs s0 vm'
      have hskip := fun e vm' => @Started.skip ω cb cbs e s0 vm'
      have hcons := fun p vm₁ vm' => @Started.cons ω cb cbs p s0 vm₁ vm'
      unfold fireEventsOfProc
      mvcgen [ih]
      all_goals grind

/-! ## A child is gone -/

instance (vm : Vm (Sys ω)) (ref : UInt32) (size : ℕ) : Decidable (InMemory vm ref size) :=
  inferInstanceAs (Decidable (_ ≤ _))

/-- A procedure was started for each of the callbacks whose arguments are in memory, in order, the
slot of the child is free, and the other children are as they were. -/
structure ExitDone (p : ℕ) (cbs : List VmCallback) (vm vm' : Vm (Sys ω)) : Prop where
  started : ∃ ps, vm'.procedures = vm.procedures ++ ps ∧
    List.Forall₂ Runs (cbs.filter (fun cb => InMemory vm cb.args 56)) ps
  gone : ∀ ch, vm'.host.proc.childProc[p]? = some ch → ch.used = false ∧ ch.exitCb = []
  others : ∀ q, q ≠ p → vm'.host.proc.childProc[q]? = vm.host.proc.childProc[q]?

/-- Where `deref_mem_ptr` accepts nothing outside the memory, it accepts what is inside. -/
theorem ArgsInside.filter_eq {cbs : List VmCallback} {vm : Vm (Sys ω)} (h : ArgsInside cbs vm) :
    cbs.filter (fun cb => Reaches vm cb.args 56) =
      cbs.filter (fun cb => InMemory vm cb.args 56) := by
  refine List.filter_congr ?_
  intro cb hcb
  apply decide_eq_decide.2
  constructor
  · exact h cb hcb
  · intro hin
    exact hin.reaches_low

/-- The slot of a child that is gone, and the other slots. -/
theorem endChild_slots (p : ℕ) (ch : VmChild) (proc : VmProc) :
    (∀ ch', (endChild p ch proc).childProc[p]? = some ch' → ch'.used = false ∧ ch'.exitCb = []) ∧
      ∀ q, q ≠ p → (endChild p ch proc).childProc[q]? = proc.childProc[q]? := by
  constructor
  · intro ch' h
    rcases getElem?_set_cases h with ⟨-, rfl⟩ | ⟨hne, -⟩
    · exact ⟨rfl, rfl⟩
    · exact absurd rfl hne
  · intro q hq
    exact List.getElem?_set_ne (Ne.symm hq)

theorem childExited_iff (os : Os ω) (vm : Vm (Sys ω)) (p : ℕ) {ch : VmChild} (pid : Int32)
    (status : UInt32) (hcbs : ∀ cb ∈ ch.exitCb, cb.callback.toNat < vm.code.size) :
    (∃ n vm', childExited os p ch pid status vm = .ok (n, vm') ∧ ExitDone p ch.exitCb vm vm') ↔
      ArgsInside ch.exitCb vm := by
  have hfire := of_exact (fireEventsOfProc_starts os vm pid status hcbs)
  constructor
  · rintro ⟨n, vm', h, -⟩
    rcases bind_eq_ok.1 h with ⟨n', vm₁, hrun, -⟩
    exact (hfire.1 n' vm₁ hrun).2
  · intro hinside
    cases hrun : fireEventsOfProc os pid status ch.exitCb vm with
    | error e => exact absurd hinside (hfire.2 e hrun)
    | ok r =>
        rcases r with ⟨n, vm₁⟩
        have hstarted := (hfire.1 n vm₁ hrun).1
        have hslots := endChild_slots p ch vm₁.host.proc
        rw [hstarted.host] at hslots
        refine ⟨n, vm₁.withSys fun s => { s with proc := endChild p ch s.proc }, ?_, ?_, ?_, ?_⟩
        · unfold childExited
          rw [bind_of_ok hrun]
          rfl
        · rw [← hinside.filter_eq]
          exact hstarted.procedures
        · rw [Vm.withSys_host, hstarted.host]
          exact hslots.1
        · rw [Vm.withSys_host, hstarted.host]
          exact hslots.2

/-! ## After every interleaving -/

/-- What is registered was registered by an action. -/
theorem mem_registered {ops : List ProcOp} {pid : Int32} {cb : VmCallback}
    (h : cb ∈ registered ops pid) : ∃ pid', .register pid' cb ∈ ops := by
  induction ops using List.reverseRecOn with
  | nil => cases h
  | append_singleton ops op ih =>
      rw [registered_concat] at h
      have hcases : cb ∈ registered ops pid ∨ ∃ pid', op = .register pid' cb := by
        cases op with
        | save pid' | exit pid' =>
            by_cases hpid : pid = pid'
            · rw [hpid, noteOp, Function.update_self] at h
              cases h
            · rw [noteOp, Function.update_of_ne hpid] at h
              exact Or.inl h
        | register pid' cb' =>
            by_cases hpid : pid = pid'
            · subst hpid
              rw [noteOp, Function.update_self] at h
              rcases List.mem_append.1 h with hold | hnew
              · exact Or.inl hold
              · rw [List.mem_singleton.1 hnew]
                exact Or.inr ⟨pid, rfl⟩
            · rw [noteOp, Function.update_of_ne hpid] at h
              exact Or.inl h
      rcases hcases with hold | ⟨pid', rfl⟩
      · rcases ih hold with ⟨pid', hmem⟩
        exact ⟨pid', List.mem_append_left _ hmem⟩
      · exact ⟨pid', List.mem_append_right _ List.mem_cons_self⟩

/-- **The table of child processes.** After every run of saves of children with pids of their own,
registrations of callbacks inside the code and terminations, the counters are those of the slots in
use, `abort()` is not reached, and when a child is gone its callbacks are started, each once and in
order, exactly as long as `deref_mem_ptr` accepts none of their arguments that is outside the
memory. The counter of callbacks has to stay below `2 ^ 32`. -/
theorem child_table (os : Os ω) {ops : List ProcOp} {proc : VmProc}
    (hfresh : Steps.Along procStep FreshPid ops emptyProc)
    (hroom : Steps.Along procStep CallbackRoom ops emptyProc)
    (hrun : Steps.run procStep ops emptyProc = some proc) :
    proc.nProc = nLive proc ∧ proc.nExitCallbacks.toNat = nRegistered proc ∧
      (∀ pid, saveChildProc pid proc ≠ .error .abort) ∧
      ∀ (vm : Vm (Sys ω)) (pid : Int32) (status : UInt32) (p : ℕ) (ch : VmChild),
        vm.host.proc = proc → (∀ op ∈ ops, op.Valid vm.code.size) → findProc pid proc = some p →
        proc.childProc[p]? = some ch →
          ((∃ n vm', childExited os p ch pid status vm = .ok (n, vm') ∧
              ExitDone p (registered ops pid) vm vm') ↔
            ArgsInside (registered ops pid) vm) := by
  have hinv : ChildInv (registered ops) proc :=
    childInv_run (childInv_empty _) hfresh hrun
  refine ⟨hinv.live, callbackCount_run (childInv_empty fun _ => []) rfl hfresh hroom hrun, ?_, ?_⟩
  · intro pid habort
    rcases saveChildProc_ok hinv pid with ⟨p, ch, -, -, hok⟩
    rw [hok] at habort
    cases habort
  · intro vm pid status p ch hproc hvalid hfind hch
    rcases findProc_eq_some hfind with ⟨ch', hch', hused, rfl⟩
    rw [hch] at hch'
    obtain rfl := Option.some.inj hch'
    have hcbs : ch.exitCb = registered ops ch.pid := hinv.callbacks p ch hch hused
    rw [← hcbs]
    apply childExited_iff
    intro cb hcb
    rw [hcbs] at hcb
    rcases mem_registered hcb with ⟨pid', hmem⟩
    exact hvalid _ hmem

instance (op : ProcOp) (proc : VmProc) : Decidable (FreshPid op proc) := by
  cases op <;> unfold FreshPid <;> infer_instance

instance (op : ProcOp) (proc : VmProc) : Decidable (CallbackRoom op proc) := by
  cases op <;> unfold CallbackRoom <;> infer_instance

instance (codesz : ℕ) (op : ProcOp) : Decidable (op.Valid codesz) := by
  cases op <;> unfold ProcOp.Valid <;> infer_instance

instance (cbs : List VmCallback) (vm : Vm (Sys ω)) : Decidable (ArgsInside cbs vm) :=
  inferInstanceAs (Decidable (∀ cb ∈ cbs, _))

/-- A machine with this table of children, and a memory for the arguments of one callback. -/
def exitVm (proc : VmProc) : Vm (Sys Unit) :=
  (memoryVm ⟨List.replicate 56 0, by decide⟩).withSys fun s => { s with proc := proc }

/-- A child with one callback, whose arguments are at `0`. -/
def oneExit : VmProc where
  childProc := ⟨7, true, [⟨0, 0⟩]⟩ :: List.replicate (procAlloc - 1) emptyChild
  nProc := 1
  nExitCallbacks := 1

theorem child_table_one : ∃ n vm',
    childExited deadOs 0 ⟨7, true, [⟨0, 0⟩]⟩ 7 0 (exitVm oneExit) = .ok (n, vm') ∧
      ExitDone 0 [⟨0, 0⟩] (exitVm oneExit) vm' := by
  have htable := @child_table Unit deadOs [.save 7, .register 7 ⟨0, 0⟩] oneExit
    (by decide) (by decide) (by decide)
  exact (htable.2.2.2 (exitVm oneExit) 7 0 0 ⟨7, true, [⟨0, 0⟩]⟩ rfl (by decide) (by decide)
    (by decide)).2 (by decide)

/-- A child with two callbacks, whose first one has arguments that wrap around. -/
def wrappedExit : VmProc where
  childProc := ⟨7, true, [⟨0, 0xfffffff0⟩, ⟨0, 0⟩]⟩ :: List.replicate (procAlloc - 1) emptyChild
  nProc := 1
  nExitCallbacks := 2

/-- The second callback is lost. -/
theorem exit_callback_lost : ¬ ∀ (os : Os Unit) (ops : List ProcOp) (proc : VmProc),
    Steps.Along procStep FreshPid ops emptyProc → Steps.run procStep ops emptyProc = some proc →
      proc.nProc = nLive proc ∧ proc.nExitCallbacks.toNat = nRegistered proc ∧
      (∀ pid, saveChildProc pid proc ≠ .error .abort) ∧
      ∀ (vm : Vm (Sys Unit)) (pid : Int32) (status : UInt32) (p : ℕ) (ch : VmChild),
        vm.host.proc = proc → (∀ op ∈ ops, op.Valid vm.code.size) → findProc pid proc = some p →
        proc.childProc[p]? = some ch →
          ∃ n vm', childExited os p ch pid status vm = .ok (n, vm') ∧
            ExitDone p (registered ops pid) vm vm' := by
  intro h
  have htable := h deadOs [.save 7, .register 7 ⟨0, 0xfffffff0⟩, .register 7 ⟨0, 0⟩] wrappedExit
    (by decide) (by decide)
  rcases htable.2.2.2 (exitVm wrappedExit) 7 0 0 _ rfl (by decide) (by decide) rfl
    with ⟨n, vm', hexit, -⟩
  have hfault : childExited deadOs 0 ⟨7, true, [⟨0, 0xfffffff0⟩, ⟨0, 0⟩]⟩ 7 0
      (exitVm wrappedExit) = .error .deref := rfl
  rw [hfault] at hexit
  cases hexit

end BvgzVm
