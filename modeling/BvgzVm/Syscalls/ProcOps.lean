import BvgzVm.Lib.Slots
import BvgzVm.Lib.Steps
import BvgzVm.Syscalls.IoOps

set_option autoImplicit false

/-! # Operations on the table of child processes

What `sys_exec`, `sys_run`, `sys_onexit` and the termination of a child do to `vm->proc`, as
actions of a system (`procStep`). As long as a child that is saved has a pid of its own, the
slots in use have different pids (`ChildInv`); the two counters are those of the slots in use, and
a slot holds the callbacks that were registered since its child was saved.
-/

namespace BvgzVm

/-! ## Actions -/

/-- `save_child_proc`, the registration of a callback for a child, and the termination of a
child. -/
inductive ProcOp
  | save (pid : Int32)
  | register (pid : Int32) (cb : VmCallback)
  | exit (pid : Int32)
  deriving DecidableEq, Repr

/-- One action. -/
def procStep : ProcOp → VmProc → Option VmProc
  | .save pid, proc => (saveChildProc pid proc).toOption
  | .register pid cb, proc => (findProc pid proc).map fun p => addExitCallback p cb proc
  | .exit pid, proc =>
      (findProc pid proc).bind fun p => (proc.childProc[p]?).map fun ch => endChild p ch proc

/-- A table before the first action. -/
def emptyProc : VmProc := ⟨[], 0, 0⟩

/-- No child that is alive has this pid. -/
def FreshPid (op : ProcOp) (proc : VmProc) : Prop :=
  match op with
  | .save pid => findProc pid proc = none
  | _ => True

/-- The counter of callbacks has room for one more. -/
def CallbackRoom (op : ProcOp) (proc : VmProc) : Prop :=
  match op with
  | .register _ _ => proc.nExitCallbacks ≠ 0xffffffff
  | _ => True

/-- The callbacks registered for each child, after one more action. -/
def noteOp (op : ProcOp) (cbs : Int32 → List VmCallback) : Int32 → List VmCallback :=
  match op with
  | .save pid | .exit pid => Function.update cbs pid []
  | .register pid cb => Function.update cbs pid (cbs pid ++ [cb])

/-- The callbacks that are registered for each child, in order, since it was saved. -/
def registered (ops : List ProcOp) : Int32 → List VmCallback :=
  ops.foldl (fun cbs op => noteOp op cbs) fun _ => []

/-- The children that are alive. -/
def nLive (proc : VmProc) : Nat := Slots.total (·.used) (fun _ => 1) proc.childProc

/-- The callbacks of the children that are alive. -/
def nRegistered (proc : VmProc) : Nat := Slots.total (·.used) (·.exitCb.length) proc.childProc

/-! ## Slots of children -/

theorem findProc_eq_some {pid : Int32} {proc : VmProc} {p : Nat} (h : findProc pid proc = some p) :
    ∃ ch, proc.childProc[p]? = some ch ∧ ch.used = true ∧ ch.pid = pid := by
  unfold findProc at h
  rcases List.findIdx?_eq_some_iff_getElem.1 h with ⟨hlt, hp, _⟩
  rw [Bool.and_eq_true] at hp
  exact ⟨_, List.getElem?_eq_getElem hlt, hp.1, of_decide_eq_true hp.2⟩

/-- A child that is not found is not in the table. -/
theorem findProc_eq_none {pid : Int32} {proc : VmProc} :
    findProc pid proc = none ↔
      ∀ (p : Nat) ch, proc.childProc[p]? = some ch → ch.used = true → ch.pid ≠ pid := by
  unfold findProc
  rw [List.findIdx?_eq_none_iff]
  constructor
  · intro h p ch hch hused hpid
    have := h ch (List.mem_of_getElem? hch)
    simp [hused, hpid] at this
  · intro h ch hch
    rcases List.mem_iff_getElem?.1 hch with ⟨p, hp⟩
    by_cases hused : ch.used = true
    · have := h p ch hp hused
      simp [this]
    · simp [hused]

/-- **The invariant**: the slots in use have different pids, they are counted, and they hold the
callbacks that were registered. -/
structure ChildInv (cbs : Int32 → List VmCallback) (proc : VmProc) : Prop where
  distinct : ∀ (p q : Nat) ch ch', proc.childProc[p]? = some ch → proc.childProc[q]? = some ch' →
    ch.used = true → ch'.used = true → ch.pid = ch'.pid → p = q
  live : proc.nProc = nLive proc
  callbacks : ∀ (p : Nat) ch, proc.childProc[p]? = some ch → ch.used = true →
    ch.exitCb = cbs ch.pid

theorem childInv_empty (cbs : Int32 → List VmCallback) : ChildInv cbs emptyProc := by
  refine ⟨?_, rfl, ?_⟩
  · intro p q ch ch' hch
    cases hch
  · intro p ch hch
    cases hch

/-- A child that is alive is found in its slot. -/
theorem ChildInv.find {cbs : Int32 → List VmCallback} {proc : VmProc} (h : ChildInv cbs proc)
    {p : Nat} {ch : VmChild} (hch : proc.childProc[p]? = some ch) (hused : ch.used = true) :
    findProc ch.pid proc = some p := by
  cases hfind : findProc ch.pid proc with
  | none => exact absurd rfl (findProc_eq_none.1 hfind p ch hch hused)
  | some q =>
      rcases findProc_eq_some hfind with ⟨ch', hch', hused', hpid⟩
      rw [h.distinct q p ch' ch hch' hch hused' hused hpid]

/-- The entries of a table in which one slot was changed. -/
theorem getElem?_set_cases {α : Type} {l : List α} {p q : Nat} {x y : α}
    (h : (l.set p x)[q]? = some y) : q = p ∧ y = x ∨ q ≠ p ∧ l[q]? = some y := by
  by_cases hqp : q = p
  · subst hqp
    rw [List.getElem?_set_self'] at h
    rcases Option.map_eq_some_iff.1 h with ⟨_, _, rfl⟩
    exact Or.inl ⟨rfl, rfl⟩
  · rw [List.getElem?_set_ne (Ne.symm hqp)] at h
    exact Or.inr ⟨hqp, h⟩

/-- **The invariant, when one slot changes** in a table that may have grown by unused slots. -/
theorem ChildInv.set {cbs cbs' : Int32 → List VmCallback} {proc proc' : VmProc}
    (h : ChildInv cbs proc) {l : List VmChild} {p : Nat} {x : VmChild}
    (hold : ∀ (q : Nat) ch, l[q]? = some ch → ch.used = true → proc.childProc[q]? = some ch)
    (hslots : proc'.childProc = l.set p x)
    (hpid : x.used = true → ∀ (q : Nat) ch, proc.childProc[q]? = some ch → ch.used = true →
      ch.pid = x.pid → q = p)
    (hother : ∀ (q : Nat) ch, proc.childProc[q]? = some ch → ch.used = true → q ≠ p →
      cbs' ch.pid = cbs ch.pid)
    (hself : x.used = true → x.exitCb = cbs' x.pid) (hlive : proc'.nProc = nLive proc') :
    ChildInv cbs' proc' := by
  refine ⟨?_, hlive, ?_⟩
  · intro q r ch ch' hch hch' hused hused' heq
    rw [hslots] at hch hch'
    rcases getElem?_set_cases hch with ⟨hq, hx⟩ | ⟨hq, hq'⟩
    · rcases getElem?_set_cases hch' with ⟨hr, _⟩ | ⟨_, hr'⟩
      · rw [hq, hr]
      · subst hx
        rw [hq]
        exact (hpid hused r ch' (hold r ch' hr' hused') hused' heq.symm).symm
    · rcases getElem?_set_cases hch' with ⟨hr, hx⟩ | ⟨_, hr'⟩
      · subst hx
        rw [hr]
        exact hpid hused' q ch (hold q ch hq' hused) hused heq
      · exact h.distinct q r ch ch' (hold q ch hq' hused) (hold r ch' hr' hused') hused hused' heq
  · intro q ch hch hused
    rw [hslots] at hch
    rcases getElem?_set_cases hch with ⟨_, hx⟩ | ⟨hq, hq'⟩
    · subst hx
      exact hself hused
    · have hget := hold q ch hq' hused
      rw [hother q ch hget hused hq]
      exact h.callbacks q ch hget hused

/-! ## `save_child_proc` -/

/-- The table with room for one more child. -/
def grownProc (proc : VmProc) : List VmChild :=
  if proc.nProc ≥ proc.childProc.length then
    proc.childProc ++ List.replicate procAlloc emptyChild
  else proc.childProc

theorem grownProc_eq (proc : VmProc) :
    ∃ k, grownProc proc = proc.childProc ++ List.replicate k emptyChild := by
  unfold grownProc
  split
  · exact ⟨procAlloc, rfl⟩
  · exact ⟨0, (List.append_nil _).symm⟩

/-- **There is always a free slot**, so `abort()` is not reached. -/
theorem exists_free {cbs : Int32 → List VmCallback} {proc : VmProc} (h : ChildInv cbs proc) :
    ∃ p, (grownProc proc).findIdx? (fun ch => !ch.used) = some p := by
  rw [← Option.isSome_iff_exists, List.findIdx?_isSome, List.any_eq_true]
  unfold grownProc
  by_cases hfull : proc.nProc ≥ proc.childProc.length
  · rw [if_pos hfull]
    refine ⟨emptyChild, ?_, rfl⟩
    exact List.mem_append_right _ (List.mem_replicate.2 ⟨by decide, rfl⟩)
  · rw [if_neg hfull]
    by_contra hnone
    -- otherwise every slot is counted
    have hall : ∀ ch ∈ proc.childProc, ch.used = true := by
      intro ch hch
      by_contra hunused
      exact hnone ⟨ch, hch, by simpa using hunused⟩
    have hcount : nLive proc = proc.childProc.length := by
      unfold nLive Slots.total
      rw [List.filter_eq_self.2 hall, List.map_const', List.sum_replicate, smul_eq_mul, mul_one]
    have hlive := h.live
    omega

theorem saveChildProc_ok {cbs : Int32 → List VmCallback} {proc : VmProc} (h : ChildInv cbs proc)
    (pid : Int32) :
    ∃ p ch, (grownProc proc)[p]? = some ch ∧ ch.used = false ∧
      saveChildProc pid proc = .ok { proc with
        childProc := (grownProc proc).set p ⟨pid, true, []⟩
        nProc := proc.nProc + 1 } := by
  rcases exists_free h with ⟨p, hp⟩
  rcases List.findIdx?_eq_some_iff_getElem.1 hp with ⟨hlt, hfree, _⟩
  refine ⟨p, _, List.getElem?_eq_getElem hlt, by simpa using hfree, ?_⟩
  unfold saveChildProc
  unfold grownProc at hp
  dsimp only
  rw [hp]
  rfl

/-- The slots in use of a table that has grown are those it had. -/
theorem grownProc_old {proc : VmProc} {q : Nat} {ch : VmChild} (h : (grownProc proc)[q]? = some ch)
    (hused : ch.used = true) : proc.childProc[q]? = some ch := by
  rcases grownProc_eq proc with ⟨k, hk⟩
  rw [hk] at h
  by_cases hq : q < proc.childProc.length
  · rwa [List.getElem?_append_left hq] at h
  · rw [List.getElem?_append_right (Nat.le_of_not_lt hq)] at h
    have hempty : ch = emptyChild := (List.mem_replicate.1 (List.mem_of_getElem? h)).2
    rw [hempty] at hused
    cases hused

theorem total_grownProc (f : VmChild → Nat) (proc : VmProc) :
    Slots.total (·.used) f (grownProc proc) = Slots.total (·.used) f proc.childProc := by
  rcases grownProc_eq proc with ⟨k, hk⟩
  rw [hk, Slots.total_append_unused _ _ _ _ (show emptyChild.used = false from rfl)]

/-! ## Each action -/

/-- The two sums, when one slot changes. -/
theorem totals_set {l : List VmChild} {p : Nat} {ch : VmChild} (x : VmChild)
    (h : l[p]? = some ch) :
    Slots.total (·.used) (fun _ => 1) (l.set p x) + (if ch.used then 1 else 0) =
        Slots.total (·.used) (fun _ => 1) l + (if x.used then 1 else 0) ∧
      Slots.total (·.used) (·.exitCb.length) (l.set p x) + (if ch.used then ch.exitCb.length else 0) =
        Slots.total (·.used) (·.exitCb.length) l + (if x.used then x.exitCb.length else 0) :=
  ⟨Slots.total_set _ _ x h, Slots.total_set _ _ x h⟩

/-- What an action does to the sums over the slots in use. -/
theorem procStep_totals {cbs : Int32 → List VmCallback} {op : ProcOp} {proc proc' : VmProc}
    (h : ChildInv cbs proc) (hstep : procStep op proc = some proc') :
    proc'.nProc = nLive proc' ∧
      (CallbackRoom op proc → proc.nExitCallbacks.toNat = nRegistered proc →
        proc'.nExitCallbacks.toNat = nRegistered proc') := by
  have hlive := h.live
  cases op with
  | save pid =>
      rcases saveChildProc_ok h pid with ⟨p, ch, hch, hunused, hok⟩
      have hsome := Fallible.toOption_eq_some.1 hstep
      rw [hok] at hsome
      cases hsome
      have htotals := totals_set ⟨pid, true, []⟩ hch
      rw [hunused, total_grownProc, total_grownProc] at htotals
      refine ⟨?_, ?_⟩
      · show proc.nProc + 1 = Slots.total _ _ _
        rw [hlive]
        exact htotals.1.symm
      · intro _ hcount
        exact hcount.trans htotals.2.symm
  | register pid cb =>
      rcases Option.map_eq_some_iff.1 hstep with ⟨p, hp, rfl⟩
      rcases findProc_eq_some hp with ⟨ch, hch, hused, hpid⟩
      have hslots : (addExitCallback p cb proc).childProc
          = proc.childProc.set p { ch with exitCb := ch.exitCb ++ [cb] } := by
        show List.modify _ _ _ = _
        rw [List.modify_eq_set_getElem?, hch]
        rfl
      have htotals := totals_set { ch with exitCb := ch.exitCb ++ [cb] } hch
      rw [← hslots] at htotals
      simp only [hused, if_true, List.length_append, List.length_singleton] at htotals
      refine ⟨?_, ?_⟩
      · show proc.nProc = _
        rw [hlive]
        exact (Nat.add_right_cancel htotals.1).symm
      · intro hroom hcount
        show (proc.nExitCallbacks + 1).toNat = _
        rw [Slots.toNat_add_one_iff.2 hroom, hcount]
        unfold nRegistered
        omega
  | exit pid =>
      rcases Option.bind_eq_some_iff.1 hstep with ⟨p, hp, hmap⟩
      rcases Option.map_eq_some_iff.1 hmap with ⟨ch', hch', rfl⟩
      rcases findProc_eq_some hp with ⟨ch, hch, hused, hpid⟩
      rw [hch] at hch'
      rcases Option.some.inj hch' with rfl
      have htotals := totals_set { ch with used := false, exitCb := [] } hch
      have hslots : (endChild p ch proc).childProc
          = proc.childProc.set p { ch with used := false, exitCb := [] } := rfl
      rw [← hslots] at htotals
      simp only [hused, if_true, Bool.false_eq_true, if_false] at htotals
      refine ⟨?_, ?_⟩
      · show proc.nProc - 1 = nLive _
        unfold nLive at hlive ⊢
        omega
      · intro _ hcount
        show (proc.nExitCallbacks - UInt32.ofNat ch.exitCb.length).toNat = nRegistered _
        unfold nRegistered at hcount ⊢
        rw [Slots.toNat_sub_ofNat (by omega)]
        omega

/-- **The invariant is kept** by every action that saves no child with the pid of another one. -/
theorem childInv_step {cbs : Int32 → List VmCallback} {op : ProcOp} {proc proc' : VmProc}
    (h : ChildInv cbs proc) (hfresh : FreshPid op proc) (hstep : procStep op proc = some proc') :
    ChildInv (noteOp op cbs) proc' := by
  have hlive := (procStep_totals h hstep).1
  cases op with
  | save pid =>
      rcases saveChildProc_ok h pid with ⟨p, ch, hch, hunused, hok⟩
      have hsome := Fallible.toOption_eq_some.1 hstep
      rw [hok] at hsome
      cases hsome
      refine h.set (fun q c hq hused => grownProc_old hq hused) rfl ?_ ?_ ?_ hlive
      · intro _ q c hq hused hpid
        exact absurd hpid (findProc_eq_none.1 hfresh q c hq hused)
      · intro q c hq hused _
        exact Function.update_of_ne (findProc_eq_none.1 hfresh q c hq hused) _ _
      · intro _
        exact (Function.update_self pid _ cbs).symm
  | register pid cb =>
      rcases Option.map_eq_some_iff.1 hstep with ⟨p, hp, rfl⟩
      rcases findProc_eq_some hp with ⟨ch, hch, hused, rfl⟩
      have hslots : (addExitCallback p cb proc).childProc
          = proc.childProc.set p { ch with exitCb := ch.exitCb ++ [cb] } := by
        show List.modify _ _ _ = _
        rw [List.modify_eq_set_getElem?, hch]
        rfl
      refine h.set (fun q c hq _ => hq) hslots ?_ ?_ ?_ hlive
      · intro _ q c hq hused' hpid
        exact h.distinct q p c ch hq hch hused' hused hpid
      · intro q c hq hused' hqp
        refine Function.update_of_ne ?_ _ _
        intro hpid
        exact hqp (h.distinct q p c ch hq hch hused' hused hpid)
      · intro _
        show ch.exitCb ++ [cb] = _
        rw [h.callbacks p ch hch hused]
        exact (Function.update_self ch.pid _ cbs).symm
  | exit pid =>
      rcases Option.bind_eq_some_iff.1 hstep with ⟨p, hp, hmap⟩
      rcases Option.map_eq_some_iff.1 hmap with ⟨ch', hch', rfl⟩
      rcases findProc_eq_some hp with ⟨ch, hch, hused, rfl⟩
      refine h.set (fun q c hq _ => hq) rfl ?_ ?_ ?_ hlive
      · intro hfalse
        cases hfalse
      · intro q c hq hused' hqp
        refine Function.update_of_ne ?_ _ _
        intro hpid
        exact hqp (h.distinct q p c ch hq hch hused' hused hpid)
      · intro hfalse
        cases hfalse

/-! ## Every sequence of actions -/

theorem registered_concat (ops : List ProcOp) (op : ProcOp) :
    registered (ops ++ [op]) = noteOp op (registered ops) := by
  unfold registered
  rw [List.foldl_append]
  rfl

/-- **The invariant holds after every run**, in which no child is saved with the pid of a child
that is alive. -/
theorem childInv_run {ops : List ProcOp} {cbs : Int32 → List VmCallback} {proc proc' : VmProc}
    (h : ChildInv cbs proc) (hfresh : Steps.Along procStep FreshPid ops proc)
    (hrun : Steps.run procStep ops proc = some proc') :
    ChildInv (ops.foldl (fun cbs op => noteOp op cbs) cbs) proc' := by
  induction ops generalizing cbs proc with
  | nil =>
      cases hrun
      exact h
  | cons op ops ih =>
      rcases Steps.run_cons.1 hrun with ⟨m, hm, hrest⟩
      exact ih (childInv_step h hfresh.1 hm) (hfresh.2 m hm) hrest

/-- **The counter of callbacks** is right after every run that keeps it below `2^32`. -/
theorem callbackCount_run {ops : List ProcOp} {cbs : Int32 → List VmCallback}
    {proc proc' : VmProc} (h : ChildInv cbs proc)
    (hcount : proc.nExitCallbacks.toNat = nRegistered proc)
    (hfresh : Steps.Along procStep FreshPid ops proc)
    (hroom : Steps.Along procStep CallbackRoom ops proc)
    (hrun : Steps.run procStep ops proc = some proc') :
    proc'.nExitCallbacks.toNat = nRegistered proc' := by
  induction ops generalizing cbs proc with
  | nil =>
      cases hrun
      exact hcount
  | cons op ops ih =>
      rcases Steps.run_cons.1 hrun with ⟨m, hm, hrest⟩
      exact ih (childInv_step h hfresh.1 hm) ((procStep_totals h hm).2 hroom.1 hcount)
        (hfresh.2 m hm) (hroom.2 m hm) hrest

/-! ## Where callbacks come from -/

/-- **Only a registration makes a callback**, whatever is in the table. -/
theorem procStep_callbacks {op : ProcOp} {proc proc' : VmProc} (hstep : procStep op proc = some proc')
    {ch : VmChild} (hch : ch ∈ proc'.childProc) {cb : VmCallback} (hcb : cb ∈ ch.exitCb) :
    (∃ ch' ∈ proc.childProc, cb ∈ ch'.exitCb) ∨ ∃ pid, op = .register pid cb := by
  cases op with
  | save pid =>
      have hsave := Fallible.toOption_eq_some.1 hstep
      unfold saveChildProc at hsave
      dsimp only at hsave
      split at hsave
      · cases hsave
      · cases hsave
        rcases List.mem_or_eq_of_mem_set hch with hold | rfl
        · have hgrown : ch ∈ grownProc proc := hold
          rcases grownProc_eq proc with ⟨k, hk⟩
          rw [hk] at hgrown
          rcases List.mem_append.1 hgrown with hmem | hempty
          · exact Or.inl ⟨ch, hmem, hcb⟩
          · rw [(List.mem_replicate.1 hempty).2] at hcb
            cases hcb
        · cases hcb
  | register pid cb' =>
      rcases Option.map_eq_some_iff.1 hstep with ⟨p, hfind, rfl⟩
      rcases findProc_eq_some hfind with ⟨ch₀, hch₀, _, _⟩
      have hset : (addExitCallback p cb' proc).childProc =
          proc.childProc.set p { ch₀ with exitCb := ch₀.exitCb ++ [cb'] } := by
        show List.modify _ _ _ = _
        rw [List.modify_eq_set_getElem?, hch₀]
        rfl
      rw [hset] at hch
      rcases List.mem_or_eq_of_mem_set hch with hold | rfl
      · exact Or.inl ⟨ch, hold, hcb⟩
      · rcases List.mem_append.1 hcb with hcb | hcb
        · exact Or.inl ⟨ch₀, List.mem_of_getElem? hch₀, hcb⟩
        · rw [List.mem_singleton.1 hcb]
          exact Or.inr ⟨pid, rfl⟩
  | exit pid =>
      rcases Option.bind_eq_some_iff.1 hstep with ⟨p, _, hend⟩
      rcases Option.map_eq_some_iff.1 hend with ⟨ch₀, _, rfl⟩
      rcases List.mem_or_eq_of_mem_set hch with hold | rfl
      · exact Or.inl ⟨ch, hold, hcb⟩
      · cases hcb

end BvgzVm
