import BvgzVm.Instn.Handlers
import BvgzVm.Lib.Steps

set_option autoImplicit false

/-! # Calls and returns

`call`, `ret`, `argv` and `retv` work on the bytes of the call stack. What they are for is said
by an ideal procedure (`Activation`), whose frames are a list: a call pushes the return pointer,
the argument pointer and the address after the call, `argv` and `retv` look at the top frame, and
a return pops it and resumes there (`idealStep`).

The bytes follow the ideal procedure through a run of any length and depth exactly as long as no
step shrinks the stack or wraps its size around (`callDiscipline_iff`).
-/

namespace BvgzVm

variable {σ : Type}

/-! ## The ideal procedure -/

/-- A running procedure with its frames, the innermost call first. -/
structure Activation where
  iptr : UInt32
  frames : List FCall

/-- The running procedure, if it has not ended, and the machine without it: `procedures` are the
other ones. -/
abbrev Ideal (σ : Type) := Option Activation × Vm σ

/-- What happens to a procedure: one of the four instructions, `offset` bytes long, or anything
else, which may change its instruction pointer and the rest of the machine. -/
inductive CallAction (σ : Type)
  | call (instn : Instn) (offset : UInt32)
  | ret (instn : Instn) (offset : UInt32)
  | argv (instn : Instn) (offset : UInt32)
  | retv (instn : Instn) (offset : UInt32)
  | other (iptr : UInt32) (rest : Vm σ)

/-- The argument pointer of the innermost call. -/
def Activation.argv (act : Activation) : UInt32 :=
  match act.frames with
  | [] => 0
  | f :: _ => f.args

/-- One action of the ideal procedure. A `ret` belongs to a call, or ends the procedure when it
returns to `-1`. -/
def idealStep : CallAction σ → Ideal σ → Option (Ideal σ)
  | _, (none, _) => none
  | .call instn offset, (some act, m) =>
      match argValue instn 0 m, argValue instn 1 m, argValue instn 2 m with
      | .ok iptr, .ok argv, .ok retv =>
          let frame := ⟨retv.toUInt32, argv.toUInt32, act.iptr + offset⟩
          some (some ⟨iptr.toUInt32, frame :: act.frames⟩, m)
      | _, _, _ => none
  | .ret _ _, (some act, m) =>
      match act.frames with
      | [] => none
      | f :: fs =>
          if f.retAddress = 0xffffffff then some (none, m)
          else some (some ⟨f.retAddress, fs⟩, m)
  | .argv instn offset, (some act, m) =>
      match lrefSet 4 instn 0 act.argv.toNat m with
      | .ok m => some (some ⟨act.iptr + offset, act.frames⟩, m)
      | .error _ => none
  | .retv instn offset, (some act, m) =>
      let act' : Activation := ⟨act.iptr + offset, act.frames⟩
      match act.frames with
      | [] => some (some act', m.raise vmEMemFault)
      | f :: _ =>
          match derefMemPtr f.retval 8 m.memory.size with
          | none => some (some act', m.raise vmEMemFault)
          | some ref =>
              match argValue instn 0 m with
              | .error _ => none
              | .ok v => (m.memory.store ref.toNat 8 v.toNat).map (fun memory =>
                  (some act', { m with memory := memory }))
  | .other iptr rest, (some act, _) => some (some ⟨iptr, act.frames⟩, rest)

/-! ## The procedure of the machine -/

/-- `proc->iptr += offt`, and the handler. -/
def runHandler (host : Host σ) (op : Op) (instn : Instn) (offset : UInt32) (vm : Vm σ) :
    Option (Vm σ) :=
  match vm.procedures with
  | [] => none
  | p :: ps =>
      match handlerOf op host instn
          { vm with procedures := { p with iptr := p.iptr + offset } :: ps } with
      | .ok (_, vm) => some vm
      | .error _ => none

/-- One action of the machine; it fails where the handler runs into undefined behaviour. -/
def callStep (host : Host σ) : CallAction σ → Vm σ → Option (Vm σ)
  | .call instn offset, vm => runHandler host .call3 instn offset vm
  | .ret instn offset, vm => runHandler host .ret0 instn offset vm
  | .argv instn offset, vm => runHandler host .argv1 instn offset vm
  | .retv instn offset, vm => runHandler host .retv1 instn offset vm
  | .other iptr rest, vm =>
      match vm.procedures with
      | [] => none
      | p :: _ => some { rest with procedures := { p with iptr := iptr } :: rest.procedures }

/-- The machine `m` with the procedure `p` running. -/
def withProc (p : Proc) (m : Vm σ) : Vm σ := { m with procedures := p :: m.procedures }

/-- The machine is in the ideal state: the procedure has the frames of the ideal one, all of them
inside its block, and the rest of the machine is the same. -/
def Shows (vm : Vm σ) : Ideal σ → Prop
  | (none, m) => vm = m
  | (some act, m) => ∃ p, vm = withProc p m ∧ p.iptr = act.iptr ∧ HasFrames p act.frames

/-- The same for a stack that has never been shrunk. -/
def ShowsGood (vm : Vm σ) : Ideal σ → Prop
  | (none, m) => vm = m
  | (some act, m) => ∃ p, vm = withProc p m ∧ p.iptr = act.iptr ∧ CallStack.Good p act.frames

theorem ShowsGood.shows {vm : Vm σ} {s : Ideal σ} (h : ShowsGood vm s) : Shows vm s := by
  obtain ⟨act, m⟩ := s
  cases act with
  | none => exact h
  | some act =>
      obtain ⟨p, hvm, hiptr, hgood⟩ := h
      exact ⟨p, hvm, hiptr, hgood.hasFrames⟩

/-- The action neither shrinks the stack of the running procedure nor wraps its size around. -/
def KeepsStack : CallAction σ → Vm σ → Prop
  | .call _ _, vm => ∀ p ps, vm.procedures = p :: ps → CallStack.PushFits p
  | .ret _ _, vm => ∀ p ps, vm.procedures = p :: ps →
      frameField p (p.cstackSz - 1) 8 ≠ .ok 0xffffffff → CallStack.PopKeeps p
  | _, _ => True

/-! ## One action -/

theorem good_iptr {p : Proc} {fs : List FCall} (hg : CallStack.Good p fs) (iptr : UInt32) :
    CallStack.Good { p with iptr := iptr } fs :=
  ⟨⟨hg.hasFrames.size, hg.hasFrames.bytes⟩, hg.block, hg.whole, hg.le_alloc, hg.excess⟩

/-- A procedure has a frame exactly if its `cstack_sz` is not zero. -/
theorem cstackSz_eq_zero {p : Proc} {fs : List FCall} (hf : HasFrames p fs) :
    p.cstackSz = 0 ↔ fs = [] := by
  rw [← UInt32.toNat_inj, hf.size, show (0 : UInt32).toNat = 0 from rfl, List.length_eq_zero_iff]

/-- The values of the operands do not depend on the procedures. -/
theorem argValue_withProc (p : Proc) (m : Vm σ) (instn : Instn) (k : Nat) :
    argValue instn k (withProc p m) = argValue instn k m := rfl

theorem lrefSet_withProc (p : Proc) (m : Vm σ) (w : Nat) (instn : Instn) (k v : Nat) :
    lrefSet w instn k v (withProc p m) = (lrefSet w instn k v m).map (withProc p) := by
  rw [lrefSet, lrefSet]
  cases argPtr instn k with
  | error u => rfl
  | ok ref =>
      have hmemory : (withProc p m).memory = m.memory := rfl
      rw [Fallible.ok_bind, Fallible.ok_bind, hmemory]
      cases m.memory.store ref.toNat w v <;> rfl

/-- A handler starts with the instruction pointer behind its instruction. -/
theorem runHandler_withProc (host : Host σ) (op : Op) (instn : Instn) (offset : UInt32) (p : Proc)
    (m : Vm σ) :
    runHandler host op instn offset (withProc p m) =
      match handlerOf op host instn (withProc { p with iptr := p.iptr + offset } m) with
      | .ok (_, vm) => some vm
      | .error _ => none := rfl

/-- `call` on a stack that does not wrap around: the frame is pushed. -/
theorem call_good {host : Host σ} {instn : Instn} {offset : UInt32} {p : Proc} {m : Vm σ}
    {fs : List FCall} {iptr argv retv : UInt64} (hg : CallStack.Good p fs)
    (hfit : CallStack.PushFits p) (h0 : argValue instn 0 m = .ok iptr)
    (h1 : argValue instn 1 m = .ok argv) (h2 : argValue instn 2 m = .ok retv) :
    ∃ p', runHandler host .call3 instn offset (withProc p m) = some (withProc p' m) ∧
      p'.iptr = iptr.toUInt32 ∧
      CallStack.Good p' (⟨retv.toUInt32, argv.toUInt32, p.iptr + offset⟩ :: fs) := by
  obtain ⟨p', hpush, hg', -⟩ := CallStack.push_good (good_iptr hg (p.iptr + offset)) hfit host.fill
    ⟨retv.toUInt32, argv.toUInt32, p.iptr + offset⟩
  refine ⟨{ p' with iptr := iptr.toUInt32 }, ?_, rfl, good_iptr hg' _⟩
  rw [runHandler_withProc, handlerOf, opCall3, argValue_withProc, argValue_withProc,
    argValue_withProc, h0, h1, h2]
  simp only [Fallible.ok_bind, withProc, hpush]

/-- `call` on a stack whose size wraps around writes outside the block. -/
theorem call_wrap {host : Host σ} {instn : Instn} {offset : UInt32} {p : Proc} {m : Vm σ}
    {fs : List FCall} {iptr argv retv : UInt64} (hg : CallStack.Good p fs)
    (hfit : ¬ CallStack.PushFits p) (h0 : argValue instn 0 m = .ok iptr)
    (h1 : argValue instn 1 m = .ok argv) (h2 : argValue instn 2 m = .ok retv) :
    runHandler host .call3 instn offset (withProc p m) = none := by
  have hpush := CallStack.push_wrap (good_iptr hg (p.iptr + offset)) hfit host.fill
    ⟨retv.toUInt32, argv.toUInt32, p.iptr + offset⟩
  rw [runHandler_withProc, handlerOf, opCall3, argValue_withProc, argValue_withProc,
    argValue_withProc, h0, h1, h2]
  simp only [Fallible.ok_bind, withProc, hpush, Fallible.error_bind]

/-- `ret` with a frame: what the pop leaves decides. -/
theorem ret_pop {host : Host σ} {instn : Instn} {offset : UInt32} {p p' : Proc} {m : Vm σ}
    {f : FCall} {fs : List FCall} (hf : HasFrames p (f :: fs))
    (hpop : popCallStack host.fill { p with iptr := p.iptr + offset } = .ok (f.retAddress, p')) :
    runHandler host .ret0 instn offset (withProc p m) =
      some (if f.retAddress = 0xffffffff then m
        else withProc { p' with iptr := f.retAddress } m) := by
  have hsz : p.cstackSz ≠ 0 := fun h => List.cons_ne_nil f fs ((cstackSz_eq_zero hf).1 h)
  rw [runHandler_withProc, handlerOf, opRet0]
  simp only [withProc, if_neg hsz, hpop, Fallible.ok_bind]
  by_cases hend : f.retAddress = 0xffffffff
  · rw [if_pos hend, if_pos hend]
    rfl
  · rw [if_neg hend, if_neg hend]

/-- `argv` stores the argument pointer of the top frame. -/
theorem argv_hasFrames {host : Host σ} {instn : Instn} {offset : UInt32} {p : Proc} {m m' : Vm σ}
    {act : Activation} (hf : HasFrames p act.frames)
    (hset : lrefSet 4 instn 0 act.argv.toNat m = .ok m') :
    runHandler host .argv1 instn offset (withProc p m) =
      some (withProc { p with iptr := p.iptr + offset } m') := by
  rw [runHandler_withProc, handlerOf, opArgv1]
  have hvm : ∀ q : Proc, (withProc q m).procedures = q :: m.procedures := fun q => rfl
  simp only [hvm]
  cases hfs : act.frames with
  | nil =>
      rw [hfs] at hf
      rw [Activation.argv, hfs] at hset
      rw [if_pos ((cstackSz_eq_zero hf).2 rfl), Fallible.ok_bind, lrefSet_withProc, hset]
      rfl
  | cons f fs =>
      rw [hfs] at hf
      rw [Activation.argv, hfs] at hset
      have hsz : p.cstackSz ≠ 0 := fun h => List.cons_ne_nil f fs ((cstackSz_eq_zero hf).1 h)
      have hfield : frameField { p with iptr := p.iptr + offset } (p.cstackSz - 1) 4
          = .ok f.args := hf.top.2.1
      rw [if_neg hsz, hfield, Fallible.ok_bind, lrefSet_withProc, hset]
      rfl

/-- `retv` without a frame is a memory fault. -/
theorem retv_nil {host : Host σ} {instn : Instn} {offset : UInt32} {p : Proc} {m : Vm σ}
    (hf : HasFrames p []) :
    runHandler host .retv1 instn offset (withProc p m) =
      some (withProc { p with iptr := p.iptr + offset } (m.raise vmEMemFault)) := by
  have hsz : p.cstackSz = 0 := (cstackSz_eq_zero hf).2 rfl
  rw [runHandler_withProc, handlerOf, opRetv1]
  simp only [withProc, if_pos hsz]
  rfl

/-- `retv` writes through the return pointer of the top frame, if it is inside the memory. -/
theorem retv_cons {host : Host σ} {instn : Instn} {offset : UInt32} {p : Proc} {m : Vm σ}
    {f : FCall} {fs : List FCall} (hf : HasFrames p (f :: fs)) :
    runHandler host .retv1 instn offset (withProc p m) =
      match derefMemPtr f.retval 8 m.memory.size with
      | none => some (withProc { p with iptr := p.iptr + offset } (m.raise vmEMemFault))
      | some ref =>
          match argValue instn 0 m with
          | .error _ => none
          | .ok v => (m.memory.store ref.toNat 8 v.toNat).map (fun memory =>
              withProc { p with iptr := p.iptr + offset } { m with memory := memory }) := by
  have hsz : p.cstackSz ≠ 0 := fun h => List.cons_ne_nil f fs ((cstackSz_eq_zero hf).1 h)
  have hfield : frameField { p with iptr := p.iptr + offset } (p.cstackSz - 1) 0
      = .ok f.retval := hf.top.1
  rw [runHandler_withProc, handlerOf, opRetv1]
  have hvm : ∀ q : Proc, (withProc q m).procedures = q :: m.procedures := fun q => rfl
  simp only [hvm, if_neg hsz, hfield, Fallible.ok_bind, argValue_withProc]
  have hmem : ∀ q : Proc, (withProc q m).memory = m.memory := fun q => rfl
  simp only [hmem]
  cases derefMemPtr f.retval 8 m.memory.size with
  | none => rfl
  | some ref =>
      cases argValue instn 0 m with
      | error u => rfl
      | ok v =>
          simp only [Fallible.ok_bind]
          cases m.memory.store ref.toNat 8 v.toNat <;> rfl

/-- **One action keeps the machine in the ideal state**, unless it loses the stack. -/
theorem callStep_good {host : Host σ} {a : CallAction σ} {vm : Vm σ} {s s' : Ideal σ}
    (hs : ShowsGood vm s) (hstep : idealStep a s = some s') (hkeep : KeepsStack a vm) :
    ∃ vm', callStep host a vm = some vm' ∧ ShowsGood vm' s' := by
  obtain ⟨act, m⟩ := s
  cases act with
  | none =>
      rw [idealStep] at hstep
      cases hstep
  | some act =>
      obtain ⟨p, rfl, hiptr, hgood⟩ := hs
      cases a with
      | call instn offset =>
          simp only [idealStep] at hstep
          split at hstep
          · next iptr argv retv h0 h1 h2 =>
              obtain rfl := Option.some.inj hstep
              obtain ⟨p', hrun, hip, hg'⟩ := call_good hgood (hkeep p _ rfl) h0 h1 h2
              rw [hiptr] at hg'
              exact ⟨_, hrun, p', rfl, hip, hg'⟩
          · cases hstep
      | ret instn offset =>
          simp only [idealStep] at hstep
          cases hfs : act.frames with
          | nil =>
              rw [hfs] at hstep
              cases hstep
          | cons f fs =>
              rw [hfs] at hstep hgood
              simp only at hstep
              by_cases hend : f.retAddress = 0xffffffff
              · rw [if_pos hend] at hstep
                obtain rfl := Option.some.inj hstep
                have hf := (good_iptr hgood (p.iptr + offset)).hasFrames
                refine ⟨_, ret_pop hgood.hasFrames (CallStack.pop_eq hf host.fill), ?_⟩
                rw [if_pos hend]
                exact rfl
              · rw [if_neg hend] at hstep
                obtain rfl := Option.some.inj hstep
                have hpk : CallStack.PopKeeps p := by
                  refine hkeep p _ rfl ?_
                  rw [hgood.hasFrames.top.2.2]
                  intro h
                  exact hend (Except.ok.inj h)
                obtain ⟨p', hpop, hg', -⟩ :=
                  CallStack.pop_good (good_iptr hgood (p.iptr + offset)) hpk host.fill
                refine ⟨_, ret_pop hgood.hasFrames hpop, ?_⟩
                rw [if_neg hend]
                exact ⟨_, rfl, rfl, good_iptr hg' _⟩
      | argv instn offset =>
          simp only [idealStep] at hstep
          split at hstep
          · next m' hset =>
              obtain rfl := Option.some.inj hstep
              refine ⟨_, argv_hasFrames hgood.hasFrames hset, _, rfl, ?_, good_iptr hgood _⟩
              rw [← hiptr]
          · cases hstep
      | retv instn offset =>
          simp only [idealStep] at hstep
          cases hfs : act.frames with
          | nil =>
              rw [hfs] at hstep hgood
              obtain rfl := Option.some.inj hstep
              refine ⟨_, retv_nil hgood.hasFrames, _, rfl, ?_, good_iptr hgood _⟩
              rw [← hiptr]
          | cons f fs =>
              rw [hfs] at hstep hgood
              simp only at hstep
              have hcons : ∀ m' : Vm σ, ShowsGood (withProc { p with iptr := p.iptr + offset } m')
                  (some ⟨act.iptr + offset, f :: fs⟩, m') :=
                fun m' => ⟨_, rfl, by rw [← hiptr], good_iptr hgood _⟩
              rw [callStep, retv_cons hgood.hasFrames]
              cases hderef : derefMemPtr f.retval 8 m.memory.size with
              | none =>
                  rw [hderef] at hstep
                  obtain rfl := Option.some.inj hstep
                  exact ⟨_, rfl, hcons _⟩
              | some ref =>
                  rw [hderef] at hstep
                  cases hv : argValue instn 0 m with
                  | error u =>
                      rw [hv] at hstep
                      cases hstep
                  | ok v =>
                      rw [hv] at hstep
                      obtain ⟨memory, hstore, rfl⟩ := Option.map_eq_some_iff.1 hstep
                      simp only [hstore, Option.map_some]
                      exact ⟨_, rfl, hcons _⟩
      | other iptr rest =>
          rw [idealStep] at hstep
          obtain rfl := Option.some.inj hstep
          exact ⟨_, rfl, { p with iptr := iptr }, rfl, rfl, good_iptr hgood iptr⟩

/-- **An action that loses the stack** leaves the ideal: the machine runs into undefined
behaviour, or frames of the procedure are outside its block. -/
theorem callStep_loses {host : Host σ} {a : CallAction σ} {vm vm' : Vm σ} {s s' : Ideal σ}
    (hs : ShowsGood vm s) (hstep : idealStep a s = some s') (hlose : ¬ KeepsStack a vm)
    (hrun : callStep host a vm = some vm') : ¬ Shows vm' s' := by
  obtain ⟨act, m⟩ := s
  cases act with
  | none =>
      rw [idealStep] at hstep
      cases hstep
  | some act =>
      obtain ⟨p, rfl, hiptr, hgood⟩ := hs
      cases a with
      | call instn offset =>
          have hfit : ¬ CallStack.PushFits p := by
            intro hfit
            refine hlose (fun p' ps' hp' => ?_)
            obtain ⟨rfl, -⟩ := List.cons.inj hp'
            exact hfit
          simp only [idealStep] at hstep
          split at hstep
          · next iptr argv retv h0 h1 h2 =>
              rw [callStep, call_wrap hgood hfit h0 h1 h2] at hrun
              cases hrun
          · cases hstep
      | ret instn offset =>
          obtain ⟨hnot, hshrink⟩ : frameField p (p.cstackSz - 1) 8 ≠ .ok 0xffffffff ∧
              ¬ CallStack.PopKeeps p := by
            rw [← Classical.not_imp]
            intro hk
            refine hlose (fun p' ps' hp' => ?_)
            obtain ⟨rfl, -⟩ := List.cons.inj hp'
            exact hk
          simp only [idealStep] at hstep
          cases hfs : act.frames with
          | nil =>
              rw [hfs] at hstep
              cases hstep
          | cons f fs =>
              rw [hfs] at hstep hgood
              simp only at hstep
              have hend : f.retAddress ≠ 0xffffffff := by
                intro h
                rw [hgood.hasFrames.top.2.2, h] at hnot
                exact hnot rfl
              rw [if_neg hend] at hstep
              obtain rfl := Option.some.inj hstep
              obtain ⟨p', hpop, hshort⟩ :=
                CallStack.pop_shrink (good_iptr hgood (p.iptr + offset)) hshrink host.fill
              rw [callStep, ret_pop hgood.hasFrames hpop, if_neg hend] at hrun
              obtain rfl := Option.some.inj hrun
              rintro ⟨q, hq, -, hf⟩
              obtain ⟨rfl, -⟩ := List.cons.inj (congrArg Vm.procedures hq)
              have := hf.fits
              exact absurd hshort (Nat.not_lt.2 this)
      | argv instn offset => exact absurd trivial hlose
      | retv instn offset => exact absurd trivial hlose
      | other iptr rest => exact absurd trivial hlose

/-! ## Whole runs -/

/-- Along the actions the machine stays in the state of the ideal procedure. -/
def FollowsIdeal (host : Host σ) : List (CallAction σ) → Vm σ → Ideal σ → Prop
  | [], vm, s => Shows vm s
  | a :: as, vm, s => Shows vm s ∧
      ∀ s', idealStep a s = some s' → ∃ vm', callStep host a vm = some vm' ∧
        FollowsIdeal host as vm' s'

/-- Along the actions no step shrinks the stack or wraps its size around. -/
def KeepsStacks (host : Host σ) : List (CallAction σ) → Vm σ → Prop
  | [], _ => True
  | a :: as, vm => KeepsStack a vm ∧
      ∀ vm', callStep host a vm = some vm' → KeepsStacks host as vm'

theorem FollowsIdeal.shows {host : Host σ} {as : List (CallAction σ)} {vm : Vm σ} {s : Ideal σ}
    (h : FollowsIdeal host as vm s) : Shows vm s := by
  cases as with
  | nil => exact h
  | cons a as => exact h.1

theorem followsIdeal_iff {host : Host σ} {as : List (CallAction σ)} {vm : Vm σ} {s s' : Ideal σ}
    (hs : ShowsGood vm s) (hrun : Steps.run idealStep as s = some s') :
    FollowsIdeal host as vm s ↔ KeepsStacks host as vm := by
  induction as generalizing vm s with
  | nil => exact iff_of_true hs.shows trivial
  | cons a as ih =>
      obtain ⟨sm, hstep, hrest⟩ := Steps.run_cons.1 hrun
      by_cases hkeep : KeepsStack a vm
      · obtain ⟨vm', hvm', hs'⟩ : ∃ vm', callStep host a vm = some vm' ∧ ShowsGood vm' sm :=
          callStep_good hs hstep hkeep
        constructor
        · rintro ⟨-, hf⟩
          refine ⟨hkeep, fun vm'' hvm'' => ?_⟩
          obtain rfl := Option.some.inj (hvm'.symm.trans hvm'')
          obtain ⟨vm'', hvm'', hf'⟩ := hf sm hstep
          obtain rfl := Option.some.inj (hvm'.symm.trans hvm'')
          exact (ih hs' hrest).1 hf'
        · rintro ⟨-, hk⟩
          refine ⟨hs.shows, fun sm' hstep' => ?_⟩
          obtain rfl := Option.some.inj (hstep.symm.trans hstep')
          exact ⟨vm', hvm', (ih hs' hrest).2 (hk vm' hvm')⟩
      · refine iff_of_false ?_ (fun h => hkeep h.1)
        rintro ⟨-, hf⟩
        obtain ⟨vm', hvm', hf'⟩ := hf sm hstep
        exact callStep_loses hs hstep hkeep hvm' hf'.shows

/-- How a procedure starts: `make_procedure`, or `make_func_procedure` with its one frame. -/
inductive Starts (host : Host σ) : Proc → Activation → Prop
  | procedure (iptr : UInt32) : Starts host (newProc iptr) ⟨iptr, []⟩
  | function (iptr argv retv : UInt32) (p : Proc)
      (h : pushCallStack host.fill (newProc iptr) retv argv 0xffffffff = .ok p) :
      Starts host p ⟨iptr, [⟨retv, argv, 0xffffffff⟩]⟩

theorem Starts.good {host : Host σ} {p : Proc} {act : Activation} (h : Starts host p act) :
    p.iptr = act.iptr ∧ CallStack.Good p act.frames := by
  cases h with
  | procedure iptr => exact ⟨rfl, CallStack.good_new iptr⟩
  | function iptr argv retv p hp =>
      obtain ⟨p', hpush, hg, hip⟩ := CallStack.push_good (CallStack.good_new iptr)
        (fun _ => show 0 + 64 < 2 ^ 32 by decide) host.fill ⟨retv, argv, 0xffffffff⟩
      obtain rfl := Except.ok.inj (hp.symm.trans hpush)
      exact ⟨hip, hg⟩

/-- **The call discipline, exactly.** From the start of a procedure, through every properly
nested sequence of calls and returns with anything in between, the machine follows the ideal
procedure if and only if no step shrinks its stack or wraps the size of the stack around. -/
theorem callDiscipline_iff (host : Host σ) {p : Proc} {act : Activation} (m : Vm σ)
    {as : List (CallAction σ)} {s' : Ideal σ} (hstart : Starts host p act)
    (hnested : Steps.run idealStep as (some act, m) = some s') :
    FollowsIdeal host as (withProc p m) (some act, m) ↔ KeepsStacks host as (withProc p m) := by
  obtain ⟨hiptr, hg⟩ := hstart.good
  exact followsIdeal_iff ⟨p, rfl, hiptr, hg⟩ hnested

/-- A machine without code that does something, for calls made by hand. -/
def idleVm : Vm Unit where
  code := .empty
  memory := .empty
  exceptions := 0
  procedures := []
  iptr := 0
  instns := 0
  assertId := 0
  instnsSinceLastCleanup := 0
  host := ()

/-- `call 0, 0, 0` with one-byte immediates -/
def callZero : CallAction Unit := .call ⟨63, 0, [.imm 0, .imm 0, .imm 0]⟩ 6

/-- `ret` -/
def retAction : CallAction Unit := .ret ⟨328, 0, []⟩ 2

theorem callDiscipline_iff_one_call :
    FollowsIdeal quietHost [callZero, retAction] (withProc (newProc 0) idleVm)
        (some ⟨0, []⟩, idleVm) ↔
      KeepsStacks quietHost [callZero, retAction] (withProc (newProc 0) idleVm) :=
  have hnested : Steps.run idealStep [callZero, retAction] (some ⟨0, []⟩, idleVm) =
      some (some ⟨6, []⟩, idleVm) := rfl
  callDiscipline_iff quietHost idleVm (.procedure 0) hnested

/-- Where the machine follows the ideal procedure, it is in its state at the end. -/
theorem FollowsIdeal.run {host : Host σ} {as : List (CallAction σ)} {vm : Vm σ} {s s' : Ideal σ}
    (h : FollowsIdeal host as vm s) (hrun : Steps.run idealStep as s = some s') :
    ∃ vm', Steps.run (callStep host) as vm = some vm' ∧ Shows vm' s' := by
  induction as generalizing vm s with
  | nil =>
      obtain rfl := Option.some.inj hrun
      exact ⟨vm, rfl, h⟩
  | cons a as ih =>
      obtain ⟨sm, hstep, hrest⟩ := Steps.run_cons.1 hrun
      obtain ⟨vm', hvm', hf⟩ := h.2 sm hstep
      obtain ⟨vm'', hvm'', hshows⟩ := ih hf hrest
      exact ⟨vm'', Steps.run_cons.2 ⟨vm', hvm', hvm''⟩, hshows⟩

/-- After 65 nested calls and 33 returns, 32 frames are left in a block of 64 bytes. -/
theorem unwind_loses_frames :
    ¬ FollowsIdeal quietHost (List.replicate 65 callZero ++ List.replicate 33 retAction)
      (withProc (newProc 0) idleVm) (some ⟨0, []⟩, idleVm) := by
  intro h
  have hideal : ((Steps.run idealStep
      (List.replicate 65 callZero ++ List.replicate 33 retAction)
      (some ⟨0, []⟩, idleVm)).map (fun s => s.1.isSome)) = some true := by decide +kernel
  have hblock : (Steps.run (callStep quietHost)
      (List.replicate 65 callZero ++ List.replicate 33 retAction)
      (withProc (newProc 0) idleVm)).map
        (fun vm => vm.procedures.map (fun p => (p.cstackSz, p.cstack.length)))
      = some [(32, 64)] := by decide +kernel
  obtain ⟨⟨act, m⟩, hrun, hact⟩ := Option.map_eq_some_iff.1 hideal
  obtain ⟨vm', hvm', hshows⟩ := h.run hrun
  rw [hvm', Option.map_some] at hblock
  cases act with
  | none => cases hact
  | some act =>
      obtain ⟨p, rfl, -, hf⟩ := hshows
      obtain ⟨hp, -⟩ := List.cons.inj (Option.some.inj hblock)
      obtain ⟨hsz, hlen⟩ := Prod.mk.inj hp
      have hfits := hf.fits
      rw [hsz, hlen] at hfits
      exact absurd hfits (by decide)

end BvgzVm
