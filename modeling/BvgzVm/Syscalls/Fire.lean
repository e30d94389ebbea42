import BvgzVm.Syscalls.Spec
import BvgzVm.Syscalls.Table

set_option autoImplicit false

/-! # What the event sources do

Timers, descriptors and child processes append procedures to the list (`Keeps`). The number that a
source returns counts events and not procedures: the two agree only if the callbacks are inside
the code when they are started. `EventsInside` says that they are, and `ExitsReach` that the
exit callbacks have their arguments; then the sources set no exception, and a positive number
means that there is a procedure.
-/

namespace BvgzVm

open Stateful Std.Do SwapRemove

set_option mvcgen.warning false

variable {ω : Type}

/-! ## Callbacks inside the code -/

/-- The procedure of a request can be started; `connect` and `accept` look at their arguments
first. -/
def EvtInside (vm : Vm (Sys ω)) : VmIoEvt → Prop
  | .read _ _ cb | .write _ _ cb => cb.callback.toNat < vm.code.size
  | .connect cb | .accept cb => Reaches vm cb.args 16 → cb.callback.toNat < vm.code.size

/-- The addresses of timers and callbacks are inside the code. -/
structure EventsInside (vm : Vm (Sys ω)) : Prop where
  timers : ∀ tmr ∈ vm.host.timers, tmr.iptr.toNat < vm.code.size
  io : ∀ fd ∈ vm.host.io.fds, ∀ evt ∈ fd.events, EvtInside vm evt
  exits : ∀ ch ∈ vm.host.proc.childProc, ∀ cb ∈ ch.exitCb, cb.callback.toNat < vm.code.size

/-- The arguments of the exit callbacks are accepted. -/
def ExitsReach (vm : Vm (Sys ω)) : Prop :=
  ∀ ch ∈ vm.host.proc.childProc, ∀ cb ∈ ch.exitCb, Reaches vm cb.args 56

/-- No exit callback is new. -/
def NoNewCallbacks (proc proc' : VmProc) : Prop :=
  ∀ ch ∈ proc'.childProc, ∀ cb ∈ ch.exitCb, ∃ ch' ∈ proc.childProc, cb ∈ ch'.exitCb

/-- What has no new callbacks keeps them inside the code. -/
theorem EventsInside.mono {vm vm' : Vm (Sys ω)} (h : EventsInside vm) (hcode : vm'.code = vm.code)
    (hmemsz : vm'.memory.size = vm.memory.size)
    (htimers : ∀ tmr ∈ vm'.host.timers, tmr ∈ vm.host.timers)
    (hio : NoNewEvents vm.host.io vm'.host.io)
    (hproc : NoNewCallbacks vm.host.proc vm'.host.proc) : EventsInside vm' := by
  refine ⟨?_, ?_, ?_⟩
  · intro tmr htmr
    rw [hcode]
    exact h.timers tmr (htimers tmr htmr)
  · intro fd hfd evt hevt
    rcases hio fd hfd evt hevt with ⟨fd', hfd', hevt'⟩
    have hinside := h.io fd' hfd' evt hevt'
    cases evt with
    | read ptr len cb => rw [EvtInside, hcode]; exact hinside
    | write ptr len cb => rw [EvtInside, hcode]; exact hinside
    | connect cb => rw [EvtInside, hcode, reaches_congr hmemsz]; exact hinside
    | accept cb => rw [EvtInside, hcode, reaches_congr hmemsz]; exact hinside
  · intro ch hch cb hcb
    rcases hproc ch hch cb hcb with ⟨ch', hch', hcb'⟩
    rw [hcode]
    exact h.exits ch' hch' cb hcb'

theorem ExitsReach.mono {vm vm' : Vm (Sys ω)} (h : ExitsReach vm)
    (hmemsz : vm'.memory.size = vm.memory.size)
    (hproc : NoNewCallbacks vm.host.proc vm'.host.proc) : ExitsReach vm' := by
  intro ch hch cb hcb
  rcases hproc ch hch cb hcb with ⟨ch', hch', hcb'⟩
  rw [reaches_congr hmemsz]
  exact h ch' hch' cb hcb'

theorem NoNewEvents.refl (io : VmIo) : NoNewEvents io io := fun fd hfd _ hevt => ⟨fd, hfd, hevt⟩

theorem NoNewCallbacks.refl (proc : VmProc) : NoNewCallbacks proc proc :=
  fun ch hch _ hcb => ⟨ch, hch, hcb⟩

/-! ## A source that only appends procedures -/

/-- The tables are moved by valid actions that give no slot back, the memory keeps its size and
procedures are only appended. -/
structure Keeps (os : Os ω) (vm vm' : Vm (Sys ω)) : Prop where
  moved : Moved os vm vm'
  used : KeepsUsed vm.host.io vm'.host.io
  memsz : vm'.memory.size = vm.memory.size
  grows : vm.procedures <+: vm'.procedures

@[grind .] theorem Keeps.refl (os : Os ω) (vm : Vm (Sys ω)) : Keeps os vm vm :=
  ⟨Moved.refl os vm, KeepsUsed.refl _, rfl, List.prefix_refl _⟩

@[grind →] theorem Keeps.trans {os : Os ω} {vm vm' vm'' : Vm (Sys ω)} (h : Keeps os vm vm')
    (h' : Keeps os vm' vm'') : Keeps os vm vm'' :=
  ⟨h.moved.trans h'.moved, h.used.trans h'.used, h'.memsz.trans h.memsz, h.grows.trans h'.grows⟩

/-- Where there was a procedure, there is one. -/
@[grind →] theorem Keeps.nonempty {os : Os ω} {vm vm' : Vm (Sys ω)} (h : Keeps os vm vm')
    (hne : vm.procedures ≠ []) : vm'.procedures ≠ [] := by
  intro hnil
  have hgrows := h.grows
  rw [hnil, List.prefix_nil] at hgrows
  exact hne hgrows

@[grind →] theorem Keeps.trans_same {os : Os ω} {vm vm' vm'' : Vm (Sys ω)} (h : Keeps os vm vm')
    (h' : Same vm' vm'') : Keeps os vm vm'' := by
  refine h.trans ⟨h'.tables.moved os, ?_, h'.memsz, ?_⟩
  · rw [h'.io]
    exact KeepsUsed.refl _
  · rw [h'.procedures]

@[grind →] theorem Keeps.trans_slotActs {os : Os ω} {vm vm' vm'' : Vm (Sys ω)}
    (h : Keeps os vm vm') (h' : SlotActs vm' vm'') : Keeps os vm vm'' := by
  refine h.trans ⟨(Moved.refl os vm').trans_slotActs h', h'.used, ?_, ?_⟩
  · rw [h'.only.memory]
  · rw [h'.only.procedures]

@[grind →] theorem Keeps.trans_ioActs {os : Os ω} {vm vm' vm'' : Vm (Sys ω)}
    (h : Keeps os vm vm') (h' : IoActs os.evtSize vm' vm'')
    (hused : KeepsUsed vm'.host.io vm''.host.io) : Keeps os vm vm'' := by
  refine h.trans ⟨(Moved.refl os vm').trans_ioActs h', hused, ?_, ?_⟩
  · rw [h'.only.memory]
  · rw [h'.only.procedures]

@[grind →] theorem Keeps.trans_procActs {os : Os ω} {vm vm' vm'' : Vm (Sys ω)}
    (h : Keeps os vm vm') (h' : ProcActs vm' vm'') : Keeps os vm vm'' := by
  refine h.trans ⟨(Moved.refl os vm').trans_procActs h', ?_, ?_, ?_⟩
  · rw [h'.io]
    exact KeepsUsed.refl _
  · rw [h'.only.memory]
  · rw [h'.only.procedures]

/-- The parts that leave the callbacks inside the code. -/
@[grind →] theorem Same.eventsInside {vm vm' : Vm (Sys ω)} (h : Same vm vm')
    (hinside : EventsInside vm) : EventsInside vm' := by
  refine hinside.mono h.code h.memsz ?_ ?_ ?_
  · rw [h.timers]
    exact fun _ => id
  · rw [h.io]
    exact NoNewEvents.refl _
  · rw [h.proc]
    exact NoNewCallbacks.refl _

@[grind →] theorem Same.exitsReach {vm vm' : Vm (Sys ω)} (h : Same vm vm')
    (hreach : ExitsReach vm) : ExitsReach vm' := by
  refine hreach.mono h.memsz ?_
  rw [h.proc]
  exact NoNewCallbacks.refl _

@[grind →] theorem eventsInside_of_io {vm vm' : Vm (Sys ω)} (h : TablesOnly vm vm')
    (hio : NoNewEvents vm.host.io vm'.host.io) (hproc : vm'.host.proc = vm.host.proc)
    (hinside : EventsInside vm) : EventsInside vm' := by
  refine hinside.mono h.code (by rw [h.memory]) ?_ hio ?_
  · rw [h.timers]
    exact fun _ => id
  · rw [hproc]
    exact NoNewCallbacks.refl _

@[grind →] theorem exitsReach_of_io {vm vm' : Vm (Sys ω)} (h : TablesOnly vm vm')
    (hproc : vm'.host.proc = vm.host.proc) (hreach : ExitsReach vm) : ExitsReach vm' := by
  refine hreach.mono (by rw [h.memory]) ?_
  rw [hproc]
  exact NoNewCallbacks.refl _

/-- What an attempt to make a procedure does. -/
structure MakesProc (os : Os ω) (iptr : UInt32) (vm vm' : Vm (Sys ω)) : Prop where
  keeps : Keeps os vm vm'
  host : vm'.host = vm.host
  inside : EventsInside vm → EventsInside vm'
  reach : ExitsReach vm → ExitsReach vm'
  started : iptr.toNat < vm.code.size →
    vm'.exceptions = vm.exceptions ∧ vm'.procedures ≠ []

attribute [grind →] MakesProc.keeps MakesProc.host MakesProc.inside MakesProc.reach MakesProc.started

/-- The procedure is appended if its address is inside the code. -/
theorem makesProc_of {os : Os ω} {iptr : UInt32} {vm vm' : Vm (Sys ω)} (htables : SameTables vm vm')
    (hmemory : vm'.memory = vm.memory) (hhost : vm'.host = vm.host)
    (hprocs : vm.code.size ≤ iptr.toNat ∧ vm'.procedures = vm.procedures ∨
      vm'.exceptions = vm.exceptions ∧ ∃ p, vm'.procedures = vm.procedures ++ [p]) :
    MakesProc os iptr vm vm' := by
  have hmemsz : vm'.memory.size = vm.memory.size := by rw [hmemory]
  have hused : KeepsUsed vm.host.io vm'.host.io := by
    rw [hhost]
    exact KeepsUsed.refl _
  have hcallbacks : NoNewCallbacks vm.host.proc vm'.host.proc := by
    rw [hhost]
    exact NoNewCallbacks.refl _
  refine ⟨⟨htables.moved os, hused, hmemsz, ?_⟩, hhost, ?_, ?_, ?_⟩
  · rcases hprocs with ⟨_, hsame⟩ | ⟨_, p, happ⟩
    · rw [hsame]
    · rw [happ]
      exact List.prefix_append _ _
  · intro hinside
    refine hinside.mono htables.code hmemsz ?_ ?_ hcallbacks
    · rw [hhost]
      exact fun _ => id
    · rw [hhost]
      exact NoNewEvents.refl _
  · intro hreach
    exact hreach.mono hmemsz hcallbacks
  · intro hlt
    rcases hprocs with ⟨hle, _⟩ | ⟨hexc, p, happ⟩
    · exact absurd hlt (Nat.not_lt_of_ge hle)
    · refine ⟨hexc, ?_⟩
      rw [happ]
      simp

theorem makeFuncProcedure_makesProc (os : Os ω) (s0 : Vm (Sys ω)) (iptr argv retv : UInt32) :
    ⦃fun vm => ⌜vm = s0⌝⦄ (makeFuncProcedure os iptr argv retv : SysM ω Unit)
    ⦃⇓? _ => fun vm => ⌜MakesProc os iptr s0 vm⌝⦄ :=
  triple_of (by
    intro a vm h
    rcases of_triple (makeFuncProcedure_spec os s0 iptr argv retv) h with
      ⟨htables, hmemory, hhost, hprocs⟩
    refine makesProc_of htables hmemory hhost (hprocs.imp id ?_)
    rintro ⟨_, hexc, p, _, happ⟩
    exact ⟨hexc, p, happ⟩)

theorem makeProcedure_makesProc (os : Os ω) (s0 : Vm (Sys ω)) (iptr : UInt32) :
    ⦃fun vm => ⌜vm = s0⌝⦄ (makeProcedure iptr : SysM ω Bool)
    ⦃⇓? _ => fun vm => ⌜MakesProc os iptr s0 vm⌝⦄ :=
  triple_of (by
    intro a vm h
    rcases of_triple (makeProcedure_spec s0 iptr) h with ⟨htables, hmemory, hhost, hprocs⟩
    refine makesProc_of htables hmemory hhost (hprocs.imp id ?_)
    rintro ⟨_, hexc, happ⟩
    exact ⟨hexc, _, happ⟩)

/-! ## Descriptors -/

@[spec] theorem commonIoEvtHandler_spec (s0 : Vm (Sys ω)) (i : Nat) (ptr len : UInt32)
    (cb : VmCallback) :
    ⦃fun vm => ⌜vm = s0⌝⦄ (commonIoEvtHandler i ptr len cb : SysM ω _)
    ⦃⇓? r => fun vm => ⌜Same s0 vm ∧ (r = none ∨ Reaches s0 cb.args 32)⌝⦄ := by
  unfold commonIoEvtHandler
  mvcgen
  all_goals grind

@[spec] theorem transferred_spec (s0 : Vm (Sys ω)) (cbArgs : Nat) (len : Option Nat) :
    ⦃fun vm => ⌜vm = s0⌝⦄ (transferred cbArgs len : SysM ω Unit)
    ⦃⇓? _ => fun vm => ⌜Same s0 vm⌝⦄ := by
  unfold transferred
  mvcgen
  all_goals grind

/-! ## Handlers -/

/-- A handler without what it does: it checks its blocks, and has no result if they are rejected. -/
def evtHandler {γ : Type} (check : SysM ω (Option γ)) (work : γ → SysM ω Activated) :
    SysM ω Activated := do
  match ← check with
  | none => return ⟨0, true, false⟩
  | some c => work c

/-- The work of a handler that always starts its callback. -/
def thenCallback (os : Os ω) (cb : VmCallback) (work : SysM ω Unit) : SysM ω Activated := do
  work
  makeFuncProcedure os cb.callback cb.args 0
  return ⟨1, true, false⟩

/-- The check of a handler that has no buffer. -/
def argsCheck (cb : VmCallback) : SysM ω (Option ℕ) := do
  match ← deref cb.args 16 with
  | none =>
      setErrorNo eFAULT
      return none
  | some cbArgs => return some cbArgs

/-- The work of `read_io_evt_handler` -/
def readWork (os : Os ω) (i : ℕ) (len : UInt32) (c : ℕ × ℕ) : SysM ω Unit := do
  let fd ← getFd i
  match ← call (os.read fd.fd len.toNat) with
  | some bytes =>
      writeMemBytes c.1 (bytes.take len.toNat)
      transferred c.2 (some (bytes.take len.toNat).length)
  | none => transferred c.2 none

/-- The work of `write_io_evt_handler` -/
def writeWork (os : Os ω) (i : ℕ) (len : UInt32) (c : ℕ × ℕ) : SysM ω Unit := do
  let fd ← getFd i
  let bytes ← readMemBytes c.1 len.toNat
  transferred c.2 (← call (os.write fd.fd bytes))

/-- The work of `connect_io_evt_handler` -/
def connectWork (i cbArgs : ℕ) : SysM ω Unit := do
  storeU64 cbArgs (fdIdxToHandle i)
  storeU64 (cbArgs + 8) 0

/-- The work of `accept_io_evt_handler` -/
def acceptWork (os : Os ω) (i : ℕ) (cb : VmCallback) (cbArgs : ℕ) : SysM ω Activated := do
  let fd ← getFd i
  match ← call (os.accept fd.fd) with
  | some (r, addr) =>
      let nFds := (← get).host.io.fds.length
      let newfd ← onIo allocFd
      let _ ← call (os.fcntl r)
      onIo' (fun io => .ok (setFd newfd (acceptedFd r addr) io))
      storeU64 cbArgs (fdIdxToHandle newfd)
      let errno ← getErrno
      storeU64 (cbArgs + 8) (if r = 0 then 0 else ofInt errno)
      makeFuncProcedure os cb.callback cb.args 0
      return ⟨1, false, (← get).host.io.fds.length ≠ nFds⟩
  | none =>
      if (← getErrno) = eAGAIN then return ⟨0, false, false⟩
      else
        storeU64 (cbArgs + 8) (ofInt (← getErrno))
        makeFuncProcedure os cb.callback cb.args 0
        return ⟨1, false, false⟩

theorem readIoEvtHandler_eq (os : Os ω) (i : ℕ) (ptr len : UInt32) (cb : VmCallback) :
    readIoEvtHandler os i ptr len cb =
      evtHandler (commonIoEvtHandler i ptr len cb)
        (fun c => thenCallback os cb (readWork os i len c)) := by
  unfold readIoEvtHandler evtHandler thenCallback readWork
  refine bind_congr fun r => ?_
  cases r with
  | none => rfl
  | some c =>
      simp only [bind_assoc]
      refine bind_congr fun fd => bind_congr fun bytes => ?_
      cases bytes with
      | none => rfl
      | some bytes => simp only [bind_assoc]

theorem writeIoEvtHandler_eq (os : Os ω) (i : ℕ) (ptr len : UInt32) (cb : VmCallback) :
    writeIoEvtHandler os i ptr len cb =
      evtHandler (commonIoEvtHandler i ptr len cb)
        (fun c => thenCallback os cb (writeWork os i len c)) := by
  unfold writeIoEvtHandler evtHandler thenCallback writeWork
  refine bind_congr fun r => ?_
  cases r with
  | none => rfl
  | some c => simp only [bind_assoc]

/-- A handler that checks the block of its callback only. -/
theorem evtHandler_argsCheck (cb : VmCallback) (work : ℕ → SysM ω Activated) :
    evtHandler (argsCheck cb) work = (do
      match ← deref cb.args 16 with
      | none =>
          setErrorNo eFAULT
          return ⟨0, true, false⟩
      | some cbArgs => work cbArgs) := by
  unfold evtHandler argsCheck
  rw [bind_assoc]
  refine bind_congr fun r => ?_
  cases r with
  | none => rfl
  | some cbArgs => rfl

theorem connectIoEvtHandler_eq (os : Os ω) (i : ℕ) (cb : VmCallback) :
    connectIoEvtHandler os i cb =
      evtHandler (argsCheck cb) (fun cbArgs => thenCallback os cb (connectWork i cbArgs)) := by
  rw [evtHandler_argsCheck]
  unfold connectIoEvtHandler thenCallback connectWork
  refine bind_congr fun r => ?_
  cases r with
  | none => rfl
  | some cbArgs => simp only [bind_assoc]

theorem acceptIoEvtHandler_eq (os : Os ω) (i : ℕ) (cb : VmCallback) :
    acceptIoEvtHandler os i cb = evtHandler (argsCheck cb) (acceptWork os i cb) := by
  rw [evtHandler_argsCheck]
  rfl

/-- What a handler does; its callback is inside the code where `ready` holds. -/
structure Activates (os : Os ω) (ready : Prop) (r : Activated) (vm vm' : Vm (Sys ω)) : Prop where
  keeps : Keeps os vm vm'
  io : r.remove = true → vm'.host.io = vm.host.io
  inside : EventsInside vm → EventsInside vm'
  reach : ExitsReach vm → ExitsReach vm'
  quiet : ready → vm'.exceptions = vm.exceptions
  counts : ready → r.result ≠ 0 → vm'.procedures ≠ []

attribute [grind →] Activates.keeps Activates.io Activates.inside Activates.reach Activates.quiet
  Activates.counts

/-- Nothing has been started yet. -/
theorem Same.activates {vm vm' : Vm (Sys ω)} (os : Os ω) (ready : Prop) (remove grown : Bool)
    (h : Same vm vm') : Activates os ready ⟨0, remove, grown⟩ vm vm' where
  keeps := (Keeps.refl os vm).trans_same h
  io _ := h.io
  inside := h.eventsInside
  reach := h.exitsReach
  quiet _ := h.exceptions
  counts _ hne := absurd rfl hne

/-- The check comes before the work. -/
theorem Activates.after {os : Os ω} {reached ready : Prop} {r : Activated}
    {vm vm' vm'' : Vm (Sys ω)} (h : Activates os ready r vm' vm'') (hsame : Same vm vm')
    (hreached : reached) : Activates os (reached → ready) r vm vm'' where
  keeps := ((Keeps.refl os vm).trans_same hsame).trans h.keeps
  io hremove := (h.io hremove).trans hsame.io
  inside hinside := h.inside (hsame.eventsInside hinside)
  reach hreach := h.reach (hsame.exitsReach hreach)
  quiet hready := (h.quiet (hready hreached)).trans hsame.exceptions
  counts hready := h.counts (hready hreached)

theorem Activates.weaken {os : Os ω} {ready ready' : Prop} {r : Activated} {vm vm' : Vm (Sys ω)}
    (h : Activates os ready r vm vm') (hle : ready' → ready) : Activates os ready' r vm vm' :=
  ⟨h.keeps, h.io, h.inside, h.reach, fun hready => h.quiet (hle hready),
    fun hready => h.counts (hle hready)⟩

/-- The callback comes last. -/
theorem Activates.started {os : Os ω} {iptr : UInt32} {result : UInt32} {remove grown grown' : Bool}
    {vm vm' vm'' : Vm (Sys ω)} (h : Activates os True ⟨0, remove, grown⟩ vm vm')
    (hcode : vm'.code = vm.code) (hmake : MakesProc os iptr vm' vm'') :
    Activates os (iptr.toNat < vm.code.size) ⟨result, remove, grown'⟩ vm vm'' where
  keeps := h.keeps.trans hmake.keeps
  io hremove := by
    rw [hmake.host]
    exact h.io hremove
  inside hinside := hmake.inside (h.inside hinside)
  reach hreach := hmake.reach (h.reach hreach)
  quiet hlt := (hmake.started (by rwa [hcode])).1.trans (h.quiet trivial)
  counts hlt _ := (hmake.started (by rwa [hcode])).2

section Handlers

variable (os : Os ω) {s0 : Vm (Sys ω)} {cb : VmCallback}

/-- **A handler** does what its work does, once its blocks are accepted. -/
theorem evtHandler_activates {γ : Type} {check : SysM ω (Option γ)} {work : γ → SysM ω Activated}
    {reached : Prop}
    (hcheck : ⦃fun vm => ⌜vm = s0⌝⦄ check
      ⦃⇓? c => fun vm => ⌜Same s0 vm ∧ (c = none ∨ reached)⌝⦄)
    (hwork : ∀ c s, ⦃fun vm => ⌜vm = s⌝⦄ work c
      ⦃⇓? r => fun vm => ⌜Activates os (cb.callback.toNat < s.code.size) r s vm⌝⦄) :
    ⦃fun vm => ⌜vm = s0⌝⦄ evtHandler check work
    ⦃⇓? r => fun vm => ⌜Activates os (reached → cb.callback.toNat < s0.code.size) r s0 vm⌝⦄ := by
  refine triple_of fun r vm h => ?_
  obtain ⟨c, s, hc, hrest⟩ := bind_eq_ok.1 h
  obtain ⟨hsame, hreached⟩ := of_triple hcheck hc
  cases c with
  | none =>
      cases hrest
      exact hsame.activates os _ _ _
  | some c =>
      have hactivates := of_triple (hwork c s) hrest
      rw [hsame.code] at hactivates
      exact hactivates.after hsame (hreached.resolve_left (Option.some_ne_none c))

/-- A handler that always starts its callback, whose work is in the memory. -/
theorem thenCallback_activates {work : SysM ω Unit}
    (hwork : ⦃fun vm => ⌜vm = s0⌝⦄ work ⦃⇓? _ => fun vm => ⌜Same s0 vm⌝⦄) :
    ⦃fun vm => ⌜vm = s0⌝⦄ thenCallback os cb work
    ⦃⇓? r => fun vm => ⌜Activates os (cb.callback.toNat < s0.code.size) r s0 vm⌝⦄ := by
  refine triple_of fun r vm h => ?_
  obtain ⟨_, s, hw, hrest⟩ := bind_eq_ok.1 h
  obtain ⟨_, s', hmake, hpure⟩ := bind_eq_ok.1 hrest
  cases hpure
  have hsame := of_triple hwork hw
  have hmakes := of_triple (makeFuncProcedure_makesProc os s cb.callback cb.args 0) hmake
  exact (hsame.activates os True true false).started hsame.code hmakes

theorem argsCheck_spec :
    ⦃fun vm => ⌜vm = s0⌝⦄ argsCheck cb
    ⦃⇓? c => fun vm => ⌜Same s0 vm ∧ (c = none ∨ Reaches s0 cb.args 16)⌝⦄ := by
  unfold argsCheck
  mvcgen
  all_goals grind

theorem readWork_spec (i : ℕ) (len : UInt32) (c : ℕ × ℕ) :
    ⦃fun vm => ⌜vm = s0⌝⦄ readWork os i len c ⦃⇓? _ => fun vm => ⌜Same s0 vm⌝⦄ := by
  refine triple_of fun _ vm h => ?_
  obtain ⟨fd, s₁, hfd, hrest⟩ := bind_eq_ok.1 h
  obtain ⟨out, s₂, hcall, hrest⟩ := bind_eq_ok.1 hrest
  obtain ⟨rfl, -⟩ := of_triple (getFd_spec s0 i) hfd
  have hsame := (of_triple (call_spec s₁ _) hcall).1
  cases out with
  | none => exact hsame.trans (of_triple (transferred_spec s₂ c.2 none) hrest)
  | some bytes =>
      obtain ⟨_, s₃, hwrite, hrest⟩ := bind_eq_ok.1 hrest
      have hwritten := (of_triple (writeMemBytes_spec s₂ c.1 _) hwrite).1
      exact (hsame.trans hwritten).trans (of_triple (transferred_spec s₃ c.2 _) hrest)

theorem writeWork_spec (i : ℕ) (len : UInt32) (c : ℕ × ℕ) :
    ⦃fun vm => ⌜vm = s0⌝⦄ writeWork os i len c ⦃⇓? _ => fun vm => ⌜Same s0 vm⌝⦄ := by
  refine triple_of fun _ vm h => ?_
  obtain ⟨fd, s₁, hfd, hrest⟩ := bind_eq_ok.1 h
  obtain ⟨bytes, s₂, hread, hrest'⟩ := bind_eq_ok.1 hrest
  obtain ⟨out, s₃, hcall, hstore⟩ := bind_eq_ok.1 hrest'
  obtain ⟨rfl, -⟩ := of_triple (getFd_spec s0 i) hfd
  obtain rfl := of_triple (readMemBytes_spec s₁ c.1 len.toNat) hread
  have hsame := (of_triple (call_spec s₂ _) hcall).1
  exact hsame.trans (of_triple (transferred_spec s₃ c.2 out) hstore)

theorem connectWork_spec (i cbArgs : ℕ) :
    ⦃fun vm => ⌜vm = s0⌝⦄ (connectWork i cbArgs : SysM ω Unit)
    ⦃⇓? _ => fun vm => ⌜Same s0 vm⌝⦄ := by
  refine triple_of fun _ vm h => ?_
  obtain ⟨_, s₁, hhandle, hrest⟩ := bind_eq_ok.1 h
  have hsame := (of_triple (storeU64_spec s0 cbArgs _) hhandle).1
  exact hsame.trans (of_triple (storeU64_spec s₁ (cbArgs + 8) 0) hrest).1

/-- The slot of a client is new: the request stays. -/
theorem acceptWork_activates (i cbArgs : ℕ) :
    ⦃fun vm => ⌜vm = s0⌝⦄ acceptWork os i cb cbArgs
    ⦃⇓? r => fun vm => ⌜Activates os (cb.callback.toNat < s0.code.size) r s0 vm⌝⦄ := by
  have hmake := makeFuncProcedure_makesProc os
  have hrefl := Keeps.refl os s0
  unfold acceptWork
  mvcgen [hmake]
  all_goals first | exact Fills.mk fun _ => rfl | (constructor <;> grind)

/-- **A request is activated.** -/
theorem activate_spec (s0 : Vm (Sys ω)) (i : Nat) (evt : VmIoEvt) :
    ⦃fun vm => ⌜vm = s0⌝⦄ activate os i evt
    ⦃⇓? r => fun vm => ⌜Activates os (EvtInside s0 evt) r s0 vm⌝⦄ := by
  cases evt with
  | read ptr len cb =>
      have hread := @evtHandler_activates ω os s0 cb _ _ _ _
        (commonIoEvtHandler_spec s0 i ptr len cb)
        (fun c s => thenCallback_activates os (readWork_spec os i len c))
      rw [activate, readIoEvtHandler_eq]
      exact triple_of fun r vm h => (of_triple hread h).weaken fun hlt _ => hlt
  | write ptr len cb =>
      have hwrite := @evtHandler_activates ω os s0 cb _ _ _ _
        (commonIoEvtHandler_spec s0 i ptr len cb)
        (fun c s => thenCallback_activates os (writeWork_spec os i len c))
      rw [activate, writeIoEvtHandler_eq]
      exact triple_of fun r vm h => (of_triple hwrite h).weaken fun hlt _ => hlt
  | connect cb =>
      rw [activate, connectIoEvtHandler_eq]
      exact evtHandler_activates os argsCheck_spec
        (fun c s => thenCallback_activates os (connectWork_spec i c))
  | accept cb =>
      rw [activate, acceptIoEvtHandler_eq]
      exact evtHandler_activates os argsCheck_spec (fun c s => acceptWork_activates os i c)

end Handlers

/-! ## Descriptors in turn -/

/-- The events of a slot. -/
@[spec] theorem readEvents_spec (os : Os ω) (s0 : Vm (Sys ω)) (i : Nat) :
    ⦃fun vm => ⌜vm = s0⌝⦄ readEvents os i
    ⦃⇓? r => fun vm => ⌜vm = s0 ∧ ∃ fd, s0.host.io.fds[i]? = some fd ∧
      fd.readEvents os.evtSize = .ok r ∧ r = fd.events⌝⦄ := by
  unfold readEvents
  mvcgen
  all_goals grind [readEvents_ok]

/-- What a source does: `Keeps`, and with callbacks inside the code it sets no exception and a
number that is not zero means that there is a procedure. -/
structure Fires (os : Os ω) (n : UInt32) (vm vm' : Vm (Sys ω)) : Prop where
  keeps : Keeps os vm vm'
  inside : EventsInside vm → EventsInside vm'
  reach : ExitsReach vm → ExitsReach vm'
  quiet : EventsInside vm → ExitsReach vm → vm'.exceptions = vm.exceptions
  counts : EventsInside vm → n ≠ 0 → vm'.procedures ≠ []

/-- An event in the table is started by a callback inside the code. -/
theorem EventsInside.at {vm : Vm (Sys ω)} (h : EventsInside vm) {i e : Nat} {fd : VmFd}
    {evt : VmIoEvt} (hfd : vm.host.io.fds[i]? = some fd) (hevt : fd.events[e]? = some evt) :
    EvtInside vm evt :=
  h.io fd (List.mem_of_getElem? hfd) evt (List.mem_of_getElem? hevt)

theorem activateEvent_fires (os : Os ω) (s0 : Vm (Sys ω)) (i : Nat) (mask : Select) :
    ⦃fun vm => ⌜vm = s0⌝⦄ activateEvent os i mask
    ⦃⇓? r => fun vm => ⌜(usedSlot i s0.host.io).isSome = true → Fires os r.1 s0 vm⌝⦄ := by
  have hrefl := Keeps.refl os s0
  have hactivate := activate_spec os
  have hremove := fun (s : Vm (Sys ω)) e => removeEvent_spec s os.evtSize i e mask
  unfold activateEvent
  mvcgen [hactivate, hremove]
  all_goals
    intro hused
    rcases Option.isSome_iff_exists.1 hused with ⟨slot, hslot⟩
    constructor
  all_goals grind [usedSlot_eq_some, firstEvent, EventsInside.at]

/-- Two sources one after the other. -/
@[grind →] theorem Fires.trans {os : Os ω} {n n' : UInt32} {vm vm' vm'' : Vm (Sys ω)}
    (h : Fires os n vm vm') (h' : Fires os n' vm' vm'') : Fires os (n + n') vm vm'' where
  keeps := h.keeps.trans h'.keeps
  inside hinside := h'.inside (h.inside hinside)
  reach hreach := h'.reach (h.reach hreach)
  quiet hinside hreach :=
    (h'.quiet (h.inside hinside) (h.reach hreach)).trans (h.quiet hinside hreach)
  counts := by
    intro hinside hne
    by_cases hn : n = 0
    · have hn' : n' ≠ 0 := by
        rintro rfl
        exact hne (by rw [hn, UInt32.add_zero])
      exact h'.counts (h.inside hinside) hn'
    · exact h'.keeps.nonempty (h.counts hinside hn)

/-- The part of a source that changes nothing in the tables. -/
theorem Same.fires {vm vm' : Vm (Sys ω)} (os : Os ω) (h : Same vm vm') : Fires os 0 vm vm' where
  keeps := (Keeps.refl os vm).trans_same h
  inside := h.eventsInside
  reach := h.exitsReach
  quiet _ _ := h.exceptions
  counts _ hne := absurd rfl hne

@[grind →] theorem Fires.trans_same {os : Os ω} {n : UInt32} {vm vm' vm'' : Vm (Sys ω)}
    (h : Fires os n vm vm') (h' : Same vm' vm'') : Fires os n vm vm'' := by
  have hboth := h.trans (h'.fires os)
  rwa [UInt32.add_zero] at hboth

/-- A slot in use stays in use. -/
@[grind →] theorem Fires.usedSlot {os : Os ω} {n : UInt32} {vm vm' : Vm (Sys ω)} {i : Nat}
    (h : Fires os n vm vm') (hused : (usedSlot i vm.host.io).isSome = true) :
    (BvgzVm.usedSlot i vm'.host.io).isSome = true :=
  h.keeps.used i hused

/-- The loop over the descriptors: what was fired before it is `events`. -/
theorem fireFds_fires (os : Os ω) (s0 : Vm (Sys ω)) (readset writeset : List Int32)
    (todo i : Nat) (events : UInt32) :
    ⦃fun vm => ⌜Fires os events s0 vm⌝⦄ fireFds os readset writeset todo i events
    ⦃⇓? r => fun vm => ⌜Fires os r s0 vm⌝⦄ := by
  have hactivate := activateEvent_fires os
  induction todo generalizing i events with
  | zero =>
      unfold fireFds
      mvcgen
  | succ todo ih =>
      unfold fireFds
      mvcgen [ih, hactivate]
      all_goals grind [usedSlot_eq_some, UInt32.add_zero]

@[spec] theorem selectSets_spec (os : Os ω) (s0 : Vm (Sys ω)) :
    ⦃fun vm => ⌜vm = s0⌝⦄ selectSets os ⦃⇓? _ => fun vm => ⌜vm = s0⌝⦄ := by
  unfold selectSets
  mvcgen
  all_goals grind

/-- **`fire_io_events`** -/
theorem fireIoEvents_fires (os : Os ω) (s0 : Vm (Sys ω)) :
    ⦃fun vm => ⌜vm = s0⌝⦄ fireIoEvents os ⦃⇓? n => fun vm => ⌜Fires os n s0 vm⌝⦄ := by
  have hrefl := (Same.refl s0).fires os
  have hloop := fireFds_fires os s0
  unfold fireIoEvents
  mvcgen [hloop]
  all_goals grind

/-! ## Timers -/

/-- An event whose procedure is made. -/
@[grind →] theorem MakesProc.fires {os : Os ω} {iptr : UInt32} {vm vm' : Vm (Sys ω)}
    (h : MakesProc os iptr vm vm') (hinside : EventsInside vm → iptr.toNat < vm.code.size) :
    Fires os 1 vm vm' where
  keeps := h.keeps
  inside := h.inside
  reach := h.reach
  quiet hevents _ := (h.started (hinside hevents)).1
  counts hevents _ := (h.started (hinside hevents)).2

/-- The loop over the timers: what was fired before it is `events`. -/
theorem fireTimers_fires (os : Os ω) (s0 : Vm (Sys ω)) (now : Timespec) (todo i : Nat)
    (timers : List VmTimer) (events : UInt32) :
    ⦃fun vm => ⌜Fires os events s0 vm ∧ vm.host = s0.host ∧
      ∀ tmr ∈ timers, tmr ∈ s0.host.timers⌝⦄
    (fireTimers now todo i timers events : SysM ω _)
    ⦃⇓? r => fun vm => ⌜Fires os r.1 s0 vm ∧ vm.host = s0.host ∧
      ∀ tmr ∈ r.2, tmr ∈ s0.host.timers⌝⦄ := by
  have hmake := makeProcedure_makesProc os
  induction todo generalizing i timers events with
  | zero =>
      unfold fireTimers
      mvcgen
  | succ todo ih =>
      unfold fireTimers
      mvcgen [ih, hmake]
      next tmr htmr _ vm hinv _ vm' hmade =>
        have hmem : tmr ∈ vm.host.timers := by
          rw [hinv.2.1]
          exact hinv.2.2 tmr (List.mem_of_getElem? htmr)
        refine ⟨hinv.1.trans (hmade.fires fun hinside => hinside.timers tmr hmem),
          hmade.host.trans hinv.2.1, ?_⟩
        intro tmr' htmr'
        exact hinv.2.2 tmr' (mem_swapRemove htmr htmr')

/-- The timers that have not fired stay. -/
theorem fires_setTimers (os : Os ω) {vm : Vm (Sys ω)} {timers : List VmTimer}
    (htimers : ∀ tmr ∈ timers, tmr ∈ vm.host.timers) :
    Fires os 0 vm (vm.withSys fun s => { s with timers }) where
  keeps := ⟨Moved.mk rfl (IoMoves.refl _ _ _) (ProcMoves.refl _ _), KeepsUsed.refl _, rfl,
    List.prefix_refl _⟩
  inside hinside := hinside.mono rfl rfl htimers (NoNewEvents.refl _) (NoNewCallbacks.refl _)
  reach hreach := hreach.mono rfl (NoNewCallbacks.refl _)
  quiet _ _ := rfl
  counts _ hne := absurd rfl hne

/-- The clock, the loop and the store of the timers that are left. -/
theorem fires_timers {os : Os ω} {vm vm₁ vm₂ : Vm (Sys ω)} {n : UInt32} {timers : List VmTimer}
    (hsame : Same vm vm₁) (hfired : Fires os n vm₁ vm₂ ∧ vm₂.host = vm₁.host ∧
      ∀ tmr ∈ timers, tmr ∈ vm₁.host.timers) :
    Fires os n vm (vm₂.withSys fun s => { s with timers }) := by
  have htimers : ∀ tmr ∈ timers, tmr ∈ vm₂.host.timers := by
    rw [hfired.2.1]
    exact hfired.2.2
  have hall := ((hsame.fires os).trans hfired.1).trans (fires_setTimers os htimers)
  rwa [UInt32.zero_add, UInt32.add_zero] at hall

/-- **`fire_timer_events`** -/
theorem fireTimerEvents_fires (os : Os ω) (s0 : Vm (Sys ω)) :
    ⦃fun vm => ⌜vm = s0⌝⦄ fireTimerEvents os ⦃⇓? n => fun vm => ⌜Fires os n s0 vm⌝⦄ := by
  have hloop := fireTimers_fires os
  unfold fireTimerEvents
  mvcgen [hloop]
  · exact ⟨(Same.refl _).fires os, trivial, fun _ => id⟩
  · next hfired _ =>
      refine fires_timers ?_ hfired
      grind
  · exact ⟨(Same.refl _).fires os, trivial, fun _ => id⟩
  · next hfired _ =>
      refine fires_timers ?_ hfired
      grind

/-! ## Child processes -/

theorem storeAll_spec (s0 : Vm (Sys ω)) (p : Nat) (vs : List UInt64) :
    ⦃fun vm => ⌜Same s0 vm⌝⦄ (storeAll p vs : SysM ω Unit) ⦃⇓? _ => fun vm => ⌜Same s0 vm⌝⦄ := by
  induction vs generalizing p with
  | nil =>
      unfold storeAll
      mvcgen
  | cons v vs ih =>
      unfold storeAll
      mvcgen [ih]
      all_goals grind

/-- What firing the callbacks of a child does. -/
structure FiresOf (os : Os ω) (cbs : List VmCallback) (n : UInt32) (vm vm' : Vm (Sys ω)) :
    Prop where
  keeps : Keeps os vm vm'
  proc : vm'.host.proc = vm.host.proc
  inside : EventsInside vm → EventsInside vm'
  reach : ExitsReach vm → ExitsReach vm'
  quiet : (∀ cb ∈ cbs, cb.callback.toNat < vm.code.size) → (∀ cb ∈ cbs, Reaches vm cb.args 56) →
    vm'.exceptions = vm.exceptions
  counts : (∀ cb ∈ cbs, cb.callback.toNat < vm.code.size) → n ≠ 0 → vm'.procedures ≠ []

/-- A callback without its arguments is passed over, and the exception is set. -/
theorem FiresOf.skip {os : Os ω} {cb : VmCallback} {cbs : List VmCallback} {n e : UInt32}
    {vm vm' : Vm (Sys ω)} (hreach : ¬ Reaches vm cb.args 56)
    (h : FiresOf os cbs n (vm.raise e) vm') : FiresOf os (cb :: cbs) n vm vm' where
  keeps := (Keeps.mk ((sameTables_raise vm e).moved os) (KeepsUsed.refl _) rfl
    (List.prefix_refl _)).trans h.keeps
  proc := h.proc
  inside hinside := h.inside
    (hinside.mono rfl rfl (fun _ => id) (NoNewEvents.refl _) (NoNewCallbacks.refl _))
  reach hall := h.reach (hall.mono rfl (NoNewCallbacks.refl _))
  quiet _ hall := absurd (hall cb (List.mem_cons_self ..)) hreach
  counts hinside := h.counts fun cb' hcb' => hinside cb' (List.mem_cons_of_mem cb hcb')

/-- A callback is started. -/
theorem FiresOf.cons {os : Os ω} {cb : VmCallback} {cbs : List VmCallback} {n : UInt32}
    {vm vm₁ vm₂ vm' : Vm (Sys ω)} (hsame : Same vm vm₁) (hmade : MakesProc os cb.callback vm₁ vm₂)
    (h : FiresOf os cbs n vm₂ vm') : FiresOf os (cb :: cbs) (1 + n) vm vm' := by
  have hcode : vm₂.code = vm.code := hmade.keeps.moved.code.trans hsame.code
  have hmemsz : vm₂.memory.size = vm.memory.size := hmade.keeps.memsz.trans hsame.memsz
  have hfirst : (∀ cb' ∈ cb :: cbs, cb'.callback.toNat < vm.code.size) →
      vm₂.exceptions = vm.exceptions ∧ vm₂.procedures ≠ [] := by
    intro hinside
    have hlt := hinside cb (List.mem_cons_self ..)
    rw [← hsame.code] at hlt
    have hstarted := hmade.started hlt
    exact ⟨hstarted.1.trans hsame.exceptions, hstarted.2⟩
  have hrest : (∀ cb' ∈ cb :: cbs, cb'.callback.toNat < vm.code.size) →
      ∀ cb' ∈ cbs, cb'.callback.toNat < vm₂.code.size := by
    intro hinside cb' hcb'
    rw [hcode]
    exact hinside cb' (List.mem_cons_of_mem cb hcb')
  exact {
    keeps := (((Keeps.refl os vm).trans_same hsame).trans hmade.keeps).trans h.keeps
    proc := h.proc.trans ((congrArg Sys.proc hmade.host).trans hsame.proc)
    inside := fun hinside => h.inside (hmade.inside (hsame.eventsInside hinside))
    reach := fun hreach => h.reach (hmade.reach (hsame.exitsReach hreach))
    quiet := by
      intro hinside hreach
      refine (h.quiet (hrest hinside) ?_).trans (hfirst hinside).1
      intro cb' hcb'
      rw [reaches_congr hmemsz]
      exact hreach cb' (List.mem_cons_of_mem cb hcb')
    counts := fun hinside _ => h.keeps.nonempty (hfirst hinside).2 }

theorem fireEventsOfProc_fires (os : Os ω) (s0 : Vm (Sys ω)) (pid : Int32) (status : UInt32)
    (cbs : List VmCallback) :
    ⦃fun vm => ⌜vm = s0⌝⦄ fireEventsOfProc os pid status cbs
    ⦃⇓? n => fun vm => ⌜FiresOf os cbs n s0 vm⌝⦄ := by
  have hmake := makeFuncProcedure_makesProc os
  have hstore := storeAll_spec (ω := ω)
  induction cbs generalizing s0 with
  | nil =>
      unfold fireEventsOfProc
      mvcgen
      subst_vars
      exact ⟨Keeps.refl os _, rfl, id, id, fun _ _ => rfl, fun _ hne => absurd rfl hne⟩
  | cons cb cbs ih =>
      unfold fireEventsOfProc
      mvcgen [ih, hmake, hstore]
      · next hnone _ _ _ hderef =>
          rcases hderef with ⟨_, rfl, hreach⟩ | ⟨_, hsome, _⟩
          · subst_vars
            exact FiresOf.skip hreach
          · cases hsome
      · exact Same.refl _
      · next hvm _ _ _ _ hderef _ _ hsame _ _ hmade _ _ hrest =>
          rcases hderef with ⟨hnone, _⟩ | ⟨rfl, _, _⟩
          · cases hnone
          · subst_vars
            exact .cons hsame hmade hrest

/-- The callbacks of a child that is gone are taken off the table. -/
theorem noNewCallbacks_endChild (p : Nat) (ch : VmChild) (proc : VmProc) :
    NoNewCallbacks proc (endChild p ch proc) := by
  intro ch' hch' cb hcb
  rcases List.mem_or_eq_of_mem_set hch' with hold | rfl
  · exact ⟨ch', hold, hcb⟩
  · cases hcb

/-- **A child that is gone**: its callbacks are fired and taken off the table. -/
theorem childExited_fires (os : Os ω) (s0 : Vm (Sys ω)) (p : Nat) (ch : VmChild) (pid : Int32)
    (status : UInt32) :
    ⦃fun vm => ⌜vm = s0⌝⦄ childExited os p ch pid status
    ⦃⇓? n => fun vm => ⌜∀ pid', findProc pid' s0.host.proc = some p →
      s0.host.proc.childProc[p]? = some ch → Fires os n s0 vm⌝⦄ := by
  have hfire := fireEventsOfProc_fires os
  unfold childExited
  mvcgen [hfire]
  next hvm n vm hfired _ vm' hend =>
    intro pid' hfind hch
    subst hvm
    rw [hfired.proc] at hend
    have hacts := hend.1 pid' hfind hch
    have hmem := List.mem_of_getElem? hch
    have hcallbacks : NoNewCallbacks vm.host.proc vm'.host.proc := by
      rw [hfired.proc, hend.2]
      exact noNewCallbacks_endChild p ch _
    have hmemsz : vm'.memory.size = vm.memory.size := by rw [hacts.only.memory]
    have hio : NoNewEvents vm.host.io vm'.host.io := by
      rw [hacts.io]
      exact NoNewEvents.refl _
    exact {
      keeps := hfired.keeps.trans_procActs hacts
      inside := by
        intro hinside
        refine (hfired.inside hinside).mono hacts.only.code hmemsz ?_ hio hcallbacks
        rw [hacts.only.timers]
        exact fun _ => id
      reach := fun hreach => (hfired.reach hreach).mono hmemsz hcallbacks
      quiet := fun hinside hreach =>
        hacts.only.exceptions.trans (hfired.quiet (hinside.exits ch hmem) (hreach ch hmem))
      counts := by
        intro hinside hne
        rw [hacts.only.procedures]
        exact hfired.counts (hinside.exits ch hmem) hne }

/-- The loop over the children that are gone: what was fired before it is `nEvents`. -/
theorem fireProcs_fires (os : Os ω) (s0 : Vm (Sys ω)) (nProc : Nat) (nEvents : UInt32) :
    ⦃fun vm => ⌜Fires os nEvents s0 vm⌝⦄ fireProcs os nProc nEvents
    ⦃⇓? n => fun vm => ⌜Fires os n s0 vm⌝⦄ := by
  have hexited := childExited_fires os
  induction nProc generalizing nEvents with
  | zero =>
      unfold fireProcs
      mvcgen
  | succ nProc ih =>
      unfold fireProcs
      mvcgen [ih, hexited]
      all_goals grind

/-- **`fire_proc_events`** -/
theorem fireProcEvents_fires (os : Os ω) (s0 : Vm (Sys ω)) :
    ⦃fun vm => ⌜vm = s0⌝⦄ fireProcEvents os ⦃⇓? n => fun vm => ⌜Fires os n s0 vm⌝⦄ := by
  have hloop := fireProcs_fires os
  unfold fireProcEvents
  mvcgen [hloop]
  next hvm =>
    rw [hvm]
    exact (Same.refl s0).fires os

/-! ## The machine -/

variable {os : Os ω} {vm vm' : Vm (Sys ω)}

/-- **`fire_vm_events`** -/
theorem fireVmEvents_fires {n : UInt32} (h : fireVmEvents (sysHost os) vm = .ok (n, vm')) :
    Fires os n vm vm' := by
  rcases Fallible.bind_eq_ok.1 h with ⟨⟨t, vm₁⟩, htimers, h₁⟩
  rcases Fallible.bind_eq_ok.1 h₁ with ⟨⟨i, vm₂⟩, hio, h₂⟩
  rcases Fallible.bind_eq_ok.1 h₂ with ⟨⟨p, vm₃⟩, hproc, hok⟩
  cases hok
  have ht := of_triple (fireTimerEvents_fires os vm) htimers
  have hi := of_triple (fireIoEvents_fires os vm₁) hio
  have hp := of_triple (fireProcEvents_fires os vm₂) hproc
  exact (ht.trans hi).trans hp

/-- A round without events: the pause. -/
theorem nanosleep_same (vm : Vm (Sys ω)) : Same vm ((sysHost os).nanosleep vm) := by
  unfold sysHost
  dsimp only
  split
  · exact ⟨rfl, rfl, rfl, rfl, rfl, rfl, rfl⟩
  · exact ⟨rfl, rfl, rfl, rfl, rfl, rfl, rfl⟩

/-- **`vm_fire_events`** -/
theorem vmFireEvents_fires {n : Int} (h : vmFireEvents (sysHost os) vm = .ok (n, vm')) :
    ∃ m : UInt32, Fires os m vm vm' ∧ (0 < n → m ≠ 0) := by
  unfold vmFireEvents at h
  split at h
  · rcases Fallible.bind_eq_ok.1 h with ⟨⟨m, vm₁⟩, hfire, hrest⟩
    have hfires := fireVmEvents_fires hfire
    dsimp only at hrest
    split at hrest
    · cases hrest
      exact ⟨m, hfires.trans_same (nanosleep_same vm₁), fun hlt => absurd hlt (lt_irrefl 0)⟩
    · next hne =>
        cases hrest
        exact ⟨m, hfires, fun _ => hne⟩
  · cases h
    exact ⟨0, (Same.refl vm).fires os, fun hlt => absurd hlt (by decide)⟩

/-- **`cleanup_vm`** -/
theorem cleanupVm_fires (h : cleanupVm (sysHost os) vm = .ok vm') :
    ∃ n, Fires os n vm vm' := by
  rcases Fallible.bind_eq_ok.1 h with ⟨⟨n, vm₁⟩, hproc, hok⟩
  cases hok
  refine ⟨n, (of_triple (fireProcEvents_fires os vm) hproc).trans_same ?_⟩
  exact ⟨rfl, rfl, rfl, rfl, rfl, rfl, rfl⟩

end BvgzVm
