import BvgzVm.Syscalls.Opened

set_option autoImplicit false

/-! # What the callback of a request is told

The argument block of a callback has a word for the error of the operation. The handlers of reads
and writes fill it in from the operation; the handler of connections stores `0` without asking, and
the handler of clients stores `errno` after an operation that has succeeded
(`ready_reports_iff`).
-/

namespace BvgzVm

open Stateful Std.Do

set_option mvcgen.warning false

variable {ω α : Type}

attribute [local spec high] setErrno_exact ask_exact setErrorNo_exact getErrno_exact call_exact
  deref_exact getFd_exact storeU64_exact readMemBytes_exact writeMemBytes_exact onIo_faults onIo'_faults
  makeFuncProcedure_exact

attribute [local grind →] Same.memsz Same.io SameButTables.only SameButTables.errno
  TablesOnly.memory TablesOnly.world Stored.same Stored.host SameButProcs.memory SameButProcs.host

/-! ## The law -/

/-- The cell has `0` for an operation that has succeeded, and the error of one that has failed. -/
def ErrnoLaw (out : Except Int32 α) (cell : Option ℕ) : Prop :=
  (cell = some 0 ↔ ∃ a, out = .ok a) ∧ ∀ e, out = .error e → cell = some (ofInt e).toNat

/-- The bytes that `write` is given: those of the buffer after the argument block has been
prepared. -/
def bytesToWrite (i : ℕ) (ptr len : UInt32) (cb : VmCallback) (vm : Vm (Sys ω)) : List UInt8 :=
  match commonIoEvtHandler i ptr len cb vm with
  | .ok (some (buf, _), vm') => (Bytes.read vm'.memory.bytes buf len.toNat).getD []
  | _ => []

/-- The argument block of the callback says how the operation has ended; `pending` is the end of
the pending connection, which no call of the operating system in the handler asks for. -/
def ReadyLaw (os : Os ω) (i : ℕ) (fd : Int32) (evt : VmIoEvt) (pending : Except Int32 Unit)
    (vm vm' : Vm (Sys ω)) : Prop :=
  let cell (k : ℕ) := vm'.memory.load (evt.callback.args.toNat + k) 8
  match evt with
  | .read _ len _ =>
      ErrnoLaw (os.read fd len.toNat vm.host.world).1 (cell 8) ∧
        ∀ e, (os.read fd len.toNat vm.host.world).1 = .error e → cell 16 = some 0
  | .write ptr len cb =>
      ErrnoLaw (os.write fd (bytesToWrite i ptr len cb vm) vm.host.world).1 (cell 8) ∧
        ∀ e, (os.write fd (bytesToWrite i ptr len cb vm) vm.host.world).1 = .error e →
          cell 16 = some 0
  | .connect _ => ErrnoLaw pending (cell 8)
  | .accept _ =>
      ErrnoLaw (os.accept fd vm.host.world).1 (cell 8) ∧
        (cell 0 ≠ some 0 ↔ ∃ r, (os.accept fd vm.host.world).1 = .ok r)

/-- `errno` when a client has been accepted and its descriptor `r` has been set up. -/
def errnoAfterAccept (os : Os ω) (fd r : Int32) (vm : Vm (Sys ω)) : Int32 :=
  match (os.fcntl r (os.accept fd vm.host.world).2).1 with
  | .ok _ => vm.host.errno
  | .error e => e

/-- The connection has not failed; a client has the descriptor `0` or `errno` is `0`, and where
there is no client the block has no handle of an earlier one. The errors of the operating system
are not `0`. -/
def ReadyExact (os : Os ω) (i : ℕ) (fd : Int32) (evt : VmIoEvt) (pending : Except Int32 Unit)
    (vm : Vm (Sys ω)) : Prop :=
  match evt with
  | .read _ len _ => (os.read fd len.toNat vm.host.world).1 ≠ .error 0
  | .write ptr len cb =>
      (os.write fd (bytesToWrite i ptr len cb vm) vm.host.world).1 ≠ .error 0
  | .connect _ => pending = .ok ()
  | .accept cb =>
      match (os.accept fd vm.host.world).1 with
      | .ok (r, _) => r = 0 ∨ errnoAfterAccept os fd r vm = 0
      | .error e => e ≠ 0 ∧ vm.memory.load cb.args.toNat 8 = some 0

theorem ofInt_eq_zero (e : Int32) : (ofInt e).toNat = 0 ↔ e = 0 := by
  constructor
  · intro h
    have hzero : ofInt e = 0 := UInt64.toNat_inj.1 h
    have hback := toInt32_ofInt e
    rw [hzero] at hback
    exact hback.symm
  · rintro rfl
    rfl

/-- The cell that `transferred` and `accept` fill in from the operation is right, if the error is
not `0`. -/
theorem errnoLaw_iff {out : Except Int32 α} {cell : Option ℕ}
    (hok : ∀ a, out = .ok a → cell = some 0)
    (herror : ∀ e, out = .error e → cell = some (ofInt e).toNat) :
    ErrnoLaw out cell ↔ out ≠ .error 0 := by
  constructor
  · rintro ⟨hzero, -⟩ rfl
    rcases hzero.1 (herror 0 rfl) with ⟨a, ha⟩
    cases ha
  · intro hne
    refine ⟨⟨?_, ?_⟩, herror⟩
    · intro hcell
      cases out with
      | ok a => exact ⟨a, rfl⟩
      | error e =>
          rw [herror e rfl, Option.some.injEq, ofInt_eq_zero] at hcell
          rw [hcell] at hne
          exact absurd rfl hne
    · rintro ⟨a, ha⟩
      exact hok a ha

/-! ## The handlers -/

/-- A cell that another store does not touch. -/
theorem load_write_apart {s s' : Segment} {p o v : ℕ} (h : s.write p (Bytes.toLE 8 v) = some s')
    (hd : o + 8 ≤ p ∨ p + 8 ≤ o) : s'.load o 8 = s.load o 8 :=
  Bytes.load_store_disjoint (Segment.write_bytes h) hd

@[local spec high] theorem transferred_exact (s0 : Vm (Sys ω)) (cbArgs : ℕ) (len : Option ℕ) :
    ⦃fun vm => ⌜vm = s0⌝⦄ (transferred cbArgs len : SysM ω Unit)
    ⦃post⟨fun _ vm => ⌜(len = none → vm.memory.load (cbArgs + 16) 8 = some 0 ∧
          vm.memory.load (cbArgs + 8) 8 = some (ofInt s0.host.errno).toNat) ∧
        (len ≠ none → vm.memory.load (cbArgs + 8) 8 = some 0)⌝, fun _ => ⌜True⌝⟩⦄ := by
  have hapart : ∀ {s s' : Segment} {v : ℕ}, s.write (cbArgs + 8) (Bytes.toLE 8 v) = some s' →
      s'.load (cbArgs + 16) 8 = s.load (cbArgs + 16) 8 :=
    fun h => load_write_apart h (Or.inr le_rfl)
  unfold transferred
  mvcgen
  all_goals grind

@[local spec high] theorem commonIoEvtHandler_exact (s0 : Vm (Sys ω)) (i : ℕ) (ptr len : UInt32)
    (cb : VmCallback) :
    ⦃fun vm => ⌜vm = s0⌝⦄ (commonIoEvtHandler i ptr len cb : SysM ω _)
    ⦃post⟨fun r vm => ⌜r = none ∨ commonIoEvtHandler i ptr len cb s0 = .ok (r, vm) ∧
        vm.host = s0.host ∧ r = some (ptr.toNat, cb.args.toNat)⌝, fun _ => ⌜True⌝⟩⦄ := by
  have hexact : ⦃fun vm => ⌜vm = s0⌝⦄ (commonIoEvtHandler i ptr len cb : SysM ω _)
      ⦃post⟨fun r vm => ⌜r = none ∨ vm.host = s0.host ∧ r = some (ptr.toNat, cb.args.toNat)⌝,
        fun _ => ⌜True⌝⟩⦄ := by
    unfold commonIoEvtHandler
    mvcgen
    all_goals grind
  refine exact_of ?_ fun _ _ => trivial
  intro r vm h
  rcases (of_exact hexact).1 r vm h with hnone | hsome
  · exact Or.inl hnone
  · exact Or.inr ⟨h, hsome⟩

theorem readIoEvtHandler_reports (os : Os ω) (s0 : Vm (Sys ω)) {i : ℕ} {slot : VmFd}
    {ptr len : UInt32} {cb : VmCallback} (hslot : s0.host.io.fds[i]? = some slot) :
    ⦃fun vm => ⌜vm = s0⌝⦄ readIoEvtHandler os i ptr len cb
    ⦃post⟨fun r vm => ⌜r.result = 1 →
        (∀ bytes, (os.read slot.fd len.toNat s0.host.world).1 = .ok bytes →
          vm.memory.load (cb.args.toNat + 8) 8 = some 0) ∧
        ∀ e, (os.read slot.fd len.toNat s0.host.world).1 = .error e →
          vm.memory.load (cb.args.toNat + 8) 8 = some (ofInt e).toNat ∧
            vm.memory.load (cb.args.toNat + 16) 8 = some 0⌝, fun _ => ⌜True⌝⟩⦄ := by
  unfold readIoEvtHandler
  mvcgen
  all_goals grind

theorem writeIoEvtHandler_reports (os : Os ω) (s0 : Vm (Sys ω)) {i : ℕ} {slot : VmFd}
    {ptr len : UInt32} {cb : VmCallback} (hslot : s0.host.io.fds[i]? = some slot) :
    ⦃fun vm => ⌜vm = s0⌝⦄ writeIoEvtHandler os i ptr len cb
    ⦃post⟨fun r vm => ⌜r.result = 1 →
        (∀ n, (os.write slot.fd (bytesToWrite i ptr len cb s0) s0.host.world).1 = .ok n →
          vm.memory.load (cb.args.toNat + 8) 8 = some 0) ∧
        ∀ e, (os.write slot.fd (bytesToWrite i ptr len cb s0) s0.host.world).1 = .error e →
          vm.memory.load (cb.args.toNat + 8) 8 = some (ofInt e).toNat ∧
            vm.memory.load (cb.args.toNat + 16) 8 = some 0⌝, fun _ => ⌜True⌝⟩⦄ := by
  unfold writeIoEvtHandler
  mvcgen
  all_goals grind [bytesToWrite]

theorem connectIoEvtHandler_reports (os : Os ω) (s0 : Vm (Sys ω)) {i : ℕ} {cb : VmCallback} :
    ⦃fun vm => ⌜vm = s0⌝⦄ connectIoEvtHandler os i cb
    ⦃post⟨fun r vm => ⌜r.result = 1 →
      vm.memory.load (cb.args.toNat + 8) 8 = some 0⌝, fun _ => ⌜True⌝⟩⦄ := by
  unfold connectIoEvtHandler
  mvcgen
  all_goals grind

theorem fdIdxToHandle_toNat {i : ℕ} (h : i + 1 < 2 ^ 64) : (fdIdxToHandle i).toNat = i + 1 :=
  UInt64.toNat_ofNat_of_lt' h

/-- What the block has after a client, and after an error. -/
theorem acceptIoEvtHandler_reports (os : Os ω) (s0 : Vm (Sys ω)) {i : ℕ} {slot : VmFd}
    {cb : VmCallback} (hslot : s0.host.io.fds[i]? = some slot)
    (hlen : s0.host.io.fds.length < 2 ^ 32) :
    ⦃fun vm => ⌜vm = s0⌝⦄ acceptIoEvtHandler os i cb
    ⦃post⟨fun r vm => ⌜r.result = 1 →
        (∀ fd addr, (os.accept slot.fd s0.host.world).1 = .ok (fd, addr) →
          vm.memory.load (cb.args.toNat + 8) 8 =
              some (if fd = 0 then 0 else ofInt (errnoAfterAccept os slot.fd fd s0)).toNat ∧
            vm.memory.load cb.args.toNat 8 ≠ some 0) ∧
        ∀ e, (os.accept slot.fd s0.host.world).1 = .error e →
          vm.memory.load (cb.args.toNat + 8) 8 = some (ofInt e).toNat ∧
            vm.memory.load cb.args.toNat 8 = s0.memory.load cb.args.toNat 8⌝,
      fun _ => ⌜True⌝⟩⦄ := by
  have hapart : ∀ {s s' : Segment} {p v : ℕ}, s.write (p + 8) (Bytes.toLE 8 v) = some s' →
      s'.load p 8 = s.load p 8 :=
    fun h => load_write_apart h (Or.inl le_rfl)
  have hhandle : ∀ {newfd : ℕ} {io : VmIo}, allocFd s0.host.io = .ok (newfd, io) →
      (fdIdxToHandle newfd).toNat ≠ 0 := by
    intro newfd io halloc
    have hlt := allocFd_lt halloc
    unfold fdAllocStep at hlt
    rw [fdIdxToHandle_toNat (by omega)]
    exact Nat.succ_ne_zero newfd
  have herrno : ∀ {fd r e : Int32}, (os.fcntl r (os.accept fd s0.host.world).2).1 = .error e →
      errnoAfterAccept os fd r s0 = e := by
    intro fd r e h
    unfold errnoAfterAccept
    rw [h]
  have herrno' : ∀ {fd r : Int32} {u : Unit},
      (os.fcntl r (os.accept fd s0.host.world).2).1 = .ok u →
        errnoAfterAccept os fd r s0 = s0.host.errno := by
    intro fd r u h
    unfold errnoAfterAccept
    rw [h]
  unfold acceptIoEvtHandler
  mvcgen
  all_goals grind

/-! ## The callbacks that are told the truth -/

/-- The block of a client or of an error of `accept`. -/
theorem accept_exact_iff {os : Os ω} {i : ℕ} {fd : Int32} {cb : VmCallback}
    {pending : Except Int32 Unit} {vm vm' : Vm (Sys ω)}
    (hok : ∀ r addr, (os.accept fd vm.host.world).1 = .ok (r, addr) →
      vm'.memory.load (cb.args.toNat + 8) 8 =
          some (if r = 0 then 0 else ofInt (errnoAfterAccept os fd r vm)).toNat ∧
        vm'.memory.load cb.args.toNat 8 ≠ some 0)
    (herror : ∀ e, (os.accept fd vm.host.world).1 = .error e →
      vm'.memory.load (cb.args.toNat + 8) 8 = some (ofInt e).toNat ∧
        vm'.memory.load cb.args.toNat 8 = vm.memory.load cb.args.toNat 8) :
    ReadyLaw os i fd (.accept cb) pending vm vm' ↔ ReadyExact os i fd (.accept cb) pending vm := by
  unfold ReadyLaw ReadyExact VmIoEvt.callback
  dsimp only
  cases hout : (os.accept fd vm.host.world).1 with
  | ok client =>
      rcases client with ⟨r, addr⟩
      rcases hok r addr hout with ⟨hcell, hhandle⟩
      have hzero : vm'.memory.load (cb.args.toNat + 8) 8 = some 0 ↔
          r = 0 ∨ errnoAfterAccept os fd r vm = 0 := by
        rw [hcell, Option.some.injEq]
        by_cases hr : r = 0
        · rw [if_pos hr]
          exact iff_of_true rfl (Or.inl hr)
        · rw [if_neg hr, ofInt_eq_zero, or_iff_right hr]
      dsimp only
      rw [← hzero]
      constructor
      · intro hlaw
        exact hlaw.1.1.2 ⟨_, rfl⟩
      · intro hcell'
        refine ⟨⟨iff_of_true hcell' ⟨_, rfl⟩, fun e he => by cases he⟩, ?_⟩
        exact iff_of_true hhandle ⟨_, rfl⟩
  | error e =>
      rcases herror e hout with ⟨hcell, hhandle⟩
      have hlaw : ErrnoLaw (.error e : Except Int32 (Int32 × SockAddr))
          (vm'.memory.load (cb.args.toNat + 8) 8) ↔ e ≠ 0 := by
        rw [errnoLaw_iff (fun a ha => by cases ha) (fun e' he' => by cases he'; exact hcell)]
        simp
      have hno : ¬ ∃ r, (.error e : Except Int32 (Int32 × SockAddr)) = .ok r := by
        rintro ⟨r, hr⟩
        cases hr
      rw [hlaw, iff_false_right hno, not_not, Nat.add_zero, hhandle]

/-- **A callback is told how its operation has ended just when** the operation is a read or a
write, a connection that has not failed, a client that is met with `errno` `0` or that has the
descriptor `0`, or an error of `accept` for a block that has no handle. -/
theorem ready_reports_iff {os : Os ω} {vm vm' : Vm (Sys ω)} {i : ℕ} {slot : VmFd} {evt : VmIoEvt}
    {r : Activated} (pending : Except Int32 Unit) (hslot : vm.host.io.fds[i]? = some slot)
    (hlen : vm.host.io.fds.length < 2 ^ 32) (hrun : activate os i evt vm = .ok (r, vm'))
    (hstarted : r.result = 1) :
    ReadyLaw os i slot.fd evt pending vm vm' ↔ ReadyExact os i slot.fd evt pending vm := by
  cases evt with
  | read ptr len cb =>
      have hreports := (of_exact (readIoEvtHandler_reports os vm hslot)).1 r vm' hrun hstarted
      have hlaw := errnoLaw_iff hreports.1 (fun e he => (hreports.2 e he).1)
      exact (and_iff_left fun e he => (hreports.2 e he).2).trans hlaw
  | write ptr len cb =>
      have hreports := (of_exact (writeIoEvtHandler_reports os vm hslot)).1 r vm' hrun hstarted
      have hlaw := errnoLaw_iff hreports.1 (fun e he => (hreports.2 e he).1)
      exact (and_iff_left fun e he => (hreports.2 e he).2).trans hlaw
  | connect cb =>
      have hzero := (of_exact (connectIoEvtHandler_reports os vm)).1 r vm' hrun hstarted
      unfold ReadyLaw ReadyExact VmIoEvt.callback
      constructor
      · intro hlaw
        rcases hlaw.1.1 hzero with ⟨⟨⟩, hok⟩
        exact hok
      · rintro rfl
        exact ⟨iff_of_true hzero ⟨(), rfl⟩, fun e he => by cases he⟩
  | accept cb =>
      have hreports := (of_exact (acceptIoEvtHandler_reports os vm hslot hlen)).1 r vm' hrun hstarted
      exact accept_exact_iff hreports.1 hreports.2

/-- A machine with one descriptor, in which the last failure was `EAGAIN`. -/
def readyVm : Vm (Sys Unit) :=
  { timeoutVm 0 with
    memory := ⟨List.replicate 40 0, by simp⟩
    host := { newSys () with errno := eAGAIN, io := ⟨[openFd], 1, 1⟩ } }

/-- The result of the handler, and the error that the callback is told. -/
def resultAndErrno (os : Os Unit) (evt : VmIoEvt) : Option (UInt32 × Option ℕ) :=
  (activate os 0 evt readyVm).toOption.map fun p => (p.1.result, p.2.memory.load 8 8)

theorem activate_of_result {os : Os Unit} {evt : VmIoEvt} {cell : Option ℕ}
    (h : resultAndErrno os evt = some (1, cell)) :
    ∃ r vm', activate os 0 evt readyVm = .ok (r, vm') ∧ r.result = 1 ∧
      vm'.memory.load 8 8 = cell := by
  rcases Option.map_eq_some_iff.1 h with ⟨⟨r, vm'⟩, hrun, hpair⟩
  rw [Prod.mk.injEq] at hpair
  exact ⟨r, vm', Fallible.toOption_eq_some.1 hrun, hpair.1, hpair.2⟩

/-- A read that fails with `EPERM`. -/
theorem ready_reports_iff_read : ∃ r vm',
    activate deadOs 0 (.read 32 4 ⟨0, 0⟩) readyVm = .ok (r, vm') ∧
      (ReadyLaw deadOs 0 openFd.fd (.read 32 4 ⟨0, 0⟩) (.ok ()) readyVm vm' ↔
        ReadyExact deadOs 0 openFd.fd (.read 32 4 ⟨0, 0⟩) (.ok ()) readyVm) := by
  have hresult : resultAndErrno deadOs (.read 32 4 ⟨0, 0⟩) = some (1, some 1) := by
    decide +kernel
  rcases activate_of_result hresult with ⟨r, vm', hrun, hstarted, -⟩
  exact ⟨r, vm', hrun, ready_reports_iff (.ok ()) rfl (by decide) hrun hstarted⟩

/-- An operating system with a client that has the descriptor `5`. -/
def clientOs : Os Unit :=
  { deadOs with
    accept := fun _ w => (.ok (5, ⟨0, 0⟩), w)
    fcntl := fun _ w => (.ok (), w) }

/-- A connection that was refused is reported as a success, and a client that was accepted as the
last failure. -/
theorem outcome_misreported :
    (∃ r vm', activate deadOs 0 (.connect ⟨0, 0⟩) readyVm = .ok (r, vm') ∧ r.result = 1 ∧
      ¬ ReadyLaw deadOs 0 openFd.fd (.connect ⟨0, 0⟩) (.error 111) readyVm vm') ∧
    ∃ r vm', activate clientOs 0 (.accept ⟨0, 0⟩) readyVm = .ok (r, vm') ∧ r.result = 1 ∧
      ¬ ReadyLaw clientOs 0 openFd.fd (.accept ⟨0, 0⟩) (.ok ()) readyVm vm' := by
  have hconnect : resultAndErrno deadOs (.connect ⟨0, 0⟩) = some (1, some 0) := by
    decide +kernel
  have haccept : resultAndErrno clientOs (.accept ⟨0, 0⟩) = some (1, some 11) := by
    decide +kernel
  constructor
  · rcases activate_of_result hconnect with ⟨r, vm', hrun, hstarted, hcell⟩
    refine ⟨r, vm', hrun, hstarted, ?_⟩
    intro hlaw
    rcases hlaw.1.1 hcell with ⟨u, hu⟩
    cases hu
  · rcases activate_of_result haccept with ⟨r, vm', hrun, hstarted, hcell⟩
    refine ⟨r, vm', hrun, hstarted, ?_⟩
    intro hlaw
    have hzero : vm'.memory.load 8 8 = some 0 := hlaw.1.1.2 ⟨_, rfl⟩
    rw [hcell] at hzero
    cases hzero

end BvgzVm
