import BvgzVm.Syscalls.Reports

set_option autoImplicit false

/-! # Timers that fire

The loop of `fire_timer_events` takes the last timer into the place of one that has fired and looks
at that place again, so it comes to every timer (`timers_fire`). When a timer of `sys_timeout` has
fired is a matter of the two fields of its time: the sum of the nanoseconds is not carried over into
the seconds (`timeout_exact_iff`).
-/

namespace BvgzVm

open Stateful Std.Do SwapRemove

set_option mvcgen.warning false

variable {ω : Type}

attribute [local spec high] call_exact loadU32_exact loadU64_exact storeU64_exact fail_exact
  failErrno_exact

attribute [local grind →] Same.code Same.timers Stored.host word64_of_load

/-! ## The loop -/

/-- The timer is due. -/
def VmTimer.due (now : Timespec) (tmr : VmTimer) : Bool := timespecGreaterEqual now tmr.expiresAt

/-- The timers that are due, and those that are not. -/
def dueTimers (now : Timespec) (timers : List VmTimer) : List VmTimer := timers.filter (·.due now)

def laterTimers (now : Timespec) (timers : List VmTimer) : List VmTimer :=
  timers.filter fun tmr => !tmr.due now

/-- The addresses of timers at which `make_procedure` starts a procedure. -/
def startAddresses (codesz : ℕ) (timers : List VmTimer) : List UInt32 :=
  (timers.map (·.iptr)).filter (·.toNat < codesz)

/-- What the loop leaves of `timers`: each timer that is due has been counted and started once. -/
structure TimersFired (now : Timespec) (timers timers' : List VmTimer) (events events' : UInt32)
    (vm vm' : Vm (Sys ω)) : Prop where
  host : vm'.host = vm.host
  code : vm'.code = vm.code
  later : timers'.Perm (laterTimers now timers)
  counted : events' = events + UInt32.ofNat (dueTimers now timers).length
  started : ∃ iptrs : List UInt32, vm'.procedures = vm.procedures ++ iptrs.map newProc ∧
    iptrs.Perm (startAddresses vm.code.size (dueTimers now timers))

/-- No timer is due. -/
theorem timersFired_none {now : Timespec} {timers : List VmTimer} (events : UInt32)
    (vm : Vm (Sys ω)) (h : ∀ tmr ∈ timers, tmr.due now = false) :
    TimersFired now timers timers events events vm vm := by
  have hdue : dueTimers now timers = [] := by
    refine List.filter_eq_nil_iff.2 ?_
    intro tmr htmr
    rw [h tmr htmr]
    exact Bool.false_ne_true
  have hlater : laterTimers now timers = timers := by
    refine List.filter_eq_self.2 ?_
    intro tmr htmr
    rw [h tmr htmr]
    rfl
  refine ⟨rfl, rfl, ?_, ?_, [], ?_, ?_⟩
  · rw [hlater]
  · rw [hdue]
    exact (UInt32.add_zero _).symm
  · exact (List.append_nil _).symm
  · rw [hdue]
    exact List.Perm.nil

/-- The place of a timer that is due is taken by the last one. -/
theorem TimersFired.cons {now : Timespec} {timers timers' : List VmTimer} {i : ℕ} {tmr : VmTimer}
    {events events' : UInt32} {vm vm' : Vm (Sys ω)} (htmr : timers[i]? = some tmr)
    (hdue : tmr.due now = true)
    (h : TimersFired now (swapRemove timers i) timers' (events + 1) events'
      (vm.makeProcedure tmr.iptr).2 vm') :
    TimersFired now timers timers' events events' vm vm' := by
  have hperm := swapRemove_perm htmr
  have hhost : (vm.makeProcedure tmr.iptr).2.host = vm.host := by
    unfold Vm.makeProcedure
    split <;> rfl
  have hcode : (vm.makeProcedure tmr.iptr).2.code = vm.code := by
    unfold Vm.makeProcedure
    split <;> rfl
  have hall : (tmr :: dueTimers now (swapRemove timers i)).Perm (dueTimers now timers) := by
    have hfilter := hperm.filter (·.due now)
    rwa [List.filter_cons_of_pos hdue] at hfilter
  refine ⟨h.host.trans hhost, h.code.trans hcode, ?_, ?_, ?_⟩
  · have hfilter := hperm.filter fun tmr => !tmr.due now
    rw [List.filter_cons_of_neg (by simp [hdue])] at hfilter
    exact h.later.trans hfilter
  · rw [h.counted, ← hall.length_eq, List.length_cons, Nat.add_comm _ 1, UInt32.ofNat_add,
      UInt32.add_assoc]
    rfl
  · rcases h.started with ⟨iptrs, hprocs, hiptrs⟩
    rw [hcode] at hiptrs
    have hmap := (hall.map (·.iptr)).filter (fun iptr => decide (iptr.toNat < vm.code.size))
    by_cases hin : tmr.iptr.toNat < vm.code.size
    · refine ⟨tmr.iptr :: iptrs, ?_, ?_⟩
      · have hmake : (vm.makeProcedure tmr.iptr).2.procedures =
            vm.procedures ++ [newProc tmr.iptr] := by
          unfold Vm.makeProcedure
          rw [if_neg (not_le.2 hin)]
        rw [hprocs, hmake, List.append_assoc]
        rfl
      · rw [List.map_cons, List.filter_cons_of_pos (by simpa using hin)] at hmap
        exact (hiptrs.cons tmr.iptr).trans hmap
    · refine ⟨iptrs, ?_, ?_⟩
      · have hmake : (vm.makeProcedure tmr.iptr).2.procedures = vm.procedures := by
          unfold Vm.makeProcedure
          rw [if_pos (not_lt.1 hin)]
          rfl
        rw [hprocs, hmake]
      · rw [List.map_cons, List.filter_cons_of_neg (by simpa using hin)] at hmap
        exact hiptrs.trans hmap

/-- The timers in front of `i` are not due, and there are `todo` behind them: the loop comes to
the end. -/
theorem fireTimers_fired (now : Timespec) {todo i : ℕ} {timers : List VmTimer} (events : UInt32)
    (vm : Vm (Sys ω)) (htodo : i + todo = timers.length)
    (hfront : ∀ tmr ∈ timers.take i, tmr.due now = false) :
    ∃ events' timers' vm', fireTimers now todo i timers events vm = .ok ((events', timers'), vm') ∧
      TimersFired now timers timers' events events' vm vm' := by
  induction todo generalizing i timers events vm with
  | zero =>
      rw [List.take_of_length_le (by omega)] at hfront
      exact ⟨events, timers, vm, rfl, timersFired_none events vm hfront⟩
  | succ todo ih =>
      have hlt : i < timers.length := by omega
      have htmr : timers[i]? = some timers[i] := List.getElem?_eq_getElem hlt
      unfold fireTimers
      rw [htmr]
      dsimp only
      by_cases hdue : timers[i].due now = true
      · -- the last timer comes to this place
        have hlen := length_swapRemove htmr
        have hfront' : ∀ tmr ∈ (swapRemove timers i).take i, tmr.due now = false := by
          rw [take_swapRemove htmr]
          exact hfront
        rcases ih (events + 1) (vm.makeProcedure timers[i].iptr).2 (by omega) hfront' with
          ⟨events', timers', vm', hrun, hfired⟩
        refine ⟨events', timers', vm', ?_, hfired.cons htmr hdue⟩
        have hge : timespecGreaterEqual now timers[i].expiresAt = true := hdue
        rw [if_pos hge]
        exact hrun
      · have hfront' : ∀ tmr ∈ timers.take (i + 1), tmr.due now = false := by
          intro tmr hmem
          rw [List.take_add_one, htmr, Option.toList_some] at hmem
          rcases List.mem_append.1 hmem with hold | hnew
          · exact hfront tmr hold
          · rw [List.mem_singleton.1 hnew]
            exact Bool.eq_false_iff.2 hdue
        rcases ih events vm (by omega) hfront' with ⟨events', timers', vm', hrun, hfired⟩
        refine ⟨events', timers', vm', ?_, hfired⟩
        have hge : ¬timespecGreaterEqual now timers[i].expiresAt = true := hdue
        rw [if_neg hge]
        exact hrun

/-! ## `fire_timer_events` -/

/-- What the clock reads: the local variable is zero where there is no reading. -/
def clockNow (os : Os ω) (vm : Vm (Sys ω)) : Timespec :=
  (os.clockGettime vm.host.world).1.toOption.getD ⟨0, 0⟩

/-- The clock is read before the loop, and nothing that the loop is about is changed by it. -/
theorem fireTimerEvents_eq (os : Os ω) (vm : Vm (Sys ω)) :
    ∃ f : Sys ω → Sys ω, (f vm.host).timers = vm.host.timers ∧
      fireTimerEvents os vm =
        (do let (events, timers) ←
              fireTimers (clockNow os vm) vm.host.timers.length 0 vm.host.timers 0
            modify (Vm.withSys · fun s => { s with timers })
            return events : SysM ω UInt32) (vm.withSys f) := by
  unfold clockNow
  rcases hread : os.clockGettime vm.host.world with ⟨e | now, world⟩
  · have hcall : call os.clockGettime vm =
        .ok (none, vm.withSys fun s => { s with world, errno := e }) := by
      unfold call
      rw [bind_of_ok (show ask os.clockGettime vm = .ok (.error e, _) by
        unfold ask
        rw [hread])]
      rfl
    refine ⟨fun s => { s with world, errno := e, errorNo := e }, rfl, ?_⟩
    unfold fireTimerEvents
    rw [bind_of_ok hcall]
    rfl
  · have hcall : call os.clockGettime vm =
        .ok (some now, vm.withSys fun s => { s with world }) := by
      unfold call
      rw [bind_of_ok (show ask os.clockGettime vm = .ok (.ok now, _) by
        unfold ask
        rw [hread])]
      rfl
    refine ⟨fun s => { s with world }, rfl, ?_⟩
    unfold fireTimerEvents
    rw [bind_of_ok hcall]
    rfl

/-- **`fire_timer_events` ends, and each timer that is due fires once**: the timers that are left
are the others, and the procedures that are new start where the timers that were due say. -/
theorem timers_fire (os : Os ω) (vm : Vm (Sys ω)) :
    ∃ n vm', fireTimerEvents os vm = .ok (n, vm') ∧
      (vm.host.timers.length < 2 ^ 32 →
        n.toNat = (dueTimers (clockNow os vm) vm.host.timers).length) ∧
      vm'.host.timers.Perm (laterTimers (clockNow os vm) vm.host.timers) ∧
      ∃ iptrs : List UInt32, vm'.procedures = vm.procedures ++ iptrs.map newProc ∧
        iptrs.Perm (startAddresses vm.code.size (dueTimers (clockNow os vm) vm.host.timers)) := by
  rcases fireTimerEvents_eq os vm with ⟨f, hf, heq⟩
  rcases fireTimers_fired (clockNow os vm) (0 : UInt32) (vm.withSys f)
    (Nat.zero_add vm.host.timers.length) (by simp) with ⟨events, timers, vm', hrun, hfired⟩
  refine ⟨events, vm'.withSys fun s => { s with timers }, ?_, ?_, hfired.later, hfired.started⟩
  · rw [heq, bind_of_ok hrun]
    rfl
  · intro hlt
    have hle : (dueTimers (clockNow os vm) vm.host.timers).length ≤ vm.host.timers.length :=
      List.length_filter_le ..
    calc events.toNat = (UInt32.ofNat (dueTimers (clockNow os vm) _).length).toNat := by
          rw [hfired.counted, UInt32.zero_add]
      _ = (dueTimers (clockNow os vm) vm.host.timers).length :=
          UInt32.toNat_ofNat_of_lt' (hle.trans_lt hlt)

/-! ## The time of a timer -/

/-- The time in nanoseconds. -/
def Timespec.nanos (t : Timespec) : ℤ := t.tvSec.toInt * 10 ^ 9 + t.tvNsec.toInt

/-- The nanoseconds are less than a second. -/
def Timespec.Normal (t : Timespec) : Prop := 0 ≤ t.tvNsec.toInt ∧ t.tvNsec.toInt < 10 ^ 9

instance (t : Timespec) : Decidable t.Normal := inferInstanceAs (Decidable (_ ∧ _))

/-- The sum of the seconds of a time and of the milliseconds of a timeout. -/
def dueSecs (t : Timespec) (m : UInt64) : ℤ := t.tvSec.toInt + (m.toNat / 1000 : ℕ)

/-- The sum of their nanoseconds, which may be more than a second. -/
def dueNanos (t : Timespec) (m : UInt64) : ℤ := t.tvNsec.toInt + 10 ^ 6 * (m.toNat % 1000 : ℕ)

/-- The seconds of the sum fit in their field, and the clock does not read a second in which the
nanoseconds of the sum are yet to come. -/
def TimeoutExact (t now : Timespec) (m : UInt64) : Prop :=
  dueSecs t m < 2 ^ 63 ∧
    ¬(10 ^ 9 ≤ dueNanos t m ∧ now.tvSec.toInt = dueSecs t m + 1 ∧
      now.tvNsec.toInt < dueNanos t m - 10 ^ 9)

/-- The number of a `uint64_t` that is small enough for an `int64_t`. -/
theorem toInt_toInt64 {m : UInt64} (h : m.toNat < 2 ^ 63) : m.toInt64.toInt = m.toNat := by
  have hlt : 2 * m.toBitVec.toNat < 2 ^ 64 := by
    rw [UInt64.toNat_toBitVec]
    omega
  exact BitVec.toInt_eq_toNat_of_lt hlt

/-- The seconds of the timer wrap around. -/
theorem expiresAt_tvSec (t : Timespec) (m : UInt64) :
    (expiresAt t m).tvSec.toInt = (dueSecs t m).bmod (2 ^ 64) := by
  have hdiv : (m / 1000).toNat = m.toNat / 1000 := UInt64.toNat_div ..
  have hlt := m.toNat_lt
  unfold expiresAt dueSecs
  rw [Int64.toInt_add, toInt_toInt64 (by omega), hdiv]

/-- The nanoseconds of the timer are their sum. -/
theorem expiresAt_tvNsec {t : Timespec} (ht : t.Normal) (m : UInt64) :
    (expiresAt t m).tvNsec.toInt = dueNanos t m := by
  have hmod : (m % 1000).toNat = m.toNat % 1000 := UInt64.toNat_mod ..
  have hmul : (1000000 * (m % 1000)).toNat = 10 ^ 6 * (m.toNat % 1000) := by
    calc (1000000 * (m % 1000)).toNat = 1000000 * (m.toNat % 1000) % 2 ^ 64 := by
          rw [UInt64.toNat_mul, hmod]
          rfl
      _ = 10 ^ 6 * (m.toNat % 1000) := by omega
  have hbounds := ht
  unfold Timespec.Normal at hbounds
  unfold expiresAt dueNanos
  rw [Int64.toInt_add, toInt_toInt64 (by omega), hmul, Int.bmod_eq_of_le (by omega) (by omega)]
  push_cast
  rfl

/-- The comparison goes by the seconds, and then by the nanoseconds. -/
theorem due_iff (now : Timespec) (tmr : VmTimer) : tmr.due now = true ↔
    tmr.expiresAt.tvSec.toInt < now.tvSec.toInt ∨
      now.tvSec.toInt = tmr.expiresAt.tvSec.toInt ∧
        tmr.expiresAt.tvNsec.toInt ≤ now.tvNsec.toInt := by
  unfold VmTimer.due timespecGreaterEqual
  rw [Bool.or_eq_true, Bool.and_eq_true, decide_eq_true_iff, decide_eq_true_iff,
    decide_eq_true_iff, Int64.lt_iff_toInt_lt, Int64.le_iff_toInt_le, Int64.toInt_inj]

/-- When the timer is due in the right time. -/
theorem due_exact_iff {t now : Timespec} {m : UInt64} {tmr : VmTimer} (ht : t.Normal)
    (hnow : now.Normal) (hlater : t.nanos ≤ now.nanos) (htmr : tmr.expiresAt = expiresAt t m) :
    (tmr.due now = true ↔ (m.toNat : ℤ) * 10 ^ 6 ≤ now.nanos - t.nanos) ↔
      TimeoutExact t now m := by
  have hsum : now.nanos - t.nanos - m.toNat * 10 ^ 6 =
      (now.tvSec.toInt - dueSecs t m) * 10 ^ 9 + (now.tvNsec.toInt - dueNanos t m) := by
    unfold Timespec.nanos dueSecs dueNanos
    omega
  have hge : (m.toNat : ℤ) * 10 ^ 6 ≤ now.nanos - t.nanos ↔
      0 ≤ (now.tvSec.toInt - dueSecs t m) * 10 ^ 9 + (now.tvNsec.toInt - dueNanos t m) := by
    omega
  have hnanos : 0 ≤ dueNanos t m ∧ dueNanos t m < 2 * 10 ^ 9 := by
    unfold Timespec.Normal at ht
    unfold dueNanos
    omega
  have hsize := m.toNat_lt
  have htsec := t.tvSec.toInt_lt
  have htsec' := t.tvSec.le_toInt
  have hsecs : t.tvSec.toInt ≤ dueSecs t m ∧ dueSecs t m < t.tvSec.toInt + 2 ^ 55 := by
    unfold dueSecs
    omega
  have hnowsec := now.tvSec.toInt_lt
  have hlatersec : t.tvSec.toInt ≤ now.tvSec.toInt := by
    unfold Timespec.Normal at ht hnow
    unfold Timespec.nanos at hlater
    omega
  rw [due_iff, htmr, expiresAt_tvSec, expiresAt_tvNsec ht, hge]
  unfold TimeoutExact
  unfold Timespec.Normal at hnow
  by_cases hfits : dueSecs t m < 2 ^ 63
  · rw [Int.bmod_eq_of_le (by omega) (by omega)]
    omega
  · -- the seconds have become negative: the timer is due at once
    have hwrap : (dueSecs t m).bmod (2 ^ 64) = dueSecs t m - 2 ^ 64 := by
      rw [Int.bmod_def]
      omega
    rw [hwrap]
    omega

/-! ## When a timer of `sys_timeout` fires -/

@[local spec high] theorem makeVmTimer_exact (s0 : Vm (Sys ω)) (expiresAt : Timespec)
    (iptr : UInt32) :
    ⦃fun vm => ⌜vm = s0⌝⦄ (makeVmTimer expiresAt iptr : SysM ω Unit)
    ⦃post⟨fun _ vm => ⌜vm = s0.withSys fun s =>
      { s with timers := s.timers ++ [⟨expiresAt, iptr⟩] }⌝, fun _ => ⌜False⌝⟩⦄ := by
  refine exact_of ?_ (fun e h => by cases h)
  intro a s' h
  cases h
  rfl

/-- A timer that `sys_timeout` has made has the sum of the clock and of its argument. -/
theorem sysTimeout_timer {os : Os ω} {vm vm₁ : Vm (Sys ω)} {argv retv : UInt32} {t : Timespec}
    {tmr : VmTimer} (ht : (os.clockGettime vm.host.world).1 = .ok t)
    (hcall : sysTimeout os argv retv vm = .ok ((), vm₁))
    (htmr : vm₁.host.timers = vm.host.timers ++ [tmr]) :
    tmr.expiresAt = expiresAt t (word64 vm (argv.toNat + 4)) := by
  have hexact : ⦃fun s => ⌜s = vm⌝⦄ sysTimeout os argv retv
      ⦃post⟨fun _ s => ⌜s.host.timers = vm.host.timers ∨ ∃ t iptr,
          (os.clockGettime vm.host.world).1 = .ok t ∧ s.host.timers = vm.host.timers ++
            [⟨expiresAt t (word64 vm (argv.toNat + 4)), iptr⟩]⌝, fun _ => ⌜True⌝⟩⦄ := by
    unfold sysTimeout
    mvcgen
    all_goals grind [Vm.withSys_host]
  rcases (of_exact hexact).1 () vm₁ hcall with hsame | ⟨t', iptr, ht', hnew⟩
  · rw [hsame] at htmr
    have hlen := congrArg List.length htmr
    rw [List.length_append, List.length_singleton] at hlen
    omega
  · rw [ht] at ht'
    cases ht'
    rw [hnew, List.append_cancel_left_eq, List.cons.injEq] at htmr
    rw [← htmr.1]

/-- A timer that was there before `fire_timer_events` has fired just when so many milliseconds have
passed. -/
def FiresInTime (t now : Timespec) (m : UInt64) (tmr : VmTimer) (vm' : Vm (Sys ω)) : Prop :=
  tmr ∉ vm'.host.timers ↔ (m.toNat : ℤ) * 10 ^ 6 ≤ now.nanos - t.nanos

/-- A timer that is due is not left, and the others are. -/
theorem fired_iff_due {os : Os ω} {vm vm' : Vm (Sys ω)} {n : UInt32} {now : Timespec}
    {tmr : VmTimer} (hmem : tmr ∈ vm.host.timers)
    (hnow : (os.clockGettime vm.host.world).1 = .ok now)
    (hfire : fireTimerEvents os vm = .ok (n, vm')) :
    tmr ∉ vm'.host.timers ↔ tmr.due now = true := by
  rcases timers_fire os vm with ⟨n', vm'', hrun, -, hleft, -⟩
  rw [hfire] at hrun
  cases hrun
  have hclock : clockNow os vm = now := by
    unfold clockNow
    rw [hnow]
    rfl
  rw [hclock] at hleft
  rw [hleft.mem_iff]
  unfold laterTimers
  rw [List.mem_filter]
  simp [hmem]

/-- **A timer of `sys_timeout` fires in the right time just when the nanoseconds need no carry**,
or the clock does not read a time at which the carry would count. -/
theorem timeout_exact_iff {os os' : Os ω} {vm vm₁ vm₂ vm₃ : Vm (Sys ω)} {argv retv n : UInt32}
    {t now : Timespec} {tmr : VmTimer} (ht : (os.clockGettime vm.host.world).1 = .ok t)
    (hnormal : t.Normal) (hcall : sysTimeout os argv retv vm = .ok ((), vm₁))
    (htmr : vm₁.host.timers = vm.host.timers ++ [tmr]) (hmem : tmr ∈ vm₂.host.timers)
    (hnow : (os'.clockGettime vm₂.host.world).1 = .ok now) (hnormal' : now.Normal)
    (hlater : t.nanos ≤ now.nanos) (hfire : fireTimerEvents os' vm₂ = .ok (n, vm₃)) :
    FiresInTime t now (word64 vm (argv.toNat + 4)) tmr vm₃ ↔
      TimeoutExact t now (word64 vm (argv.toNat + 4)) := by
  unfold FiresInTime
  rw [fired_iff_due hmem hnow hfire]
  exact due_exact_iff hnormal hnormal' hlater (sysTimeout_timer ht hcall htmr)

/-- A clock that stands still. -/
def clockAt (t : Timespec) : Os Unit := { deadOs with clockGettime := fun w => (.ok t, w) }

/-- A machine with the arguments of `sys_timeout` at `0`: the address `0` and `m` milliseconds. -/
def millisVm (m : UInt8) : Vm (Sys Unit) :=
  { timeoutVm 0 with memory := ⟨[0, 0, 0, 0, m, 0, 0, 0] ++ List.replicate 16 0, by simp⟩ }

/-- The machine with a timer. -/
def timedVm (m : UInt8) (expiresAt : Timespec) : Vm (Sys Unit) :=
  { millisVm m with host := { newSys () with timers := [⟨expiresAt, 0⟩] } }

/-- The machine in which it has fired. -/
def firedVm (m : UInt8) : Vm (Sys Unit) := { millisVm m with procedures := [newProc 0, newProc 0] }

/-- A timer of 200 ms, made in the beginning of a second. -/
theorem timeout_exact_iff_second :
    FiresInTime ⟨5, 0⟩ ⟨5, 200000000⟩ 200 ⟨⟨5, 200000000⟩, 0⟩ (firedVm 200) ↔
      TimeoutExact ⟨5, 0⟩ ⟨5, 200000000⟩ 200 := by
  have hcall : sysTimeout (clockAt ⟨5, 0⟩) 0 16 (millisVm 200) =
      .ok ((), timedVm 200 ⟨5, 200000000⟩) := by rfl
  have hfire : fireTimerEvents (clockAt ⟨5, 200000000⟩) (timedVm 200 ⟨5, 200000000⟩) =
      .ok (1, firedVm 200) := by rfl
  have hm : word64 (millisVm 200) ((0 : UInt32).toNat + 4) = 200 := by decide
  rw [← hm]
  exact timeout_exact_iff rfl (by decide) hcall rfl (List.mem_singleton_self _) rfl
    (by decide) (by decide) hfire

/-- A timer of 200 ms that is made at 5.9 s fires at 6 s, after 100 ms. -/
theorem timeout_early :
    sysTimeout (clockAt ⟨5, 900000000⟩) 0 16 (millisVm 200) =
        .ok ((), timedVm 200 ⟨5, 1100000000⟩) ∧
      word64 (millisVm 200) 4 = 200 ∧
      fireTimerEvents (clockAt ⟨6, 0⟩) (timedVm 200 ⟨5, 1100000000⟩) = .ok (1, firedVm 200) ∧
      Timespec.Normal ⟨5, 900000000⟩ ∧ Timespec.Normal ⟨6, 0⟩ ∧
      ¬ FiresInTime ⟨5, 900000000⟩ ⟨6, 0⟩ 200 ⟨⟨5, 1100000000⟩, 0⟩ (firedVm 200) := by
  refine ⟨by rfl, by decide, by rfl, by decide, by decide, ?_⟩
  intro h
  have hfired : (⟨⟨5, 1100000000⟩, 0⟩ : VmTimer) ∉ (firedVm 200).host.timers := by decide +kernel
  have hearly := h.1 hfired
  revert hearly
  decide

end BvgzVm
