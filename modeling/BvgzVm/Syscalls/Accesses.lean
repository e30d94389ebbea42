import BvgzVm.Syscalls.Exits
import BvgzVm.Syscalls.Reports

set_option autoImplicit false

/-! # Where a system call leaves the memory

A system call is followed from block to block. `CallEnds fits excused Q run` says how the rest of a
call ends if `fits` says that the blocks it still gets to are in memory: it leaves the memory only
if one is not there, or by an access that `excused` is about, and otherwise it comes to its end, or
to another fault, only if they are there; where it returns, `Q` holds. There is one rule for each of
the parts that a system call is made of, and the rules for accesses are about all of them at once
(`Accesses`).
-/

namespace BvgzVm

open Stateful

variable {ω α β : Type}

/-! ## Blocks -/

/-- A block: its address, the size that is checked and the extent that is used. -/
structure Block where
  ref : UInt32
  checked : UInt32
  extent : ℕ

/-- The block is in a memory of this size with all that is used of it. -/
def Block.In (memsz : ℕ) (b : Block) : Prop := b.ref.toNat + b.extent ≤ memsz

/-- All of these blocks are. -/
def AllIn (memsz : ℕ) (bs : List Block) : Prop := ∀ b ∈ bs, b.In memsz

/-- The cell of the result. -/
def resultCell (retv : UInt32) : Block := ⟨retv, 8, 8⟩

@[simp] theorem allIn_nil (n : ℕ) : AllIn n [] := fun _ hb => absurd hb List.not_mem_nil

@[simp] theorem allIn_cons {n : ℕ} {b : Block} {bs : List Block} :
    AllIn n (b :: bs) ↔ b.In n ∧ AllIn n bs := List.forall_mem_cons

instance (n : ℕ) (b : Block) : Decidable (b.In n) :=
  inferInstanceAs (Decidable (b.ref.toNat + b.extent ≤ n))

instance (n : ℕ) (bs : List Block) : Decidable (AllIn n bs) :=
  inferInstanceAs (Decidable (∀ b ∈ bs, b.In n))

/-! ## CallEnds -/

/-- How a run ends that gets to the blocks of `fits`. -/
inductive CallEnds (fits excused : Prop) (Q : Vm (Sys ω) → Prop) : Except Ub (α × Vm (Sys ω)) → Prop
  | returns {a : α} {vm : Vm (Sys ω)} (hfits : fits) (hQ : Q vm) :
      CallEnds fits excused Q (.ok (a, vm))
  | leaves (h : ¬ fits ∨ excused) : CallEnds fits excused Q (.error .deref)
  | stops {e : Ub} (he : e ≠ .deref) (hfits : fits) : CallEnds fits excused Q (.error e)

section Rules

variable {fits excused : Prop} {Q : Vm (Sys ω) → Prop} {s : Vm (Sys ω)}

/-- A run that returns has found its blocks in memory. -/
theorem CallEnds.of_ok {a : α} {vm : Vm (Sys ω)}
    (h : CallEnds fits excused Q (.ok (a, vm) : Except Ub (α × Vm (Sys ω)))) : fits ∧ Q vm := by
  cases h with
  | returns hfits hQ => exact ⟨hfits, hQ⟩

/-- A run that is not excused leaves the memory exactly if a block is not there. -/
theorem CallEnds.deref_iff {run : Except Ub (α × Vm (Sys ω))} (h : CallEnds fits excused Q run)
    (hno : ¬ excused) : run = .error .deref ↔ ¬ fits := by
  cases h with
  | returns hfits hQ => exact iff_of_false (by simp) (not_not_intro hfits)
  | leaves h => exact iff_of_true rfl (h.resolve_right hno)
  | stops he hfits =>
      exact iff_of_false (fun hderef => he (Except.error.inj hderef)) (not_not_intro hfits)

/-- The blocks are the same in other words. -/
theorem CallEnds.congr {fits' : Prop} {run : Except Ub (α × Vm (Sys ω))}
    (h : CallEnds fits excused Q run) (hiff : fits ↔ fits') : CallEnds fits' excused Q run := by
  rwa [← propext hiff]

/-- A block that is known to be in memory. -/
theorem CallEnds.cons {n : ℕ} {b : Block} {bs : List Block} {run : Except Ub (α × Vm (Sys ω))}
    (hb : b.In n) (h : CallEnds (AllIn n bs) excused Q run) :
    CallEnds (AllIn n (b :: bs)) excused Q run :=
  h.congr (by rw [allIn_cons, and_iff_right hb])

theorem CallEnds.uncons {n : ℕ} {b : Block} {bs : List Block} {run : Except Ub (α × Vm (Sys ω))}
    (hb : b.In n) (h : CallEnds (AllIn n (b :: bs)) excused Q run) :
    CallEnds (AllIn n bs) excused Q run :=
  h.congr (by rw [allIn_cons, and_iff_right hb])

/-- The last part of a sequence. -/
theorem ends_tail {m : SysM ω α} (h : CallEnds fits excused Q ((m >>= pure) s)) :
    CallEnds fits excused Q (m s) := by
  rwa [bind_pure] at h

theorem ends_pure {a : α} (hfits : fits) (hQ : Q s) :
    CallEnds fits excused Q ((pure a : SysM ω α) s) :=
  .returns hfits hQ

theorem ends_ub {e : Ub} (he : e ≠ .deref) (hfits : fits) :
    CallEnds fits excused Q ((ub e : SysM ω α) s) := .stops he hfits

/-- The state is looked at. -/
theorem ends_get {f : Vm (Sys ω) → SysM ω β} (h : CallEnds fits excused Q (f s s)) :
    CallEnds fits excused Q ((get >>= f) s) := h

/-! ## Accesses -/

/-- The part of a call that accesses the `w` bytes at `p`: it has the result `a` and leaves `s'`
behind if they are in memory. -/
def Accesses (m : SysM ω α) (s : Vm (Sys ω)) (p w : ℕ) (a : α) (s' : Vm (Sys ω)) : Prop :=
  m s = if p + w ≤ s.memory.size then .ok (a, s') else .error .deref

/-- An access, as long as the blocks that are left say whether it is inside. -/
theorem Accesses.ends {m : SysM ω α} {f : α → SysM ω β} {p w : ℕ} {a : α} {s' : Vm (Sys ω)}
    (hm : Accesses m s p w a s') (hout : s.memory.size < p + w → ¬ fits ∨ excused)
    (h : p + w ≤ s.memory.size → CallEnds fits excused Q (f a s')) :
    CallEnds fits excused Q ((m >>= f) s) := by
  have hrun : m s = if p + w ≤ s.memory.size then .ok (a, s') else .error .deref := hm
  by_cases hin : p + w ≤ s.memory.size
  · rw [if_pos hin] at hrun
    rw [bind_of_ok hrun]
    exact h hin
  · rw [if_neg hin] at hrun
    rw [bind_of_error hrun]
    exact .leaves (hout (Nat.lt_of_not_le hin))

/-- **A field of a block**, which is used further. -/
theorem Accesses.field {n : ℕ} {b : Block} {bs : List Block} {m : SysM ω α} {f : α → SysM ω β}
    {p w : ℕ} {a : α} {s' : Vm (Sys ω)} (hm : Accesses m s p w a s') (hn : s.memory.size = n)
    (hle : p + w ≤ b.ref.toNat + b.extent)
    (h : p + w ≤ n → CallEnds (AllIn n (b :: bs)) excused Q (f a s')) :
    CallEnds (AllIn n (b :: bs)) excused Q ((m >>= f) s) := by
  subst hn
  refine hm.ends (fun hlt => .inl fun hfits => ?_) h
  have hb : b.ref.toNat + b.extent ≤ s.memory.size := (allIn_cons.1 hfits).1
  omega

/-- **The last field of a block.** -/
theorem Accesses.last {n : ℕ} {b : Block} {bs : List Block} {m : SysM ω α} {f : α → SysM ω β}
    {p w : ℕ} {a : α} {s' : Vm (Sys ω)} (hm : Accesses m s p w a s') (hn : s.memory.size = n)
    (hend : p + w = b.ref.toNat + b.extent)
    (h : b.In n → CallEnds (AllIn n bs) excused Q (f a s')) :
    CallEnds (AllIn n (b :: bs)) excused Q ((m >>= f) s) := by
  refine hm.field hn hend.le fun hin => ?_
  have hb : b.In n := by rwa [Block.In, ← hend]
  exact (h hb).cons hb

/-- **A field of a block that is in memory.** -/
theorem Accesses.known {n : ℕ} {b : Block} {m : SysM ω α} {f : α → SysM ω β}
    {p w : ℕ} {a : α} {s' : Vm (Sys ω)} (hm : Accesses m s p w a s') (hn : s.memory.size = n)
    (hb : b.In n) (hle : p + w ≤ b.ref.toNat + b.extent) (h : CallEnds fits excused Q (f a s')) :
    CallEnds fits excused Q ((m >>= f) s) := by
  subst hn
  have hin : b.ref.toNat + b.extent ≤ s.memory.size := hb
  exact hm.ends (fun hlt => by omega) fun _ => h

/-- **A range whose size the guest has passed.** -/
theorem Accesses.sized {m : SysM ω α} {f : α → SysM ω β} {p w : ℕ} {a : α} {s' : Vm (Sys ω)}
    (hm : Accesses m s p w a s') (hout : s.memory.size < p + w → excused)
    (h : CallEnds fits excused Q (f a s')) : CallEnds fits excused Q ((m >>= f) s) :=
  hm.ends (fun hlt => .inr (hout hlt)) fun _ => h

/-! ## Numbers and bytes -/

/-- The 16-bit number at an address of the memory. -/
def word16 (vm : Vm (Sys ω)) (p : ℕ) : UInt16 := UInt16.ofNat ((vm.memory.load p 2).getD 0)

theorem word16_of_load {vm : Vm (Sys ω)} {p : ℕ} {v : UInt16}
    (h : vm.memory.load p 2 = some v.toNat) : word16 vm p = v := by
  rw [word16, h, Option.getD_some, UInt16.ofNat_toNat]

/-- An access by its results and its faults. -/
theorem accesses_of {m : SysM ω α} {p w : ℕ} {a : α} {s' : Vm (Sys ω)}
    (hok : ∀ b t, m s = .ok (b, t) → b = a ∧ t = s' ∧ p + w ≤ s.memory.size)
    (herror : ∀ e, m s = .error e → e = .deref ∧ s.memory.size < p + w) :
    Accesses m s p w a s' := by
  unfold Accesses
  cases hrun : m s with
  | ok r =>
      obtain ⟨rfl, rfl, hin⟩ := hok r.1 r.2 hrun
      rw [if_pos hin]
  | error e =>
      obtain ⟨rfl, hlt⟩ := herror e hrun
      rw [if_neg (Nat.not_le.2 hlt)]

theorem loadU16_accesses (s : Vm (Sys ω)) (p : ℕ) :
    Accesses (loadU16 p) s p 2 (word16 s p) s := by
  obtain ⟨hok, herror⟩ := of_exact (loadU16_exact s p)
  refine accesses_of (fun v t hv => ?_) herror
  obtain ⟨rfl, hload⟩ := hok v t hv
  exact ⟨(word16_of_load hload).symm, rfl, inside_of_load hload⟩

theorem loadU32_accesses (s : Vm (Sys ω)) (p : ℕ) :
    Accesses (loadU32 p) s p 4 (word32 s p) s := by
  obtain ⟨hok, herror⟩ := of_exact (loadU32_exact s p)
  refine accesses_of (fun v t hv => ?_) herror
  obtain ⟨rfl, hload⟩ := hok v t hv
  exact ⟨(word32_of_load hload).symm, rfl, inside_of_load hload⟩

theorem loadU64_accesses (s : Vm (Sys ω)) (p : ℕ) :
    Accesses (loadU64 p) s p 8 (word64 s p) s := by
  obtain ⟨hok, herror⟩ := of_exact (loadU64_exact s p)
  refine accesses_of (fun v t hv => ?_) herror
  obtain ⟨rfl, hload⟩ := hok v t hv
  exact ⟨(word64_of_load hload).symm, rfl, inside_of_load hload⟩

theorem readMemBytes_accesses (s : Vm (Sys ω)) (p n : ℕ) :
    Accesses (readMemBytes p n) s p n ((Bytes.read s.memory.bytes p n).getD []) s := by
  obtain ⟨hok, herror⟩ := of_exact (readMemBytes_exact s p n)
  refine accesses_of (fun bs t hbs => ?_) herror
  obtain ⟨rfl, hread⟩ := hok bs t hbs
  rw [hread]
  exact ⟨rfl, rfl, (Bytes.read_eq_some.1 hread).1⟩

/-- The machine after a store. -/
def stored (s : Vm (Sys ω)) (p : ℕ) (bs : List UInt8) : Vm (Sys ω) :=
  { s with memory := (s.memory.write p bs).getD s.memory }

@[simp] theorem stored_host (s : Vm (Sys ω)) (p : ℕ) (bs : List UInt8) :
    (stored s p bs).host = s.host := rfl

@[simp] theorem stored_size (s : Vm (Sys ω)) (p : ℕ) (bs : List UInt8) :
    (stored s p bs).memory.size = s.memory.size := by
  unfold stored
  cases hwrite : s.memory.write p bs with
  | none => rfl
  | some memory => exact Segment.write_size hwrite

theorem writeMemBytes_accesses (s : Vm (Sys ω)) (p : ℕ) (bs : List UInt8) :
    Accesses (writeMemBytes p bs) s p bs.length () (stored s p bs) := by
  unfold Accesses writeMemBytes stored
  cases hwrite : s.memory.write p bs with
  | none => rw [if_neg (Nat.not_le.2 (Segment.write_eq_none.1 hwrite))]
  | some memory =>
      have hin : ¬ s.memory.size < p + bs.length := by
        rw [← Segment.write_eq_none, hwrite]
        exact Option.some_ne_none memory
      rw [if_pos (Nat.le_of_not_lt hin)]
      rfl

theorem storeMem_accesses (s : Vm (Sys ω)) (p w v : ℕ) :
    Accesses (storeMem p w v) s p w () (stored s p (Bytes.toLE w v)) := by
  have hwrite := writeMemBytes_accesses s p (Bytes.toLE w v)
  rwa [Bytes.length_toLE] at hwrite

theorem storeU64_accesses (s : Vm (Sys ω)) (p : ℕ) (v : UInt64) :
    Accesses (storeU64 p v) s p 8 () (stored s p (Bytes.toLE 8 v.toNat)) :=
  storeMem_accesses s p 8 v.toNat

/-- The address that the guest has passed at `p`. -/
def addrAt (vm : Vm (Sys ω)) (p : ℕ) : SockAddr := ⟨word32 vm p, word16 vm (p + 4)⟩

theorem loadAddr_accesses (s : Vm (Sys ω)) (p : ℕ) :
    Accesses (loadAddr p) s p 6 (addrAt s p) s := by
  have h32 := loadU32_accesses s p
  have h16 := loadU16_accesses s (p + 4)
  unfold Accesses at h32 h16
  unfold Accesses loadAddr
  by_cases hfirst : p + 4 ≤ s.memory.size
  · rw [if_pos hfirst] at h32
    rw [bind_of_ok h32]
    by_cases hsecond : p + 6 ≤ s.memory.size
    · rw [if_pos hsecond] at h16
      rw [bind_of_ok h16, if_pos hsecond]
      rfl
    · rw [if_neg hsecond] at h16
      rw [bind_of_error h16, if_neg hsecond]
  · rw [if_neg hfirst] at h32
    rw [bind_of_error h32, if_neg (by omega)]

/-! ## Strings -/

/-- The string at `p`, up to its terminator. -/
def stringAt (memory : Segment) (p : ℕ) : List UInt8 := (memory.bytes.drop p).takeWhile (· ≠ 0)

/-- **A string is read** that has a terminator. -/
theorem ends_readStr {p : ℕ} {f : List UInt8 → SysM ω β} (hterm : NulTerm s p)
    (h : CallEnds fits excused Q (f (stringAt s.memory p) s)) :
    CallEnds fits excused Q ((readStr p >>= f) s) := by
  obtain ⟨hok, herror⟩ := of_exact (readStr_exact s p)
  cases hrun : readStr p s with
  | error e => exact absurd hterm (herror e hrun).2
  | ok r =>
      obtain ⟨hs, hr⟩ := hok r.1 r.2 hrun
      rw [bind_of_ok hrun, hs, hr]
      exact h

/-- **A string is looked for its terminator.** -/
theorem ends_ensureNulTermStr {p : ℕ} {f : Bool → SysM ω β}
    (hyes : NulTerm s p → CallEnds fits excused Q (f true s))
    (hno : ¬ NulTerm s p → CallEnds fits excused Q (f false (s.raise vmEMemFault))) :
    CallEnds fits excused Q ((ensureNulTermStr p >>= f) s) := by
  obtain ⟨hok, herror⟩ := of_exact (ensureNulTermStr_exact s p)
  cases hrun : ensureNulTermStr p s with
  | error e => exact (herror e hrun).elim
  | ok r =>
      rw [bind_of_ok hrun]
      rcases hok r.1 r.2 hrun with ⟨hr, hs, hterm⟩ | ⟨hr, hs, hterm⟩ <;> rw [hr, hs]
      · exact hyes hterm
      · exact hno hterm

/-! ## Pointers -/

/-- `deref` or `deref_mem_ptr`: an accepted pointer, or nothing but an exception. -/
structure ChecksRef (find : UInt32 → UInt32 → SysM ω (Option ℕ)) : Prop where
  accepts : ∀ {s ref size}, Reaches s ref size → find ref size s = .ok (some ref.toNat, s)
  rejects : ∀ {s ref size}, ¬ Reaches s ref size → ∃ s', find ref size s = .ok (none, s') ∧
    s'.memory = s.memory ∧ s'.host = s.host ∧ s'.code = s.code

theorem deref_checks : ChecksRef (@deref ω) where
  accepts := by
    intro s ref size hreach
    obtain ⟨hok, herror⟩ := of_exact (deref_exact s ref size)
    cases hrun : deref ref size s with
    | error e => exact (herror e hrun).elim
    | ok r =>
        obtain ⟨hs, ⟨-, hno⟩ | ⟨hr, -⟩⟩ := hok r.1 r.2 hrun
        · exact absurd hreach hno
        · rw [← hs, ← hr]
  rejects := by
    intro s ref size hreach
    obtain ⟨hok, herror⟩ := of_exact (deref_exact s ref size)
    cases hrun : deref ref size s with
    | error e => exact (herror e hrun).elim
    | ok r =>
        obtain ⟨hs, ⟨hr, -⟩ | ⟨-, hyes⟩⟩ := hok r.1 r.2 hrun
        · rw [← hr]
          exact ⟨r.2, rfl, by rw [hs], by rw [hs], by rw [hs]⟩
        · exact absurd hyes hreach

theorem derefMem_checks : ChecksRef (@derefMem ω) where
  accepts := by
    intro s ref size hreach
    unfold derefMem
    rw [bind_of_ok (deref_checks.accepts hreach)]
    rfl
  rejects := by
    intro s ref size hreach
    obtain ⟨s', hrun, hmemory, hhost, hcode⟩ := deref_checks.rejects hreach
    unfold derefMem
    rw [bind_of_ok hrun]
    exact ⟨s'.raise vmEMemFault, rfl, hmemory, hhost, hcode⟩

/-- **A pointer is checked.** -/
theorem ChecksRef.ends {find : UInt32 → UInt32 → SysM ω (Option ℕ)} (hfind : ChecksRef find)
    {ref size : UInt32} {f : Option ℕ → SysM ω β}
    (hyes : Reaches s ref size → CallEnds fits excused Q (f (some ref.toNat) s))
    (hno : ¬ Reaches s ref size → ∀ s', s'.memory = s.memory → s'.host = s.host →
      s'.code = s.code → CallEnds fits excused Q (f none s')) :
    CallEnds fits excused Q ((find ref size >>= f) s) := by
  by_cases hreach : Reaches s ref size
  · rw [bind_of_ok (hfind.accepts hreach)]
    exact hyes hreach
  · obtain ⟨s', hrun, hmemory, hhost, hcode⟩ := hfind.rejects hreach
    rw [bind_of_ok hrun]
    exact hno hreach s' hmemory hhost hcode

/-! ## The world and the tables -/

/-- **The world outside is asked.** -/
theorem ends_ask {f : ω → α × ω} {g : α → SysM ω β}
    (h : CallEnds fits excused Q (g (f s.host.world).1
      (s.withSys fun t => { t with world := (f s.host.world).2 }))) :
    CallEnds fits excused Q ((ask f >>= g) s) := h

/-- The state after a call of the operating system. -/
def called (f : ω → Except Int32 α × ω) (s : Vm (Sys ω)) : Vm (Sys ω) :=
  s.withSys fun t => { t with
    world := (f s.host.world).2
    errno := match (f s.host.world).1 with
      | .ok _ => t.errno
      | .error e => e }

theorem call_run (f : ω → Except Int32 α × ω) (s : Vm (Sys ω)) :
    call f s = .ok ((f s.host.world).1.toOption, called f s) := by
  unfold call called
  rw [bind_of_ok (show ask f s = .ok ((f s.host.world).1,
    s.withSys fun t => { t with world := (f s.host.world).2 }) from rfl)]
  cases hf : (f s.host.world).1 <;> rfl

/-- **The operating system is called.** -/
theorem ends_call {f : ω → Except Int32 α × ω} {g : Option α → SysM ω β}
    (hok : ∀ a, (f s.host.world).1 = .ok a → CallEnds fits excused Q (g (some a) (called f s)))
    (herror : ∀ e, (f s.host.world).1 = .error e →
      CallEnds fits excused Q (g none (called f s))) :
    CallEnds fits excused Q ((call f >>= g) s) := by
  rw [bind_of_ok (call_run f s)]
  cases hf : (f s.host.world).1 with
  | ok a => exact hok a hf
  | error e => exact herror e hf

theorem ends_setErrno {e : Int32} {f : Unit → SysM ω β}
    (h : CallEnds fits excused Q (f () (s.withSys fun t => { t with errno := e }))) :
    CallEnds fits excused Q ((setErrno e >>= f) s) := h

theorem ends_setErrorNo {e : Int32} {f : Unit → SysM ω β}
    (h : CallEnds fits excused Q (f () (s.withSys fun t => { t with errorNo := e }))) :
    CallEnds fits excused Q ((setErrorNo e >>= f) s) := h

/-- A call that fails tells why. -/
theorem called_errno {f : ω → Except Int32 α × ω} {e : Int32} (h : (f s.host.world).1 = .error e) :
    (called f s).host.errno = e := by
  unfold called
  rw [h]
  rfl

/-- What is left to do after an action on a table: nothing, if it does not come back. -/
def ifReturns {γ : Type} (r : Except TableFault γ) (bs : List Block) : List Block :=
  match r with
  | .ok _ => bs
  | .error _ => []

/-- **A function on the descriptors.** -/
theorem ends_onIo {F : VmIo → Except TableFault (α × VmIo)} {f : α → SysM ω β}
    (hfault : ∀ e, F s.host.io = .error e → fits)
    (h : ∀ a io, F s.host.io = .ok (a, io) →
      CallEnds fits excused Q (f a (s.withSys fun t => { t with io }))) :
    CallEnds fits excused Q ((onIo F >>= f) s) := by
  cases hF : F s.host.io with
  | error e =>
      have hrun : onIo F s = .error e.toUb := by
        unfold onIo
        rw [hF]
      rw [bind_of_error hrun]
      exact .stops (by unfold TableFault.toUb; exact Ub.noConfusion) (hfault e hF)
  | ok r =>
      have hrun : onIo F s = .ok (r.1, s.withSys fun t => { t with io := r.2 }) := by
        unfold onIo
        rw [hF]
      rw [bind_of_ok hrun]
      exact h r.1 r.2 hF

/-- **An action on the descriptors** before what is left to do. -/
theorem ends_onIo' {n : ℕ} {bs : List Block} {F : VmIo → Except TableFault VmIo}
    {r : Except TableFault VmIo} {f : Unit → SysM ω β} (hr : F s.host.io = r)
    (h : ∀ io, CallEnds (AllIn n bs) excused Q (f () (s.withSys fun t => { t with io }))) :
    CallEnds (AllIn n (ifReturns r bs)) excused Q ((onIo' F >>= f) s) := by
  subst hr
  refine ends_onIo (fun e he => ?_) (fun _ io hio => ?_)
  · cases hF : F s.host.io with
    | error e' => exact allIn_nil n
    | ok io =>
        rw [hF] at he
        cases he
  · cases hF : F s.host.io with
    | error e' =>
        rw [hF] at hio
        cases hio
    | ok io' => exact h io

/-- A change of the descriptors. -/
theorem ends_onIo_ok {g : VmIo → VmIo} {f : Unit → SysM ω β}
    (h : CallEnds fits excused Q (f () (s.withSys fun t => { t with io := g s.host.io }))) :
    CallEnds fits excused Q ((onIo' (fun io => .ok (g io)) >>= f) s) := h

theorem ends_onProc {F : VmProc → Except TableFault VmProc} {f : Unit → SysM ω β}
    (hfault : ∀ e, F s.host.proc = .error e → fits)
    (h : ∀ proc, F s.host.proc = .ok proc →
      CallEnds fits excused Q (f () (s.withSys fun t => { t with proc }))) :
    CallEnds fits excused Q ((onProc F >>= f) s) := by
  cases hF : F s.host.proc with
  | error e =>
      have hrun : onProc F s = .error e.toUb := by
        unfold onProc
        rw [hF]
      rw [bind_of_error hrun]
      exact .stops (by unfold TableFault.toUb; exact Ub.noConfusion) (hfault e hF)
  | ok proc =>
      have hrun : onProc F s = .ok ((), s.withSys fun t => { t with proc }) := by
        unfold onProc
        rw [hF]
      rw [bind_of_ok hrun]
      exact h proc hF

/-- **A handle is looked up.** -/
theorem ends_usedFd {i : ℕ} {f : Option VmFd → SysM ω β}
    (h : CallEnds fits excused Q (f (usedSlot i s.host.io) s)) :
    CallEnds fits excused Q ((usedFd i >>= f) s) := by
  obtain ⟨hok, herror⟩ := of_exact (usedFd_exact s i)
  cases hrun : usedFd i s with
  | error e => exact (herror e hrun).elim
  | ok r =>
      obtain ⟨hs, hr⟩ := hok r.1 r.2 hrun
      rw [bind_of_ok hrun, hs, hr]
      exact h

/-- **A callback is started**, if it is inside the code. -/
theorem ends_makeFuncProcedure {os : Os ω} {cb : VmCallback} {f : Unit → SysM ω β}
    (h : ∀ s', s'.memory = s.memory → CallEnds fits excused Q (f () s')) :
    CallEnds fits excused Q ((makeFuncProcedure os cb.callback cb.args 0 >>= f) s) := by
  obtain ⟨p, hp, -⟩ := newFuncProc_runs os cb
  have hreturns : ∃ s', makeFuncProcedure os cb.callback cb.args 0 s = .ok ((), s') ∧
      s'.memory = s.memory := by
    unfold makeFuncProcedure
    split
    · exact ⟨_, rfl, rfl⟩
    · rw [hp]
      exact ⟨_, rfl, rfl⟩
  obtain ⟨s', hrun, hmemory⟩ := hreturns
  rw [bind_of_ok hrun]
  exact h s' hmemory

/-! ## How a call begins -/

variable {find : UInt32 → UInt32 → SysM ω (Option ℕ)} {argv size retv : UInt32} {bad : UInt64}

/-- **The arguments and the result are accepted.** -/
theorem argsRet_accepted (hfind : ChecksRef find) (h : ArgsReach s argv size retv)
    (f : Option (ℕ × ℕ) → SysM ω β) :
    (argsRet find argv size retv bad >>= f) s = f (some (argv.toNat, retv.toNat)) s := by
  have hrun : argsRet find argv size retv bad s = .ok (some (argv.toNat, retv.toNat), s) := by
    unfold argsRet
    rw [bind_of_ok (hfind.accepts h.1), bind_of_ok (hfind.accepts h.2)]
    rfl
  rw [bind_of_ok hrun]

/-- How a call ends whose arguments are not accepted. -/
inductive Refuses (fits : Prop) : Except Ub (α × Vm (Sys ω)) → Prop
  | returns {a : α} {vm : Vm (Sys ω)} (hfits : fits) (h : vm.host.errorNo = eFAULT) :
      Refuses fits (.ok (a, vm))
  | leaves (h : ¬ fits) : Refuses fits (.error .deref)

theorem Refuses.returns_iff {run : Except Ub (α × Vm (Sys ω))} (h : Refuses fits run) :
    (∃ a vm, run = .ok (a, vm) ∧ vm.host.errorNo = eFAULT) ↔ fits := by
  cases h with
  | returns hfits herrorNo => exact iff_of_true ⟨_, _, rfl, herrorNo⟩ hfits
  | leaves hno => exact iff_of_false (by simp) hno

/-- The cell of the result, if it is accepted. -/
def refusedBlocks (s : Vm (Sys ω)) (retv : UInt32) : List Block :=
  if Reaches s retv 8 then [resultCell retv] else []

/-- **The arguments or the result are not accepted**: the call fails, and has touched nothing but
the cell of the result. -/
theorem argsRet_refused (hfind : ChecksRef find) (h : ¬ ArgsReach s argv size retv)
    {f : Option (ℕ × ℕ) → SysM ω β} {b : β} (hnone : f none = pure b) :
    Refuses (AllIn s.memory.size (refusedBlocks s retv))
      ((argsRet find argv size retv bad >>= f) s) := by
  have hargs : ∃ r s', find argv size s = .ok (r, s') ∧ s'.memory = s.memory ∧
      (Reaches s retv 8 → r = none) := by
    by_cases hreach : Reaches s argv size
    · exact ⟨_, s, hfind.accepts hreach, rfl, fun hret => absurd ⟨hreach, hret⟩ h⟩
    · obtain ⟨s', hrun, hmemory, -⟩ := hfind.rejects hreach
      exact ⟨none, s', hrun, hmemory, fun _ => rfl⟩
  obtain ⟨r, s', hrun, hmemory, hr⟩ := hargs
  have hreach : Reaches s' retv 8 ↔ Reaches s retv 8 := by
    unfold Reaches
    rw [hmemory]
  unfold argsRet refusedBlocks
  rw [bind_assoc, bind_of_ok hrun, bind_assoc]
  by_cases hret : Reaches s retv 8
  · rw [bind_of_ok (hfind.accepts (hreach.2 hret)), hr hret, if_pos hret, ← hmemory]
    change Refuses _ (((setErrorNo eFAULT >>= fun _ => storeU64 retv.toNat bad >>= fun _ =>
      pure none) >>= f) s')
    set t := s'.withSys fun t => { t with errorNo := eFAULT } with ht
    have hset : (setErrorNo eFAULT : SysM ω Unit) s' = .ok ((), t) := rfl
    have hstore := storeU64_accesses t retv.toNat bad
    unfold Accesses at hstore
    rw [bind_assoc, bind_of_ok hset, bind_assoc]
    by_cases hin : retv.toNat + 8 ≤ t.memory.size
    · rw [if_pos hin] at hstore
      rw [bind_of_ok hstore, pure_bind, hnone]
      exact .returns (allIn_cons.2 ⟨hin, allIn_nil _⟩) rfl
    · rw [if_neg hin] at hstore
      rw [bind_of_error hstore]
      exact .leaves fun hfits => hin (allIn_cons.1 hfits).1
  · obtain ⟨s'', hrun', hmemory', -⟩ := hfind.rejects (mt hreach.1 hret)
    rw [bind_of_ok hrun', if_neg hret]
    have hset : ∀ t : Vm (Sys ω), ((setErrorNo eFAULT >>= fun _ => pure none) >>= f) t =
        .ok (b, t.withSys fun t => { t with errorNo := eFAULT }) := by
      intro t
      rw [bind_assoc, bind_of_ok (show (setErrorNo eFAULT : SysM ω Unit) t = _ from rfl),
        pure_bind, hnone]
      rfl
    cases r <;> exact hset s'' ▸ .returns (allIn_nil _) rfl

/-! ## How a call ends -/

/-- The errors of a call that has not looked at all of its blocks. -/
def earlyErrors : List Int32 := [eFAULT, eBADF, eINVAL]

/-- The call has found these blocks in memory, or it has failed. -/
def Done (n : ℕ) (wanted : List Block) (vm : Vm (Sys ω)) : Prop :=
  AllIn n wanted ∨ vm.host.errorNo ∈ earlyErrors

/-- How the rest of a call ends in a memory of this size that still gets to `blocks`, and to the
blocks `wanted` where it does not fail before. -/
abbrev Uses (n : ℕ) (blocks wanted : List Block) (excused : Prop)
    (run : Except Ub (α × Vm (Sys ω))) : Prop :=
  CallEnds (AllIn n blocks) excused (Done n wanted) run

variable {n : ℕ} {bs wanted : List Block} {e : Int32} {v : UInt64}

/-- **A failure is reported** in the cell of the result. -/
theorem ends_fail_then {f : Unit → SysM ω β} (hn : s.memory.size = n)
    (h : (resultCell retv).In n → ∀ s', s'.memory.size = n → s'.host.errorNo = e →
      CallEnds (AllIn n bs) excused Q (f () s')) :
    CallEnds (AllIn n (resultCell retv :: bs)) excused Q ((fail e retv.toNat bad >>= f) s) := by
  unfold fail
  rw [bind_assoc]
  refine ends_setErrorNo ?_
  refine (storeU64_accesses _ _ _).last hn rfl fun hcell => h hcell _ ?_ rfl
  rw [stored_size]
  exact hn

theorem ends_failErrno_then {f : Unit → SysM ω β} (hn : s.memory.size = n)
    (h : (resultCell retv).In n → ∀ s', s'.memory.size = n →
      s'.host.errorNo = s.host.errno → CallEnds (AllIn n bs) excused Q (f () s')) :
    CallEnds (AllIn n (resultCell retv :: bs)) excused Q ((failErrno retv.toNat bad >>= f) s) :=
  ends_fail_then hn h

/-- A failure before all blocks have been looked at. -/
theorem ends_fail (hn : s.memory.size = n) (he : e ∈ earlyErrors) :
    Uses n [resultCell retv] wanted excused (fail e retv.toNat bad s) :=
  ends_tail (ends_fail_then hn fun _ _ _ herrorNo =>
    ends_pure (allIn_nil n) (.inr (herrorNo ▸ he)))

/-- A failure when the other blocks are known to be in memory. -/
theorem ends_fail_late (hn : s.memory.size = n) (h : (resultCell retv).In n → AllIn n wanted) :
    Uses n [resultCell retv] wanted excused (fail e retv.toNat bad s) :=
  ends_tail (ends_fail_then hn fun hcell _ _ _ => ends_pure (allIn_nil n) (.inl (h hcell)))

theorem ends_failErrno (hn : s.memory.size = n) (h : (resultCell retv).In n → AllIn n wanted) :
    Uses n [resultCell retv] wanted excused (failErrno retv.toNat bad s) :=
  ends_fail_late hn h

/-- **The result is stored**, when the other blocks are known to be in memory. -/
theorem ends_result (hn : s.memory.size = n) (h : (resultCell retv).In n → AllIn n wanted) :
    Uses n [resultCell retv] wanted excused (storeU64 retv.toNat v s) :=
  ends_tail ((storeU64_accesses _ _ _).last hn rfl fun hcell =>
    ends_pure (allIn_nil n) (.inl (h hcell)))

end Rules

end BvgzVm
