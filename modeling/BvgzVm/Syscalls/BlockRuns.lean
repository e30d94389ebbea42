import BvgzVm.Syscalls.BlockUse

set_option autoImplicit false

/-! # The calls, block by block

Each call is followed through its accesses: it leaves the memory exactly if one of the blocks of
`Syscalls/BlockUse.lean` is not there, and where it returns, it has found all of its blocks or it
has failed. A call that works on a range whose size the guest has passed (`exec`, `run`, `codecp` and
`fs_readdir`) may also leave the memory by that range, where `excused` holds.
-/

namespace BvgzVm

open Stateful

variable {ω : Type}

/-! ## Calls on nothing but their arguments -/

section Calls

variable (os : Os ω) {s : Vm (Sys ω)} {argv retv : UInt32} {excused : Prop}

/-- A call that does nothing but store a number in the cell of the result. -/
theorem ends_cellOnly {find : UInt32 → UInt32 → SysM ω (Option ℕ)} (hfind : ChecksRef find)
    (h : Reaches s retv 8) {f : Option ℕ → SysM ω Unit} {v : UInt64} {g : Unit → SysM ω Unit}
    (hf : f (some retv.toNat) s = (storeU64 retv.toNat v >>= g) s)
    (hg : ∀ t, ∃ t', g () t = .ok ((), t')) :
    Uses s.memory.size [resultCell retv] [resultCell retv] excused ((find retv 8 >>= f) s) := by
  rw [bind_of_ok (hfind.accepts h), hf]
  refine (storeU64_accesses _ _ _).last rfl rfl fun hcell => ?_
  obtain ⟨t', ht'⟩ := hg (stored s retv.toNat (Bytes.toLE 8 v.toNat))
  rw [ht']
  exact .returns (allIn_nil _) (.inl (by simp [hcell]))

theorem sysGetlasterr_ends (h : Reaches s retv 8) :
    Uses s.memory.size [resultCell retv] [resultCell retv] excused (sysGetlasterr argv retv s) :=
  ends_cellOnly (g := fun _ => setErrorNo 0) deref_checks h rfl fun _ => ⟨_, rfl⟩

theorem sysCodesz_ends (h : Reaches s retv 8) :
    Uses s.memory.size [resultCell retv] [resultCell retv] excused (sysCodesz argv retv s) :=
  ends_cellOnly (g := pure) derefMem_checks h (by rw [bind_pure]; rfl) fun _ => ⟨_, rfl⟩

theorem sysMsize_ends (h : Reaches s retv 8) :
    Uses s.memory.size [resultCell retv] [resultCell retv] excused (sysMsize argv retv s) :=
  ends_cellOnly (g := pure) derefMem_checks h (by rw [bind_pure]; rfl) fun _ => ⟨_, rfl⟩

theorem sysSetlasterr_ends (h : Reaches s argv 8) :
    Uses s.memory.size [⟨argv, 8, 8⟩] [⟨argv, 8, 8⟩] excused (sysSetlasterr argv retv s) := by
  unfold sysSetlasterr
  rw [bind_of_ok (deref_checks.accepts h)]
  refine (loadU64_accesses s _).last rfl rfl fun hargs => ?_
  exact .returns (allIn_nil _) (.inl (by simp [hargs]))

theorem sysYield_ends :
    Uses s.memory.size [] [] excused (sysYield argv retv s) := by
  unfold sysYield
  refine ends_get ?_
  cases s.procedures with
  | nil => exact ends_ub (by decide) (allIn_nil _)
  | cons self rest =>
      cases rest with
      | nil => exact ends_pure (allIn_nil _) (.inl (allIn_nil _))
      | cons next rest => exact .returns (allIn_nil _) (.inl (allIn_nil _))

theorem sysTime_ends (h : ArgsReach s argv 16 retv) :
    Uses s.memory.size (timeBlocks os s argv retv) (timeBlocks os s argv retv)
      excused (sysTime os argv retv s) := by
  unfold sysTime timeBlocks
  rw [argsRet_accepted deref_checks h]
  refine ends_call (fun tp htp => ?_) (fun e he => ?_)
  · rw [htp]
    refine (storeU64_accesses _ _ _).field rfl (Nat.add_le_add_left (show 8 ≤ 16 by decide) _)
      fun _ => ?_
    refine (storeU64_accesses _ _ _).last (stored_size ..) rfl fun hargs => ?_
    refine ends_result ?_ fun hcell => by simp [hargs, hcell]
    rw [stored_size, stored_size]
    rfl
  · rw [he]
    exact ends_failErrno rfl fun hcell => by simp [hcell]

theorem sysTimeout_ends (h : ArgsReach s argv 12 retv) :
    Uses s.memory.size [⟨argv, 12, 12⟩, resultCell retv] [⟨argv, 12, 12⟩, resultCell retv]
      excused (sysTimeout os argv retv s) := by
  unfold sysTimeout
  rw [argsRet_accepted deref_checks h]
  refine (loadU32_accesses s _).field rfl (Nat.add_le_add_left (show 4 ≤ 12 by decide) _)
    fun _ => ?_
  refine (loadU64_accesses s _).last rfl rfl fun hargs => ?_
  have hwanted : (resultCell retv).In s.memory.size →
      AllIn s.memory.size [⟨argv, 12, 12⟩, resultCell retv] := fun hcell => by simp [hargs, hcell]
  refine ends_get ?_
  split
  · exact ends_fail_late rfl hwanted
  · refine ends_call (fun tp _ => ?_) (fun _ _ => ends_failErrno rfl hwanted)
    exact ends_result rfl hwanted

theorem sysKill_ends (h : ArgsReach s argv 8 retv) :
    Uses s.memory.size [⟨argv, 8, 8⟩, resultCell retv] [⟨argv, 8, 8⟩, resultCell retv]
      excused (sysKill os argv retv s) := by
  unfold sysKill
  rw [argsRet_accepted derefMem_checks h]
  refine (loadU64_accesses s _).last rfl rfl fun hargs => ?_
  refine ends_call (fun _ _ => ?_) (fun _ _ => ?_)
  · exact ends_result rfl fun hcell => by simp [hargs, hcell]
  · exact ends_failErrno rfl fun hcell => by simp [hargs, hcell]

/-! ## Calls on a handle -/

/-- **The handle is looked up**, and the rest is only for a handle in use. -/
theorem ends_handle {β : Type} {Q : Vm (Sys ω) → Prop} {size : UInt32} {rest : VmFd → List Block}
    {f : UInt64 → Option VmFd → SysM ω β}
    (hnone : CallEnds (AllIn s.memory.size [resultCell retv]) excused Q
      (f (word64 s argv.toNat) none s))
    (hsome : ∀ fd, argSlot s argv = some fd → argv.toNat + 8 ≤ s.memory.size →
      CallEnds (AllIn s.memory.size (rest fd)) excused Q (f (word64 s argv.toNat) (some fd) s)) :
    CallEnds (AllIn s.memory.size (handleBlocks s argv retv size rest)) excused Q
      ((loadU64 argv.toNat >>= fun v => usedFd (fdHandleToIdx v) >>= f v) s) := by
  unfold handleBlocks
  refine (loadU64_accesses s _).last rfl rfl fun hargs => ends_usedFd ?_
  cases hslot : argSlot s argv with
  | none =>
      rw [argSlot] at hslot
      rw [hslot]
      exact hnone
  | some fd =>
      have hrest := hsome fd hslot hargs
      rw [argSlot] at hslot
      rw [hslot]
      exact hrest

theorem sysListen_ends (h : ArgsReach s argv 8 retv) :
    Uses s.memory.size (handleBlocks s argv retv 8 fun _ => [resultCell retv])
      [⟨argv, 8, 8⟩, resultCell retv] excused (sysListen os argv retv s) := by
  unfold sysListen
  rw [argsRet_accepted deref_checks h]
  refine ends_handle (ends_fail rfl (by decide)) fun fd _ hargs => ?_
  have hargs : Block.In s.memory.size ⟨argv, 8, 8⟩ := hargs
  refine ends_call (fun _ _ => ?_) (fun _ _ => ?_)
  · exact ends_result rfl fun hcell => by simp [hargs, hcell]
  · exact ends_failErrno rfl fun hcell => by simp [hargs, hcell]

theorem sysFsSeek_ends (h : ArgsReach s argv 24 retv) :
    Uses s.memory.size (handleBlocks s argv retv 24 fun _ => [⟨argv, 24, 24⟩, resultCell retv])
      [⟨argv, 24, 24⟩, resultCell retv] excused (sysFsSeek os argv retv s) := by
  unfold sysFsSeek
  rw [argsRet_accepted derefMem_checks h]
  refine ends_handle (ends_fail rfl (by decide)) fun fd _ _ => ?_
  refine (loadU64_accesses s _).field rfl (Nat.add_le_add_left (show 16 ≤ 24 by decide) _)
    fun _ => ?_
  refine (loadU64_accesses s _).last rfl rfl fun hargs => ?_
  have hwanted : (resultCell retv).In s.memory.size →
      AllIn s.memory.size [⟨argv, 24, 24⟩, resultCell retv] := fun hcell => by simp [hargs, hcell]
  split
  · exact ends_fail_late rfl hwanted
  · refine ends_call (fun _ _ => ends_result rfl hwanted) (fun _ _ => ends_failErrno rfl hwanted)

/-- **A slot is looked at.** -/
theorem ends_getFd {β : Type} {fits : Prop} {Q : Vm (Sys ω) → Prop} {i : ℕ} {f : VmFd → SysM ω β}
    (hnone : s.host.io.fds[i]? = none → fits)
    (hsome : ∀ fd, s.host.io.fds[i]? = some fd → CallEnds fits excused Q (f fd s)) :
    CallEnds fits excused Q ((getFd i >>= f) s) := by
  obtain ⟨hok, herror⟩ := of_exact (getFd_exact s i)
  cases hrun : getFd i s with
  | error e =>
      obtain ⟨rfl, hslot⟩ := herror e hrun
      rw [bind_of_error hrun]
      exact .stops (by decide) (hnone hslot)
  | ok r =>
      obtain ⟨hs, hslot⟩ := hok r.1 r.2 hrun
      rw [bind_of_ok hrun, hs]
      exact hsome r.1 hslot

theorem sysClose_ends (h : ArgsReach s argv 8 retv) :
    Uses s.memory.size (closeBlocks s argv retv) [⟨argv, 8, 8⟩, resultCell retv]
      excused (sysClose os argv retv s) := by
  unfold sysClose closeBlocks
  rw [argsRet_accepted derefMem_checks h]
  refine (loadU64_accesses s _).last rfl rfl fun hargs => ends_get ?_
  by_cases hlt : s.host.io.fds.length < fdHandleToIdx (word64 s argv.toNat)
  · rw [if_pos hlt, if_neg (by omega)]
    exact ends_fail rfl (by decide)
  rw [if_neg hlt]
  refine ends_getFd (fun hslot => ?_) (fun fd hslot => ?_)
  · rw [if_pos (Nat.le_antisymm (Nat.le_of_not_lt hlt) (List.getElem?_eq_none_iff.1 hslot))]
    exact allIn_nil _
  · have hidx := (List.getElem?_eq_some_iff.1 hslot).1
    rw [if_neg (Nat.ne_of_lt hidx)]
    split
    · exact ends_fail rfl (by decide)
    · have hwanted : (resultCell retv).In s.memory.size →
          AllIn s.memory.size [⟨argv, 8, 8⟩, resultCell retv] := fun hcell => by simp [hargs, hcell]
      refine (storeU64_accesses _ _ _).last rfl rfl fun hcell => ?_
      -- the slot is given back, whether the descriptor could be closed or not
      have hgiven : ∀ t : Vm (Sys ω), Uses s.memory.size [] [⟨argv, 8, 8⟩, resultCell retv] excused
          (onIo' (deallocFd os.evtSize (fdHandleToIdx (word64 s argv.toNat))) t) := by
        intro t
        refine ends_tail (ends_onIo (fun _ _ => allIn_nil _) fun _ _ _ => ?_)
        exact ends_pure (allIn_nil _) (.inl (hwanted hcell))
      refine ends_call (fun _ _ => ?_) (fun _ _ => ?_)
      · exact hgiven _
      · have hsize : ∀ t : Vm (Sys ω), (called (os.close fd.fd) t).memory.size = t.memory.size :=
          fun _ => rfl
        refine CallEnds.uncons hcell (ends_failErrno_then ?_ fun _ t _ _ => hgiven t)
        rw [hsize, stored_size]

theorem ite_isNone_some {α β : Type} (a : α) (x y : β) :
    (if (some a).isNone = true then x else y) = y := rfl

/-- **The beginning of `sys_read` and `sys_write`.** -/
theorem ends_getIoTaskParams {evt : UInt32 → UInt32 → VmCallback → VmIoEvt}
    {wanted : List Block} {f : Option IoTask → SysM ω Unit} (h : ArgsReach s argv 40 retv)
    (hnone : f none = pure ())
    (hsome : Block.In s.memory.size ⟨argv, 40, 28⟩ → ∀ ptr len fPtr argsPtr fd,
      Uses s.memory.size
        (ifReturns (allocEvent os.evtSize fd (evt ptr len ⟨fPtr, argsPtr⟩) s.host.io)
          [resultCell retv])
        wanted excused (f (some ⟨retv.toNat, ptr, len, fPtr, argsPtr, fd⟩) s)) :
    Uses s.memory.size (ioBlocks os s argv retv evt) wanted excused
      ((getIoTaskParams argv retv >>= f) s) := by
  have hfail : ∀ e : Int32, e ∈ earlyErrors → ∀ t : Vm (Sys ω), t.memory.size = s.memory.size →
      Uses s.memory.size [resultCell retv] wanted excused
        (((fail e retv.toNat 1 >>= fun _ => pure none) >>= f) t) := by
    intro e he t ht
    rw [bind_assoc]
    refine ends_fail_then ht fun _ t' _ herrorNo => ?_
    rw [pure_bind, hnone]
    exact ends_pure (allIn_nil _) (.inr (herrorNo ▸ he))
  unfold getIoTaskParams ioBlocks
  rw [bind_assoc, argsRet_accepted derefMem_checks h]
  simp only [bind_assoc]
  refine ends_handle (hfail eBADF (by decide) s rfl) fun fd _ _ => ?_
  rw [ite_isNone_some, bind_assoc]
  refine (loadU32_accesses s _).field rfl (Nat.add_le_add_left (show 12 ≤ 20 by decide) _)
    fun _ => ?_
  rw [bind_assoc]
  refine (loadU64_accesses s _).last rfl rfl fun _ => ?_
  rw [bind_assoc]
  refine deref_checks.ends (fun hptr => ?_) (fun hptr t ht _ _ => ?_)
  · rw [if_pos hptr, ite_isNone_some, bind_assoc]
    refine (loadU32_accesses s _).last rfl rfl fun _ => ?_
    rw [bind_assoc]
    refine deref_checks.ends (fun hargs => ?_) (fun hargs t ht _ _ => ?_)
    · rw [if_pos hargs, ite_isNone_some, bind_assoc]
      refine (loadU32_accesses s _).last rfl rfl fun hall => ?_
      rw [bind_assoc]
      refine ends_get ?_
      split
      · exact hfail eINVAL (by decide) s rfl
      · rw [pure_bind]
        exact hsome hall _ _ _ _ _
    · rw [if_neg hargs]
      exact hfail eFAULT (by decide) t (by rw [ht])
  · rw [if_neg hptr]
    exact hfail eFAULT (by decide) t (by rw [ht])

theorem sysRead_ends (h : ArgsReach s argv 40 retv) :
    Uses s.memory.size (ioBlocks os s argv retv .read) [⟨argv, 40, 28⟩, resultCell retv]
      excused (sysRead os argv retv s) := by
  unfold sysRead
  refine ends_getIoTaskParams os h rfl fun hargs ptr len fPtr argsPtr fd => ?_
  refine ends_onIo' rfl fun io => ?_
  exact ends_result rfl fun hcell => by simp [hargs, hcell]

theorem sysWrite_ends (h : ArgsReach s argv 40 retv) :
    Uses s.memory.size (ioBlocks os s argv retv .write) [⟨argv, 40, 28⟩, resultCell retv]
      excused (sysWrite os argv retv s) := by
  unfold sysWrite
  refine ends_getIoTaskParams os h rfl fun hargs ptr len fPtr argsPtr fd => ?_
  refine ends_onIo' rfl fun io => ?_
  exact ends_result rfl fun hcell => by simp [hargs, hcell]

/-! ## Calls on a socket -/

theorem sysBind_ends (h : ArgsReach s argv 12 retv) :
    Uses s.memory.size (bindBlocks s argv retv) (addrBlocks s argv retv 12)
      excused (sysBind os argv retv s) := by
  unfold sysBind bindBlocks
  rw [argsRet_accepted deref_checks h]
  refine ends_handle (ends_fail rfl (by decide)) fun fd _ _ => ?_
  refine (loadU32_accesses s _).last rfl rfl fun hargs => ?_
  refine deref_checks.ends (fun haddr => ?_) (fun haddr t ht _ _ => ?_)
  · rw [if_pos haddr]
    refine (loadAddr_accesses s _).last rfl rfl fun hin => ?_
    have hwanted : (resultCell retv).In s.memory.size →
        AllIn s.memory.size (addrBlocks s argv retv 12) := by
      intro hcell
      simp only [addrBlocks, allIn_cons, allIn_nil, and_true]
      exact ⟨hargs, hin, hcell⟩
    exact ends_call (fun _ _ => ends_result rfl hwanted) (fun _ _ => ends_failErrno rfl hwanted)
  · rw [if_neg haddr]
    exact ends_fail (by rw [ht]) (by decide)

theorem sysAccept_ends (h : ArgsReach s argv 16 retv) :
    Uses s.memory.size (acceptBlocks os s argv retv) [⟨argv, 16, 16⟩, resultCell retv]
      excused (sysAccept os argv retv s) := by
  unfold sysAccept acceptBlocks
  rw [argsRet_accepted deref_checks h]
  refine ends_handle (ends_fail rfl (by decide)) fun fd _ _ => ?_
  refine (loadU32_accesses s _).field rfl (Nat.add_le_add_left (show 12 ≤ 16 by decide) _)
    fun _ => ?_
  refine (loadU32_accesses s _).last rfl rfl fun hargs => ?_
  refine ends_onIo' rfl fun io => ?_
  exact ends_result rfl fun hcell => by simp [hargs, hcell]

theorem sysPeerAddress_ends (h : ArgsReach s argv 12 retv) :
    Uses s.memory.size (peerBlocks s argv retv) (addrBlocks s argv retv 12)
      excused (sysPeerAddress argv retv s) := by
  unfold sysPeerAddress peerBlocks
  rw [argsRet_accepted deref_checks h]
  refine ends_handle (ends_fail rfl (by decide)) fun fd _ _ => ?_
  dsimp only
  by_cases hnull : fd.data = .null
  · rw [if_pos hnull, if_pos hnull]
    exact ends_fail rfl (by decide)
  rw [if_neg hnull, if_neg hnull]
  refine (loadU32_accesses s _).last rfl rfl fun hargs => ?_
  refine deref_checks.ends (fun haddr => ?_) (fun haddr t ht _ _ => ?_)
  · rw [if_pos haddr]
    cases hdata : fd.data with
    | null => exact absurd hdata hnull
    | freed => exact ends_ub (by decide) (allIn_nil _)
    | sock addr =>
        refine (storeMem_accesses _ _ _ _).field rfl (Nat.add_le_add_left (show 4 ≤ 6 by decide) _)
          fun _ => ?_
        refine (storeMem_accesses _ _ _ _).last (stored_size ..) rfl fun hin => ?_
        refine ends_result ((stored_size ..).trans (stored_size ..)) fun hcell => ?_
        simp only [addrBlocks, allIn_cons, allIn_nil, and_true]
        exact ⟨hargs, hin, hcell⟩
  · rw [if_neg haddr]
    exact ends_fail (by rw [ht]) (by decide)

theorem getErrno_bind {β : Type} (f : Int32 → SysM ω β) :
    (getErrno >>= f) s = f s.host.errno s := rfl

theorem connected_ends {t : Vm (Sys ω)} {wanted : List Block} (idx : ℕ)
    (callback cbArgs : UInt32)
    (hn : t.memory.size = s.memory.size)
    (hwanted : (resultCell retv).In s.memory.size → AllIn s.memory.size wanted) :
    Uses s.memory.size
      (if Reaches s cbArgs 16 then [⟨cbArgs, 16, 16⟩, resultCell retv] else [resultCell retv])
      wanted excused
      (connected os idx ⟨callback, cbArgs⟩ retv.toNat t) := by
  have hreach : Reaches t cbArgs 16 ↔ Reaches s cbArgs 16 := reaches_congr hn _ _
  unfold connected
  refine deref_checks.ends (fun hcb => ?_) (fun hcb t' ht' _ _ => ?_)
  · rw [if_pos (hreach.1 hcb)]
    refine (storeU64_accesses _ _ _).field hn (Nat.add_le_add_left (show 8 ≤ 16 by decide) _)
      fun _ => ?_
    refine (storeU64_accesses _ _ _).last ((stored_size ..).trans hn) rfl fun _ => ?_
    refine ends_makeFuncProcedure fun t' ht' => ?_
    refine ends_result ?_ hwanted
    rw [ht', stored_size, stored_size, hn]
  · rw [if_neg (mt hreach.2 hcb)]
    exact ends_fail (by rw [ht', hn]) (by decide)

theorem sysConnect_ends (h : ArgsReach s argv 20 retv) :
    Uses s.memory.size (connectBlocks os s argv retv) (addrBlocks s argv retv 20)
      excused (sysConnect os argv retv s) := by
  unfold sysConnect connectBlocks
  rw [argsRet_accepted deref_checks h]
  refine ends_handle (ends_fail rfl (by decide)) fun fd _ _ => ?_
  refine (loadU32_accesses s _).last rfl rfl fun _ => ?_
  refine deref_checks.ends (fun haddr => ?_) (fun haddr t ht _ _ => ?_)
  · rw [if_pos haddr]
    refine (loadAddr_accesses s _).last rfl rfl fun hin => ?_
    refine ends_onIo_ok ?_
    -- the slot has got the address, and the rest is as before
    generalize ht : s.withSys (fun t => { t with io := setFd _ _ s.host.io }) = t
    have hmemory : t.memory = s.memory := by rw [← ht]; rfl
    have hworld : t.host.world = s.host.world := by rw [← ht]; rfl
    have hword : ∀ p, word32 t p = word32 s p := by
      intro p
      unfold word32
      rw [hmemory]
    have hn : t.memory.size = s.memory.size := by rw [hmemory]
    refine (loadU32_accesses t _).field hn (Nat.add_le_add_left (show 16 ≤ 20 by decide) _)
      fun _ => ?_
    refine (loadU32_accesses t _).last hn rfl fun hargs => ?_
    have hwanted : (resultCell retv).In s.memory.size →
        AllIn s.memory.size (addrBlocks s argv retv 20) := by
      intro hcell
      simp only [addrBlocks, allIn_cons, allIn_nil, and_true]
      exact ⟨hargs, hin, hcell⟩
    rw [hword, hword, ← hworld]
    refine ends_call (fun _ hconnect => ?_) (fun e he => ?_)
    · rw [hconnect]
      dsimp only
      exact connected_ends os _ _ _ hn hwanted
    · rw [he]
      dsimp only
      rw [getErrno_bind, called_errno he]
      split
      · have hio := congrArg (fun v => v.host.io) ht
        simp only [Vm.withSys_host] at hio
        rw [hio]
        exact ends_onIo' rfl fun io => ends_result hn hwanted
      · exact ends_failErrno hn hwanted
  · rw [if_neg haddr]
    exact ends_fail (by rw [ht]) (by decide)

theorem socketFailed_ends {t : Vm (Sys ω)} {wanted : List Block} (fd : ℕ)
    (hn : t.memory.size = s.memory.size)
    (hwanted : (resultCell retv).In s.memory.size → AllIn s.memory.size wanted) :
    Uses s.memory.size (ifReturns (deallocFd os.evtSize fd t.host.io) [resultCell retv]) wanted
      excused (socketFailed os fd retv.toNat t) := by
  unfold socketFailed
  refine ends_onIo' rfl fun io => ?_
  rw [getErrno_bind]
  exact ends_fail_late hn hwanted

/-- What `socket()` gives, and whether it comes to something. -/
theorem openSocket_run (kind : UInt64) (s : Vm (Sys ω)) :
    ∃ r s', openSocket os kind s = .ok (r, s') ∧ s'.memory = s.memory ∧
      s'.host.io = s.host.io ∧ (r = none → socketOpens os kind s.host.world = false) ∧
      ∀ fd, r = some fd →
        socketOpens os kind s.host.world = (os.setsockopt fd s'.host.world).1.toBool := by
  have hcall : ∀ udp, (kind = 1 ∨ kind = 2) → decide (kind = 2) = udp →
      ∃ r s', call (os.socket udp) s = .ok (r, s') ∧ s'.memory = s.memory ∧
        s'.host.io = s.host.io ∧ (r = none → socketOpens os kind s.host.world = false) ∧
        ∀ fd, r = some fd →
          socketOpens os kind s.host.world = (os.setsockopt fd s'.host.world).1.toBool := by
    intro udp hkind hudp
    cases hsocket : os.socket udp s.host.world with
    | mk r w =>
        cases r <;>
          exact ⟨_, _, call_run _ _, rfl, rfl,
            by simp [socketOpens, hkind, hudp, hsocket, Except.toOption],
            by simp [socketOpens, called, hkind, hudp, hsocket, Except.toOption]⟩
  unfold openSocket
  by_cases htcp : kind = 1
  · rw [if_pos htcp]
    exact hcall false (.inl htcp) (by rw [htcp]; rfl)
  by_cases hudp : kind = 2
  · rw [if_neg htcp, if_pos hudp]
    exact hcall true (.inr hudp) (by rw [hudp]; rfl)
  · rw [if_neg htcp, if_neg hudp]
    refine ⟨none, s, rfl, rfl, rfl, fun _ => ?_, fun fd h => by cases h⟩
    rw [socketOpens, if_neg (by simp [htcp, hudp])]

theorem sysSocket_ends (h : ArgsReach s argv 8 retv) :
    Uses s.memory.size (socketBlocks os s argv retv) [⟨argv, 8, 8⟩, resultCell retv]
      excused (sysSocket os argv retv s) := by
  unfold sysSocket socketBlocks
  rw [argsRet_accepted deref_checks h]
  refine ends_onIo (fun e he => ?_) fun fd io hio => ?_
  · rw [he]
    exact allIn_nil _
  rw [hio]
  refine ends_setErrno ?_
  refine (loadU64_accesses _ _).last rfl rfl fun hargs => ?_
  have hwanted : (resultCell retv).In s.memory.size →
      AllIn s.memory.size [⟨argv, 8, 8⟩, resultCell retv] := fun hcell => by simp [hargs, hcell]
  generalize ht : Vm.withSys (Vm.withSys s _) _ = t
  have hmemory : t.memory = s.memory := by rw [← ht]; rfl
  have hio' : t.host.io = io := by rw [← ht]; rfl
  have hworld : t.host.world = s.host.world := by rw [← ht]; rfl
  obtain ⟨r, t', hrun, hmemory', hio'', hnone, hsome⟩ := openSocket_run os (word64 t argv.toNat) t
  have hn : t'.memory.size = s.memory.size := by rw [hmemory', hmemory]
  have hword : word64 t argv.toNat = word64 s argv.toNat := by
    unfold word64
    rw [hmemory]
  rw [bind_of_ok hrun]
  rw [hword, hworld] at hnone hsome
  rw [← hio', ← hio'']
  cases r with
  | none =>
      rw [hnone rfl, if_neg Bool.false_ne_true]
      exact socketFailed_ends os fd hn hwanted
  | some sockfd =>
      rw [hsome sockfd rfl]
      refine ends_call (fun u hok => ?_) (fun e he => ?_)
      · rw [hok, if_pos (show (Except.ok u : Except Int32 Unit).toBool = true from rfl),
          ite_isNone_some, bind_of_ok (call_run _ _)]
        exact ends_onIo_ok (ends_result hn hwanted)
      · rw [he,
          if_neg (show ¬ (Except.error e : Except Int32 Unit).toBool = true from Bool.false_ne_true),
          if_pos (show (none : Option Unit).isNone = true from rfl), bind_of_ok (call_run _ _)]
        exact socketFailed_ends os fd (t := called _ (called _ t')) hn hwanted

/-! ## Calls on a path -/

/-- **The beginning of a call on a path.** -/
theorem ends_setupSysFsCall {size : UInt32} {rest wanted : List Block}
    {f : Option (ℕ × ℕ × ℕ) → SysM ω Unit} (h : ArgsReach s argv size retv)
    (hnone : f none = pure ())
    (hsome : argv.toNat + 4 ≤ s.memory.size → PathAccepted s argv →
      Uses s.memory.size rest wanted excused
        (f (some (argv.toNat, retv.toNat, (word32 s argv.toNat).toNat)) s)) :
    Uses s.memory.size (pathBlocks s argv retv size rest) wanted
      excused ((setupSysFsCall argv retv size >>= f) s) := by
  have hfail : ∀ e : Int32, e ∈ earlyErrors → ∀ t : Vm (Sys ω), t.memory.size = s.memory.size →
      Uses s.memory.size [resultCell retv] wanted excused
        (((fail e retv.toNat 1 >>= fun _ => pure none) >>= f) t) := by
    intro e he t ht
    rw [bind_assoc]
    refine ends_fail_then ht fun _ t' _ herrorNo => ?_
    rw [pure_bind, hnone]
    exact ends_pure (allIn_nil _) (.inr (herrorNo ▸ he))
  unfold setupSysFsCall pathBlocks
  rw [bind_assoc, argsRet_accepted deref_checks h]
  dsimp only
  rw [bind_assoc]
  refine (loadU32_accesses s _).last rfl rfl fun hargs => ?_
  rw [bind_assoc]
  refine deref_checks.ends (fun hpath => ?_) (fun hpath t ht _ _ => ?_)
  · dsimp only
    rw [bind_assoc]
    refine ends_ensureNulTermStr (fun hterm => ?_) (fun hterm => ?_)
    · have hgiven : PathAccepted s argv := ⟨hpath, hterm⟩
      rw [if_pos hgiven, if_pos rfl, pure_bind]
      exact hsome hargs hgiven
    · have hgiven : ¬ PathAccepted s argv := fun hgiven => hterm hgiven.2
      rw [if_neg hgiven, if_neg Bool.false_ne_true]
      exact hfail eINVAL (by decide) _ rfl
  · have hgiven : ¬ PathAccepted s argv := fun hgiven => hpath hgiven.1
    rw [if_neg hgiven]
    exact hfail eFAULT (by decide) t (by rw [ht])

/-- `sys_fs_unlink`, `sys_fs_mkdir` and `sys_fs_rmdir` -/
theorem onPath_ends (g : List UInt8 → ω → Except Int32 Unit × ω) (h : ArgsReach s argv 4 retv) :
    Uses s.memory.size (pathBlocks s argv retv 4 [resultCell retv]) [⟨argv, 4, 4⟩, resultCell retv]
      excused (onPath g argv retv s) := by
  unfold onPath
  refine ends_setupSysFsCall h rfl fun hargs hpath => ?_
  have hwanted : (resultCell retv).In s.memory.size →
      AllIn s.memory.size [⟨argv, 4, 4⟩, resultCell retv] := by
    intro hcell
    simp only [allIn_cons, allIn_nil, and_true]
    exact ⟨hargs, hcell⟩
  refine ends_readStr hpath.2 ?_
  exact ends_call (fun _ _ => ends_result rfl hwanted) (fun _ _ => ends_failErrno rfl hwanted)

theorem sysFsOpen_ends (h : ArgsReach s argv 12 retv) :
    Uses s.memory.size (fsOpenBlocks os s argv retv) [⟨argv, 12, 12⟩, resultCell retv]
      excused (sysFsOpen os argv retv s) := by
  unfold sysFsOpen fsOpenBlocks
  refine ends_setupSysFsCall h rfl fun _ hpath => ?_
  refine (loadU64_accesses s _).last rfl rfl fun hargs => ?_
  refine ends_onIo (fun e he => ?_) fun fd io hio => ?_
  · rw [he]
    exact allIn_nil _
  rw [hio]
  generalize ht : Vm.withSys s _ = t
  have hmemory : t.memory = s.memory := by rw [← ht]; rfl
  have hworld : t.host.world = s.host.world := by rw [← ht]; rfl
  have hio' : t.host.io = io := by rw [← ht]; rfl
  have hn : t.memory.size = s.memory.size := by rw [hmemory]
  have hterm : NulTerm t (word32 s argv.toNat).toNat := by
    rw [NulTerm, hmemory]
    exact hpath.2
  have hwanted : (resultCell retv).In s.memory.size →
      AllIn s.memory.size [⟨argv, 12, 12⟩, resultCell retv] := fun hcell => by simp [hargs, hcell]
  refine ends_readStr hterm ?_
  rw [bind_of_ok (call_run _ _), hmemory, hworld, ← hio']
  refine ends_onIo_ok ?_
  dsimp only
  split
  · exact ends_onIo' rfl fun io => ends_failErrno hn hwanted
  · exact ends_result hn hwanted

theorem toLE_zero (n : ℕ) : Bytes.toLE n 0 = List.replicate n 0 := by
  induction n with
  | zero => rfl
  | succ n ih =>
      rw [Bytes.toLE, Nat.zero_div, ih, List.replicate_succ]
      rfl

/-- Where zeros are stored, a string keeps a terminator. -/
theorem nulTerm_stored {p q n : ℕ} (hterm : NulTerm s q) :
    NulTerm (stored s p (Bytes.toLE n 0)) q := by
  unfold stored
  cases hwrite : s.memory.write p (Bytes.toLE n 0) with
  | none => exact hterm
  | some memory =>
      have hbytes := Segment.write_bytes hwrite
      rw [NulTerm, List.mem_iff_getElem?] at hterm ⊢
      rcases hterm with ⟨i, hi⟩
      refine ⟨i, ?_⟩
      rw [List.getElem?_drop] at hi ⊢
      rw [Option.getD_some, Bytes.write_getElem? hbytes]
      split
      · next hin =>
          rw [Bytes.length_toLE] at hin
          rw [toLE_zero, List.getElem?_replicate, if_pos (by omega)]
      · exact hi

theorem sysFsStat_ends (h : ArgsReach s argv 8 retv) :
    Uses s.memory.size (fsStatBlocks os s argv retv) [⟨argv, 8, 8⟩, resultCell retv]
      excused (sysFsStat os argv retv s) := by
  unfold sysFsStat fsStatBlocks
  refine ends_setupSysFsCall h rfl fun _ hpath => ?_
  refine (loadU32_accesses s _).last rfl rfl fun hargs => ?_
  refine derefMem_checks.ends (fun hstat => ?_) (fun hstat t ht _ _ => ?_)
  · rw [if_pos hstat]
    refine (storeU64_accesses _ _ _).last rfl rfl fun hcell => ?_
    have hwanted : AllIn s.memory.size [⟨argv, 8, 8⟩, resultCell retv] := by simp [hargs, hcell]
    rw [show UInt64.toNat 0 = 0 from rfl]
    refine ends_readStr (nulTerm_stored hpath.2) ?_
    refine ends_call (fun bytes hbytes => ?_) (fun e he => ?_)
    · rw [stored_host] at hbytes
      rw [hbytes]
      refine ends_tail ((writeMemBytes_accesses _ _ _).last (stored_size ..) rfl fun _ => ?_)
      exact ends_pure (allIn_nil _) (.inl hwanted)
    · rw [stored_host] at he
      rw [he]
      refine ends_tail (CallEnds.uncons hcell
        (ends_failErrno_then (stored_size ..) fun _ _ _ _ => ?_))
      exact ends_pure (allIn_nil _) (.inl hwanted)
  · rw [if_neg hstat]
    exact ends_fail (by rw [ht]) (by decide)

/-! ## Memory -/

theorem ends_setMemory {β : Type} {fits : Prop} {Q : Vm (Sys ω) → Prop} {memory : Segment}
    {f : Unit → SysM ω β} (h : CallEnds fits excused Q (f () { s with memory })) :
    CallEnds fits excused Q ((setMemory memory >>= f) s) := h

theorem reallocMemory_ends {wanted : List Block} {size : ℕ} (hret : Reaches s retv 8)
    (hwanted : (resultCell retv).In s.memory.size → AllIn s.memory.size wanted) :
    Uses s.memory.size (reallocBlocks os s retv size) wanted
      excused (reallocMemory os size retv.toNat s) := by
  have hlow := s.memory.size_lt'
  rw [reaches_iff, UInt32.toNat_add] at hret
  unfold reallocMemory reallocBlocks
  by_cases hzero : size = 0
  · rw [if_pos hzero, if_pos hzero]
    exact ends_ub (by decide) (allIn_nil _)
  rw [if_neg hzero, if_neg hzero]
  refine ends_ask ?_
  unfold takenBytes
  by_cases hmoved : (os.realloc size s.host.world).1 = true
  · rw [if_pos hmoved]
    refine ends_get ?_
    by_cases hsize : size < 2 ^ 32
    · rw [if_pos hsize, if_pos ⟨hsize, hmoved⟩]
      refine ends_setMemory (ends_tail ((storeU64_accesses _ _ _).ends ?_ fun hin => ?_))
      · -- the cell is behind the new end
        rw [size_resizeSegment, Nat.mod_eq_of_lt hsize]
        intro hout
        refine .inl fun hfits => ?_
        have hcell : retv.toNat + (8 + (s.memory.size - size)) ≤ s.memory.size :=
          (allIn_cons.1 hfits).1
        omega
      · rw [size_resizeSegment, Nat.mod_eq_of_lt hsize] at hin
        have h8 : (8 : UInt32).toNat = 8 := rfl
        have hcell : retv.toNat + 8 ≤ s.memory.size := by omega
        refine ends_pure (allIn_cons.2 ⟨?_, allIn_nil _⟩) (.inl (hwanted hcell))
        show retv.toNat + (8 + (s.memory.size - size)) ≤ s.memory.size
        omega
    · rw [if_neg hsize, if_neg fun hboth => hsize hboth.1]
      refine (storeU64_accesses _ _ _).last rfl rfl fun hcell => ends_get ?_
      exact .returns (allIn_nil _) (.inl (hwanted hcell))
  · rw [if_neg hmoved, if_neg fun hboth => hmoved hboth.2]
    exact ends_fail_late rfl hwanted

theorem sysMexpand_ends (h : ArgsReach s argv 8 retv) :
    Uses s.memory.size (mexpandBlocks os s argv retv) [⟨argv, 8, 8⟩, resultCell retv]
      excused (sysMexpand os argv retv s) := by
  unfold sysMexpand mexpandBlocks
  rw [argsRet_accepted derefMem_checks h]
  refine (loadU64_accesses s _).last rfl rfl fun hargs => ends_get ?_
  exact reallocMemory_ends os h.2 fun hcell => by simp [hargs, hcell]

theorem sysMretract_ends (h : ArgsReach s argv 8 retv) :
    Uses s.memory.size (mretractBlocks os s argv retv) [⟨argv, 8, 8⟩, resultCell retv]
      excused (sysMretract os argv retv s) := by
  unfold sysMretract mretractBlocks
  rw [argsRet_accepted derefMem_checks h]
  refine (loadU64_accesses s _).last rfl rfl fun hargs => ends_get ?_
  by_cases hlt : s.memory.size < (word64 s argv.toNat).toNat
  · rw [if_pos hlt, if_pos hlt]
    exact ends_fail rfl (by decide)
  · rw [if_neg hlt, if_neg hlt]
    exact reallocMemory_ends os h.2 fun hcell => by simp [hargs, hcell]

/-! ## Code and child processes -/

theorem sysOnexit_ends (h : ArgsReach s argv 8 retv) :
    Uses s.memory.size (onexitBlocks s argv retv) [⟨argv, 8, 24⟩, resultCell retv]
      excused (sysOnexit argv retv s) := by
  unfold sysOnexit onexitBlocks
  rw [argsRet_accepted derefMem_checks h]
  refine (loadU64_accesses s _).last rfl rfl fun _ => ?_
  refine deref_checks.ends (fun hcb => ?_) (fun hcb t ht _ _ => ?_)
  · rw [if_pos hcb, ite_isNone_some]
    refine (loadU64_accesses s _).last rfl rfl fun hargs => ends_get ?_
    have hwanted : (resultCell retv).In s.memory.size →
        AllIn s.memory.size [⟨argv, 8, 24⟩, resultCell retv] := fun hcell => by simp [hargs, hcell]
    split
    · exact ends_fail_late rfl hwanted
    · refine (loadU64_accesses s _).known rfl hargs
        (Nat.add_le_add_left (show 8 ≤ 24 by decide) _) (ends_get ?_)
      cases findProc (word64 s argv.toNat).toUInt32.toInt32 s.host.proc with
      | none => exact ends_fail_late rfl hwanted
      | some p =>
          refine ends_onProc (fun _ he => by cases he) fun proc _ => ?_
          exact ends_result rfl hwanted
  · rw [if_neg hcb]
    exact ends_fail (by rw [ht]) (by decide)

theorem forked_ends {t : Vm (Sys ω)} {wanted : List Block} (r : Option Pid)
    (hn : t.memory.size = s.memory.size)
    (hwanted : (resultCell retv).In s.memory.size → AllIn s.memory.size wanted) :
    Uses s.memory.size [resultCell retv] wanted excused
      (forked r retv.toNat t) := by
  unfold forked
  cases r with
  | none =>
      refine (storeU64_accesses t _ _).last hn rfl fun hcell => ?_
      exact .returns (allIn_nil _) (.inl (hwanted hcell))
  | some pid =>
      refine (storeU64_accesses t _ _).last hn rfl fun hcell => ?_
      refine ends_tail (ends_onProc (fun _ _ => allIn_nil _) fun _ _ => ?_)
      exact ends_pure (allIn_nil _) (.inl (hwanted hcell))

theorem sysCodecp_ends (h : ArgsReach s argv 20 retv)
    (hcopy : Block.In s.memory.size ⟨argv, 20, 20⟩ →
      (word64 s argv.toNat + word64 s (argv.toNat + 8)).toNat ≤ s.code.size →
      Reaches s (word32 s (argv.toNat + 16)) (word64 s (argv.toNat + 8)).toUInt32 →
      Bytes.read s.code.bytes (word64 s argv.toNat).toNat (word64 s (argv.toNat + 8)).toNat ≠ none →
      s.memory.size < (word32 s (argv.toNat + 16)).toNat + (word64 s (argv.toNat + 8)).toNat →
        excused) :
    Uses s.memory.size (codecpBlocks s argv retv) [⟨argv, 20, 20⟩, resultCell retv]
      excused (sysCodecp argv retv s) := by
  unfold sysCodecp codecpBlocks
  rw [argsRet_accepted derefMem_checks h]
  refine (loadU64_accesses s _).field rfl (Nat.add_le_add_left (show 8 ≤ 16 by decide) _)
    fun _ => ?_
  refine (loadU64_accesses s _).last rfl rfl fun _ => ends_get ?_
  by_cases hlt : s.code.size < (word64 s argv.toNat + word64 s (argv.toNat + 8)).toNat
  · rw [if_pos hlt, if_pos hlt]
    exact .returns (allIn_nil _) (.inr (by simp [earlyErrors]))
  rw [if_neg hlt, if_neg hlt]
  refine (loadU32_accesses s _).last rfl rfl fun hargs => ?_
  refine derefMem_checks.ends (fun hptr => ?_) (fun hptr t ht _ _ => ?_)
  · refine ends_get ?_
    cases hread : Bytes.read s.code.bytes (word64 s argv.toNat).toNat
        (word64 s (argv.toNat + 8)).toNat with
    | none =>
        rw [if_pos ⟨hptr, rfl⟩]
        exact ends_ub (by decide) (allIn_nil _)
    | some bytes =>
        rw [if_neg (by simp)]
        refine (writeMemBytes_accesses s _ _).sized (fun hout => ?_) ?_
        · rw [Bytes.read_length hread] at hout
          exact hcopy hargs (Nat.le_of_not_lt hlt) hptr (by rw [hread]; simp) hout
        · exact ends_result (stored_size ..) fun hcell => by simp [hargs, hcell]
  · rw [if_neg fun hboth => hptr hboth.1]
    exact ends_fail_late (by rw [ht]) fun hcell => by simp [hargs, hcell]

/-- The pointers of the array are read, and the strings. -/
theorem ends_execArgs {fits : Prop} {Q : Vm (Sys ω) → Prop} {argvR todo a : ℕ}
    {f : Option (List (List UInt8)) → SysM ω Unit}
    (hout : s.memory.size < argvR + 4 * (a + argsRead s argvR todo a) → excused)
    (h : ∀ r t, t.memory = s.memory → t.host = s.host → CallEnds fits excused Q (f r t)) :
    CallEnds fits excused Q ((execArgs argvR todo a >>= f) s) := by
  induction todo generalizing a f with
  | zero =>
      unfold execArgs
      rw [pure_bind]
      exact h _ s rfl rfl
  | succ todo ih =>
      unfold argsRead at hout
      unfold execArgs
      rw [bind_assoc]
      refine (loadU32_accesses s _).sized (fun hlt => hout ?_) ?_
      · dsimp only
        split <;> omega
      rw [bind_assoc]
      refine derefMem_checks.ends (fun hreach => ?_) (fun _ t ht ht' _ => ?_)
      · dsimp only
        rw [bind_assoc]
        refine ends_ensureNulTermStr (fun hterm => ?_) (fun _ => ?_)
        · rw [if_pos rfl, bind_assoc]
          refine ends_readStr hterm ?_
          rw [bind_assoc]
          refine ih (fun hlt => hout ?_) fun r t ht ht' => ?_
          · dsimp only
            rw [if_pos ⟨hreach, hterm⟩]
            omega
          · cases r with
            | none => rw [pure_bind]; exact h _ t ht ht'
            | some strs => rw [pure_bind]; exact h _ t ht ht'
        · rw [if_neg Bool.false_ne_true, pure_bind]
          exact h _ _ rfl rfl
      · rw [pure_bind]
        exact h _ t ht ht'

theorem sysExec_ends (h : ArgsReach s argv 12 retv)
    (harray : Block.In s.memory.size ⟨argv, 12, 12⟩ → word64 s argv.toNat ≠ 0 →
      Reaches s (word32 s (argv.toNat + 8)) (word64 s argv.toNat * 4).toUInt32 →
      s.memory.size < (word32 s (argv.toNat + 8)).toNat +
        4 * argsRead s (word32 s (argv.toNat + 8)).toNat (word64 s argv.toNat).toNat 0 →
        excused) :
    Uses s.memory.size (execBlocks s argv retv) [⟨argv, 12, 12⟩, resultCell retv]
      excused (sysExec os argv retv s) := by
  unfold sysExec execBlocks
  rw [argsRet_accepted derefMem_checks h]
  refine (loadU64_accesses s _).last rfl rfl fun _ => ?_
  by_cases hzero : word64 s argv.toNat = 0
  · rw [if_pos hzero, if_pos hzero]
    exact ends_fail rfl (by decide)
  rw [if_neg hzero, if_neg hzero]
  refine (loadU32_accesses s _).last rfl rfl fun hargs => ?_
  have hwanted : (resultCell retv).In s.memory.size →
      AllIn s.memory.size [⟨argv, 12, 12⟩, resultCell retv] := fun hcell => by simp [hargs, hcell]
  refine derefMem_checks.ends (fun hreach => ?_) (fun _ t ht _ _ => ?_)
  · refine ends_execArgs (fun hlt => ?_) fun r t ht _ => ?_
    · rw [Nat.zero_add] at hlt
      exact harray hargs hzero hreach hlt
    · have hn : t.memory.size = s.memory.size := by rw [ht]
      cases r with
      | none => exact ends_result hn hwanted
      | some strs =>
          dsimp only
          rw [bind_of_ok (call_run _ _)]
          exact forked_ends _ hn hwanted
  · exact ends_result (by rw [ht]) hwanted

theorem runImage_ends {wanted : List Block} (code mem : List UInt8) (entryPt : UInt64)
    (hwanted : (resultCell retv).In s.memory.size → AllIn s.memory.size wanted) :
    Uses s.memory.size
      (if (os.setupImageGenDir s.host.world).1 = false then [] else [resultCell retv]) wanted
      excused (runImage os code mem entryPt retv.toNat s) := by
  unfold runImage
  refine ends_ask ?_
  cases (os.setupImageGenDir s.host.world).1 with
  | false => exact .stops (by decide) (allIn_nil _)
  | true =>
      rw [if_pos rfl, if_neg (by decide)]
      refine ends_call (fun _ _ => ?_) (fun _ _ => ?_)
      · dsimp only
        rw [bind_of_ok (call_run _ _)]
        exact forked_ends _ rfl hwanted
      · exact ends_result rfl hwanted

theorem sysRun_ends (h : ArgsReach s argv 32 retv)
    (hcode : Block.In s.memory.size ⟨argv, 32, 32⟩ → RunGiven s argv →
      s.memory.size < (word32 s argv.toNat).toNat + (word64 s (argv.toNat + 4)).toNat → excused)
    (hmem : Block.In s.memory.size ⟨argv, 32, 32⟩ → RunGiven s argv →
      s.memory.size < (word32 s (argv.toNat + 12)).toNat + (word64 s (argv.toNat + 16)).toNat →
        excused) :
    Uses s.memory.size (runBlocks os s argv retv) [⟨argv, 32, 32⟩, resultCell retv]
      excused (sysRun os argv retv s) := by
  unfold sysRun runBlocks
  rw [argsRet_accepted derefMem_checks h]
  refine (loadU32_accesses s _).field rfl (Nat.add_le_add_left (show 4 ≤ 32 by decide) _)
    fun _ => ?_
  refine (loadU64_accesses s _).field rfl (Nat.add_le_add_left (show 12 ≤ 32 by decide) _)
    fun _ => ?_
  refine (loadU32_accesses s _).field rfl (Nat.add_le_add_left (show 16 ≤ 32 by decide) _)
    fun _ => ?_
  refine (loadU64_accesses s _).field rfl (Nat.add_le_add_left (show 24 ≤ 32 by decide) _)
    fun _ => ?_
  refine (loadU64_accesses s _).last rfl rfl fun hargs => ?_
  have hwanted : (resultCell retv).In s.memory.size →
      AllIn s.memory.size [⟨argv, 32, 32⟩, resultCell retv] := fun hcell => by simp [hargs, hcell]
  by_cases hbad : word64 s (argv.toNat + 4) ≤ word64 s (argv.toNat + 24) ∨
      2 ^ 32 ≤ (word64 s (argv.toNat + 4)).toNat ∨ 2 ^ 32 ≤ (word64 s (argv.toNat + 16)).toNat
  · rw [if_pos hbad, if_neg fun hboth => hboth.1.1 hbad]
    exact ends_fail_late rfl hwanted
  rw [if_neg hbad]
  refine derefMem_checks.ends (fun hcodeRef => ?_) (fun hcodeRef t ht _ _ => ?_)
  · refine derefMem_checks.ends (fun hmemRef => ?_) (fun hmemRef t ht _ _ => ?_)
    · have hgiven : RunGiven s argv := ⟨hbad, hcodeRef, hmemRef⟩
      refine (readMemBytes_accesses s _ _).sized (hcode hargs hgiven) ?_
      refine (readMemBytes_accesses s _ _).sized (hmem hargs hgiven) ?_
      simp only [hgiven, true_and]
      exact runImage_ends os _ _ _ hwanted
    · rw [if_neg fun hboth => hmemRef hboth.1.2.2]
      exact ends_result (by rw [ht]) hwanted
  · rw [if_neg fun hboth => hcodeRef hboth.1.2.1]
    exact ends_result (by rw [ht]) hwanted

/-! ## Directories -/

/-- Where the pointer of `deref` comes from. -/
theorem deref_eq (s : Vm (Sys ω)) (ref size : UInt32) :
    deref ref size s = .ok (if Reaches s ref size then some ref.toNat else none, s) := by
  obtain ⟨hok, herror⟩ := of_exact (deref_exact s ref size)
  cases hrun : deref ref size s with
  | error e => exact (herror e hrun).elim
  | ok r =>
      obtain ⟨hs, ⟨hr, hreach⟩ | ⟨hr, hreach⟩⟩ := hok r.1 r.2 hrun
      · rw [if_neg hreach, ← hs, ← hr]
      · rw [if_pos hreach, ← hs, ← hr]

/-- **A count is stored**, if there is a place for it. -/
theorem ends_storeIf {Q : Vm (Sys ω) → Prop} {t : Vm (Sys ω)} {ref : UInt32} {v : UInt64}
    {bs : List Block} {f : Unit → SysM ω Unit} (hn : t.memory.size = s.memory.size)
    (h : ∀ t', t'.memory.size = s.memory.size →
      CallEnds (AllIn s.memory.size bs) excused Q (f () t')) :
    CallEnds (AllIn s.memory.size (countBlock s ref ++ bs)) excused Q
      ((storeIf (if Reaches s ref 4 then some ref.toNat else none) v >>= f) t) := by
  unfold countBlock storeIf
  by_cases hreach : Reaches s ref 4
  · rw [if_pos hreach, if_pos hreach]
    exact (storeU64_accesses t _ _).last hn rfl fun _ => h _ ((stored_size ..).trans hn)
  · rw [if_neg hreach, if_neg hreach]
    exact h t hn

section Packing

variable {bufLen : UInt64} {name : List UInt8} {errno : Int32} {names : List (List UInt8 × Int32)}
  {bufUsed : UInt32} {endOfBuf saved : ℕ}

/-- An error ends the loop. -/
theorem packing_failed (herrno : errno ≠ 0) :
    packing bufLen ((name, errno) :: names) bufUsed endOfBuf saved = (saved, true) := by
  rw [packing, if_pos herrno]

/-- A name that meets the pointers fails the `assert`. -/
theorem packing_met (herrno : ¬ errno ≠ 0)
    (htake : (bufUsed + UInt32.ofNat (name.length + 5)).toNat ≤ bufLen.toNat)
    (hmet : endOfBuf < name.length + 1 ∨ endOfBuf - (name.length + 1) ≤ 4 * saved) :
    packing bufLen ((name, errno) :: names) bufUsed endOfBuf saved = (saved, false) := by
  rw [packing, if_neg herrno, if_pos htake, if_pos hmet]

/-- A name that fits is stored. -/
theorem packing_take (herrno : ¬ errno ≠ 0)
    (htake : (bufUsed + UInt32.ofNat (name.length + 5)).toNat ≤ bufLen.toNat)
    (hmet : ¬ (endOfBuf < name.length + 1 ∨ endOfBuf - (name.length + 1) ≤ 4 * saved)) :
    packing bufLen ((name, errno) :: names) bufUsed endOfBuf saved =
      packing bufLen names (bufUsed + UInt32.ofNat (name.length + 5))
        (endOfBuf - (name.length + 1)) (saved + 1) := by
  rw [packing, if_neg herrno, if_pos htake, if_neg hmet]

/-- Any other name is only counted. -/
theorem packing_skip (herrno : ¬ errno ≠ 0)
    (htake : ¬ (bufUsed + UInt32.ofNat (name.length + 5)).toNat ≤ bufLen.toNat) :
    packing bufLen ((name, errno) :: names) bufUsed endOfBuf saved =
      packing bufLen names bufUsed endOfBuf saved := by
  rw [packing, if_neg herrno, if_neg htake]

end Packing

theorem packing_le (bufLen : UInt64) (names : List (List UInt8 × Int32)) (bufUsed : UInt32)
    (endOfBuf saved : ℕ) : saved ≤ (packing bufLen names bufUsed endOfBuf saved).1 := by
  induction names generalizing bufUsed endOfBuf saved with
  | nil => exact le_rfl
  | cons entry names ih =>
      obtain ⟨name, errno⟩ := entry
      by_cases herrno : errno ≠ 0
      · rw [packing_failed herrno]
      by_cases htake : (bufUsed + UInt32.ofNat (name.length + 5)).toNat ≤ bufLen.toNat
      · by_cases hmet : endOfBuf < name.length + 1 ∨ endOfBuf - (name.length + 1) ≤ 4 * saved
        · rw [packing_met herrno htake hmet]
        · rw [packing_take herrno htake hmet]
          exact (Nat.le_succ saved).trans (ih _ _ _)
      · rw [packing_skip herrno htake]
        exact ih _ _ _

/-- **A name is stored**, then its pointer and the zero pointer behind it. -/
theorem ends_storeName {fits : Prop} {Q : Vm (Sys ω) → Prop} {t : Vm (Sys ω)} {p q last v : ℕ}
    {bytes : List UInt8} {k : SysM ω ReadDir} {f : ReadDir → SysM ω Unit}
    (hn : t.memory.size = s.memory.size) (hname : s.memory.size < p + bytes.length → excused)
    (hpointer : s.memory.size < q + 4 → excused) (hlast : s.memory.size < last + 4 → excused)
    (h : ∀ t', t'.memory.size = s.memory.size → CallEnds fits excused Q ((k >>= f) t')) :
    CallEnds fits excused Q (((do
      writeMemBytes p bytes
      storeMem q 4 v
      storeMem last 4 0
      k) >>= f) t) := by
  rw [bind_assoc]
  refine (writeMemBytes_accesses t _ _).sized (fun hlt => hname (hn ▸ hlt)) ?_
  have hn₁ := (stored_size t p bytes).trans hn
  rw [bind_assoc]
  refine (storeMem_accesses _ _ _ _).sized (fun hlt => hpointer (hn₁ ▸ hlt)) ?_
  rw [bind_assoc]
  refine (storeMem_accesses _ _ _ _).sized (fun hlt => hlast ?_) ?_
  · rwa [stored_size, hn₁] at hlt
  · refine h _ ?_
    rw [stored_size, stored_size, hn₁]

/-- The names are stored from the end of the buffer downwards, and the pointers from its start; the
last pointer may lie behind the end. -/
theorem ends_readDirLoop {fits : Prop} {Q : Vm (Sys ω) → Prop} {t : Vm (Sys ω)} {buf : ℕ}
    {bufLen : UInt64} {names : List (List UInt8 × Int32)} {d : ReadDir}
    {f : ReadDir → SysM ω Unit} (hn : t.memory.size = s.memory.size)
    (hcell : (resultCell retv).In s.memory.size) (hend : d.endOfBuf ≤ bufLen.toNat)
    (hout : ∀ saved, saved = (packing bufLen names d.bufUsed d.endOfBuf d.savedEntries).1 →
      d.savedEntries < saved →
      s.memory.size < buf + max bufLen.toNat (4 * saved + 4) → excused)
    (hstop : (packing bufLen names d.bufUsed d.endOfBuf d.savedEntries).2 = false → fits)
    (h : (packing bufLen names d.bufUsed d.endOfBuf d.savedEntries).2 = true → ∀ d' t',
      t'.memory.size = s.memory.size → CallEnds fits excused Q (f d' t')) :
    CallEnds fits excused Q ((readDirLoop buf bufLen retv.toNat names d >>= f) t) := by
  induction names generalizing d t with
  | nil =>
      unfold readDirLoop
      rw [pure_bind]
      exact h rfl d t hn
  | cons entry names ih =>
      obtain ⟨name, errno⟩ := entry
      unfold readDirLoop
      rw [bind_assoc]
      refine ends_setErrno ?_
      generalize ht₀ : Vm.withSys t _ = t₀
      have hn₀ : t₀.memory.size = s.memory.size := by rw [← ht₀]; exact hn
      by_cases herrno : errno ≠ 0
      · rw [packing_failed herrno] at h
        rw [if_pos herrno, bind_assoc]
        unfold fail
        rw [bind_assoc]
        refine ends_setErrorNo ?_
        refine (storeU64_accesses _ _ _).known hn₀ hcell le_rfl ?_
        rw [pure_bind]
        exact h rfl _ _ ((stored_size ..).trans hn₀)
      rw [if_neg herrno]
      dsimp only
      by_cases htake : (d.bufUsed + UInt32.ofNat (name.length + 5)).toNat ≤ bufLen.toNat
      · rw [if_pos htake]
        by_cases hmet : d.endOfBuf < name.length + 1 ∨
            d.endOfBuf - (name.length + 1) ≤ 4 * d.savedEntries
        · rw [packing_met herrno htake hmet] at hstop
          rw [if_pos hmet, bind_of_error (show (ub TableFault.abort.toUb : SysM ω ReadDir) _ = _
            from rfl)]
          exact .stops (by decide) (hstop rfl)
        · rw [packing_take herrno htake hmet] at hout hstop h
          have hle := packing_le bufLen names (d.bufUsed + UInt32.ofNat (name.length + 5))
            (d.endOfBuf - (name.length + 1)) (d.savedEntries + 1)
          have hout := hout _ rfl hle
          rw [if_neg hmet]
          refine ends_storeName hn₀ (fun hlt => hout ?_) (fun hlt => hout ?_)
            (fun hlt => hout ?_) fun t' ht' => ih ht' ?_ ?_ hstop h
          · rw [List.length_append, List.length_singleton] at hlt
            omega
          · omega
          · omega
          · dsimp only
            omega
          · rintro saved rfl -
            exact hout
      · rw [packing_skip herrno htake] at hout hstop h
        rw [if_neg htake]
        exact ih hn₀ hend hout hstop h

/-- Where there is no buffer, no name is stored. -/
theorem packing_nowhere (bufLen : UInt64) (names : List (List UInt8 × Int32)) (bufUsed : UInt32)
    (saved : ℕ) : (packing bufLen names bufUsed 0 saved).1 = saved := by
  induction names generalizing bufUsed saved with
  | nil => rfl
  | cons entry names ih =>
      obtain ⟨name, errno⟩ := entry
      by_cases herrno : errno ≠ 0
      · rw [packing_failed herrno]
      by_cases htake : (bufUsed + UInt32.ofNat (name.length + 5)).toNat ≤ bufLen.toNat
      · rw [packing_met herrno htake (.inl (Nat.succ_pos _))]
      · rw [packing_skip herrno htake]
        exact ih _ _

/-- **The buffer is checked**, if there is one. -/
theorem ends_readDirBuf {wanted bs : List Block} {bufRef : UInt32} {bufLen : UInt64}
    {g : Option (Option ℕ) → SysM ω Unit} (hnone : g none = pure ())
    (hsome : (0 < bufLen → Reaches s bufRef bufLen.toUInt32) →
      Uses s.memory.size bs wanted excused
        (g (some (if 0 < bufLen then some bufRef.toNat else none)) s)) :
    Uses s.memory.size
      (if 0 < bufLen ∧ ¬ Reaches s bufRef bufLen.toUInt32 then [resultCell retv] else bs)
      wanted excused
      ((readDirBuf bufRef bufLen retv.toNat >>= g) s) := by
  unfold readDirBuf
  by_cases hpos : 0 < bufLen
  · rw [if_pos hpos] at hsome ⊢
    rw [bind_assoc]
    refine deref_checks.ends (fun hbuf => ?_) (fun hbuf t ht _ _ => ?_)
    · rw [if_neg fun hboth => hboth.2 hbuf]
      dsimp only
      rw [pure_bind]
      exact hsome fun _ => hbuf
    · rw [if_pos ⟨hpos, hbuf⟩]
      dsimp only
      rw [bind_assoc]
      refine ends_fail_then (by rw [ht]) fun _ t' _ herrorNo => ?_
      rw [pure_bind, hnone]
      exact ends_pure (allIn_nil _) (.inr (herrorNo ▸ by decide))
  · rw [if_neg hpos] at hsome ⊢
    rw [if_neg fun hboth => hpos hboth.1, pure_bind]
    exact hsome fun h => absurd h hpos

theorem sysFsReaddir_ends (h : ArgsReach s argv 28 retv)
    (hbuffer : ∀ names saved,
      Block.In s.memory.size ⟨argv, 28, 28⟩ → (resultCell retv).In s.memory.size →
      PathAccepted s argv →
      (os.opendir (stringAt s.memory (word32 s argv.toNat).toNat) s.host.world).1 = .ok names →
      saved = (packing (word64 s (argv.toNat + 8)) names 0
        (word64 s (argv.toNat + 8)).toNat 0).1 → 0 < saved →
      Reaches s (word32 s (argv.toNat + 4)) (word64 s (argv.toNat + 8)).toUInt32 →
      s.memory.size < (word32 s (argv.toNat + 4)).toNat +
        max (word64 s (argv.toNat + 8)).toNat (4 * saved + 4) → excused) :
    Uses s.memory.size (fsReaddirBlocks os s argv retv) [⟨argv, 28, 28⟩, resultCell retv]
      excused (sysFsReaddir os argv retv s) := by
  unfold sysFsReaddir fsReaddirBlocks
  refine ends_setupSysFsCall h rfl fun _ hpath => ?_
  refine (loadU32_accesses s _).field rfl (Nat.add_le_add_left (show 8 ≤ 28 by decide) _)
    fun _ => ?_
  refine (loadU64_accesses s _).field rfl (Nat.add_le_add_left (show 16 ≤ 28 by decide) _)
    fun _ => ?_
  refine (loadU32_accesses s _).field rfl (Nat.add_le_add_left (show 20 ≤ 28 by decide) _)
    fun _ => ?_
  refine (loadU32_accesses s _).field rfl (Nat.add_le_add_left (show 24 ≤ 28 by decide) _)
    fun _ => ?_
  refine (loadU32_accesses s _).last rfl rfl fun hargs => ?_
  have hwanted : (resultCell retv).In s.memory.size →
      AllIn s.memory.size [⟨argv, 28, 28⟩, resultCell retv] := fun hcell => by simp [hargs, hcell]
  refine ends_readDirBuf rfl fun hbuf => ?_
  dsimp only
  rw [bind_of_ok (deref_eq _ _ _), bind_of_ok (deref_eq _ _ _), bind_of_ok (deref_eq _ _ _)]
  by_cases hnowhere : ¬ 0 < word64 s (argv.toNat + 8) ∧ ¬ Reaches s (word32 s (argv.toNat + 24)) 4
  · rw [if_pos hnowhere, if_pos (by simp [hnowhere.1, hnowhere.2])]
    exact ends_fail_late rfl hwanted
  rw [if_neg hnowhere, if_neg (by
    rintro ⟨hbuf', hmin⟩
    refine hnowhere ⟨fun hpos => ?_, fun hreach => ?_⟩
    · rw [if_pos hpos] at hbuf'
      cases hbuf'
    · rw [if_pos hreach] at hmin
      cases hmin)]
  refine ends_readStr hpath.2 ?_
  refine ends_call (fun names hnames => ?_) (fun e he => ?_)
  · rw [hnames]
    refine (storeU64_accesses _ _ _).last rfl rfl fun hcell => ends_setErrno (ends_setErrorNo ?_)
    refine ends_readDirLoop (stored_size ..) hcell le_rfl ?_ (fun hstop => ?_) fun hgo d t ht => ?_
    · rintro saved hsaved hlt hout
      by_cases hpos : 0 < word64 s (argv.toNat + 8)
      · rw [if_pos hpos] at hout
        exact hbuffer names saved hargs hcell hpath hnames hsaved hlt (hbuf hpos) hout
      · have hzero : (word64 s (argv.toNat + 8)).toNat = 0 :=
          Nat.eq_zero_of_not_pos fun h => hpos (UInt64.lt_iff_toNat_lt.2 h)
        dsimp only at hsaved hlt
        rw [hzero, packing_nowhere] at hsaved
        omega
    · rw [if_neg (by rw [hstop]; exact Bool.false_ne_true)]
      exact allIn_nil _
    · rw [if_pos hgo]
      refine ends_storeIf ht fun t ht => ends_storeIf ht fun t ht => ?_
      rw [← List.append_nil (countBlock s (word32 s (argv.toNat + 24)))]
      refine ends_tail (ends_storeIf ht fun t ht => ?_)
      exact ends_pure (allIn_nil _) (.inl (hwanted hcell))
  · rw [he]
    exact ends_failErrno rfl hwanted

end Calls

end BvgzVm
