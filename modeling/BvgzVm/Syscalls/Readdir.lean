import BvgzVm.Lib.TwoEnded
import BvgzVm.Syscalls.CodeCopy

set_option autoImplicit false

/-! # Directories that are read

`fs_readdir` fills the buffer of the guest from both ends: the names from the end on, their
addresses from the front on. The check for space leaves out the zero address behind the last one,
and without an entry there is none (`readdir_iff`).
-/

namespace BvgzVm

open Stateful Std.Do TwoEnded

set_option mvcgen.warning false

variable {ω : Type}

/-! ## The law -/

/-- The blocks do not overlap. -/
def Separate (p n q m : ℕ) : Prop := p + n ≤ q ∨ q + m ≤ p

/-- The arguments of `fs_readdir`. -/
structure ReaddirArgs where
  buffer : UInt32
  len : UInt64
  saved : UInt32
  total : UInt32
  min : UInt32

/-- The result cells. -/
def ReaddirArgs.cells (r : ReaddirArgs) (retv : UInt32) : List ℕ :=
  [retv.toNat, r.saved.toNat, r.total.toNat, r.min.toNat]

/-- A call of `fs_readdir` with a buffer and with cells for its results, for a directory with these
names. The buffer does not overlap the cells. -/
structure ReaddirCall (os : Os ω) (vm : Vm (Sys ω)) (argv retv : UInt32) (r : ReaddirArgs)
    (names : List (List UInt8)) : Prop where
  args : InMemory vm argv 28
  path : ∃ path, PathPasses vm argv 28 retv path ∧
    (os.opendir ((vm.memory.bytes.drop path.toNat).takeWhile (· ≠ 0)) vm.host.world).1 =
      .ok (names.map (fun name => (name, 0)))
  loadBuffer : vm.memory.load (argv.toNat + 4) 4 = some r.buffer.toNat
  loadLen : vm.memory.load (argv.toNat + 8) 8 = some r.len.toNat
  loadSaved : vm.memory.load (argv.toNat + 16) 4 = some r.saved.toNat
  loadTotal : vm.memory.load (argv.toNat + 20) 4 = some r.total.toNat
  loadMin : vm.memory.load (argv.toNat + 24) 4 = some r.min.toNat
  buffer : 0 < r.len → InMemory vm r.buffer r.len.toNat
  cells : ∀ c ∈ r.cells retv, c + 8 ≤ vm.memory.size ∧ Separate c 8 r.buffer.toNat r.len.toNat
  counts : Separate r.saved.toNat 8 r.total.toNat 8 ∧ Separate r.saved.toNat 8 r.min.toNat 8 ∧
    Separate r.total.toNat 8 r.min.toNat 8
  names : ∀ name ∈ names, name ≠ [] ∧ 0 ∉ name

/-- The bytes that all entries take, with the zero address. -/
def requiredLen (names : List (List UInt8)) : ℕ := 4 + total names

/-- The buffer starts with the addresses of these entries and a zero address, and each address is
that of a copy of the name, inside the buffer. -/
structure Packed (s : Segment) (buffer len : ℕ) (entries : List (List UInt8)) : Prop where
  room : 4 * (entries.length + 1) ≤ len
  zero : s.load (buffer + 4 * entries.length) 4 = some 0
  entry : ∀ (i : ℕ) (name : List UInt8), entries[i]? = some name →
    ∃ p, s.load (buffer + 4 * i) 4 = some p ∧ buffer ≤ p ∧ p + name.length + 1 ≤ buffer + len ∧
      Bytes.read s.bytes p (name.length + 1) = some (name ++ [0])

/-- The call writes the buffer and the result cells only; entries of the directory are packed into
the buffer, and the results are their number, the number of all entries and the smallest length for
all of them. -/
def ReaddirLaw (vm : Vm (Sys ω)) (retv : UInt32) (r : ReaddirArgs) (names : List (List UInt8))
    (run : Except Ub (Unit × Vm (Sys ω))) : Prop :=
  ∃ vm' entries, run = .ok ((), vm') ∧ entries.Sublist names ∧
    (∀ k < vm.memory.size, (∀ c ∈ r.cells retv, k < c ∨ c + 8 ≤ k) →
      (k < r.buffer.toNat ∨ r.buffer.toNat + r.len.toNat ≤ k) →
        vm'.memory.bytes[k]? = vm.memory.bytes[k]?) ∧
    (0 < r.len → Packed vm'.memory r.buffer.toNat r.len.toNat entries) ∧
    vm'.memory.load r.saved.toNat 8 = some entries.length ∧
    vm'.memory.load r.total.toNat 8 = some names.length ∧
    vm'.memory.load r.min.toNat 8 = some (requiredLen names) ∧
    (entries.length = names.length ↔ requiredLen names ≤ r.len.toNat)

/-- The entries that fit one after the other. -/
def fitting (r : ReaddirArgs) (names : List (List UInt8)) : List (List UInt8) :=
  greedy r.len.toNat 0 names

/-- There is room for the zero address behind the entries that fit; without an entry, it is there
already; and the length for all entries has 32 bits. -/
structure ReaddirExact (vm : Vm (Sys ω)) (r : ReaddirArgs) (names : List (List UInt8)) : Prop where
  required : requiredLen names < 2 ^ 32
  nonempty : names = [] → 4 ≤ r.len.toNat
  room : fitting r names ≠ [] → requiredLen (fitting r names) ≤ r.len.toNat
  zero : fitting r names = [] → 0 < r.len →
    4 ≤ r.len.toNat ∧ vm.memory.load r.buffer.toNat 4 = some 0

/-! ## Steps -/

/-- The run ends with these bytes in memory and a value with `Q`, or fails where there are none. -/
def EndsWith {β : Type} (Q : β → Prop) (result : Option (List UInt8))
    (run : Except Ub (β × Vm (Sys ω))) : Prop :=
  match result with
  | some bytes => ∃ b vm', run = .ok (b, vm') ∧ Q b ∧ vm'.memory.bytes = bytes
  | none => ∃ e, run = .error e

theorem EndsWith.mono {β : Type} {Q Q' : β → Prop} {result : Option (List UInt8)}
    {run : Except Ub (β × Vm (Sys ω))} (h : EndsWith Q result run) (himp : ∀ b, Q b → Q' b) :
    EndsWith Q' result run := by
  cases result with
  | none => exact h
  | some bytes =>
      rcases h with ⟨b, vm', hrun, hb, hbytes⟩
      exact ⟨b, vm', hrun, himp b hb, hbytes⟩

/-- The bytes after a run that has ended. -/
theorem EndsWith.of_ok {β : Type} {Q : β → Prop} {result : Option (List UInt8)} {b : β}
    {vm' : Vm (Sys ω)} (h : EndsWith Q result (.ok (b, vm'))) :
    result = some vm'.memory.bytes := by
  cases result with
  | none =>
      rcases h with ⟨e, herror⟩
      cases herror
  | some bytes =>
      rcases h with ⟨b', vm'', hok, -, hbytes⟩
      rw [(Prod.mk.inj (Except.ok.inj hok)).2, hbytes]

/-- A store, and what follows it. -/
theorem EndsWith.write {β : Type} {Q : β → Prop} {f : Unit → SysM ω β}
    {g : List UInt8 → Option (List UInt8)} (p : ℕ) (bs : List UInt8) (vm : Vm (Sys ω))
    (h : ∀ vm' : Vm (Sys ω), EndsWith Q (g vm'.memory.bytes) (f () vm')) :
    EndsWith Q ((Bytes.write vm.memory.bytes p bs).bind g)
      ((writeMemBytes p bs >>= f : SysM ω β) vm) := by
  cases hwrite : vm.memory.write p bs with
  | none =>
      have hnone : Bytes.write vm.memory.bytes p bs = none := by
        rw [← Option.isNone_iff_eq_none, ← Option.not_isSome, Bool.not_eq_true', Bool.eq_false_iff]
        intro hsome
        have hlt := Segment.write_eq_none.1 hwrite
        exact absurd (Bytes.write_isSome.1 hsome) (Nat.not_le.2 hlt)
      rw [hnone]
      refine ⟨.deref, ?_⟩
      show ((writeMemBytes p bs : SysM ω Unit) vm >>= fun r => f r.1 r.2) = _
      unfold writeMemBytes
      rw [hwrite]
      rfl
  | some memory =>
      have hrun : (writeMemBytes p bs : SysM ω Unit) vm = .ok ((), { vm with memory }) := by
        unfold writeMemBytes
        rw [hwrite]
      rw [Segment.write_bytes hwrite, bind_of_ok hrun]
      exact h { vm with memory }

/-- A run, and what follows it. -/
theorem EndsWith.bind {β γ : Type} {Q : β → Prop} {Q' : γ → Prop} {result : Option (List UInt8)}
    {m : SysM ω β} {f : β → SysM ω γ} {g : List UInt8 → Option (List UInt8)} {vm : Vm (Sys ω)}
    (h : EndsWith Q result (m vm))
    (hf : ∀ b, Q b → ∀ vm' : Vm (Sys ω), EndsWith Q' (g vm'.memory.bytes) (f b vm')) :
    EndsWith Q' (result.bind g) ((m >>= f) vm) := by
  cases result with
  | none =>
      rcases h with ⟨e, hrun⟩
      refine ⟨e, ?_⟩
      show ((m vm) >>= fun r => f r.1 r.2) = _
      rw [hrun]
      rfl
  | some bytes =>
      rcases h with ⟨b, vm', hrun, hb, rfl⟩
      rw [bind_of_ok hrun]
      exact hf b hb vm'

theorem loadMem_run {p w v : ℕ} {vm : Vm (Sys ω)} (h : vm.memory.load p w = some v) :
    (loadMem p w : SysM ω ℕ) vm = .ok (v, vm) := by
  unfold loadMem
  rw [bind_of_ok (get_run vm), h]
  rfl

theorem loadU32_run {p : ℕ} {v : UInt32} {vm : Vm (Sys ω)}
    (h : vm.memory.load p 4 = some v.toNat) : (loadU32 p : SysM ω UInt32) vm = .ok (v, vm) := by
  unfold loadU32
  rw [bind_of_ok (loadMem_run h), UInt32.ofNat_toNat]
  rfl

theorem loadU64_run {p : ℕ} {v : UInt64} {vm : Vm (Sys ω)}
    (h : vm.memory.load p 8 = some v.toNat) : (loadU64 p : SysM ω UInt64) vm = .ok (v, vm) := by
  unfold loadU64
  rw [bind_of_ok (loadMem_run h), UInt64.ofNat_toNat]
  rfl

theorem deref_run {ref size : UInt32} {vm : Vm (Sys ω)} (h : Reaches vm ref size) :
    (deref ref size : SysM ω (Option ℕ)) vm = .ok (some ref.toNat, vm) := by
  show Except.ok ((derefMemPtr ref size vm.memory.size).map UInt32.toNat, vm) = _
  rw [show derefMemPtr ref size vm.memory.size = some ref from h]
  rfl

/-! ## The loop -/

/-- What the loop leaves behind, the buffer being filled as `packInto` says. -/
structure LoopEnd (k : ℕ) (entries names : List (List UInt8)) (d d' : ReadDir) : Prop where
  savedEntries : d'.savedEntries = k + entries.length
  totalEntries : d'.totalEntries = d.totalEntries + UInt32.ofNat names.length
  bufRequired : d'.bufRequired.toNat = d.bufRequired.toNat + total names

/-- **The loop over the names** packs those that fit, as long as no sum has more than 32 bits. The
induction is on the names; the strings start at `endOfBuf` and the addresses end below it. -/
theorem readDirLoop_packs {buf ret : ℕ} {len : UInt64} {names : List (List UInt8)} {d : ReadDir}
    (hused : d.bufUsed.toNat ≤ d.bufRequired.toNat)
    (hrequired : d.bufRequired.toNat + total names < 2 ^ 32)
    (hroom : d.endOfBuf + d.bufUsed.toNat = len.toNat + 4 * d.savedEntries)
    (hfits : d.bufUsed.toNat ≤ len.toNat) (vm : Vm (Sys ω)) :
    EndsWith (LoopEnd d.savedEntries (greedy len.toNat d.bufUsed.toNat names) names d)
      (packInto buf d.savedEntries d.endOfBuf (greedy len.toNat d.bufUsed.toNat names)
        vm.memory.bytes)
      ((readDirLoop buf len ret (names.map (fun name => (name, 0))) d : SysM ω ReadDir) vm) := by
  induction names generalizing d vm with
  | nil =>
      exact ⟨d, vm, rfl, ⟨rfl, (UInt32.add_zero _).symm, rfl⟩, rfl⟩
  | cons name names ih =>
      rw [total_cons] at hrequired
      have hneed : (d.bufUsed + UInt32.ofNat (name.length + 5)).toNat =
          d.bufUsed.toNat + entrySize name := by
        rw [UInt32.toNat_add, UInt32.toNat_ofNat_of_lt' (show _ < 2 ^ 32 by omega)]
        exact Nat.mod_eq_of_lt (show d.bufUsed.toNat + (name.length + 5) < 2 ^ 32 by omega)
      have hreq : (d.bufRequired + UInt32.ofNat (name.length + 5)).toNat =
          d.bufRequired.toNat + (name.length + 5) := by
        rw [UInt32.toNat_add, UInt32.toNat_ofNat_of_lt' (show _ < 2 ^ 32 by omega)]
        exact Nat.mod_eq_of_lt (by omega)
      have hcount : ∀ n : UInt32, n + UInt32.ofNat (name :: names).length =
          n + 1 + UInt32.ofNat names.length := by
        intro n
        rw [List.length_cons, Nat.add_comm, UInt32.ofNat_add, ← UInt32.add_assoc]
        rfl
      -- the machine behind `errno`, with the same memory
      generalize hvm : vm.withSys (fun s => { s with errno := 0 }) = vm₀
      have hmemory : vm₀.memory.bytes = vm.memory.bytes := by rw [← hvm]; rfl
      have herrno : (setErrno 0 : SysM ω Unit) vm = .ok ((), vm₀) := by rw [← hvm]; rfl
      rw [List.map_cons, readDirLoop, bind_of_ok herrno, if_neg (by simp), ← hmemory]
      dsimp only
      rw [hneed, greedy]
      by_cases htake : d.bufUsed.toNat + entrySize name ≤ len.toNat
      · have hsize : entrySize name = name.length + 5 := rfl
        rw [if_pos htake, if_pos htake, if_neg (by omega)]
        have hbehind := fun vm => @ih ⟨d.savedEntries + 1, d.totalEntries + 1,
          d.bufUsed + UInt32.ofNat (name.length + 5), d.bufRequired + UInt32.ofNat (name.length + 5),
          d.endOfBuf - (name.length + 1)⟩ (by rw [hneed, hreq]; omega) (by rw [hreq]; omega)
          (by rw [hneed]; dsimp only; omega) (by rw [hneed]; exact htake) vm
        rw [hneed] at hbehind
        rw [packInto]
        refine EndsWith.write _ _ vm₀ fun vm₁ => ?_
        refine EndsWith.write _ _ vm₁ fun vm₂ => ?_
        refine EndsWith.write _ _ vm₂ fun vm₃ => (hbehind vm₃).mono ?_
        rintro d' ⟨hsaved, htotal, hbufRequired⟩
        refine ⟨?_, ?_, ?_⟩
        · rw [hsaved, List.length_cons]
          dsimp only
          omega
        · rw [htotal, hcount]
        · rw [hbufRequired, hreq, total_cons]
          omega
      · rw [if_neg htake, if_neg htake]
        have hbehind := @ih { d with
            totalEntries := d.totalEntries + 1
            bufRequired := d.bufRequired + UInt32.ofNat (name.length + 5) }
          (by rw [hreq]; dsimp only; omega) (by rw [hreq]; omega) hroom hfits vm₀
        refine hbehind.mono ?_
        rintro d' ⟨hsaved, htotal, hbufRequired⟩
        refine ⟨hsaved, ?_, ?_⟩
        · rw [htotal, hcount]
        · rw [hbufRequired, hreq, total_cons]
          omega

/-! ## The call -/

/-- What is in memory is reached. -/
theorem InMemory.reaches {vm : Vm (Sys ω)} {ref : UInt32} {n : ℕ} {size : UInt32}
    (h : InMemory vm ref n) (hsize : size.toNat ≤ n) : Reaches vm ref size := by
  have hlt := vm.memory.size_lt'
  have hin : ref.toNat + n ≤ vm.memory.size := h
  rw [reaches_iff, UInt32.toNat_add]
  omega

/-- What `fs_readdir` does once the directory is open. -/
def fillBuffer (base : ℕ) (retv : UInt32) (r : ReaddirArgs) (names : List (List UInt8)) :
    SysM ω Unit := do
  let d ← readDirLoop base r.len retv.toNat (names.map (fun name => (name, 0)))
    ⟨0, 0, 0, 4, r.len.toNat⟩
  storeU64 r.saved.toNat (UInt64.ofNat d.savedEntries)
  storeU64 r.total.toNat d.totalEntries.toUInt64
  storeU64 r.min.toNat d.bufRequired.toUInt64

/-- **A call with its arguments** opens the directory and fills the buffer. -/
theorem readdir_run {os : Os ω} {vm : Vm (Sys ω)} {argv retv : UInt32} {r : ReaddirArgs}
    {names : List (List UInt8)} (hcall : ReaddirCall os vm argv retv r names) :
    ∃ base vm₁, (0 < r.len → base = r.buffer.toNat) ∧
      Bytes.write vm.memory.bytes retv.toNat (Bytes.toLE 8 0) = some vm₁.memory.bytes ∧
      Syscall.fsReaddir.function os argv retv vm = fillBuffer base retv r names vm₁ := by
  rcases hcall.path with ⟨path, hpath, hopen⟩
  have hsetup : (setupSysFsCall argv retv 28 : SysM ω _) vm =
      .ok (some (argv.toNat, retv.toNat, path.toNat), vm) := by
    rcases of_exact (setupSysFsCall_exact vm argv retv 28) with ⟨hok, herror⟩
    cases hrun : (setupSysFsCall argv retv 28 : SysM ω _) vm with
    | error e => exact absurd hpath (herror e hrun path)
    | ok result =>
        rcases hok result.1 result.2 hrun with ⟨-, hnone⟩ | ⟨hsame, path', hsome, hpath'⟩
        · exact absurd hpath (hnone path)
        · have heq := Option.some.inj (hpath'.loadPath.symm.trans hpath.loadPath)
          rw [← heq, ← hsome, ← hsame]
  have hbuf : ∃ buf, (readDirBuf r.buffer r.len retv.toNat : SysM ω _) vm = .ok (some buf, vm) ∧
      (0 < r.len → buf = some r.buffer.toNat) := by
    unfold readDirBuf
    by_cases hpos : 0 < r.len
    · refine ⟨some r.buffer.toNat, ?_, fun _ => rfl⟩
      rw [if_pos hpos, bind_of_ok (deref_run ((hcall.buffer hpos).reaches ?_))]
      · rfl
      · rw [UInt64.toNat_toUInt32]
        exact Nat.mod_le _ _
    · exact ⟨none, by rw [if_neg hpos]; rfl, fun h => absurd h hpos⟩
  have hcell : ∀ c ∈ [retv, r.saved, r.total, r.min], Reaches vm c 4 ∧ InMemory vm c 8 := by
    intro c hc
    have hin : InMemory vm c 8 := (hcall.cells c.toNat (List.mem_map_of_mem hc)).1
    exact ⟨hin.reaches (by decide), hin⟩
  have hstr : (readStr path.toNat : SysM ω _) vm =
      .ok ((vm.memory.bytes.drop path.toNat).takeWhile (· ≠ 0), vm) := by
    rcases of_exact (readStr_exact vm path.toNat) with ⟨hok, herror⟩
    cases hrun : (readStr path.toNat : SysM ω _) vm with
    | error e => exact absurd hpath.term (herror e hrun).2
    | ok result =>
        rcases hok result.1 result.2 hrun with ⟨hsame, hbytes⟩
        rw [← hbytes, ← hsame]
  rcases hbuf with ⟨buf, hbuf, hbase⟩
  -- the machine behind `opendir`
  generalize hworld : vm.withSys (fun s => { s with world := (os.opendir
    ((vm.memory.bytes.drop path.toNat).takeWhile (· ≠ 0)) vm.host.world).2 }) = vm₀
  have hmemory : vm₀.memory = vm.memory := by rw [← hworld]; rfl
  have hdir : (call (os.opendir ((vm.memory.bytes.drop path.toNat).takeWhile (· ≠ 0))) :
      SysM ω _) vm = .ok (some (names.map (fun name => (name, 0))), vm₀) := by
    have hask : (ask (os.opendir ((vm.memory.bytes.drop path.toNat).takeWhile (· ≠ 0))) :
        SysM ω _) vm = .ok (.ok (names.map (fun name => (name, 0))), vm₀) := by
      rw [← hopen, ← hworld]
      rfl
    unfold call
    rw [bind_of_ok hask]
    rfl
  have hret : InMemory vm retv 8 := (hcell retv (by simp)).2
  have hzero : ∃ memory, vm.memory.write retv.toNat (Bytes.toLE 8 0) = some memory := by
    cases hwrite : vm.memory.write retv.toNat (Bytes.toLE 8 0) with
    | some memory => exact ⟨memory, rfl⟩
    | none => exact absurd (Segment.write_eq_none.1 hwrite) (Nat.not_lt.2 hret)
  rcases hzero with ⟨memory, hzero⟩
  have hstore : (storeU64 retv.toNat 0 : SysM ω Unit) vm₀ = .ok ((), { vm₀ with memory }) := by
    unfold storeU64 storeMem writeMemBytes
    rw [hmemory, show (0 : UInt64).toNat = 0 from rfl, hzero]
  refine ⟨buf.getD 0, ({ vm₀ with memory } : Vm (Sys ω)).withSys
    (fun s => { s with errno := 0, errorNo := 0 }), fun hpos => by rw [hbase hpos]; rfl,
    Segment.write_bytes hzero, ?_⟩
  show sysFsReaddir os argv retv vm = _
  unfold sysFsReaddir
  rw [bind_of_ok hsetup]
  dsimp only
  rw [bind_of_ok (loadU32_run hcall.loadBuffer), bind_of_ok (loadU64_run hcall.loadLen),
    bind_of_ok (loadU32_run hcall.loadSaved), bind_of_ok (loadU32_run hcall.loadTotal),
    bind_of_ok (loadU32_run hcall.loadMin), bind_of_ok hbuf]
  dsimp only
  rw [bind_of_ok (deref_run (hcell r.saved (by simp)).1),
    bind_of_ok (deref_run (hcell r.total (by simp)).1),
    bind_of_ok (deref_run (hcell r.min (by simp)).1), if_neg (by simp), bind_of_ok hstr,
    bind_of_ok hdir]
  dsimp only
  rw [bind_of_ok hstore]
  rfl

/-! ## The result cells -/

/-- The bytes with the three counts stored one after the other. -/
def storeCounts (r : ReaddirArgs) (saved total min : ℕ) (buf : List UInt8) :
    Option (List UInt8) := do
  let buf ← Bytes.write buf r.saved.toNat (Bytes.toLE 8 saved)
  let buf ← Bytes.write buf r.total.toNat (Bytes.toLE 8 total)
  Bytes.write buf r.min.toNat (Bytes.toLE 8 min)

theorem storeCounts_ends (r : ReaddirArgs) (saved total min : UInt64) (vm : Vm (Sys ω)) :
    EndsWith (fun _ => True)
      (storeCounts r saved.toNat total.toNat min.toNat vm.memory.bytes)
      ((do storeU64 r.saved.toNat saved
           storeU64 r.total.toNat total
           storeU64 r.min.toNat min : SysM ω Unit) vm) := by
  refine EndsWith.write _ _ vm fun vm₁ => ?_
  refine EndsWith.write _ _ vm₁ fun vm₂ => ?_
  have hlast := @EndsWith.write ω Unit (fun _ => True) (fun _ => pure ()) some
    r.min.toNat (Bytes.toLE 8 min.toNat) vm₂ fun vm₃ => ⟨(), vm₃, rfl, trivial, rfl⟩
  rwa [Option.bind_fun_some, bind_pure_unit] at hlast

/-- What the three stores leave behind. -/
structure Counted (r : ReaddirArgs) (saved total min : ℕ) (buf buf' : List UInt8) : Prop where
  loadSaved : Bytes.read buf' r.saved.toNat 8 = some (Bytes.toLE 8 saved)
  loadTotal : Bytes.read buf' r.total.toNat 8 = some (Bytes.toLE 8 total)
  loadMin : Bytes.read buf' r.min.toNat 8 = some (Bytes.toLE 8 min)
  rest : ∀ o w, Separate r.saved.toNat 8 o w → Separate r.total.toNat 8 o w →
    Separate r.min.toNat 8 o w → Bytes.read buf' o w = Bytes.read buf o w

theorem storeCounts_spec {r : ReaddirArgs} {saved total min : ℕ} {buf buf' : List UInt8}
    (h : storeCounts r saved total min buf = some buf')
    (hcounts : Separate r.saved.toNat 8 r.total.toNat 8 ∧ Separate r.saved.toNat 8 r.min.toNat 8 ∧
      Separate r.total.toNat 8 r.min.toNat 8) : Counted r saved total min buf buf' := by
  rcases Option.bind_eq_some_iff.1 h with ⟨buf₁, h₁, h⟩
  rcases Option.bind_eq_some_iff.1 h with ⟨buf₂, h₂, h₃⟩
  have hlen := Bytes.length_toLE 8
  have hread : ∀ {buf buf' : List UInt8} {off n : ℕ},
      Bytes.write buf off (Bytes.toLE 8 n) = some buf' →
      Bytes.read buf' off 8 = some (Bytes.toLE 8 n) := by
    intro buf buf' off n hwrite
    have hsame := Bytes.read_write_same hwrite
    rwa [hlen] at hsame
  have hkeep : ∀ {buf buf' : List UInt8} {off n o w : ℕ},
      Bytes.write buf off (Bytes.toLE 8 n) = some buf' → Separate off 8 o w →
      Bytes.read buf' o w = Bytes.read buf o w := by
    intro buf buf' off n o w hwrite hapart
    exact Bytes.read_write_disjoint hwrite (by rw [hlen]; exact hapart.symm)
  rcases hcounts with ⟨hst, hsm, htm⟩
  refine ⟨?_, ?_, hread h₃, ?_⟩
  · rw [hkeep h₃ hsm.symm, hkeep h₂ hst.symm, hread h₁]
  · rw [hkeep h₃ htm.symm, hread h₂]
  · intro o w hs ht hm
    rw [hkeep h₃ hm, hkeep h₂ ht, hkeep h₁ hs]

/-- **The buffer is packed and the results are stored**, as long as no sum has more than 32
bits. -/
theorem fillBuffer_ends (base : ℕ) (retv : UInt32) (r : ReaddirArgs) {names : List (List UInt8)}
    (hrequired : requiredLen names < 2 ^ 32) (vm : Vm (Sys ω)) :
    EndsWith (fun _ => True)
      ((packInto base 0 r.len.toNat (fitting r names) vm.memory.bytes).bind
        (storeCounts r (fitting r names).length names.length (requiredLen names)))
      (fillBuffer base retv r names vm) := by
  have hloop := @readDirLoop_packs ω base retv.toNat r.len names ⟨0, 0, 0, 4, r.len.toNat⟩
    (Nat.zero_le _) hrequired rfl (Nat.zero_le _) vm
  refine EndsWith.bind hloop fun d hd vm' => ?_
  have hstored := storeCounts_ends r (UInt64.ofNat d.savedEntries) d.totalEntries.toUInt64
    d.bufRequired.toUInt64 vm'
  rcases hd with ⟨hsaved, htotal, hbufRequired⟩
  have hlen : names.length < 2 ^ 32 := by
    have heq := total_eq names
    unfold requiredLen at hrequired
    omega
  have hfit : (fitting r names).length ≤ names.length := (greedy_sublist _ _ _).length_le
  have hs : (UInt64.ofNat d.savedEntries).toNat = (fitting r names).length := by
    rw [show d.savedEntries = (fitting r names).length from hsaved.trans (Nat.zero_add _),
      UInt64.toNat_ofNat_of_lt' (show _ < 2 ^ 64 by omega)]
  have ht : d.totalEntries.toUInt64.toNat = names.length := by
    rw [UInt32.toNat_toUInt64, htotal, UInt32.zero_add, UInt32.toNat_ofNat_of_lt' hlen]
  have hm : d.bufRequired.toUInt64.toNat = requiredLen names := by
    rw [UInt32.toNat_toUInt64, hbufRequired]
    rfl
  rwa [hs, ht, hm] at hstored

/-! ## When the law holds -/

/-- What is in memory after a call; `buf` is the memory before the results are stored. -/
structure Answered (vm vm' : Vm (Sys ω)) (retv : UInt32) (r : ReaddirArgs)
    (names : List (List UInt8)) (buf : List UInt8) : Prop where
  loadSaved : vm'.memory.load r.saved.toNat 8 = some (fitting r names).length
  loadTotal : vm'.memory.load r.total.toNat 8 = some names.length
  loadMin : vm'.memory.load r.min.toNat 8 = some (requiredLen names)
  outside : (fitting r names ≠ [] → requiredLen (fitting r names) ≤ r.len.toNat) →
    ∀ o w, (∀ c ∈ r.cells retv, Separate c 8 o w) → Separate r.buffer.toNat r.len.toNat o w →
      Bytes.read vm'.memory.bytes o w = Bytes.read vm.memory.bytes o w
  inside : ∀ o w, r.buffer.toNat ≤ o → o + w ≤ r.buffer.toNat + r.len.toNat →
    Bytes.read vm'.memory.bytes o w = Bytes.read buf o w
  empty : fitting r names = [] → ∀ o w, r.buffer.toNat ≤ o →
    o + w ≤ r.buffer.toNat + r.len.toNat → Bytes.read buf o w = Bytes.read vm.memory.bytes o w
  addresses : Addresses r.buffer.toNat buf 0 r.len.toNat (fitting r names)
  zero : fitting r names ≠ [] →
    Bytes.read buf (r.buffer.toNat + 4 * (fitting r names).length) 4 = some (Bytes.toLE 4 0)
  strings : requiredLen (fitting r names) ≤ r.len.toNat →
    Strings r.buffer.toNat buf r.len.toNat (fitting r names)

/-- How a call ends, if the length for all entries has 32 bits. -/
theorem readdir_ends {os : Os ω} {vm : Vm (Sys ω)} {argv retv : UInt32} {r : ReaddirArgs}
    {names : List (List UInt8)} (hcall : ReaddirCall os vm argv retv r names)
    (hrequired : requiredLen names < 2 ^ 32) :
    EndsWith (fun _ => True)
      (((Bytes.write vm.memory.bytes retv.toNat (Bytes.toLE 8 0)).bind
        (packInto r.buffer.toNat 0 r.len.toNat (fitting r names))).bind
          (storeCounts r (fitting r names).length names.length (requiredLen names)))
      (Syscall.fsReaddir.function os argv retv vm) := by
  rcases readdir_run hcall with ⟨base, vm₁, hbase, hzero, hrun⟩
  rw [hzero, hrun, Option.bind_some]
  have hends := fillBuffer_ends base retv r hrequired vm₁
  by_cases hpos : 0 < r.len
  · rw [hbase hpos] at hends ⊢
    exact hends
  · -- without a buffer there is nothing that fits
    have hnone : fitting r names = [] := by
      have hle := greedy_le (Nat.zero_le r.len.toNat) names
      have htotal := total_eq (greedy r.len.toNat 0 names)
      have hlen : r.len.toNat = 0 := Nat.eq_zero_of_not_pos hpos
      refine List.eq_nil_of_length_eq_zero ?_
      unfold fitting
      omega
    rw [hnone] at hends ⊢
    exact hends

theorem readdir_answered {os : Os ω} {vm vm' : Vm (Sys ω)} {argv retv : UInt32} {r : ReaddirArgs}
    {names : List (List UInt8)} (hcall : ReaddirCall os vm argv retv r names)
    (hrequired : requiredLen names < 2 ^ 32)
    (hrun : Syscall.fsReaddir.function os argv retv vm = .ok ((), vm')) :
    ∃ buf, Answered vm vm' retv r names buf := by
  have hends := readdir_ends hcall hrequired
  rw [hrun] at hends
  rcases Option.bind_eq_some_iff.1 hends.of_ok with ⟨buf, hpacked, hstored⟩
  rcases Option.bind_eq_some_iff.1 hpacked with ⟨buf₁, hret, hpack⟩
  have hcounted := storeCounts_spec hstored hcall.counts
  have hle : 4 * 0 + total (fitting r names) ≤ r.len.toNat := by
    have hgreedy := greedy_le (Nat.zero_le r.len.toNat) names
    unfold fitting
    omega
  have hfilled := packInto_spec hpack hle
  have htotal := total_eq (fitting r names)
  have hempty : fitting r names = [] → buf = buf₁ := by
    intro hnone
    rw [hnone] at hpack
    exact (Option.some.inj hpack).symm
  have hin : ∀ c ∈ r.cells retv, ∀ o w, r.buffer.toNat ≤ o →
      o + w ≤ r.buffer.toNat + r.len.toNat → Separate c 8 o w := by
    intro c hc o w hlow hhigh
    have hapart := (hcall.cells c hc).2
    unfold Separate at hapart ⊢
    omega
  have hkeep : ∀ o w, Separate retv.toNat 8 o w →
      Bytes.read buf₁ o w = Bytes.read vm.memory.bytes o w := fun o w hapart =>
    Bytes.read_write_disjoint hret (by rw [Bytes.length_toLE]; exact hapart.symm)
  have hload : ∀ {p v : ℕ}, v < 2 ^ 64 →
      Bytes.read vm'.memory.bytes p 8 = some (Bytes.toLE 8 v) →
        vm'.memory.load p 8 = some v := fun hv hread =>
    (Bytes.load_eq_some_iff hv).2 hread
  have hlen : (fitting r names).length ≤ names.length ∧ names.length < 2 ^ 32 := by
    have hsub : (fitting r names).length ≤ names.length := (greedy_sublist _ _ _).length_le
    have hall := total_eq names
    unfold requiredLen at hrequired
    omega
  refine ⟨buf, ?_, ?_, ?_, ?_, ?_, ?_, ?_, ?_, ?_⟩
  · exact hload (by omega) hcounted.loadSaved
  · exact hload (by omega) hcounted.loadTotal
  · exact hload (by omega) hcounted.loadMin
  · intro hroom o w hcells hbuffer
    unfold ReaddirArgs.cells at hcells
    rw [hcounted.rest o w (hcells _ (by simp)) (hcells _ (by simp)) (hcells _ (by simp))]
    refine Eq.trans ?_ (hkeep o w (hcells _ (by simp)))
    by_cases hnone : fitting r names = []
    · rw [hempty hnone]
    · have hle := hroom hnone
      unfold requiredLen Separate at *
      exact hfilled.rest o w (by omega) (by omega)
  · intro o w hlow hhigh
    unfold ReaddirArgs.cells at hin
    exact hcounted.rest o w (hin _ (by simp) o w hlow hhigh) (hin _ (by simp) o w hlow hhigh)
      (hin _ (by simp) o w hlow hhigh)
  · intro hnone o w hlow hhigh
    rw [hempty hnone]
    exact hkeep o w (hin _ (by simp [ReaddirArgs.cells]) o w hlow hhigh)
  · exact hfilled.addresses
  · intro hne
    have hzero := hfilled.zero hne
    rwa [Nat.zero_add] at hzero
  · intro hle
    unfold requiredLen at hle
    exact hfilled.strings (by omega)

/-- The call returns if there is room for the zero address behind the entries that fit. -/
theorem readdir_ok {os : Os ω} {vm : Vm (Sys ω)} {argv retv : UInt32} {r : ReaddirArgs}
    {names : List (List UInt8)} (hcall : ReaddirCall os vm argv retv r names)
    (hrequired : requiredLen names < 2 ^ 32)
    (hroom : fitting r names ≠ [] → requiredLen (fitting r names) ≤ r.len.toNat) :
    ∃ vm', Syscall.fsReaddir.function os argv retv vm = .ok ((), vm') := by
  have hcell : ∀ c ∈ r.cells retv, c + 8 ≤ vm.memory.bytes.length := fun c hc =>
    (hcall.cells c hc).1
  have hwrite : ∀ (buf : List UInt8) (c v : ℕ), buf.length = vm.memory.bytes.length →
      c ∈ r.cells retv → ∃ buf', Bytes.write buf c (Bytes.toLE 8 v) = some buf' ∧
        buf'.length = vm.memory.bytes.length := by
    intro buf c v hlen hc
    have hsome : (Bytes.write buf c (Bytes.toLE 8 v)).isSome := by
      rw [Bytes.write_isSome, Bytes.length_toLE, hlen]
      exact hcell c hc
    rcases Option.isSome_iff_exists.1 hsome with ⟨buf', hbuf'⟩
    exact ⟨buf', hbuf', (Bytes.write_length hbuf').trans hlen⟩
  rcases hwrite vm.memory.bytes retv.toNat 0 rfl (by simp [ReaddirArgs.cells]) with
    ⟨buf₁, hret, hlen₁⟩
  have hpack : ∃ buf, packInto r.buffer.toNat 0 r.len.toNat (fitting r names) buf₁ = some buf ∧
      buf.length = vm.memory.bytes.length := by
    by_cases hnone : fitting r names = []
    · rw [hnone]
      exact ⟨buf₁, rfl, hlen₁⟩
    · have hle := hroom hnone
      have htotal := total_eq (fitting r names)
      unfold requiredLen at hle
      have hin : r.buffer.toNat + r.len.toNat ≤ vm.memory.bytes.length :=
        hcall.buffer (show 0 < r.len.toNat by omega)
      rcases packInto_isSome (show 4 * 0 + total (fitting r names) ≤ r.len.toNat by omega)
        (show r.buffer.toNat + r.len.toNat ≤ buf₁.length by omega) (by omega) with ⟨buf, hbuf⟩
      refine ⟨buf, hbuf, ?_⟩
      rw [(packInto_spec hbuf (by omega)).length, hlen₁]
  rcases hpack with ⟨buf, hpack, hlen⟩
  rcases hwrite buf r.saved.toNat (fitting r names).length hlen (by simp [ReaddirArgs.cells]) with
    ⟨buf₂, hsaved, hlen₂⟩
  rcases hwrite buf₂ r.total.toNat names.length hlen₂ (by simp [ReaddirArgs.cells]) with
    ⟨buf₃, htotal, hlen₃⟩
  rcases hwrite buf₃ r.min.toNat (requiredLen names) hlen₃ (by simp [ReaddirArgs.cells]) with
    ⟨buf₄, hmin, -⟩
  have hends := readdir_ends hcall hrequired
  rw [hret, Option.bind_some, hpack, Option.bind_some, storeCounts, hsaved, Option.bind_eq_bind,
    Option.bind_some, htotal, Option.bind_some, hmin] at hends
  rcases hends with ⟨u, vm', hrun, -⟩
  exact ⟨vm', hrun⟩

/-- What is stored as the length for all entries has 32 bits. -/
theorem required_lt {os : Os ω} {vm vm' : Vm (Sys ω)} {argv retv : UInt32} {r : ReaddirArgs}
    {names : List (List UInt8)} (hcall : ReaddirCall os vm argv retv r names)
    (hrun : Syscall.fsReaddir.function os argv retv vm = .ok ((), vm'))
    (hmin : vm'.memory.load r.min.toNat 8 = some (requiredLen names)) :
    requiredLen names < 2 ^ 32 := by
  rcases readdir_run hcall with ⟨base, vm₁, -, -, heq⟩
  rw [heq] at hrun
  rcases bind_eq_ok.1 hrun with ⟨d, vm₂, -, hstores⟩
  have hends := storeCounts_ends r (UInt64.ofNat d.savedEntries) d.totalEntries.toUInt64
    d.bufRequired.toUInt64 vm₂
  rw [hstores] at hends
  have hread := (storeCounts_spec hends.of_ok hcall.counts).loadMin
  have hlt : d.bufRequired.toUInt64.toNat < 2 ^ 32 := by
    rw [UInt32.toNat_toUInt64]
    exact d.bufRequired.toNat_lt
  have hload : vm'.memory.load r.min.toNat 8 = some d.bufRequired.toUInt64.toNat :=
    (Bytes.load_eq_some_iff (hlt.trans (by decide))).2 hread
  rw [hmin] at hload
  rw [Option.some.inj hload]
  exact hlt

theorem getElem?_of_read {buf buf' : List UInt8} {k : ℕ}
    (h : Bytes.read buf k 1 = Bytes.read buf' k 1) : buf[k]? = buf'[k]? := by
  have hone : ∀ {buf : List UInt8} {b : UInt8}, Bytes.read buf k 1 = some [b] ↔ buf[k]? = some b := by
    intro buf b
    have hiff := @Bytes.read_eq_some_iff_getElem? buf [b] k
    rw [List.length_singleton] at hiff
    rw [hiff]
    constructor
    · rintro ⟨-, hget⟩
      exact hget 0 Nat.one_pos
    · intro hget
      refine ⟨(List.getElem?_eq_some_iff.1 hget).1, fun j hj => ?_⟩
      obtain rfl := Nat.lt_one_iff.1 hj
      exact hget
  refine Option.ext fun b => ?_
  rw [← hone, ← hone, h]

/-- The entries that fit are packed if there is room for the zero address behind them. -/
theorem Answered.packed {vm vm' : Vm (Sys ω)} {retv : UInt32} {r : ReaddirArgs}
    {names : List (List UInt8)} {buf : List UInt8} (h : Answered vm vm' retv r names buf)
    (hbuffer : InMemory vm r.buffer r.len.toNat)
    (hroom : fitting r names ≠ [] → requiredLen (fitting r names) ≤ r.len.toNat)
    (hzero : fitting r names = [] → 4 ≤ r.len.toNat ∧ vm.memory.load r.buffer.toNat 4 = some 0) :
    Packed vm'.memory r.buffer.toNat r.len.toNat (fitting r names) := by
  have hlt : r.buffer.toNat + r.len.toNat < 2 ^ 32 := Nat.lt_of_le_of_lt hbuffer vm.memory.size_lt'
  have htotal := total_eq (fitting r names)
  have hload : ∀ {p v : ℕ}, v < 2 ^ 32 → Bytes.read vm'.memory.bytes p 4 = some (Bytes.toLE 4 v) →
      vm'.memory.load p 4 = some v := fun hv hread => (Bytes.load_eq_some_iff hv).2 hread
  by_cases hnone : fitting r names = []
  · rcases hzero hnone with ⟨hfour, hload⟩
    have hkeep := (h.inside r.buffer.toNat 4 le_rfl (by omega)).trans
      (h.empty hnone r.buffer.toNat 4 le_rfl (by omega))
    rw [hnone]
    refine ⟨by simpa using hfour, ?_, fun i name hname => absurd hname (by simp)⟩
    show (Bytes.read vm'.memory.bytes (r.buffer.toNat + 0) 4).map Bytes.ofLE = some 0
    rw [Nat.add_zero, hkeep]
    exact hload
  · have hle := hroom hnone
    have hstrings := h.strings hle
    unfold requiredLen at hle
    refine ⟨by omega, ?_, ?_⟩
    · refine hload (by decide) ?_
      rw [h.inside _ 4 (by omega) (by omega)]
      exact h.zero hnone
    · intro i name hname
      have hi : i < (fitting r names).length := (List.getElem?_eq_some_iff.1 hname).1
      rcases entry_of_filled h.addresses hstrings (by omega) hname with ⟨p, hp, hend, hread⟩
      rw [Nat.zero_add] at hp
      refine ⟨r.buffer.toNat + p, hload (by omega) ?_, by omega, by omega, ?_⟩
      · rw [h.inside _ 4 (by omega) (by omega)]
        exact hp
      · rw [h.inside _ _ (by omega) (by omega)]
        exact hread

/-- Without room for the zero address behind the entries that fit, its bytes are those of the last
string. -/
theorem Answered.room {vm vm' : Vm (Sys ω)} {retv : UInt32} {r : ReaddirArgs}
    {names entries : List (List UInt8)} {buf : List UInt8}
    (h : Answered vm vm' retv r names buf) (hbuffer : InMemory vm r.buffer r.len.toNat)
    (hnames : ∀ name ∈ names, name ≠ [] ∧ 0 ∉ name) (hsub : entries.Sublist names)
    (hlen : entries.length = (fitting r names).length)
    (hpacked : Packed vm'.memory r.buffer.toNat r.len.toNat entries)
    (hne : fitting r names ≠ []) : requiredLen (fitting r names) ≤ r.len.toNat := by
  have hlt : r.buffer.toNat + r.len.toNat < 2 ^ 32 := Nat.lt_of_le_of_lt hbuffer vm.memory.size_lt'
  have hgreedy : 0 + total (fitting r names) ≤ r.len.toNat := greedy_le (Nat.zero_le _) names
  have htotal := total_eq (fitting r names)
  have hpos := List.length_pos_iff.2 hne
  have hroom := hpacked.room
  by_contra hlong
  unfold requiredLen at hlong
  have hlast : entries.length - 1 < entries.length := by omega
  rcases hpacked.entry _ _ (List.getElem?_eq_getElem hlast) with ⟨p, hp, -, -, hread⟩
  have hname := hnames _ (hsub.subset (List.getElem_mem hlast))
  generalize entries[entries.length - 1] = name at hread hname
  -- the last address is that of the front of the strings
  have haddress : p = r.buffer.toNat + (r.len.toNat - TwoEnded.strings (fitting r names)) := by
    have hown := last_address h.addresses hne
    rw [Nat.zero_add, ← hlen, ← h.inside _ 4 (by omega) (by omega),
      ← Bytes.load_eq_some_iff (show _ < 2 ^ 32 by omega)] at hown
    exact Option.some.inj (hp.symm.trans hown)
  have hzero : vm'.memory.bytes[p]? = some 0 := by
    have hcell : Bytes.read vm'.memory.bytes (r.buffer.toNat + 4 * entries.length)
        (Bytes.toLE 4 0).length = some (Bytes.toLE 4 0) :=
      (Bytes.load_eq_some_iff (show 0 < 256 ^ 4 by decide)).1 hpacked.zero
    have hbytes := (Bytes.read_eq_some_iff_getElem?.1 hcell).2
      (p - (r.buffer.toNat + 4 * entries.length)) (by rw [Bytes.length_toLE]; omega)
    rw [show r.buffer.toNat + 4 * entries.length + (p - (r.buffer.toNat + 4 * entries.length)) = p by
      omega, show Bytes.toLE 4 0 = List.replicate 4 0 from rfl,
      List.getElem?_replicate, if_pos (by omega)] at hbytes
    exact hbytes
  have hfirst : vm'.memory.bytes[p]? = (name ++ [0])[0]? := by
    have hbytes : Bytes.read vm'.memory.bytes p (name ++ [0]).length = some (name ++ [0]) := by
      rwa [List.length_append, List.length_singleton]
    exact (Bytes.read_eq_some_iff_getElem?.1 hbytes).2 0 (by simp)
  cases name with
  | nil => exact hname.1 rfl
  | cons b name =>
      have hb : b = 0 := Option.some.inj (hfirst.symm.trans hzero)
      exact hname.2 (hb ▸ List.mem_cons_self)

/-- Where the law holds, there is room. -/
theorem exact_of_law {os : Os ω} {vm : Vm (Sys ω)} {argv retv : UInt32} {r : ReaddirArgs}
    {names : List (List UInt8)} (hcall : ReaddirCall os vm argv retv r names)
    (h : ReaddirLaw vm retv r names (Syscall.fsReaddir.function os argv retv vm)) :
    ReaddirExact vm r names := by
  rcases h with ⟨vm', entries, hrun, hsub, -, hpacked, hsaved, -, hmin, hall⟩
  have hrequired := required_lt hcall hrun hmin
  rcases readdir_answered hcall hrequired hrun with ⟨buf, hans⟩
  have hlen : entries.length = (fitting r names).length :=
    Option.some.inj (hsaved.symm.trans hans.loadSaved)
  refine ⟨hrequired, ?_, ?_, ?_⟩
  · rintro rfl
    have hnil := List.sublist_nil.1 hsub
    exact hall.1 (by rw [hnil])
  · intro hne
    have hpos : 0 < r.len.toNat := by
      have hle : 0 + total (fitting r names) ≤ r.len.toNat := greedy_le (Nat.zero_le _) names
      have htotal := total_eq (fitting r names)
      have hlong := List.length_pos_iff.2 hne
      omega
    exact hans.room (hcall.buffer hpos) hcall.names hsub hlen (hpacked hpos) hne
  · intro hnone hpos
    rw [hnone] at hlen
    obtain rfl := List.length_eq_zero_iff.1 hlen
    have hroom := (hpacked hpos).room
    have hzero := (hpacked hpos).zero
    have hfour : 4 ≤ r.len.toNat := hroom
    refine ⟨hfour, ?_⟩
    have hkeep := (hans.inside r.buffer.toNat 4 le_rfl (by omega)).trans
      (hans.empty hnone r.buffer.toNat 4 le_rfl (by omega))
    show (Bytes.read vm.memory.bytes r.buffer.toNat 4).map Bytes.ofLE = some 0
    rw [← hkeep]
    exact hzero

/-- **The buffer is packed and the results are right just when** there is room for the zero address
behind the entries that fit, or it is there already if there are none, and the length for all
entries has 32 bits. -/
theorem readdir_iff {os : Os ω} {vm : Vm (Sys ω)} {argv retv : UInt32} {r : ReaddirArgs}
    {names : List (List UInt8)} (hcall : ReaddirCall os vm argv retv r names) :
    ReaddirLaw vm retv r names (Syscall.fsReaddir.function os argv retv vm) ↔
      ReaddirExact vm r names := by
  constructor
  · exact exact_of_law hcall
  · intro hexact
    rcases readdir_ok hcall hexact.required hexact.room with ⟨vm', hrun⟩
    rcases readdir_answered hcall hexact.required hrun with ⟨buf, h⟩
    refine ⟨vm', fitting r names, hrun, greedy_sublist _ _ _, ?_, ?_, h.loadSaved, h.loadTotal,
      h.loadMin, ?_⟩
    · intro k _ hcells hbuffer
      refine getElem?_of_read (h.outside hexact.room k 1 (fun c hc => ?_) ?_)
      · exact (hcells c hc).symm
      · exact hbuffer.symm
    · intro hpos
      exact h.packed (hcall.buffer hpos) hexact.room fun hnone => hexact.zero hnone hpos
    · -- all entries are saved just when all of them fit, and then there is room for the zero address
      have hall : (fitting r names).length = names.length ↔ fitting r names = names :=
        (greedy_sublist r.len.toNat 0 names).length_eq
      rw [hall]
      constructor
      · intro hself
        by_cases hnil : names = []
        · rw [hnil]
          exact hexact.nonempty hnil
        · have hroom := hexact.room
          rw [hself] at hroom
          exact hroom hnil
      · intro hle
        unfold requiredLen at hle
        exact greedy_eq_self.2 (Or.inr (by omega))

/-- A directory with these names. -/
def dirOs (names : List (List UInt8)) : Os Unit :=
  { deadOs with opendir := fun _ w => (.ok (names.map fun name => (name, 0)), w) }

/-- The arguments of `fs_readdir` at `0`, with a buffer of `len` bytes at `64`; the directory is
`"."`, and the results go to `32`, `40`, `48` and `56`. -/
def dirVm (len : UInt8) : Vm (Sys Unit) :=
  memoryVm ⟨[28, 0, 0, 0, 64, 0, 0, 0, len, 0, 0, 0, 0, 0, 0, 0, 32, 0, 0, 0, 40, 0, 0, 0,
    48, 0, 0, 0, 46] ++ List.replicate 51 0, by simp⟩

theorem dirVm_call {len : UInt8} {names : List (List UInt8)} (hlen : len.toNat ≤ 16)
    (hnames : ∀ name ∈ names, name ≠ [] ∧ 0 ∉ name) :
    ReaddirCall (dirOs names) (dirVm len) 0 56 ⟨64, len.toUInt64, 32, 40, 48⟩ names := by
  have hsize : (dirVm len).memory.size = 80 := rfl
  have hreaches : ∀ {ref size : UInt32}, (ref + size).toNat ≤ 80 → Reaches (dirVm len) ref size :=
    fun hle => reaches_iff.2 (hle.trans hsize.ge)
  have hpath : PathPasses (dirVm len) 0 28 56 28 := by
    refine ⟨⟨hreaches (by decide), hreaches (by decide)⟩, rfl, hreaches (by decide), ?_⟩
    show 0 ∈ (dirVm len).memory.bytes.drop 28
    exact List.mem_cons_of_mem 46 (List.mem_cons_self)
  have hcell : ∀ c ∈ [56, 32, 40, 48], c + 8 ≤ 80 ∧ Separate c 8 64 len.toNat := by
    unfold Separate
    simp
  refine ⟨hsize.ge.trans' (by decide), ⟨28, hpath, rfl⟩, rfl, ?_, rfl, rfl, rfl, fun _ => ?_,
    fun c hc => ?_, ?_, hnames⟩
  · show some (Bytes.ofLE [len, 0, 0, 0, 0, 0, 0, 0]) = _
    simp
  · show 64 + len.toUInt64.toNat ≤ 80
    rw [UInt8.toNat_toUInt64]
    omega
  · rw [UInt8.toNat_toUInt64]
    exact hcell c hc
  · exact ⟨Or.inl (show 32 + 8 ≤ 40 by decide), Or.inl (show 32 + 8 ≤ 48 by decide),
      Or.inl (show 40 + 8 ≤ 48 by decide)⟩

theorem readdir_iff_two : ReaddirCall (dirOs [[97], [98]]) (dirVm 16) 0 56 ⟨64, 16, 32, 40, 48⟩
      [[97], [98]] ∧
    (ReaddirLaw (dirVm 16) 56 ⟨64, 16, 32, 40, 48⟩ [[97], [98]]
        (Syscall.fsReaddir.function (dirOs [[97], [98]]) 0 56 (dirVm 16)) ↔
      ReaddirExact (dirVm 16) ⟨64, 16, 32, 40, 48⟩ [[97], [98]]) :=
  have hcall := @dirVm_call 16 [[97], [98]] (by decide) (by decide)
  ⟨hcall, readdir_iff hcall⟩

/-- With six bytes for an entry of one character, the zero address is put over its string. -/
theorem readdir_one : ReaddirCall (dirOs [[97]]) (dirVm 6) 0 56 ⟨64, 6, 32, 40, 48⟩ [[97]] ∧
    ¬ ReaddirLaw (dirVm 6) 56 ⟨64, 6, 32, 40, 48⟩ [[97]]
      (Syscall.fsReaddir.function (dirOs [[97]]) 0 56 (dirVm 6)) := by
  have hcall := @dirVm_call 6 [[97]] (by decide) (by decide)
  refine ⟨hcall, fun hlaw => ?_⟩
  have hroom := (exact_of_law hcall hlaw).room (by decide)
  revert hroom
  decide

end BvgzVm
