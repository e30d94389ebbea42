import BvgzVm.Source.Blocks
import BvgzVm.Source.Correct
import BvgzVm.Asm.LabelEncoding

set_option autoImplicit false

/-! # The Fibonacci program

`test/asm/programs/fib.bvgzs`, a function that calls itself twice and keeps its arguments and
results in a stack of its own behind `mem`. A call with the argument `v` at `r_ptr` leaves room for
the results of its two calls behind the argument: the argument of the first call is 16 bytes
further on, that of the second one 24 bytes.
-/

namespace BvgzVm

open CLib Cells Function Outcomes

/-! ## The program -/

/-- The lines of the file. -/
def fibLines : List String :=
  ["",
   "%data @num 0x0 /8",
   "",
   ";; -- register area:",
   "%data @r_ptr    0x0 /4 ; ptr to func local area (args)",
   "%data @r_N      0x0 /8 ; value of current number",
   "%data @r_Nm1    0x0 /8 ; value of current number - 1",
   "%data @r_Nm2    0x0 /8 ; value of current number - 2",
   "%data @r_term   0x0 /8 ; terminating condition check",
   "%data @r_ret    0x0 /4 ; ptr to ret value of callee func",
   "",
   ";; -- free area:",
   "%data @mem 0x0 /512",
   "",
   "_entry:",
   "    call &fib &mem &num",
   "    ret",
   "",
   "fib:",
   "    argv        r_ptr",
   "    read64      r_N     r_ptr   0",
   "    le          r_term  r_N     1",
   "    jtrue       &fib_done       r_term",
   "",
   "    ; next func call will put result next to our arg",
   "    write32     &r_ret  0   r_ptr",
   "    add         r_ret   8",
   "    ; skip our arg & next func's ret area to set the argument",
   "    add         r_ptr   16",
   "    sub         r_N     1",
   "    write64     r_ptr   0       r_N",
   "    ; ret & args set, call the thing!",
   "    call        &fib    r_ptr   r_ret",
   "",
   "    ; restore r_ptr:",
   "    argv        r_ptr",
   "    read64      r_N     r_ptr   0",
   "    ; next func call will put result next to previous ret",
   "    write32     &r_ret  0   r_ptr",
   "    add         r_ret   16",
   "    ; skip our arg & next func's ret area to set the argument",
   "    add         r_ptr   24",
   "    sub         r_N     2",
   "    write64     r_ptr   0       r_N",
   "    ; ret & args set, call the thing!",
   "    call        &fib    r_ptr   r_ret",
   "",
   "    ; restore r_ptr:",
   "    argv        r_ptr",
   "    ; copy the two numbers",
   "    read64      r_Nm1   r_ptr   8",
   "    read64      r_Nm2   r_ptr   16",
   "",
   "    ; add the two & return them",
   "    add         r_N     r_Nm1   r_Nm2",
   "",
   "fib_done:",
   "    retv r_N",
   "    ret"]

def fibSource : CStr := fibLines.flatMap fun line => line.toList ++ ['\n']

/-- The instructions with their operands. The first one of `fib` is at 2, and `fib_done` is 24. -/
def fibListing : List ListedInstn :=
  [⟨.call3, some [.place 2, .value 48, .value 0]⟩,
   ⟨.ret0, some []⟩,
   ⟨.argv1, some [.cell 8]⟩,
   ⟨.read64, some [.cell 12, .cell 8, .value 0]⟩,
   ⟨.le3, some [.cell 36, .cell 12, .value 1]⟩,
   ⟨.jtrue2, some [.place 24, .cell 36]⟩,
   ⟨.write32, some [.value 44, .value 0, .cell 8]⟩,
   ⟨.add2, some [.cell 44, .value 8]⟩,
   ⟨.add2, some [.cell 8, .value 16]⟩,
   ⟨.sub2, some [.cell 12, .value 1]⟩,
   ⟨.write64, some [.cell 8, .value 0, .cell 12]⟩,
   ⟨.call3, some [.place 2, .cell 8, .cell 44]⟩,
   ⟨.argv1, some [.cell 8]⟩,
   ⟨.read64, some [.cell 12, .cell 8, .value 0]⟩,
   ⟨.write32, some [.value 44, .value 0, .cell 8]⟩,
   ⟨.add2, some [.cell 44, .value 16]⟩,
   ⟨.add2, some [.cell 8, .value 24]⟩,
   ⟨.sub2, some [.cell 12, .value 2]⟩,
   ⟨.write64, some [.cell 8, .value 0, .cell 12]⟩,
   ⟨.call3, some [.place 2, .cell 8, .cell 44]⟩,
   ⟨.argv1, some [.cell 8]⟩,
   ⟨.read64, some [.cell 20, .cell 8, .value 8]⟩,
   ⟨.read64, some [.cell 28, .cell 8, .value 16]⟩,
   ⟨.add3, some [.cell 12, .cell 20, .cell 28]⟩,
   ⟨.retv1, some [.cell 12]⟩,
   ⟨.ret0, some []⟩]

set_option maxRecDepth 100000 in
/-- The file has no errors, 254 bytes of code, 560 bytes of memory and these instructions. -/
theorem parseAsm_fib :
    (parseAsm (singleFile fibSource) 1 false [] []).map (Option.map fun p : PrsResult stableTable =>
      (p.errors, codeSize false p.instns, p.memsz, p.listing false)) =
      .ok (some (0, 254, 560, fibListing)) := by
  decide +kernel

/-! ## The function

The registers are words 2 to 11: `r_ptr` is word 2, `r_N` words 3 and 4, `r_Nm1` 5 and 6, `r_Nm2`
7 and 8, `r_term` 9 and 10, `r_ret` word 11. -/

/-- The words that are not registers. -/
def fibStack : Set ℕ := {i | i < 2 ∨ 12 ≤ i}

section Function

variable {T : InstnTable} {p : PrsResult T} {n k A q r u v : ℕ} {c : SrcCall}
  {K : List SrcCall} {W : ℕ → ℕ}

theorem fib_fetches (hp : p.listing false = fibListing) {op : Op} {os : List Operand}
    (h : fibListing[k]? = some ⟨op, some os⟩) : Fetches p false k op os := by
  rw [← hp] at h
  exact fetches_of_listing h

/-- The words when `fib` has read its argument. -/
def fibLoaded (W : ℕ → ℕ) (A v : ℕ) : ℕ → ℕ := setPair (update W 2 (4 * A)) 3 v

theorem fibLoaded_ptr : fibLoaded W A v 2 = 4 * A := by
  unfold fibLoaded
  rw [setPair_of_ne (by omega) (by omega), update_self]

theorem fibLoaded_stack : Set.EqOn (fibLoaded W A v) W fibStack := by
  intro i hi
  have hi : i < 2 ∨ 12 ≤ i := hi
  unfold fibLoaded
  rw [setPair_of_ne (by omega) (by omega), update_of_ne (by omega)]

/-- `argv r_ptr` and `read64 r_N r_ptr 0`, at the beginning and behind the first call. -/
theorem fib_loads (hp : p.listing false = fibListing)
    (hargv : fibListing[k]? = some ⟨.argv1, some [.cell 8]⟩)
    (hread : fibListing[k + 1]? = some ⟨.read64, some [.cell 12, .cell 8, .value 0]⟩)
    (hargs : c.args.toNat = 4 * A) (hA : 12 ≤ A) (hroom : A + 2 ≤ n) (hv : pair W A = v) :
    Triple (p.step false) (At n k (c :: K) W)
      (At n (k + 2) (c :: K) (fibLoaded W A v)) := by
  have hfirst := triple_argv (n := n) (i := 2) (K := K) (c := c) (W := W)
    (fib_fetches hp hargv) rfl (by omega)
  rw [hargs] at hfirst
  have hptr : update W 2 (4 * A) 2 + (0 : UInt64).toNat = 4 * A := by
    rw [update_self]
    rfl
  have hvalue : pair (update W 2 (4 * A)) A = v := by
    rw [pair_update_of_ne (by omega) (by omega), hv]
  exact hfirst.seq (triple_read64 (fib_fetches hp hread) rfl (by omega) rfl (by omega) hptr
    (by omega) hvalue)

/-- The words when `fib` has compared its argument with 1. -/
def fibCompared (W : ℕ → ℕ) (A v : ℕ) : ℕ → ℕ :=
  setPair (fibLoaded W A v) 9 (if v ≤ 1 then 1 else 0)

theorem fibCompared_ptr : fibCompared W A v 2 = 4 * A := by
  unfold fibCompared
  rw [setPair_of_ne (by omega) (by omega), fibLoaded_ptr]

theorem fibCompared_value : pair (fibCompared W A v) 3 = v := by
  unfold fibCompared fibLoaded
  rw [pair_setPair_of_ne (by omega) (by omega) (by omega), pair_setPair]

theorem fibCompared_stack : Set.EqOn (fibCompared W A v) W fibStack := by
  intro i hi
  have hlimits : i < 2 ∨ 12 ≤ i := hi
  unfold fibCompared
  rw [setPair_of_ne (by omega) (by omega), fibLoaded_stack hi]

/-- **The beginning of `fib`.** -/
theorem fib_enters (hp : p.listing false = fibListing) (hargs : c.args.toNat = 4 * A)
    (hA : 12 ≤ A) (hroom : A + 2 ≤ n) (hv : pair W A = v) :
    Triple (p.step false) (At n 2 (c :: K) W)
      (At n (if v ≤ 1 then 24 else 6) (c :: K) (fibCompared W A v)) := by
  apply (fib_loads hp (k := 2) rfl rfl hargs hA hroom hv).seq
  apply (triple_le (i := 9) (fib_fetches hp (k := 4) rfl) rfl rfl (by omega)
    (reads_cell rfl (by omega) pair_setPair) (reads_value 1)).seq
  have hjump := triple_jtrue (n := n) (K := c :: K) (W := fibCompared W A v)
    (fib_fetches hp (k := 5) rfl) (reads_cell rfl (by omega) pair_setPair)
  by_cases hle : v ≤ 1
  · rw [if_pos hle, if_neg (by decide)] at hjump
    rw [if_pos hle]
    exact hjump
  · rw [if_neg hle, if_pos rfl] at hjump
    rw [if_neg hle]
    exact hjump

/-- The instructions of a call of `fib` with the argument `r_N - m`. -/
def fibCall (ret arg m : UInt64) : List ListedInstn :=
  [⟨.write32, some [.value 44, .value 0, .cell 8]⟩,
   ⟨.add2, some [.cell 44, .value ret]⟩,
   ⟨.add2, some [.cell 8, .value arg]⟩,
   ⟨.sub2, some [.cell 12, .value m]⟩,
   ⟨.write64, some [.cell 8, .value 0, .cell 12]⟩,
   ⟨.call3, some [.place 2, .cell 8, .cell 44]⟩]

/-- The words when `fib` is about to write the argument `u` of a call. -/
def fibPrepared (W : ℕ → ℕ) (A q u : ℕ) : ℕ → ℕ :=
  setPair (update (update (update W 11 (4 * A)) 11 (4 * A + 4 * q)) 2 (4 * A + 4 * (q + 2))) 3 u

theorem fibPrepared_arg : fibPrepared W A q u 2 = 4 * (A + q + 2) := by
  unfold fibPrepared
  rw [setPair_of_ne (by omega) (by omega), update_self]
  ring

theorem fibPrepared_ret : fibPrepared W A q u 11 = 4 * (A + q) := by
  unfold fibPrepared
  rw [setPair_of_ne (by omega) (by omega), update_of_ne (by omega), update_self]
  ring

theorem fibPrepared_stack : Set.EqOn (fibPrepared W A q u) W fibStack := by
  intro i hi
  have hi : i < 2 ∨ 12 ≤ i := hi
  unfold fibPrepared
  rw [setPair_of_ne (by omega) (by omega), update_of_ne (by omega), update_of_ne (by omega),
    update_of_ne (by omega)]

variable {ret arg m : UInt64}

theorem fibCall_fetches (hp : p.listing false = fibListing)
    (hk : (fibListing.drop k).take 6 = fibCall ret arg m) {j : ℕ} {op : Op} {os : List Operand}
    (h : (fibCall ret arg m)[j]? = some ⟨op, some os⟩) : Fetches p false (k + j) op os := by
  apply fib_fetches hp
  rw [← hk, List.getElem?_take] at h
  split at h
  · rw [List.getElem?_drop] at h
    exact h
  · cases h

/-- The pointers and the argument of a call are computed. -/
theorem fib_prepares (hp : p.listing false = fibListing)
    (hk : (fibListing.drop k).take 6 = fibCall ret arg m) (hret : ret.toNat = 4 * q)
    (harg : arg.toNat = 4 * (q + 2)) (hlt : A + q + 2 < 2 ^ 30) (hn : 13 ≤ n)
    (hptr : W 2 = 4 * A) (hv : pair W 3 = v) (hm : m.toNat ≤ v) :
    Triple (p.step false) (At n k K W)
      (At n (k + 4) K (fibPrepared W A q (v - m.toNat))) := by
  have hwrite : Triple (p.step false) (At n k K W)
      (At n (k + 1) K (update W 11 (4 * A))) := by
    intro s hs
    have hlow : pair W 2 % 2 ^ 32 = 4 * A := by
      rw [hs.memory.pair_mod (by omega), hptr]
    rw [← hlow]
    exact triple_write32 (fibCall_fetches hp hk (j := 0) rfl) (reads_value 44) (reads_value 0)
      (reads_cell rfl (by omega) rfl) rfl (by omega) s hs
  apply hwrite.seq
  apply (triple_add_pointer (fibCall_fetches hp hk (j := 1) rfl) (i := 11) (v := 4 * A + 4 * q)
    rfl (by omega) (by rw [update_self, hret]) (by omega)).seq
  apply (triple_add_pointer (fibCall_fetches hp hk (j := 2) rfl) (i := 2)
    (v := 4 * A + 4 * (q + 2)) rfl (by omega) _ (by omega)).seq
  · apply triple_sub (n := n) (i := 3) (fibCall_fetches hp hk (j := 3) rfl) (.inr rfl) rfl rfl
      (by omega) (reads_cell (i := 3) rfl (by omega) ?_) (reads_value m) hm
    rw [pair_update_of_ne (by omega) (by omega), pair_update_of_ne (by omega) (by omega),
      pair_update_of_ne (by omega) (by omega), hv]
  · rw [update_of_ne (by omega), update_of_ne (by omega), hptr, harg]

theorem toNat_pair {i : ℕ} (h : W i < 2 ^ 32) : (UInt32.ofNat (pair W i)).toNat = W i := by
  rw [UInt32.toNat_ofNat']
  unfold pair
  omega

/-- The words behind the call at `k`, when `fib` is called with `u`. -/
theorem fib_calls (hp : p.listing false = fibListing)
    (hk : (fibListing.drop k).take 6 = fibCall ret arg m) (hret : ret.toNat = 4 * q)
    (harg : arg.toNat = 4 * (q + 2)) (hA : 12 ≤ A) (hroom : A + q + 4 ≤ n) (hn : n < 2 ^ 30)
    (hcalls : K.length < maxCalls) (hptr : W 2 = 4 * A) (hv : pair W 3 = v)
    (hm : m.toNat ≤ v) :
    ∃ c', c'.args.toNat = 4 * (A + q + 2) ∧ c'.retval.toNat = 4 * (A + q) ∧
      c'.resume = k + 6 ∧ Triple (p.step false) (At n k K W)
        (At n 2 (c' :: K)
          (setPair (fibPrepared W A q (v - m.toNat)) (A + q + 2) (v - m.toNat))) := by
  have hprepares := fib_prepares (n := n) (K := K) hp hk hret harg (by omega) (by omega)
    hptr hv hm
  generalize hu : v - m.toNat = u at hprepares
  have hlow : pair (fibPrepared W A q u) 2 % 2 ^ 32 = 4 * (A + q + 2) := by
    rw [← UInt32.toNat_ofNat', toNat_pair, fibPrepared_arg]
    rw [fibPrepared_arg]
    omega
  have hwrite := triple_write64 (n := n) (i := A + q + 2) (v := u) (K := K)
    (W := fibPrepared W A q u) (fibCall_fetches hp hk (j := 4) rfl)
    (reads_cell rfl (by omega) rfl) (reads_value 0) (reads_cell rfl (by omega) pair_setPair)
    hlow (by omega)
  have hptr' : setPair (fibPrepared W A q u) (A + q + 2) u 2 = 4 * (A + q + 2) := by
    rw [setPair_of_ne (by omega) (by omega), fibPrepared_arg]
  have hret' : setPair (fibPrepared W A q u) (A + q + 2) u 11 = 4 * (A + q) := by
    rw [setPair_of_ne (by omega) (by omega), fibPrepared_ret]
  have hcall := triple_call (n := n) (K := K)
    (W := setPair (fibPrepared W A q u) (A + q + 2) u) (fibCall_fetches hp hk (j := 5) rfl)
    (reads_cell (i := 2) rfl (by omega) rfl) (reads_cell (i := 11) rfl (by omega) rfl) hcalls
  refine ⟨_, ?_, ?_, rfl, (hprepares.seq hwrite).seq hcall⟩
  · rw [toNat_pair (by omega), hptr']
  · rw [toNat_pair (by omega), hret']

/-- `retv r_N` and `ret` -/
theorem fib_returns (hp : p.listing false = fibListing) (hret : c.retval.toNat = 4 * r)
    (hr : r + 1 < n) (hn : 12 ≤ n) (hv : pair W 3 = v) :
    Triple (p.step false) (At n 24 (c :: K) W) (At n c.resume K (setPair W r v)) :=
  (triple_retv (fib_fetches hp (k := 24) rfl) (reads_cell rfl (by omega) hv) hret hr).seq
    (triple_ret (fib_fetches hp (k := 25) rfl))

/-- The words when `fib` has added its two results. -/
def fibAdded (W : ℕ → ℕ) (A a b : ℕ) : ℕ → ℕ :=
  setPair (setPair (setPair (update W 2 (4 * A)) 5 a) 7 b) 3 (a + b)

theorem fibAdded_stack {a b : ℕ} : Set.EqOn (fibAdded W A a b) W fibStack := by
  intro i hi
  have hi : i < 2 ∨ 12 ≤ i := hi
  unfold fibAdded
  rw [setPair_of_ne (by omega) (by omega), setPair_of_ne (by omega) (by omega),
    setPair_of_ne (by omega) (by omega), update_of_ne (by omega)]

theorem fib_adds {a b : ℕ} (hp : p.listing false = fibListing) (hargs : c.args.toNat = 4 * A)
    (hA : 12 ≤ A) (hroom : A + 6 ≤ n) (ha : pair W (A + 2) = a) (hb : pair W (A + 4) = b)
    (hsum : a + b < 2 ^ 64) :
    Triple (p.step false) (At n 20 (c :: K) W) (At n 24 (c :: K) (fibAdded W A a b)) := by
  have hargv := triple_argv (n := n) (i := 2) (K := K) (c := c) (W := W)
    (fib_fetches hp (k := 20) rfl) rfl (by omega)
  rw [hargs] at hargv
  apply hargv.seq
  apply (triple_read64 (n := n) (i := 5) (j := 2) (a := A + 2) (v := a)
    (fib_fetches hp (k := 21) rfl) rfl (by omega) rfl (by omega) ?_ (by omega) ?_).seq
  · apply (triple_read64 (n := n) (i := 7) (j := 2) (a := A + 4) (v := b)
      (fib_fetches hp (k := 22) rfl) rfl (by omega) rfl (by omega) ?_ (by omega) ?_).seq
    · apply triple_add (n := n) (i := 3) (fib_fetches hp (k := 23) rfl) (.inl rfl) rfl rfl
        (by omega) (reads_cell (i := 5) rfl (by omega) ?_)
        (reads_cell (i := 7) rfl (by omega) pair_setPair) hsum
      rw [pair_setPair_of_ne (by omega) (by omega) (by omega), pair_setPair]
    · rw [setPair_of_ne (by omega) (by omega), update_self]
      show 4 * A + 16 = 4 * (A + 4)
      ring
    · rw [pair_setPair_of_ne (by omega) (by omega) (by omega),
        pair_update_of_ne (by omega) (by omega), hb]
  · rw [update_self]
    show 4 * A + 8 = 4 * (A + 2)
    ring
  · rw [pair_update_of_ne (by omega) (by omega), ha]

/-- The contract of `fib` for one argument: its result is stored where the call says, and the words
outside the registers and behind its stack stay as they are. -/
def FibComputes (p : PrsResult T) (n v : ℕ) : Prop :=
  ∀ {A r : ℕ} {c : SrcCall} {K : List SrcCall} {W : ℕ → ℕ}, c.args.toNat = 4 * A →
    c.retval.toNat = 4 * r → 12 ≤ A → r + 1 < A → (r + 1 < 2 ∨ 12 ≤ r) → A + 4 * v ≤ n →
    A + 2 ≤ n → K.length + v ≤ maxCalls → pair W A = v →
    Triple (p.step false) (At n 2 (c :: K) W) (fun s => ∃ W',
      At n c.resume K W' s ∧ pair W' r = v.fib ∧
        ∀ i ∈ fibStack, i < A + 2 → i ≠ r → i ≠ r + 1 → W' i = W i)

/-- A call in the body of `fib` with its argument at `A`: the result is `q` words further on. -/
theorem fib_subcall (hp : p.listing false = fibListing)
    (hk : (fibListing.drop k).take 6 = fibCall ret arg m) (hret : ret.toNat = 4 * q)
    (harg : arg.toNat = 4 * (q + 2)) (hA : 12 ≤ A) (hn : n < 2 ^ 30) (hptr : W 2 = 4 * A)
    (hv : pair W 3 = u + m.toNat) (hcomputes : FibComputes p n u)
    (hroom : A + q + 2 + 4 * u ≤ n) (hroom₂ : A + q + 4 ≤ n) (hlt : K.length < maxCalls)
    (hcalls : K.length + u ≤ maxCalls) :
    Triple (p.step false) (At n k K W) (fun s => ∃ W', At n (k + 6) K W' s ∧
      pair W' (A + q) = u.fib ∧ ∀ i ∈ fibStack, i < A + q → W' i = W i) := by
  rcases fib_calls hp hk hret harg hA hroom₂ hn hlt hptr hv (Nat.le_add_left _ _) with
    ⟨c', hargs', hret', hresume, hcall⟩
  rw [Nat.add_sub_cancel] at hcall
  have hbody := hcomputes (K := K) (W := setPair (fibPrepared W A q u) (A + q + 2) u)
    hargs' hret' (by omega) (by omega) (by omega) hroom (by omega) hcalls pair_setPair
  apply (hcall.seq hbody).conseq (fun s hs => hs)
  rintro s ⟨W', hs, hvalue, hkept⟩
  rw [hresume] at hs
  refine ⟨W', hs, hvalue, ?_⟩
  intro i hi hlt
  rw [hkept i hi (by omega) (by omega) (by omega), setPair_of_ne (by omega) (by omega),
    fibPrepared_stack hi]

/-- The second call, before which `fib` reads its argument again. -/
theorem fib_second (hp : p.listing false = fibListing) (hargs : c.args.toNat = 4 * A)
    (hA : 12 ≤ A) (hn : n < 2 ^ 30) (hv : pair W A = u + 2) (hcomputes : FibComputes p n u)
    (hroom : A + 4 * (u + 2) ≤ n) (hcalls : K.length + (u + 2) ≤ maxCalls) :
    Triple (p.step false) (At n 12 (c :: K) W) (fun s => ∃ W', At n 20 (c :: K) W' s ∧
      pair W' (A + 4) = u.fib ∧ ∀ i ∈ fibStack, i < A + 4 → W' i = W i) := by
  have hdepth : (c :: K).length = K.length + 1 := rfl
  have hloads := fib_loads (n := n) (K := K) hp (k := 12) rfl rfl hargs hA (by omega) hv
  have hcall := fib_subcall (n := n) (K := c :: K) (k := 14) (q := 4) hp rfl rfl rfl hA hn
    (fibLoaded_ptr (W := W)) pair_setPair hcomputes (by omega) (by omega) (by omega) (by omega)
  apply (hloads.seq hcall).conseq (fun s hs => hs)
  rintro s ⟨W', hs, hvalue, hkept⟩
  refine ⟨W', hs, hvalue, ?_⟩
  intro i hi hlt
  rw [hkept i hi hlt, fibLoaded_stack hi]

/-- The two results are added and returned. -/
theorem fib_ends {a b : ℕ} (hp : p.listing false = fibListing) (hargs : c.args.toNat = 4 * A)
    (hret : c.retval.toNat = 4 * r) (hA : 12 ≤ A) (hr : r + 1 < n) (hroom : A + 6 ≤ n)
    (ha : pair W (A + 2) = a) (hb : pair W (A + 4) = b) (hsum : a + b < 2 ^ 64) :
    Triple (p.step false) (At n 20 (c :: K) W)
      (At n c.resume K (setPair (fibAdded W A a b) r (a + b))) :=
  (fib_adds hp hargs hA hroom ha hb hsum).seq (fib_returns hp hret hr (by omega) pair_setPair)

theorem fib_lt (hv : v ≤ maxCalls) : v.fib < 2 ^ 64 :=
  lt_of_le_of_lt (Nat.fib_mono hv) (by decide +kernel)

/-- **`fib` computes the Fibonacci numbers.** -/
theorem fib_computes (hp : p.listing false = fibListing) (hn : n < 2 ^ 30) (v : ℕ) :
    FibComputes p n v := by
  induction v using Nat.strong_induction_on with
  | _ v ih =>
      intro A r c K W hargs hret hA hrA hr hroom hroom₂ hcalls hv
      have hdepth : (c :: K).length = K.length + 1 := rfl
      have henters := fib_enters (K := K) hp hargs hA hroom₂ hv
      by_cases hle : v ≤ 1
      · rw [if_pos hle] at henters
        have hreturns := fib_returns (n := n) (K := K) hp hret (by omega) (by omega)
          (fibCompared_value (W := W) (A := A) (v := v))
        apply (henters.seq hreturns).conseq (fun s hs => hs)
        intro s hs
        refine ⟨_, hs, ?_, ?_⟩
        · rw [pair_setPair]
          interval_cases v <;> rfl
        · intro i hi _ hir hir'
          rw [setPair_of_ne hir hir', fibCompared_stack hi]
      · obtain ⟨u, rfl⟩ : ∃ u, v = u + 2 := ⟨v - 2, by omega⟩
        rw [if_neg hle] at henters
        have hfib : (u + 1).fib + u.fib = (u + 2).fib := by
          rw [Nat.fib_add_two, Nat.add_comm]
        have hsmall : (u + 2).fib < 2 ^ 64 := fib_lt (by omega)
        have hfirst := fib_subcall (n := n) (K := c :: K) (k := 6) (q := 2) (m := 1)
          (u := u + 1) hp rfl rfl rfl hA hn (fibCompared_ptr (W := W)) fibCompared_value
          (ih (u + 1) (by omega)) (by omega) (by omega) (by omega) (by omega)
        intro s hs
        apply ((henters.seq hfirst) s hs).bind
        rintro s₁ ⟨W₁, hs₁, hvalue₁, hkept₁⟩
        have hkept₁' {i : ℕ} (hi : i ∈ fibStack) (hlt : i < A + 2) : W₁ i = W i := by
          rw [hkept₁ i hi hlt, fibCompared_stack hi]
        have hv₁ : pair W₁ A = u + 2 := by
          rw [← hv]
          exact pair_congr (hkept₁' (.inr hA) (by omega)) (hkept₁' (.inr (by omega)) (by omega))
        apply (fib_second hp hargs hA hn hv₁ (ih u (by omega)) hroom hcalls s₁ hs₁).bind
        rintro s₂ ⟨W₂, hs₂, hvalue₂, hkept₂⟩
        have hvalue₁' : pair W₂ (A + 2) = (u + 1).fib := by
          rw [← hvalue₁]
          exact pair_congr (hkept₂ _ (.inr (by omega)) (by omega))
            (hkept₂ _ (.inr (by omega)) (by omega))
        have hends := fib_ends (n := n) (K := K) hp hargs hret hA (by omega) (by omega)
          hvalue₁' hvalue₂ (by omega)
        apply (hends s₂ hs₂).bind
        intro s₃ hs₃
        refine .here ⟨_, hs₃, ?_, ?_⟩
        · rw [pair_setPair, hfib]
        · intro i hi hiA hir hir'
          rw [setPair_of_ne hir hir', fibAdded_stack hi, hkept₂ i hi (by omega), hkept₁' hi hiA]

/-- **`fib` runs out of its stack** with an argument for which there is no room: it fails when it
writes the argument of a call behind the memory. -/
theorem fib_overflows (hp : p.listing false = fibListing) (hn : n < 2 ^ 29) {d : ℕ} :
    ∀ {v A : ℕ} {c : SrcCall} {K : List SrcCall} {W : ℕ → ℕ} {s : SrcState},
      c.args.toNat = 4 * A → 12 ≤ A → A + 4 * d + 2 ≤ n → n < A + 4 * d + 6 → d + 2 ≤ v →
      K.length + 1 + d ≤ maxCalls → pair W A = v → At n 2 (c :: K) W s →
      ∃ r, Outcomes.Ends (p.step false) s r ∧ ∃ memory, r = .failed vmEMemFault memory := by
  induction d with
  | zero =>
      intro v A c K W s hargs hA hroom hfull hv hcalls hvalue hs
      have henters := fib_enters (n := n) (K := K) hp hargs hA (by omega) hvalue
      rw [if_neg (by omega)] at henters
      have hprepares := fib_prepares (n := n) (K := c :: K) (k := 6) (q := 2) (m := 1) hp
        rfl rfl rfl (show A + 2 + 2 < 2 ^ 30 by omega) (by omega) (fibCompared_ptr (W := W))
        fibCompared_value (show 1 ≤ v by omega)
      generalize v - (1 : UInt64).toNat = u at hprepares
      apply ((henters.seq hprepares) s hs).ends
      intro s' hs'
      have hlow : pair (fibPrepared (fibCompared W A v) A 2 u) 2 % 2 ^ 32 = 4 * (A + 4) := by
        rw [hs'.memory.pair_mod (by omega), fibPrepared_arg]
      have hfault := step_write64_fault (fib_fetches hp (k := 10) rfl) hs'
        (reads_cell (i := 2) rfl (by omega) rfl) (reads_value 0)
        (reads_cell (i := 3) rfl (by omega) pair_setPair) hlow (by omega) (by omega)
      exact ⟨_, .done hfault, _, rfl⟩
  | succ d ih =>
      intro v A c K W s hargs hA hroom hfull hv hcalls hvalue hs
      have hdepth : (c :: K).length = K.length + 1 := rfl
      have henters := fib_enters (n := n) (K := K) hp hargs hA (by omega) hvalue
      rw [if_neg (by omega)] at henters
      rcases fib_calls (n := n) (K := c :: K) (k := 6) (q := 2) (m := 1) hp rfl rfl rfl hA
        (by omega) (by omega) (by omega) (fibCompared_ptr (W := W)) fibCompared_value
        (show 1 ≤ v by omega) with ⟨c', hargs', -, -, hcall⟩
      apply ((henters.seq hcall) s hs).ends
      intro s' hs'
      exact ih hargs' (by omega) (by omega) (by omega) (show d + 2 ≤ v - 1 by omega) (by omega)
        pair_setPair hs'

end Function

/-! ## The whole program -/

section Program

variable {T : InstnTable} {p : PrsResult T} {memory : Segment} {v : ℕ}

theorem fib_starts (hp : p.listing false = fibListing) (hsize : memory.size = 560)
    (hv : memory.load 48 8 = some v) :
    ∃ c W, c.args.toNat = 4 * 12 ∧ c.retval.toNat = 4 * 0 ∧ c.resume = 1 ∧ pair W 12 = v ∧
      Leads (p.step false) (At 140 2 [c] W) (srcStart 0 memory) := by
  rcases exists_holds (n := 140) hsize with ⟨W, hW⟩
  have hvalue : pair W 12 = v := by
    have hload := hW.load_pair (i := 12) (by decide)
    rw [Segment.load, hload] at hv
    exact Option.some.inj hv
  exact ⟨_, W, rfl, rfl, rfl, hvalue, triple_call (n := 140) (K := [])
    (fib_fetches hp (k := 0) rfl) (reads_value 48) (reads_value 0) (by decide) _ ⟨rfl, rfl, hW⟩⟩

/-- The program comes to its end with the result in `num`. -/
theorem fib_returns_num (hp : p.listing false = fibListing) (hsize : memory.size = 560)
    (hv : memory.load 48 8 = some v) (hle : v ≤ 32) :
    ∃ r, Outcomes.Ends (p.step false) (srcStart 0 memory) r ∧
      ∃ memory', r = .ended memory' ∧ memory'.load 0 8 = some v.fib := by
  rcases fib_starts hp hsize hv with ⟨c, W, hargs, hret, hresume, hvalue, hleads⟩
  have hfib := fib_computes (n := 140) hp (by decide) v (K := []) hargs hret (by decide)
    (by decide) (.inl (by decide)) (by omega) (by decide) (show 0 + v ≤ 64 by omega) hvalue
  apply (hleads.bind hfib).ends
  rintro s ⟨W', hs, hresult, -⟩
  rw [hresume] at hs
  refine ⟨_, .done (step_ret_last (fib_fetches hp (k := 1) rfl) hs), _, rfl, ?_⟩
  rw [← hresult]
  exact hs.memory.load_pair (i := 0) (by decide)

theorem fib_fails (hp : p.listing false = fibListing) (hsize : memory.size = 560)
    (hv : memory.load 48 8 = some v) (hlt : 32 < v) :
    ∃ r, Outcomes.Ends (p.step false) (srcStart 0 memory) r ∧
      ∃ memory', r = .failed vmEMemFault memory' := by
  rcases fib_starts hp hsize hv with ⟨c, W, hargs, -, -, hvalue, hleads⟩
  apply hleads.ends
  intro s hs
  exact fib_overflows (d := 31) hp (by decide) hargs (by decide) (by decide) (by decide) (by omega)
    (by decide) hvalue hs

end Program

/-- The file is parsed without errors and assembled. -/
theorem fib_assembles (fill : ℕ → UInt8) :
    ∃ (p : PrsResult stableTable) (b : Bytecode stableTable),
      parseAsm (singleFile fibSource) 1 false [] [] = .ok (some p) ∧
        parseToBytecode fill p false = .ok b ∧ p.ErrorFree ∧ p.listing false = fibListing ∧
          (firstEmitted false p.instns 0).isSome = true ∧ b.code.length = 254 := by
  have hparse := parseAsm_fib
  cases hresult : parseAsm (T := stableTable) (singleFile fibSource) 1 false [] [] with
  | error e =>
      rw [hresult] at hparse
      cases hparse
  | ok o =>
      rw [hresult] at hparse
      cases o with
      | none => cases hparse
      | some p =>
          have hfacts := Option.some.inj (Except.ok.inj hparse)
          simp only [Prod.mk.injEq] at hfacts
          rcases hfacts with ⟨herrors, hsize, -, hlisting⟩
          have herror : p.ErrorFree := parseAsm_errorFree hresult herrors
          have hmax : codeSize false p.instns ≤ maxCodeSize := by
            rw [hsize]
            decide +kernel
          have hinside : p.CodeLabelsInside false := by
            apply codeLabelsInside_of_listing
            rw [hlisting]
            decide
          refine ⟨p, _, rfl, (parseToBytecode_spec fill false herror).2.2 hmax hinside, herror,
            hlisting, ?_, ?_⟩
          · rcases fib_fetches hlisting (k := 0) rfl with ⟨x, hx, hxe, -⟩
            exact firstEmitted_self hx hxe
          · rw [PrsResult.layout, length_encodeCode]
            exact hsize

/-- **The program of `test_fib`.** The file is parsed and assembled. Whatever its memory contains,
with `v` at 48 `execute_vm` returns; for `v` up to 32 the program ends and has the Fibonacci number
at 0, and from 33 on it fails with a memory fault. -/
theorem fib_program {ω : Type} (os : Os ω) (fill : ℕ → UInt8) :
    ∃ (p : PrsResult stableTable) (b : Bytecode stableTable),
      parseAsm (singleFile fibSource) 1 false [] [] = .ok (some p) ∧
        parseToBytecode fill p false = .ok b ∧
          ∀ (memory : Segment) (v : ℕ) (vm : Vm (Sys ω)), memory.size = 560 →
            memory.load 48 8 = some v → Loaded b 0 memory vm →
              ∃ n vm', executeVm stableTable.entries (sysHost os) n vm = .ok (some vm') ∧
                (v ≤ 32 → vm'.exceptions = 0 ∧ vm'.procedures = [] ∧
                  vm'.memory.load 0 8 = some v.fib) ∧
                (32 < v → vm'.exceptions = vmEMemFault ∧ vm'.procedures ≠ []) := by
  rcases fib_assembles fill with ⟨p, b, hparse, hgen, herror, hlisting, hentry, -⟩
  refine ⟨p, b, hparse, hgen, ?_⟩
  intro memory v vm hsize hv hvm
  by_cases hle : v ≤ 32
  · rcases fib_returns_num hlisting hsize hv hle with ⟨r, hr, memory', rfl, hresult⟩
    rcases assembled_ends os herror hgen hentry hvm hr with
      ⟨n, vm', hrun, hmemory, hexceptions, hprocedures⟩
    refine ⟨n, vm', hrun, ?_, fun hlt => absurd hle (by omega)⟩
    intro _
    rw [hmemory]
    exact ⟨hexceptions, hprocedures, hresult⟩
  · rcases fib_fails hlisting hsize hv (by omega) with ⟨r, hr, memory', rfl⟩
    rcases assembled_ends os herror hgen hentry hvm hr with
      ⟨n, vm', hrun, -, hexceptions, hprocedures⟩
    exact ⟨n, vm', hrun, fun h => absurd h hle, fun _ => ⟨hexceptions, hprocedures⟩⟩

/-- A memory of the program with 10 at 48. -/
def fibMemory : Segment where
  bytes := List.replicate 48 0 ++ 10 :: List.replicate 511 0
  size_lt := by
    rw [List.length_append, List.length_cons, List.length_replicate, List.length_replicate]
    decide

theorem fib_program_ten :
    ∃ n vm vm', vm.memory = fibMemory ∧
      executeVm stableTable.entries (sysHost deadOs) n vm = .ok (some vm') ∧
        vm'.memory.load 0 8 = some 55 := by
  rcases fib_program deadOs (fun _ => 0) with ⟨p, b, hparse, hgen, hruns⟩
  rcases fib_assembles (fun _ => 0) with ⟨p', b', hparse', hgen', herror, hlisting, -, hlength⟩
  obtain rfl : p' = p := by
    rw [hparse] at hparse'
    exact (Option.some.inj (Except.ok.inj hparse')).symm
  obtain rfl : b' = b := by
    rw [hgen] at hgen'
    exact (Except.ok.inj hgen').symm
  have hcode : b'.code.length < 2 ^ 32 := by
    rw [hlength]
    decide
  have hentry : ∃ i, b'.parse.instns[0]? = some i := by
    rcases fib_fetches hlisting (k := 0) rfl with ⟨x, hx, -⟩
    rw [(parseToBytecode_eq_layout herror hgen).1]
    exact ⟨_, getElem?_layout hx⟩
  rcases hentry with ⟨i, hi⟩
  rcases hruns fibMemory 10
      { newVm ⟨b'.code, hcode⟩ with memory := fibMemory, procedures := [newProc i.memOffset] }
      (by decide +kernel) (by decide +kernel) ⟨rfl, rfl, rfl, ⟨i, hi, rfl⟩, (), rfl⟩ with
    ⟨n, vm', hrun, hresult, -⟩
  exact ⟨n, _, vm', rfl, hrun, (hresult (by decide)).2.2⟩

end BvgzVm
