import BvgzVm.Lib.Cells
import BvgzVm.Source.Meaning

set_option autoImplicit false

/-! # Rules for the instructions

One rule for each kind of instruction, in a memory that is seen as words: what a program that is
at a place comes to, in terms of the words (`At`). The rules are triples, to be put together with
those of `Outcomes`. An operand is known by the number it reads (`Reads`); a pointer is the low
word of what is read.
-/

namespace BvgzVm

open Cells Function Outcomes

variable {T : InstnTable}

/-- The program is at a place, with these open calls and words. -/
structure At (n k : ℕ) (calls : List SrcCall) (W : ℕ → ℕ) (s : SrcState) : Prop where
  place : s.place = k
  calls : s.calls = calls
  memory : Holds s.memory.bytes n W

/-- An instruction, with its operands if it is emitted and all of them stand for something. -/
structure ListedInstn where
  op : Op
  operands : Option (List Operand)
  deriving DecidableEq

def PrsResult.listing (p : PrsResult T) (debugMode : Bool) : List ListedInstn :=
  p.instns.map fun x =>
    ⟨x.instn.handler, if x.emitted debugMode then p.operands debugMode x.args else none⟩

/-- An operand that reads a number in every memory with these words. -/
structure Reads (n : ℕ) (W : ℕ → ℕ) (o : Operand) (v : ℕ) : Prop where
  read : ∀ memory : Segment, Holds memory.bytes n W →
    ∃ u, o.read memory = some u ∧ u.toNat = v
  inside : ∀ memory : Segment, Holds memory.bytes n W → o.outside memory = false

section Rules

variable {p : PrsResult T} {debugMode : Bool} {n k i j a b v : ℕ} {K : List SrcCall}
  {W W' : ℕ → ℕ} {os : List Operand} {op : Op} {d r : UInt32} {x y z : Operand}

/-! ## Listings -/

theorem fetches_of_listing (h : (p.listing debugMode)[k]? = some ⟨op, some os⟩) :
    Fetches p debugMode k op os := by
  unfold PrsResult.listing at h
  rw [List.getElem?_map] at h
  rcases Option.map_eq_some_iff.1 h with ⟨x, hx, heq⟩
  rw [ListedInstn.mk.injEq] at heq
  have hxe : x.emitted debugMode = true := by
    by_contra hne
    rw [if_neg hne] at heq
    cases heq.2
  rw [if_pos hxe] at heq
  exact ⟨x, hx, hxe, heq.1, heq.2⟩

theorem operand_of_mem {as : List PrsArg} {arg : PrsArg}
    (hos : p.operands debugMode as = some os) (harg : arg ∈ as) :
    ∃ o, p.operand debugMode arg = some o := by
  induction as generalizing os with
  | nil => cases harg
  | cons a as ih =>
      unfold PrsResult.operands at hos
      split at hos
      · next o os' ho hos' =>
          rcases List.mem_cons.1 harg with rfl | hmem
          · exact ⟨o, ho⟩
          · exact ih hos' hmem
      · cases hos

/-- Where all operands stand for something, the code labels are inside the program. -/
theorem codeLabelsInside_of_listing (h : ∀ e ∈ p.listing debugMode, e.operands.isSome = true) :
    p.CodeLabelsInside debugMode := by
  rintro x hx hxe l ⟨a, ha, hal⟩ label hget hcode
  have hsome := h _ (List.mem_map_of_mem hx)
  dsimp only at hsome
  rw [if_pos hxe] at hsome
  rcases Option.isSome_iff_exists.1 hsome with ⟨os, hos⟩
  rcases operand_of_mem hos ha with ⟨o, ho⟩
  cases a with
  | imm w v hw => cases hal
  | refNum v => cases hal
  | refLbl l' =>
      obtain rfl := Option.some.inj hal
      unfold PrsResult.operand at ho
      dsimp only at ho
      rw [hget] at ho
      dsimp only at ho
      rw [hcode] at ho
      cases ho
  | immLbl l' =>
      obtain rfl := Option.some.inj hal
      unfold PrsResult.operand at ho
      dsimp only at ho
      rw [hget] at ho
      dsimp only at ho
      rw [hcode, if_neg Bool.false_ne_true] at ho
      split at ho
      · next hemitted => exact firstEmitted_lt hemitted
      · cases ho

/-! ## Operands -/

@[simp] theorem outside_value (c : UInt64) (memory : Segment) :
    (Operand.value c).outside memory = false := rfl

@[simp] theorem outside_place (k : ℕ) (memory : Segment) :
    (Operand.place k).outside memory = false := rfl

theorem reads_value (c : UInt64) : Reads n W (.value c) c.toNat :=
  ⟨fun _ _ => ⟨c, rfl, rfl⟩, fun _ _ => rfl⟩

/-- The cells of words pass the check of the decoder. -/
theorem cell_inside (hd : d.toNat = 4 * i) (hi : i < n) {memory : Segment}
    (hm : Holds memory.bytes n W) : (Operand.cell d).outside memory = false := by
  have hle : d.toNat + 4 ≤ memory.size := by
    rw [Segment.size, hm.length, hd]
    omega
  have hsize := memory.size_lt'
  have hfour : (4 : UInt32).toNat = 4 := rfl
  show (derefMemPtr d 4 memory.size).isNone = false
  unfold derefMemPtr
  rw [if_neg]
  · rfl
  · rw [UInt32.toNat_add]
    omega

theorem reads_cell (hd : d.toNat = 4 * i) (hi : i + 1 < n) (hv : pair W i = v) :
    Reads n W (.cell d) v := by
  subst hv
  refine ⟨?_, fun memory hm => cell_inside hd (by omega) hm⟩
  intro memory hm
  refine ⟨UInt64.ofNat (pair W i), ?_, UInt64.toNat_ofNat_of_lt' (hm.pair_lt hi)⟩
  show (Bytes.load memory.bytes d.toNat 8).map UInt64.ofNat = _
  rw [hd, hm.load_pair hi]
  rfl

/-- A number in a cell of two words. -/
theorem setCell_words (hd : d.toNat = 4 * i) (hi : i + 1 < n) {memory : Segment}
    (hm : Holds memory.bytes n W) (u : UInt64) :
    ∃ memory', memory.store d.toNat 8 u.toNat = some memory' ∧
      Holds memory'.bytes n (setPair W i u.toNat) := by
  rcases hm.store_pair hi u.toNat_lt with ⟨buf, hstore, hbuf⟩
  have hroom : d.toNat + 8 ≤ memory.size := by
    rw [Segment.size, hm.length]
    omega
  rcases Segment.store_ok u.toNat hroom with ⟨memory', hs⟩
  have hbytes := Segment.write_bytes hs
  rw [hd] at hbytes
  rw [Bytes.store, hbytes] at hstore
  refine ⟨memory', hs, ?_⟩
  rw [Option.some.inj hstore]
  exact hbuf

theorem storeWord_words (hd : d.toNat = 4 * i) (hi : i < n) {memory : Segment}
    (hm : Holds memory.bytes n W) (v : ℕ) :
    ∃ memory', memory.store d.toNat 4 v = some memory' ∧
      Holds memory'.bytes n (update W i (v % 2 ^ 32)) := by
  rcases hm.store_word hi v with ⟨buf, hstore, hbuf⟩
  have hroom : d.toNat + 4 ≤ memory.size := by
    rw [Segment.size, hm.length]
    omega
  rcases Segment.store_ok v hroom with ⟨memory', hs⟩
  have hbytes := Segment.write_bytes hs
  rw [hd] at hbytes
  rw [Bytes.store, hbytes] at hstore
  refine ⟨memory', hs, ?_⟩
  rw [Option.some.inj hstore]
  exact hbuf

/-! ## Steps -/

/-- **The rule for an instruction** that goes on. -/
theorem triple_exec {P Q : SrcState → Prop} (hf : Fetches p debugMode k op os)
    (hP : ∀ s, P s → s.place = k ∧ os.any (Operand.outside s.memory) = false ∧
      ∃ s', s.exec op os = some (.inl s') ∧ Q s') :
    Triple (p.step debugMode) P Q := by
  apply triple_step
  intro s hs
  rcases hP s hs with ⟨hk, hinside, s', hexec, hQ⟩
  exact ⟨s', (step_eq_exec hf hk hinside).trans hexec, hQ⟩

/-- An instruction that only changes the memory. -/
theorem triple_effect (hf : Fetches p debugMode k op os)
    (hexec : ∀ s : SrcState, s.exec op os = (op.effect os s.memory).map s.finish)
    (heff : ∀ memory : Segment, Holds memory.bytes n W →
      os.any (Operand.outside memory) = false ∧
        ∃ memory', op.effect os memory = some (.ok memory') ∧ Holds memory'.bytes n W') :
    Triple (p.step debugMode) (At n k K W) (At n (k + 1) K W') := by
  apply triple_exec hf
  intro s hs
  rcases heff s.memory hs.memory with ⟨hinside, memory', heq, hm⟩
  refine ⟨hs.place, hinside, { s with place := s.place + 1, memory := memory' }, ?_, ?_⟩
  · rw [hexec, heq]
    rfl
  · exact ⟨congrArg (· + 1) hs.place, hs.calls, hm⟩

/-- The operands of an operator are inside the memory if the two that are read and the one that is
written are. -/
theorem binaryForm_inside {memory : Segment} (hform : binaryForm os = some (d, x, y))
    (hd : (Operand.cell d).outside memory = false) (hx : x.outside memory = false)
    (hy : y.outside memory = false) : os.any (Operand.outside memory) = false := by
  unfold binaryForm at hform
  split at hform
  · cases hform
    simp [hd, hx, hy]
  · cases hform
    simp [hd, hy]
  · cases hform

theorem exec_binary {f : UInt64 → UInt64 → Option (Except UInt32 UInt64)} (hop : op.binary = some f)
    (s : SrcState) : s.exec op os = (op.effect os s.memory).map s.finish := by
  cases op <;> first | rfl | cases hop

/-- **An operator**, with its result in two words. -/
theorem triple_binary {f : UInt64 → UInt64 → Option (Except UInt32 UInt64)}
    (hf : Fetches p debugMode k op os) (hop : op.binary = some f)
    (hform : binaryForm os = some (d, x, y)) (hd : d.toNat = 4 * i) (hi : i + 1 < n)
    (hx : Reads n W x a) (hy : Reads n W y b)
    (hv : ∀ u w : UInt64, u.toNat = a → w.toNat = b →
      ∃ r : UInt64, f u w = some (.ok r) ∧ r.toNat = v) :
    Triple (p.step debugMode) (At n k K W) (At n (k + 1) K (setPair W i v)) := by
  apply triple_effect hf (exec_binary hop)
  intro memory hm
  rcases hx.read memory hm with ⟨u, hu, hua⟩
  rcases hy.read memory hm with ⟨w, hw, hwb⟩
  rcases hv u w hua hwb with ⟨r, hr, hrv⟩
  rcases setCell_words hd hi hm r with ⟨memory', hs, hm'⟩
  refine ⟨binaryForm_inside hform (cell_inside hd (by omega) hm) (hx.inside memory hm)
    (hy.inside memory hm), memory', ?_, ?_⟩
  · unfold Op.effect binaryEffect setCell
    rw [hop, hform]
    dsimp only [Option.bind_some]
    rw [hu, hw]
    dsimp only
    rw [hr]
    dsimp only
    rw [hs]
    rfl
  · rw [← hrv]
    exact hm'

/-- **`add`**, where the sum is a 64-bit number. -/
theorem triple_add (hf : Fetches p debugMode k op os) (hop : op = .add3 ∨ op = .add2)
    (hform : binaryForm os = some (d, x, y)) (hd : d.toNat = 4 * i) (hi : i + 1 < n)
    (hx : Reads n W x a) (hy : Reads n W y b) (hsum : a + b < 2 ^ 64) :
    Triple (p.step debugMode) (At n k K W) (At n (k + 1) K (setPair W i (a + b))) := by
  have hbinary : op.binary = some fun x y => some (.ok (x + y)) := by
    rcases hop with rfl | rfl <;> rfl
  apply triple_binary hf hbinary hform hd hi hx hy
  intro u w hu hw
  refine ⟨u + w, rfl, ?_⟩
  rw [UInt64.toNat_add, hu, hw, Nat.mod_eq_of_lt hsum]

/-- **`sub`**, where the difference is not negative. -/
theorem triple_sub (hf : Fetches p debugMode k op os) (hop : op = .sub3 ∨ op = .sub2)
    (hform : binaryForm os = some (d, x, y)) (hd : d.toNat = 4 * i) (hi : i + 1 < n)
    (hx : Reads n W x a) (hy : Reads n W y b) (hle : b ≤ a) :
    Triple (p.step debugMode) (At n k K W) (At n (k + 1) K (setPair W i (a - b))) := by
  have hbinary : op.binary = some fun x y => some (.ok (x - y)) := by
    rcases hop with rfl | rfl <;> rfl
  apply triple_binary hf hbinary hform hd hi hx hy
  intro u w hu hw
  refine ⟨u - w, rfl, ?_⟩
  rw [UInt64.toNat_sub_of_le _ _ (UInt64.le_iff_toNat_le.2 (by omega)), hu, hw]

/-- **`le`** -/
theorem triple_le (hf : Fetches p debugMode k .le3 os)
    (hform : binaryForm os = some (d, x, y)) (hd : d.toNat = 4 * i) (hi : i + 1 < n)
    (hx : Reads n W x a) (hy : Reads n W y b) :
    Triple (p.step debugMode) (At n k K W)
      (At n (k + 1) K (setPair W i (if a ≤ b then 1 else 0))) := by
  apply triple_binary hf rfl hform hd hi hx hy
  intro u w hu hw
  refine ⟨ofBool (decide (u ≤ w)), rfl, ?_⟩
  by_cases hle : a ≤ b
  · have hdec : decide (u ≤ w) = true := decide_eq_true (UInt64.le_iff_toNat_le.2 (by omega))
    rw [hdec, if_pos hle]
    rfl
  · have hdec : decide (u ≤ w) = false :=
      decide_eq_false (mt UInt64.le_iff_toNat_le.1 (by omega))
    rw [hdec, if_neg hle]
    rfl

/-- **`add`** to a pointer. The operator has eight bytes, but the word behind the pointer stays as
it is. -/
theorem triple_add_pointer {c : UInt64} (hf : Fetches p debugMode k .add2 [.cell d, .value c])
    (hd : d.toNat = 4 * i) (hi : i + 1 < n) (hv : W i + c.toNat = v) (hfits : v < 2 ^ 32) :
    Triple (p.step debugMode) (At n k K W) (At n (k + 1) K (update W i v)) := by
  subst hv
  intro s hs
  have hhigh := hs.memory.lt hi
  have hpair : pair W i + c.toNat < 2 ^ 64 := by
    unfold pair
    omega
  rw [← setPair_pair_add hfits]
  exact triple_add hf (.inr rfl) rfl hd hi (reads_cell hd hi rfl) (reads_value c) hpair s hs

/-- A branch of the access whose address is a word. -/
theorem accessEffect_word {memory : Segment} (hm : Holds memory.bytes n W) {address : UInt32}
    {w : ℕ} (haddr : address.toNat = 4 * i) (hi : 4 * i + w ≤ 4 * n)
    (f : ℕ → Option (Except UInt32 Segment)) :
    accessEffect memory address w f = f address.toNat := by
  unfold accessEffect
  rw [if_pos]
  rw [Segment.size, hm.length, haddr]
  exact hi

/-- **`read64`** through a pointer. -/
theorem triple_read64 {c : UInt64} (hf : Fetches p debugMode k .read64 [.cell d, .cell r, .value c])
    (hd : d.toNat = 4 * i) (hi : i + 1 < n) (hr : r.toNat = 4 * j) (hj : j < n)
    (haddr : W j + c.toNat = 4 * a) (ha : a + 1 < n) (hv : pair W a = v) :
    Triple (p.step debugMode) (At n k K W) (At n (k + 1) K (setPair W i v)) := by
  subst hv
  apply triple_effect hf (fun _ => rfl)
  intro memory hm
  have hsize := memory.size_lt'
  rw [Segment.size, hm.length] at hsize
  have haddress : (UInt32.ofNat (W j) + c.toUInt32).toNat = 4 * a := by
    rw [UInt32.toNat_add, UInt32.toNat_ofNat', UInt64.toNat_toUInt32]
    omega
  have hbase : memory.load r.toNat 4 = some (W j) := by
    rw [hr]
    exact hm.word j hj
  have hload : memory.load (UInt32.ofNat (W j) + c.toUInt32).toNat 8 = some (pair W a) := by
    rw [haddress]
    exact hm.load_pair ha
  have hv : (UInt64.ofNat (pair W a)).toNat = pair W a := UInt64.toNat_ofNat_of_lt' (hm.pair_lt ha)
  rcases setCell_words hd hi hm (UInt64.ofNat (pair W a)) with ⟨memory', hs, hm'⟩
  rw [hv] at hs hm'
  refine ⟨?_, memory', ?_, hm'⟩
  · simp [cell_inside hd (show i < n by omega) hm, cell_inside hr hj hm]
  · show readEffect 8 memory d r (.value c) = _
    unfold readEffect
    rw [hbase]
    show accessEffect memory (UInt32.ofNat (W j) + c.toUInt32) 8 _ = _
    rw [accessEffect_word hm haddress (by omega), hload]
    dsimp only
    rw [hs]
    rfl

/-- The address in two numbers of which the low words count. -/
theorem toNat_address {u w : UInt64} (hu : u.toNat = a) (hw : w.toNat = b)
    (haddr : a % 2 ^ 32 + b % 2 ^ 32 = 4 * i) (hn : 4 * i < 2 ^ 32) :
    (u.toUInt32 + w.toUInt32).toNat = 4 * i := by
  rw [UInt32.toNat_add, UInt64.toNat_toUInt32, UInt64.toNat_toUInt32, hu, hw]
  omega

/-- **`write32`** -/
theorem triple_write32 (hf : Fetches p debugMode k .write32 [x, y, z]) (hx : Reads n W x a)
    (hy : Reads n W y b) (hz : Reads n W z v) (haddr : a % 2 ^ 32 + b % 2 ^ 32 = 4 * i)
    (hi : i < n) :
    Triple (p.step debugMode) (At n k K W)
      (At n (k + 1) K (update W i (v % 2 ^ 32))) := by
  apply triple_effect hf (fun _ => rfl)
  intro memory hm
  have hsize := memory.size_lt'
  rw [Segment.size, hm.length] at hsize
  rcases hx.read memory hm with ⟨u, hu, hua⟩
  rcases hy.read memory hm with ⟨w, hw, hwb⟩
  rcases hz.read memory hm with ⟨c, hc, hcv⟩
  have haddress := toNat_address hua hwb haddr (by omega)
  rcases storeWord_words haddress hi hm c.toNat with ⟨memory', hs, hm'⟩
  refine ⟨?_, memory', ?_, ?_⟩
  · simp [hx.inside memory hm, hy.inside memory hm, hz.inside memory hm]
  · show writeEffect 4 memory x y z = _
    unfold writeEffect
    rw [hu, hw, hc]
    dsimp only
    rw [accessEffect_word hm haddress (by omega), hs]
    rfl
  · rw [← hcv]
    exact hm'

/-- **`write64`** -/
theorem triple_write64 (hf : Fetches p debugMode k .write64 [x, y, z]) (hx : Reads n W x a)
    (hy : Reads n W y b) (hz : Reads n W z v) (haddr : a % 2 ^ 32 + b % 2 ^ 32 = 4 * i)
    (hi : i + 1 < n) :
    Triple (p.step debugMode) (At n k K W) (At n (k + 1) K (setPair W i v)) := by
  apply triple_effect hf (fun _ => rfl)
  intro memory hm
  have hsize := memory.size_lt'
  rw [Segment.size, hm.length] at hsize
  rcases hx.read memory hm with ⟨u, hu, hua⟩
  rcases hy.read memory hm with ⟨w, hw, hwb⟩
  rcases hz.read memory hm with ⟨c, hc, hcv⟩
  have haddress := toNat_address hua hwb haddr (by omega)
  rcases setCell_words haddress hi hm c with ⟨memory', hs, hm'⟩
  refine ⟨?_, memory', ?_, ?_⟩
  · simp [hx.inside memory hm, hy.inside memory hm, hz.inside memory hm]
  · show writeEffect 8 memory x y z = _
    unfold writeEffect
    rw [hu, hw, hc]
    dsimp only
    rw [accessEffect_word hm haddress (by omega), hs]
    rfl
  · rw [← hcv]
    exact hm'

/-- **`write64`** behind the memory is a fault. -/
theorem step_write64_fault {s : SrcState} (hf : Fetches p debugMode k .write64 [x, y, z])
    (hs : At n k K W s) (hx : Reads n W x a) (hy : Reads n W y b) (hz : Reads n W z v)
    (haddr : a % 2 ^ 32 + b % 2 ^ 32 = 4 * i) (hi : n < i + 2) (hfits : 4 * i + 8 < 2 ^ 32) :
    p.step debugMode s = some (.inr (.failed vmEMemFault s.memory)) := by
  rcases hx.read s.memory hs.memory with ⟨u, hu, hua⟩
  rcases hy.read s.memory hs.memory with ⟨w, hw, hwb⟩
  rcases hz.read s.memory hs.memory with ⟨c, hc, -⟩
  have haddress := toNat_address hua hwb haddr (by omega)
  have hinside : [x, y, z].any (Operand.outside s.memory) = false := by
    simp [hx.inside s.memory hs.memory, hy.inside s.memory hs.memory,
      hz.inside s.memory hs.memory]
  rw [step_eq_exec hf hs.place hinside]
  show (writeEffect 8 s.memory x y z).map s.finish = _
  unfold writeEffect accessEffect
  rw [hu, hw, hc]
  dsimp only
  rw [if_neg, if_pos]
  · rfl
  · rw [haddress]
    exact hfits
  · rw [haddress, Segment.size, hs.memory.length]
    omega

/-! ## Calls -/

/-- **`call`** -/
theorem triple_call {k' : ℕ} (hf : Fetches p debugMode k .call3 [.place k', x, y])
    (hx : Reads n W x a) (hy : Reads n W y b) (hroom : K.length < maxCalls) :
    Triple (p.step debugMode) (At n k K W)
      (At n k' (⟨UInt32.ofNat b, UInt32.ofNat a, k + 1⟩ :: K) W) := by
  apply triple_exec hf
  intro s hs
  rcases hx.read s.memory hs.memory with ⟨u, hu, hua⟩
  rcases hy.read s.memory hs.memory with ⟨w, hw, hwb⟩
  have hlow {c : UInt64} {m : ℕ} (hc : c.toNat = m) : c.toUInt32 = UInt32.ofNat m := by
    rw [← UInt32.toNat_inj, UInt64.toNat_toUInt32, UInt32.toNat_ofNat', hc]
  have hroom' : s.calls.length < maxCalls := by
    rw [hs.calls]
    exact hroom
  refine ⟨hs.place, ?_,
    { s with place := k', calls := ⟨UInt32.ofNat b, UInt32.ofNat a, s.place + 1⟩ :: s.calls },
    ?_, rfl, ?_, hs.memory⟩
  · simp [hx.inside s.memory hs.memory, hy.inside s.memory hs.memory]
  · show s.call k' x y = _
    unfold SrcState.call
    rw [hu, hw]
    dsimp only
    rw [if_pos hroom', hlow hua, hlow hwb]
  · show _ :: s.calls = _
    rw [hs.calls, hs.place]

/-- **`ret`** -/
theorem triple_ret {c : SrcCall} (hf : Fetches p debugMode k .ret0 []) :
    Triple (p.step debugMode) (At n k (c :: K) W) (At n c.resume K W) := by
  apply triple_exec hf
  intro s hs
  refine ⟨hs.place, rfl, { s with place := c.resume, calls := K }, ?_, rfl, rfl, hs.memory⟩
  show some s.ret = _
  unfold SrcState.ret
  rw [hs.calls]

/-- **`argv`** -/
theorem triple_argv {c : SrcCall} (hf : Fetches p debugMode k .argv1 [.cell d])
    (hd : d.toNat = 4 * i) (hi : i < n) :
    Triple (p.step debugMode) (At n k (c :: K) W)
      (At n (k + 1) (c :: K) (update W i c.args.toNat)) := by
  apply triple_exec hf
  intro s hs
  have hargv : s.argv = c.args := by
    unfold SrcState.argv
    rw [hs.calls]
  rcases storeWord_words hd hi hs.memory c.args.toNat with ⟨memory', hstore, hm'⟩
  rw [Nat.mod_eq_of_lt c.args.toNat_lt] at hm'
  refine ⟨hs.place, ?_, { s with place := s.place + 1, memory := memory' }, ?_,
    congrArg (· + 1) hs.place, hs.calls, hm'⟩
  · simp [cell_inside hd hi hs.memory]
  · show (s.memory.store d.toNat 4 s.argv.toNat).map s.goOn = _
    rw [hargv, hstore]
    rfl

/-- `ret` behind the last call ends the program. -/
theorem step_ret_last {s : SrcState} (hf : Fetches p debugMode k .ret0 []) (hs : At n k [] W s) :
    p.step debugMode s = some (.inr (.ended s.memory)) := by
  rw [step_eq_exec hf hs.place rfl]
  show some s.ret = _
  unfold SrcState.ret
  rw [hs.calls]

theorem retv_of_calls {s : SrcState} {c : SrcCall} {u : UInt64} (hcalls : s.calls = c :: K)
    (hu : x.read s.memory = some u) :
    s.retv x = (accessEffect s.memory c.retval 8 fun address =>
      (s.memory.store address 8 u.toNat).map .ok).map s.finish := by
  unfold SrcState.retv
  rw [hcalls, hu]

/-- **`retv`** -/
theorem triple_retv {c : SrcCall} (hf : Fetches p debugMode k .retv1 [x]) (hx : Reads n W x v)
    (hret : c.retval.toNat = 4 * i) (hi : i + 1 < n) :
    Triple (p.step debugMode) (At n k (c :: K) W)
      (At n (k + 1) (c :: K) (setPair W i v)) := by
  apply triple_exec hf
  intro s hs
  rcases hx.read s.memory hs.memory with ⟨u, hu, huv⟩
  rcases setCell_words hret hi hs.memory u with ⟨memory', hstore, hm'⟩
  rw [huv] at hm'
  refine ⟨hs.place, ?_, { s with place := s.place + 1, memory := memory' }, ?_,
    congrArg (· + 1) hs.place, hs.calls, hm'⟩
  · simp [hx.inside s.memory hs.memory]
  · show s.retv x = _
    rw [retv_of_calls hs.calls hu, accessEffect_word hs.memory hret (by omega), hstore]
    rfl

/-- **`jtrue`**, to a place if the number is not zero. -/
theorem triple_jtrue {k' : ℕ} (hf : Fetches p debugMode k .jtrue2 [.place k', x])
    (hx : Reads n W x v) :
    Triple (p.step debugMode) (At n k K W)
      (At n (if v = 0 then k + 1 else k') K W) := by
  apply triple_exec hf
  intro s hs
  rcases hx.read s.memory hs.memory with ⟨u, hu, huv⟩
  refine ⟨hs.place, ?_, ?_⟩
  · simp [hx.inside s.memory hs.memory]
  · have hzero : u = 0 ↔ v = 0 := by
      rw [← UInt64.toNat_inj, huv]
      rfl
    show ∃ s', s.branch (fun c => c != 0) k' x = some (.inl s') ∧ _
    unfold SrcState.branch
    rw [hu]
    by_cases hv : v = 0
    · rw [if_pos hv, hzero.2 hv]
      exact ⟨_, rfl, congrArg (· + 1) hs.place, hs.calls, hs.memory⟩
    · have htaken : (u != 0) = true := bne_iff_ne.2 (mt hzero.1 hv)
      rw [if_neg hv]
      refine ⟨{ s with place := k' }, ?_, rfl, hs.calls, hs.memory⟩
      rw [Option.map_some, if_pos htaken]
      rfl

end Rules

end BvgzVm
