import BvgzVm.Vm.State

set_option autoImplicit false

/-! # The call stack of a procedure

`push_call_stack` and `pop_call_stack` of `vm.c` on the bytes of the allocated block. The block
is grown by 64 frames when it is full. When 96 frames are unused it is shrunk, but the size given
to `realloc` there is a number of frames and not of bytes, so the block that is left holds a
twelfth of what it should.

`CallStack.Good` is the invariant of a stack that has never been shrunk. A push keeps it unless
the 32-bit size wraps around (`push_good`, `push_wrap`), a pop keeps it exactly as long as the
stack is not shrunk (`pop_good`, `pop_shrink`).
-/

namespace BvgzVm

/-- `FUNC_STACK_ALLOC_SZ` -/
def funcStackAllocSz : UInt32 := 64

/-- `STACK_FREE_THRESHOLD` -/
def stackFreeThreshold : UInt32 := 96

/-- `sizeof(fcall_t)` -/
def fcallSize : Nat := 12

/-- The bytes of a frame: the fields of `fcall_t` in order. -/
def frameBytes (f : FCall) : List UInt8 :=
  Bytes.toLE 4 f.retval.toNat ++ (Bytes.toLE 4 f.args.toNat ++ Bytes.toLE 4 f.retAddress.toNat)

/-- `push_call_stack` -/
def pushCallStack (fill : Nat → UInt8) (proc : Proc) (retval args retAddress : UInt32) :
    Except Ub Proc :=
  let proc :=
    if proc.cstackAlloc < proc.cstackSz + 1 then
      let alloc := proc.cstackAlloc + funcStackAllocSz
      { proc with
        cstackAlloc := alloc
        cstack := Bytes.resize fill proc.cstack (fcallSize * alloc.toNat) }
    else proc
  match Bytes.write proc.cstack (fcallSize * proc.cstackSz.toNat)
      (frameBytes ⟨retval, args, retAddress⟩) with
  | none => .error .callStack
  | some cstack => .ok { proc with cstack := cstack, cstackSz := proc.cstackSz + 1 }

/-- A field of the frame at `idx`, which starts `off` bytes into it. -/
def frameField (proc : Proc) (idx : UInt32) (off : Nat) : Except Ub UInt32 :=
  match Bytes.load proc.cstack (fcallSize * idx.toNat + off) 4 with
  | none => .error .callStack
  | some v => .ok (UInt32.ofNat v)

/-- `pop_call_stack`, with the return address. -/
def popCallStack (fill : Nat → UInt8) (proc : Proc) : Except Ub (UInt32 × Proc) := do
  let sz := proc.cstackSz - 1
  let retAddress ← frameField proc sz 8
  let excess := proc.cstackAlloc - sz
  if stackFreeThreshold ≤ excess then
    let alloc := proc.cstackAlloc - funcStackAllocSz
    .ok (retAddress, { proc with
      cstackSz := sz
      cstackAlloc := alloc
      cstack := Bytes.resize fill proc.cstack alloc.toNat })
  else .ok (retAddress, { proc with cstackSz := sz })

/-! ## Frames in a block -/

/-- The bytes of a stack of frames, the top one first in the list and last in memory. -/
def stackBytes : List FCall → List UInt8
  | [] => []
  | f :: fs => stackBytes fs ++ frameBytes f

@[simp] theorem length_frameBytes (f : FCall) : (frameBytes f).length = fcallSize := by
  simp [frameBytes, fcallSize]

theorem length_stackBytes (fs : List FCall) : (stackBytes fs).length = fcallSize * fs.length := by
  induction fs with
  | nil => rfl
  | cons f fs ih =>
      rw [stackBytes, List.length_append, ih, length_frameBytes, List.length_cons, Nat.mul_succ]

/-- The procedure has exactly the frames `fs`, all of them inside its block. -/
structure HasFrames (proc : Proc) (fs : List FCall) : Prop where
  size : proc.cstackSz.toNat = fs.length
  bytes : stackBytes fs <+: proc.cstack

theorem HasFrames.fits {proc : Proc} {fs : List FCall} (h : HasFrames proc fs) :
    fcallSize * proc.cstackSz.toNat ≤ proc.cstack.length := by
  have hle := h.bytes.length_le
  rwa [length_stackBytes, ← h.size] at hle

/-- A field of a frame is found at its place in the bytes of the frame. -/
theorem frameField_of_bytes {proc : Proc} {idx v : UInt32} {off : Nat} {a b c : List UInt8}
    (hlen : a.length = fcallSize * idx.toNat) (hb : b.length = off)
    (hc : proc.cstack = a ++ (b ++ (Bytes.toLE 4 v.toNat ++ c))) :
    frameField proc idx off = .ok v := by
  have hr := Bytes.read_append (a ++ b) (Bytes.toLE 4 v.toNat) c
  rw [List.append_assoc, ← hc, List.length_append, hlen, hb, Bytes.length_toLE] at hr
  have hlt : v.toNat < 256 ^ 4 := v.toNat_lt
  rw [frameField, Bytes.load_of_read hr, Bytes.ofLE_toLE_of_lt hlt]
  simp

/-- The three fields of the top frame. -/
theorem HasFrames.top {proc : Proc} {f : FCall} {fs : List FCall}
    (h : HasFrames proc (f :: fs)) :
    frameField proc (proc.cstackSz - 1) 0 = .ok f.retval ∧
    frameField proc (proc.cstackSz - 1) 4 = .ok f.args ∧
    frameField proc (proc.cstackSz - 1) 8 = .ok f.retAddress := by
  obtain ⟨rest, hrest⟩ := h.bytes
  have hsize := h.size
  rw [List.length_cons] at hsize
  have hidx : (proc.cstackSz - 1).toNat = fs.length := by
    have hlt := proc.cstackSz.toNat_lt
    rw [UInt32.toNat_sub, show (1 : UInt32).toNat = 1 from rfl]
    omega
  have hlen : (stackBytes fs).length = fcallSize * (proc.cstackSz - 1).toNat := by
    rw [length_stackBytes, hidx]
  rw [stackBytes, frameBytes] at hrest
  simp only [List.append_assoc] at hrest
  have hretval : frameField proc (proc.cstackSz - 1) 0 = .ok f.retval :=
    frameField_of_bytes (b := []) hlen rfl hrest.symm
  have hargs : frameField proc (proc.cstackSz - 1) 4 = .ok f.args :=
    frameField_of_bytes hlen (Bytes.length_toLE 4 _) hrest.symm
  have hretAddress : frameField proc (proc.cstackSz - 1) 8 = .ok f.retAddress := by
    refine frameField_of_bytes (b := Bytes.toLE 4 f.retval.toNat ++ Bytes.toLE 4 f.args.toNat)
      (c := rest) hlen ?_ ?_
    · rw [List.length_append, Bytes.length_toLE, Bytes.length_toLE]
    · rw [← hrest, List.append_assoc]
  exact ⟨hretval, hargs, hretAddress⟩

/-! ## The stacks that were never shrunk -/

namespace CallStack

/-- The frames are inside a block of `cstack_alloc` frames, of which fewer than 96 are free. -/
structure Good (proc : Proc) (fs : List FCall) : Prop where
  hasFrames : HasFrames proc fs
  block : proc.cstack.length = fcallSize * proc.cstackAlloc.toNat
  whole : proc.cstackAlloc.toNat % 64 = 0
  le_alloc : proc.cstackSz.toNat ≤ proc.cstackAlloc.toNat
  excess : proc.cstackAlloc.toNat < proc.cstackSz.toNat + 96

/-- The next push does not grow the block past `2 ^ 32` frames. -/
def PushFits (proc : Proc) : Prop :=
  proc.cstackSz = proc.cstackAlloc → proc.cstackAlloc.toNat + 64 < 2 ^ 32

/-- The next pop does not shrink the block. -/
def PopKeeps (proc : Proc) : Prop :=
  proc.cstackAlloc.toNat - (proc.cstackSz.toNat - 1) < 96

instance (proc : Proc) : Decidable (PushFits proc) := inferInstanceAs (Decidable (_ → _))

instance (proc : Proc) : Decidable (PopKeeps proc) := inferInstanceAs (Decidable (_ < _))

theorem good_new (iptr : UInt32) : Good ⟨iptr, [], 0, 0⟩ [] :=
  ⟨⟨rfl, List.nil_prefix⟩, rfl, rfl, Nat.le_refl 0, show 0 < 96 by decide⟩

/-- Writing the frame on top of the frames that are there. -/
theorem push_write {proc : Proc} {fs : List FCall} (hf : HasFrames proc fs) (f : FCall)
    (hroom : fcallSize * (proc.cstackSz.toNat + 1) ≤ proc.cstack.length) :
    ∃ cstack, Bytes.write proc.cstack (fcallSize * proc.cstackSz.toNat) (frameBytes f)
        = some cstack ∧ cstack.length = proc.cstack.length ∧ stackBytes (f :: fs) <+: cstack := by
  obtain ⟨rest, hrest⟩ := hf.bytes
  have hlen : (stackBytes fs).length = fcallSize * proc.cstackSz.toNat := by
    rw [length_stackBytes, hf.size]
  have hfit : (frameBytes f).length ≤ rest.length := by
    rw [← hrest, List.length_append, hlen, Nat.mul_succ] at hroom
    rw [length_frameBytes]
    omega
  have hwrite : Bytes.write proc.cstack (fcallSize * proc.cstackSz.toNat) (frameBytes f)
      = some (stackBytes fs ++ (frameBytes f ++ rest.drop (frameBytes f).length)) := by
    rw [← hrest, ← hlen]
    exact Bytes.write_append hfit
  refine ⟨_, hwrite, Bytes.write_length hwrite, ⟨rest.drop (frameBytes f).length, ?_⟩⟩
  rw [stackBytes, List.append_assoc]

/-- **A push puts its frame on top**, as long as the size of the block does not wrap around. -/
theorem push_good {proc : Proc} {fs : List FCall} (hg : Good proc fs) (hfit : PushFits proc)
    (fill : Nat → UInt8) (f : FCall) :
    ∃ proc', pushCallStack fill proc f.retval f.args f.retAddress = .ok proc' ∧
      Good proc' (f :: fs) ∧ proc'.iptr = proc.iptr := by
  have hsz := proc.cstackSz.toNat_lt
  have halloc := proc.cstackAlloc.toNat_lt
  have hle := hg.le_alloc
  have hwhole := hg.whole
  have hone : proc.cstackSz.toNat + 1 < 2 ^ 32 := by omega
  have hsucc : (proc.cstackSz + 1).toNat = proc.cstackSz.toNat + 1 := by
    rw [UInt32.toNat_add, show (1 : UInt32).toNat = 1 from rfl, Nat.mod_eq_of_lt hone]
  have hsize : proc.cstackSz.toNat + 1 = (f :: fs).length := by
    rw [List.length_cons, hg.hasFrames.size]
  unfold pushCallStack
  by_cases hgrow : proc.cstackAlloc < proc.cstackSz + 1
  · have hfull : proc.cstackSz.toNat = proc.cstackAlloc.toNat := by
      rw [UInt32.lt_iff_toNat_lt, hsucc] at hgrow
      omega
    have hroom := hfit (UInt32.toNat_inj.1 hfull)
    have halloc' : (proc.cstackAlloc + funcStackAllocSz).toNat = proc.cstackAlloc.toNat + 64 := by
      rw [UInt32.toNat_add, show funcStackAllocSz.toNat = 64 from rfl, Nat.mod_eq_of_lt hroom]
    obtain ⟨rest, hrest⟩ := hg.hasFrames.bytes
    have hblen : (stackBytes fs).length ≤ fcallSize * (proc.cstackAlloc + funcStackAllocSz).toNat := by
      rw [length_stackBytes, ← hg.hasFrames.size, halloc']
      exact Nat.mul_le_mul_left _ (by omega)
    obtain ⟨rest', hrest'⟩ := Bytes.resize_append fill rest hblen
    rw [hrest] at hrest'
    have hgrown : HasFrames { proc with
        cstackAlloc := proc.cstackAlloc + funcStackAllocSz
        cstack := Bytes.resize fill proc.cstack
          (fcallSize * (proc.cstackAlloc + funcStackAllocSz).toNat) } fs :=
      ⟨hg.hasFrames.size, ⟨rest', hrest'.symm⟩⟩
    have hroom' : proc.cstackSz.toNat + 1 ≤ proc.cstackAlloc.toNat + 64 := by omega
    obtain ⟨cstack, hwrite, hclen, hpre⟩ := push_write hgrown f (by
      rw [Bytes.length_resize, halloc']
      exact Nat.mul_le_mul_left _ hroom')
    simp only [if_pos hgrow, hwrite]
    refine ⟨_, rfl, ⟨⟨by rw [hsucc, hsize], hpre⟩, ?_, ?_, ?_, ?_⟩, rfl⟩
    · rw [hclen, Bytes.length_resize]
    · rw [halloc']
      omega
    · rw [halloc', hsucc]
      omega
    · rw [halloc', hsucc]
      omega
  · have hlt : proc.cstackSz.toNat + 1 ≤ proc.cstackAlloc.toNat := by
      rw [UInt32.lt_iff_toNat_lt, hsucc] at hgrow
      omega
    obtain ⟨cstack, hwrite, hclen, hpre⟩ := push_write hg.hasFrames f (by
      rw [hg.block]
      exact Nat.mul_le_mul_left _ hlt)
    simp only [if_neg hgrow, hwrite]
    refine ⟨_, rfl, ⟨⟨by rw [hsucc, hsize], hpre⟩, ?_, hwhole, ?_, ?_⟩, rfl⟩
    · rw [hclen, hg.block]
    · rw [hsucc]
      exact hlt
    · have := hg.excess
      show proc.cstackAlloc.toNat < (proc.cstackSz + 1).toNat + 96
      omega

/-- A push whose block would have `2 ^ 32` frames gets an empty block instead. -/
theorem push_wrap {proc : Proc} {fs : List FCall} (hg : Good proc fs) (hfit : ¬ PushFits proc)
    (fill : Nat → UInt8) (f : FCall) :
    pushCallStack fill proc f.retval f.args f.retAddress = .error .callStack := by
  obtain ⟨hfull, hbig⟩ := Classical.not_imp.1 hfit
  have hwhole := hg.whole
  have halloc := proc.cstackAlloc.toNat_lt
  have hval : proc.cstackAlloc.toNat = 2 ^ 32 - 64 := by omega
  have hsucc : (proc.cstackSz + 1).toNat = proc.cstackSz.toNat + 1 := by
    rw [UInt32.toNat_add, show (1 : UInt32).toNat = 1 from rfl, hfull, Nat.mod_eq_of_lt (by omega)]
  have hgrow : proc.cstackAlloc < proc.cstackSz + 1 := by
    rw [UInt32.lt_iff_toNat_lt, hsucc, hfull]
    omega
  have hzero : (proc.cstackAlloc + funcStackAllocSz).toNat = 0 := by
    rw [UInt32.toNat_add, show funcStackAllocSz.toNat = 64 from rfl, hval,
      Nat.sub_add_cancel (by decide), Nat.mod_self]
  have hnone : Bytes.write (Bytes.resize fill proc.cstack (fcallSize * 0))
      (fcallSize * proc.cstackSz.toNat) (frameBytes f) = none := by
    unfold Bytes.write
    rw [if_neg]
    rw [Bytes.length_resize, length_frameBytes]
    simp [fcallSize]
  unfold pushCallStack
  simp only [if_pos hgrow, hzero, hnone]

/-- How a pop ends: with the return address of the top frame. -/
theorem pop_eq {proc : Proc} {f : FCall} {fs : List FCall} (hf : HasFrames proc (f :: fs))
    (fill : Nat → UInt8) :
    popCallStack fill proc = .ok (f.retAddress,
      if stackFreeThreshold ≤ proc.cstackAlloc - (proc.cstackSz - 1) then
        { proc with
          cstackSz := proc.cstackSz - 1
          cstackAlloc := proc.cstackAlloc - funcStackAllocSz
          cstack := Bytes.resize fill proc.cstack (proc.cstackAlloc - funcStackAllocSz).toNat }
      else { proc with cstackSz := proc.cstackSz - 1 }) := by
  simp only [popCallStack, hf.top.2.2, bind, Except.bind]
  split <;> rfl

/-- The threshold in terms of numbers, for a stack with a top frame. -/
theorem shrinks_iff {proc : Proc} {f : FCall} {fs : List FCall} (hg : Good proc (f :: fs)) :
    (proc.cstackSz - 1).toNat = fs.length ∧
      (stackFreeThreshold ≤ proc.cstackAlloc - (proc.cstackSz - 1) ↔ ¬ PopKeeps proc) := by
  have hsize := hg.hasFrames.size
  rw [List.length_cons] at hsize
  have hsz := proc.cstackSz.toNat_lt
  have halloc := proc.cstackAlloc.toNat_lt
  have hle := hg.le_alloc
  have hpred : (proc.cstackSz - 1).toNat = fs.length := by
    rw [UInt32.toNat_sub, show (1 : UInt32).toNat = 1 from rfl]
    omega
  refine ⟨hpred, ?_⟩
  rw [UInt32.le_iff_toNat_le, UInt32.toNat_sub, hpred, PopKeeps,
    show stackFreeThreshold.toNat = 96 from rfl]
  omega

/-- **A pop takes the top frame off**, as long as it does not shrink the block. -/
theorem pop_good {proc : Proc} {f : FCall} {fs : List FCall} (hg : Good proc (f :: fs))
    (hkeep : PopKeeps proc) (fill : Nat → UInt8) :
    ∃ proc', popCallStack fill proc = .ok (f.retAddress, proc') ∧ Good proc' fs ∧
      proc'.iptr = proc.iptr := by
  obtain ⟨hpred, hshrink⟩ := shrinks_iff hg
  have hsize := hg.hasFrames.size
  rw [List.length_cons] at hsize
  have hle := hg.le_alloc
  rw [pop_eq hg.hasFrames, if_neg (fun h => hshrink.1 h hkeep)]
  refine ⟨_, rfl, ⟨⟨hpred, ?_⟩, hg.block, hg.whole, ?_, ?_⟩, rfl⟩
  · exact (List.prefix_append _ _).trans hg.hasFrames.bytes
  · show (proc.cstackSz - 1).toNat ≤ proc.cstackAlloc.toNat
    omega
  · rw [PopKeeps] at hkeep
    rw [hpred]
    show proc.cstackAlloc.toNat < fs.length + 96
    omega

/-- **A pop that shrinks the block loses frames**: what is left of the block is too short for
the frames that are still there. -/
theorem pop_shrink {proc : Proc} {f : FCall} {fs : List FCall} (hg : Good proc (f :: fs))
    (hkeep : ¬ PopKeeps proc) (fill : Nat → UInt8) :
    ∃ proc', popCallStack fill proc = .ok (f.retAddress, proc') ∧
      proc'.cstack.length < fcallSize * proc'.cstackSz.toNat := by
  obtain ⟨hpred, hshrink⟩ := shrinks_iff hg
  have hsize := hg.hasFrames.size
  rw [List.length_cons] at hsize
  have hexcess := hg.excess
  have hwhole := hg.whole
  have hle := hg.le_alloc
  have halloc := proc.cstackAlloc.toNat_lt
  rw [PopKeeps] at hkeep
  have hsub : (proc.cstackAlloc - funcStackAllocSz).toNat = proc.cstackAlloc.toNat - 64 := by
    rw [UInt32.toNat_sub, show funcStackAllocSz.toNat = 64 from rfl]
    omega
  rw [pop_eq hg.hasFrames, if_pos (hshrink.2 hkeep)]
  refine ⟨_, rfl, ?_⟩
  rw [Bytes.length_resize, hpred, hsub, fcallSize]
  omega

end CallStack

end BvgzVm
