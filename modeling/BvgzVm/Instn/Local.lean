import BvgzVm.Instn.Handlers

set_option autoImplicit false

/-! # What an instruction looks at and what it changes

Most handlers look at the memory only and change the memory and the exception word only (`Local`):
they do the same on two machines with the same memory, and the code, the procedures and the
fields behind the core stay as they are. The others are the jumps, the handlers of the call
stack, `assert` and `syscall`; of these, only a system call touches the fields behind the core
(`handlerOf_frame`).
-/

namespace BvgzVm

open Fallible

variable {σ : Type}

/-- The machine with the memory and the exceptions of another one. -/
def Vm.effect (vm after : Vm σ) : Vm σ :=
  { vm with memory := after.memory, exceptions := after.exceptions }

/-- A value that is read from the memory. -/
def MemOnly {α : Type} (x : Vm σ → Except Ub α) : Prop :=
  ∀ vm vm₂ : Vm σ, vm₂.memory = vm.memory → x vm₂ = x vm

/-- A handler that looks at the memory and changes the memory and the exceptions. It sets an
exception only when it fails. -/
structure Local (h : Vm σ → Except Ub (Int × Vm σ)) : Prop where
  eq : ∀ vm vm₂ : Vm σ, vm₂.memory = vm.memory → vm₂.exceptions = vm.exceptions →
    h vm₂ = (h vm).map fun r => (r.1, vm₂.effect r.2)
  quiet : ∀ vm r vm', h vm = .ok (r, vm') → 0 ≤ r → vm'.exceptions = vm.exceptions

/-! ## Reading -/

theorem memOnly_lref (w : Nat) (instn : Instn) (k : Nat) : MemOnly (σ := σ) (lref w instn k) := by
  intro vm vm₂ hmem
  unfold lref
  rw [hmem]

theorem memOnly_lref64 (instn : Instn) (k : Nat) : MemOnly (σ := σ) (lref64 instn k) := by
  intro vm vm₂ hmem
  unfold lref64
  rw [memOnly_lref 8 instn k vm vm₂ hmem]

theorem memOnly_argValue (instn : Instn) (k : Nat) : MemOnly (σ := σ) (argValue instn k) := by
  intro vm vm₂ hmem
  unfold argValue
  rw [memOnly_lref64 instn k vm vm₂ hmem]

theorem memOnly_const {α : Type} (x : Except Ub α) : MemOnly (σ := σ) (fun _ => x) :=
  fun _ _ _ => rfl

/-! ## Sequences -/

theorem Local.congr {h h' : Vm σ → Except Ub (Int × Vm σ)} (hl : Local h)
    (heq : ∀ vm, h' vm = h vm) : Local h' := by
  have hfun : h' = h := funext heq
  rwa [hfun]

theorem local_bind {α : Type} {x : Vm σ → Except Ub α} {f : α → Vm σ → Except Ub (Int × Vm σ)}
    (hx : MemOnly x) (hf : ∀ a, Local (f a)) : Local (fun vm => x vm >>= fun a => f a vm) where
  eq := by
    intro vm vm₂ hmem hexc
    rw [hx vm vm₂ hmem]
    cases x vm with
    | error u => rfl
    | ok a => exact (hf a).eq vm vm₂ hmem hexc
  quiet := by
    intro vm r vm' h
    rcases bind_eq_ok.1 h with ⟨a, _, hfa⟩
    exact (hf a).quiet vm r vm' hfa

theorem local_error (u : Ub) : Local (fun _ : Vm σ => .error u) where
  eq _ _ _ _ := rfl
  quiet _ _ _ h := by cases h

theorem local_done : Local (fun vm : Vm σ => .ok (0, vm)) where
  eq := by
    intro vm vm₂ hmem hexc
    show Except.ok ((0 : Int), vm₂) = .ok (0, { vm₂ with memory := vm.memory, exceptions := vm.exceptions })
    rw [← hmem, ← hexc]
  quiet := by
    intro vm r vm' h _
    cases h
    rfl

theorem local_setMemory (memory : Segment) :
    Local (fun vm : Vm σ => .ok (0, { vm with memory := memory })) where
  eq := by
    intro vm vm₂ _ hexc
    show Except.ok ((0 : Int), { vm₂ with memory := memory }) = .ok (0, { vm₂ with
      memory := memory, exceptions := vm.exceptions })
    rw [← hexc]
  quiet := by
    intro vm r vm' h _
    cases h
    rfl

theorem local_raise (e : UInt32) : Local (fun vm : Vm σ => .ok (-1, vm.raise e)) where
  eq := by
    intro vm vm₂ hmem hexc
    show Except.ok ((-1 : Int), vm₂.raise e) = .ok (-1, { vm₂ with
      memory := vm.memory, exceptions := vm.exceptions ||| e })
    rw [← hmem, ← hexc]
    rfl
  quiet := by
    intro vm r vm' h hr
    cases h
    exact absurd hr (by decide)

theorem local_ite {c : Prop} [Decidable c] {h h' : Vm σ → Except Ub (Int × Vm σ)} (hl : Local h)
    (hl' : Local h') : Local (fun vm => if c then h vm else h' vm) := by
  by_cases hc : c
  · simpa only [if_pos hc] using hl
  · simpa only [if_neg hc] using hl'

/-- A look at the memory that decides how to go on. -/
theorem local_look {α : Type} (f : Segment → Option α) {g h : Vm σ → Except Ub (Int × Vm σ)}
    {k : α → Vm σ → Except Ub (Int × Vm σ)} (hl : Local h) (hk : ∀ a, Local (k a))
    (hnone : ∀ vm, f vm.memory = none → g vm = h vm)
    (hsome : ∀ vm a, f vm.memory = some a → g vm = k a vm) : Local g where
  eq := by
    intro vm vm₂ hmem hexc
    cases hf : f vm.memory with
    | none =>
        rw [hnone vm hf, hnone vm₂ (by rw [hmem, hf])]
        exact hl.eq vm vm₂ hmem hexc
    | some a =>
        rw [hsome vm a hf, hsome vm₂ a (by rw [hmem, hf])]
        exact (hk a).eq vm vm₂ hmem hexc
  quiet := by
    intro vm r vm' h
    cases hf : f vm.memory with
    | none =>
        rw [hnone vm hf] at h
        exact hl.quiet vm r vm' h
    | some a =>
        rw [hsome vm a hf] at h
        exact (hk a).quiet vm r vm' h

/-! ## The families of handlers -/

theorem local_lrefSet (w : Nat) (instn : Instn) (k v : Nat) :
    Local (fun vm : Vm σ => lrefSet w instn k v vm >>= fun vm => .ok (0, vm)) := by
  cases hptr : argPtr instn k with
  | error u =>
      refine (local_error u).congr ?_
      intro vm
      rw [lrefSet, hptr]
      rfl
  | ok ref =>
      refine local_look (fun m => m.store ref.toNat w v) (local_error (.operand k))
        local_setMemory ?_ ?_
      · intro vm hnone
        simp only [lrefSet, hptr, ok_bind, hnone, error_bind]
      · intro vm memory hsome
        simp only [lrefSet, hptr, ok_bind, hsome]

theorem local_assign (instn : Instn) (v : UInt64) : Local (σ := σ) (assign instn v) :=
  local_lrefSet 8 instn 0 v.toNat

/-- A number stored behind a pointer. -/
theorem local_store (p w v : Nat) :
    Local (fun vm : Vm σ => match vm.memory.store p w v with
      | none => .error .deref
      | some memory => .ok (0, { vm with memory := memory })) := by
  refine local_look (fun m => m.store p w v) (local_error .deref) local_setMemory ?_ ?_
  · intro vm hnone
    simp only [hnone]
  · intro vm memory hsome
    simp only [hsome]

/-- A number loaded from behind a pointer. -/
theorem local_load (p w : Nat) {k : Nat → Vm σ → Except Ub (Int × Vm σ)} (hk : ∀ v, Local (k v)) :
    Local (fun vm => match vm.memory.load p w with
      | none => .error .deref
      | some v => k v vm) := by
  refine local_look (fun m => m.load p w) (local_error .deref) hk ?_ ?_
  · intro vm hnone
    simp only [hnone]
  · intro vm v hsome
    simp only [hsome]

/-- Bytes written to the first operand. -/
theorem local_write (dst : Nat) (bs : List UInt8) :
    Local (fun vm : Vm σ => match vm.memory.write dst bs with
      | none => .error (.operand 0)
      | some memory => .ok (0, { vm with memory := memory })) := by
  refine local_look (fun m => m.write dst bs) (local_error (.operand 0)) local_setMemory ?_ ?_
  · intro vm hnone
    simp only [hnone]
  · intro vm memory hsome
    simp only [hsome]

theorem local_memcpy (dst src n : Nat) :
    Local (fun vm : Vm σ => memcpy dst src n vm >>= fun vm => .ok (0, vm)) := by
  by_cases hn : n = 0
  · refine local_done.congr ?_
    intro vm
    rw [memcpy, if_pos hn, ok_bind]
  · refine local_look (fun m => Bytes.read m.bytes src n) (local_error (.operand 1))
      (fun bs => local_ite (c := dst < src + n ∧ src < dst + n) (local_error .overlap)
        (local_write dst bs)) ?_ ?_
    · intro vm hnone
      simp only [memcpy, if_neg hn, hnone, error_bind]
    · intro vm bs hsome
      simp only [memcpy, if_neg hn, hsome]
      by_cases hover : dst < src + n ∧ src < dst + n
      · simp only [if_pos hover, error_bind]
      · simp only [if_neg hover]
        cases vm.memory.write dst bs with
        | none => rfl
        | some memory => rfl

variable (host : Host σ) (instn : Instn)

theorem local_binary3 (f : UInt64 → UInt64 → Except Ub UInt64) : Local (binary3 f host instn) :=
  local_bind (memOnly_argValue instn 1) fun x =>
    local_bind (memOnly_argValue instn 2) fun y =>
      local_bind (memOnly_const (f x y)) fun v => local_assign instn v

theorem local_binary2 (f : UInt64 → UInt64 → Except Ub UInt64) : Local (binary2 f host instn) :=
  local_bind (memOnly_argValue instn 1) fun y =>
    local_bind (memOnly_lref64 instn 0) fun x =>
      local_bind (memOnly_const (f x y)) fun v => local_assign instn v

theorem local_divide3 (f : UInt64 → UInt64 → UInt64) : Local (divide3 f host instn) :=
  local_bind (memOnly_argValue instn 2) fun divisor =>
    local_ite (local_raise _)
      (local_bind (memOnly_argValue instn 1) fun x => local_assign instn (f x divisor))

theorem local_divide2 (f : UInt64 → UInt64 → UInt64) : Local (divide2 f host instn) :=
  local_bind (memOnly_argValue instn 1) fun divisor =>
    local_ite (local_raise _)
      (local_bind (memOnly_lref64 instn 0) fun x => local_assign instn (f x divisor))

theorem local_unary2 (f : UInt64 → UInt64) : Local (unary2 f host instn) :=
  local_bind (memOnly_argValue instn 1) fun x => local_assign instn (f x)

theorem local_unary1 (f : UInt64 → UInt64) : Local (unary1 f host instn) :=
  local_bind (memOnly_lref64 instn 0) fun x => local_assign instn (f x)

theorem local_logical3 (f : Except Ub UInt64 → Except Ub UInt64 → Except Ub UInt64) :
    Local (logical3 f host instn) := by
  refine local_bind (x := fun vm => f (argValue instn 1 vm) (argValue instn 2 vm)) ?_
    fun v => local_assign instn v
  intro vm vm₂ hmem
  beta_reduce
  rw [memOnly_argValue instn 1 vm vm₂ hmem, memOnly_argValue instn 2 vm vm₂ hmem]

theorem local_logical2 (f : Except Ub UInt64 → Except Ub UInt64 → Except Ub UInt64) :
    Local (logical2 f host instn) := by
  refine local_bind (x := fun vm => f (lref64 instn 0 vm) (argValue instn 1 vm)) ?_
    fun v => local_assign instn v
  intro vm vm₂ hmem
  beta_reduce
  rw [memOnly_lref64 instn 0 vm vm₂ hmem, memOnly_argValue instn 1 vm vm₂ hmem]

theorem local_abrt1 : Local (opAbrt1 host instn) :=
  local_bind (memOnly_argValue instn 0) fun e => local_raise e.toUInt32

theorem local_cp3 : Local (opCp3 host instn) :=
  local_bind (memOnly_const (argPtr instn 0)) fun dst =>
    local_bind (memOnly_const (argPtr instn 1)) fun src =>
      local_bind (memOnly_argValue instn 2) fun n => local_memcpy dst.toNat src.toNat n.toNat

theorem local_readMem (w : Nat) : Local (readMem w host instn) := by
  refine local_bind (memOnly_lref 4 instn 1) fun ref =>
    local_bind (memOnly_argValue instn 2) fun offset => ?_
  refine local_look (fun m => derefMemPtr (UInt32.ofNat ref + offset.toUInt32) (UInt32.ofNat w)
    m.size) (local_raise vmEMemFault)
    (fun mem => local_load mem.toNat w (local_lrefSet w instn 0)) ?_ ?_
  · intro vm hnone
    simp only [hnone]
  · intro vm mem hsome
    split
    · next hnone =>
        rw [hsome] at hnone
        cases hnone
    · next mem' hmem =>
        rw [hsome] at hmem
        obtain rfl := Option.some.inj hmem
        rfl

theorem local_writeMem (w : Nat) : Local (writeMem w host instn) := by
  refine local_bind (memOnly_argValue instn 0) fun ref =>
    local_bind (memOnly_argValue instn 1) fun offset => ?_
  refine local_look (fun m => derefMemPtr (ref.toUInt32 + offset.toUInt32) (UInt32.ofNat w)
    m.size) (local_raise vmEMemFault) (fun mem => local_bind (memOnly_argValue instn 2) fun v =>
      local_store mem.toNat w v.toNat) ?_ ?_
  · intro vm hnone
    simp only [hnone]
  · intro vm mem hsome
    split
    · next hnone =>
        rw [hsome] at hnone
        cases hnone
    · next mem' hmem =>
        rw [hsome] at hmem
        obtain rfl := Option.some.inj hmem
        rfl

/-- The instructions that look at the procedures, `assert`, which stores its id, and `syscall`. -/
def Op.beyondMemory : Op → Bool
  | .jmp1 | .jtrue2 | .jfalse2 | .call3 | .ret0 | .argv1 | .retv1 | .assert2 | .syscall3 => true
  | _ => false

/-- **All other handlers** look at the memory and change the memory and the exceptions. -/
theorem handlerOf_local {op : Op} (hop : op.beyondMemory = false) :
    Local (handlerOf op host instn) := by
  cases op with
  | jmp1 | jtrue2 | jfalse2 | call3 | ret0 | argv1 | retv1 | assert2 | syscall3 => cases hop
  | nop0 => exact local_done
  | add3 | sub3 | mul3 | eq3 | ne3 | gt3 | lt3 | ge3 | le3 | and3 | or3 | xor3 | shl3 | shr3 =>
      exact local_binary3 host instn _
  | add2 | sub2 | mul2 | and2 | or2 | xor2 | shl2 | shr2 => exact local_binary2 host instn _
  | div3 | mod3 => exact local_divide3 host instn _
  | div2 | mod2 => exact local_divide2 host instn _
  | not2 | lNot2 | lBool2 => exact local_unary2 host instn _
  | not1 | lNot1 | lBool1 => exact local_unary1 host instn _
  | lAnd3 | lOr3 => exact local_logical3 host instn _
  | lAnd2 | lOr2 => exact local_logical2 host instn _
  | abrt1 => exact local_abrt1 host instn
  | cp3 => exact local_cp3 host instn
  | read8 | read16 | read32 | read64 => exact local_readMem host instn _
  | write8 | write16 | write32 | write64 => exact local_writeMem host instn _

/-! ## What stays as it is -/

/-- An instruction leaves the code and the fields behind the core, and sets an exception only if it
fails. -/
structure Framed (r : Int) (vm vm' : Vm σ) : Prop where
  code : vm'.code = vm.code
  host : vm'.host = vm.host
  quiet : 0 ≤ r → vm'.exceptions = vm.exceptions

theorem Local.framed {h : Vm σ → Except Ub (Int × Vm σ)} (hl : Local h) {r : Int} {vm vm' : Vm σ}
    (hok : h vm = .ok (r, vm')) : Framed r vm vm' := by
  have heq := hl.eq vm vm rfl rfl
  rw [hok] at heq
  have heffect : vm' = vm.effect vm' := congrArg Prod.snd (Except.ok.inj heq)
  refine ⟨?_, ?_, hl.quiet vm r vm' hok⟩
  · rw [heffect]
    rfl
  · rw [heffect]
    rfl

theorem Framed.refl (r : Int) (vm : Vm σ) : Framed r vm vm := ⟨rfl, rfl, fun _ => rfl⟩

theorem Framed.procedures (r : Int) (vm : Vm σ) (procs : List Proc) :
    Framed r vm { vm with procedures := procs } := ⟨rfl, rfl, fun _ => rfl⟩

theorem Framed.raise (vm : Vm σ) (e : UInt32) : Framed (-1) vm (vm.raise e) :=
  ⟨rfl, rfl, fun h => absurd h (by decide)⟩

variable {r : Int} {vm vm' : Vm σ}

theorem doJump_framed {iptr : UInt32} (h : doJump iptr vm = .ok (r, vm')) : Framed r vm vm' := by
  unfold doJump at h
  split at h
  · cases h
    exact .raise vm _
  · split at h
    · cases h
    · cases h
      exact .procedures _ vm _

theorem jumpIf_framed {taken : UInt64 → Bool} (h : jumpIf taken host instn vm = .ok (r, vm')) :
    Framed r vm vm' := by
  rcases bind_eq_ok.1 h with ⟨c, _, hrest⟩
  split at hrest
  · rcases bind_eq_ok.1 hrest with ⟨iptr, _, hjump⟩
    exact doJump_framed hjump
  · cases hrest
    exact .refl _ vm

theorem call3_framed (h : opCall3 host instn vm = .ok (r, vm')) : Framed r vm vm' := by
  rcases bind_eq_ok.1 h with ⟨iptr, _, h₁⟩
  rcases bind_eq_ok.1 h₁ with ⟨argv, _, h₂⟩
  rcases bind_eq_ok.1 h₂ with ⟨retv, _, hrest⟩
  split at hrest
  · cases hrest
  · rcases bind_eq_ok.1 hrest with ⟨p, _, hok⟩
    cases hok
    exact .procedures _ vm _

theorem ret0_framed (h : opRet0 host instn vm = .ok (r, vm')) : Framed r vm vm' := by
  unfold opRet0 at h
  split at h
  · cases h
  · split at h
    · cases h
      exact .procedures _ vm _
    · rcases bind_eq_ok.1 h with ⟨⟨retAddress, p⟩, _, hrest⟩
      dsimp only at hrest
      split at hrest
      · cases hrest
        exact .procedures _ vm _
      · cases hrest
        exact .procedures _ vm _

theorem argv1_framed (h : opArgv1 host instn vm = .ok (r, vm')) : Framed r vm vm' := by
  unfold opArgv1 at h
  split at h
  · cases h
  · dsimp only at h
    split at h
    · exact (local_lrefSet 4 instn 0 (UInt32.toNat 0)).framed h
    · rcases bind_eq_ok.1 h with ⟨args, _, hset⟩
      exact (local_lrefSet 4 instn 0 args.toNat).framed hset

theorem retv1_framed (h : opRetv1 host instn vm = .ok (r, vm')) : Framed r vm vm' := by
  unfold opRetv1 at h
  split at h
  · cases h
  · split at h
    · cases h
      exact .raise vm _
    · rcases bind_eq_ok.1 h with ⟨retv, _, h₁⟩
      split at h₁
      · cases h₁
        exact .raise vm _
      · rcases bind_eq_ok.1 h₁ with ⟨v, _, hstore⟩
        split at hstore
        · cases hstore
        · cases hstore
          exact ⟨rfl, rfl, fun _ => rfl⟩

theorem assert2_framed (h : opAssert2 host instn vm = .ok (r, vm')) : Framed r vm vm' := by
  rcases bind_eq_ok.1 h with ⟨c, _, hrest⟩
  split at hrest
  · rcases bind_eq_ok.1 hrest with ⟨id, _, hok⟩
    cases hok
    exact ⟨rfl, rfl, fun hr => absurd hr (by decide)⟩
  · cases hrest
    exact .refl _ vm

/-- **Only a system call** goes beyond the core of the machine. -/
theorem handlerOf_framed {op : Op} (hop : op ≠ .syscall3)
    (h : handlerOf op host instn vm = .ok (r, vm')) : Framed r vm vm' := by
  by_cases hbeyond : op.beyondMemory = true
  · cases op with
    | syscall3 => exact absurd rfl hop
    | jmp1 =>
        rcases bind_eq_ok.1 h with ⟨iptr, _, hjump⟩
        exact doJump_framed hjump
    | jtrue2 | jfalse2 => exact jumpIf_framed host instn h
    | call3 => exact call3_framed host instn h
    | ret0 => exact ret0_framed host instn h
    | argv1 => exact argv1_framed host instn h
    | retv1 => exact retv1_framed host instn h
    | assert2 => exact assert2_framed host instn h
    | _ => cases hbeyond
  · exact (handlerOf_local host instn (Bool.eq_false_iff.2 hbeyond)).framed h

end BvgzVm
