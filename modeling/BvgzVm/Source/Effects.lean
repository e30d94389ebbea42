import BvgzVm.Source.Meaning

set_option autoImplicit false

/-! # The effect of an instruction on the machine

A decoded instruction that presents the operands of the source (`Presents`) has the effect the
source says it has: if the instruction has a meaning there, its handler returns, and leaves the
memory or the exception of the source (`handlerOf_effect`). One lemma is about each family of
handlers.
-/

namespace BvgzVm

open Fallible

/-- The values and the references of a decoded instruction are those of the operands. -/
structure Presents (instn : Instn) (os : List Operand) : Prop where
  value : ∀ (j : Nat) o, os[j]? = some o → ∀ {σ : Type} (vm : Vm σ) v,
    o.read vm.memory = some v → argValue instn j vm = .ok v
  cell : ∀ (j : Nat) ref, os[j]? = some (.cell ref) → argPtr instn j = .ok ref

variable {σ : Type}

/-- What a handler returns after an effect. -/
def Vm.finish (vm : Vm σ) : Except UInt32 Segment → Int × Vm σ
  | .ok memory => (0, { vm with memory := memory })
  | .error e => (-1, vm.raise e)

section Families

variable {instn : Instn} {vm : Vm σ} {os : List Operand} {d r : UInt32} {x y z : Operand}
  {out : Except UInt32 Segment} {w : Nat} (host : Host σ)

/-! ## Cells -/

theorem Presents.lref (hp : Presents instn os) {j : Nat} (hj : os[j]? = some (.cell r)) {v : Nat}
    (hv : vm.memory.load r.toNat w = some v) : lref w instn j vm = .ok v := by
  unfold BvgzVm.lref
  rw [hp.cell j r hj, ok_bind, hv]

theorem Presents.lref64 (hp : Presents instn os) {j : Nat} (hj : os[j]? = some (.cell r))
    {v : UInt64} (hv : (Operand.cell r).read vm.memory = some v) : lref64 instn j vm = .ok v := by
  rcases Option.map_eq_some_iff.1 hv with ⟨n, hn, rfl⟩
  unfold BvgzVm.lref64
  rw [hp.lref hj hn, ok_bind]

theorem Presents.lrefSet (hp : Presents instn os) {j v : Nat} (hj : os[j]? = some (.cell r))
    {memory : Segment} (hs : vm.memory.store r.toNat w v = some memory) :
    lrefSet w instn j v vm = .ok { vm with memory := memory } := by
  unfold BvgzVm.lrefSet
  rw [hp.cell j r hj, ok_bind, hs]

/-- An assignment to the first operand. -/
theorem Presents.assign (hp : Presents instn os) (hd : os[0]? = some (.cell d)) {v : UInt64}
    (h : setCell vm.memory d v = some out) : assign instn v vm = .ok (vm.finish out) := by
  rcases Option.map_eq_some_iff.1 h with ⟨memory, hs, rfl⟩
  unfold BvgzVm.assign
  rw [hp.lrefSet hd hs, ok_bind]
  rfl

/-! ## Operators -/

/-- The operands of an operator have values, and these a result. -/
theorem binaryEffect_eq {f : UInt64 → UInt64 → Option (Except UInt32 UInt64)} {memory : Segment}
    (h : binaryEffect f memory d x y = some out) :
    ∃ a b, x.read memory = some a ∧ y.read memory = some b ∧
      ((∃ v, f a b = some (.ok v) ∧ setCell memory d v = some out) ∨
        ∃ e, f a b = some (.error e) ∧ out = .error e) := by
  unfold binaryEffect at h
  split at h
  · next a b ha hb =>
      refine ⟨a, b, ha, hb, ?_⟩
      split at h
      · next v hv => exact Or.inl ⟨v, hv, h⟩
      · next e he => exact Or.inr ⟨e, he, (Option.some.inj h).symm⟩
      · cases h
  · cases h

theorem unaryEffect_eq {f : UInt64 → UInt64} {memory : Segment}
    (h : unaryEffect f memory d x = some out) :
    ∃ a, x.read memory = some a ∧ setCell memory d (f a) = some out := by
  unfold unaryEffect at h
  split at h
  · next a ha => exact ⟨a, ha, h⟩
  · cases h

/-- The operator of the machine returns what the one of the source is, where this is something. -/
def Returns (f : UInt64 → UInt64 → Option (Except UInt32 UInt64))
    (g : UInt64 → UInt64 → Except Ub UInt64) : Prop :=
  ∀ a b out, f a b = some out → ∃ v, out = .ok v ∧ g a b = .ok v

theorem returns_total (g : UInt64 → UInt64 → UInt64) :
    Returns (fun a b => some (.ok (g a b))) (fun a b => .ok (g a b)) := by
  intro a b out h
  exact ⟨g a b, (Option.some.inj h).symm, rfl⟩

theorem returns_shift (g : UInt64 → UInt64 → UInt64) :
    Returns (fun a b => if b < 64 then some (.ok (g a b)) else none)
      (fun a b => if 64 ≤ b then .error .shift else .ok (g a b)) := by
  intro a b out h
  dsimp only at h ⊢
  split at h
  · next hlt =>
      rw [if_neg (UInt64.not_le.2 hlt)]
      exact ⟨g a b, (Option.some.inj h).symm, rfl⟩
  · cases h

theorem binary3_effect {f : UInt64 → UInt64 → Option (Except UInt32 UInt64)}
    {g : UInt64 → UInt64 → Except Ub UInt64} (hg : Returns f g)
    (hp : Presents instn [.cell d, x, y]) (h : binaryEffect f vm.memory d x y = some out) :
    binary3 g host instn vm = .ok (vm.finish out) := by
  rcases binaryEffect_eq h with ⟨a, b, ha, hb, ⟨v, hv, hset⟩ | ⟨e, he, -⟩⟩
  · rcases hg a b _ hv with ⟨v', heq, hgv⟩
    obtain rfl := Except.ok.inj heq
    unfold binary3
    rw [hp.value 1 x rfl vm a ha, ok_bind, hp.value 2 y rfl vm b hb, ok_bind, hgv, ok_bind]
    exact hp.assign rfl hset
  · rcases hg a b _ he with ⟨v', heq, -⟩
    cases heq

theorem binary2_effect {f : UInt64 → UInt64 → Option (Except UInt32 UInt64)}
    {g : UInt64 → UInt64 → Except Ub UInt64} (hg : Returns f g)
    (hp : Presents instn [.cell d, y]) (h : binaryEffect f vm.memory d (.cell d) y = some out) :
    binary2 g host instn vm = .ok (vm.finish out) := by
  rcases binaryEffect_eq h with ⟨a, b, ha, hb, ⟨v, hv, hset⟩ | ⟨e, he, -⟩⟩
  · rcases hg a b _ hv with ⟨v', heq, hgv⟩
    obtain rfl := Except.ok.inj heq
    unfold binary2
    rw [hp.value 1 y rfl vm b hb, ok_bind, hp.lref64 rfl ha, ok_bind, hgv, ok_bind]
    exact hp.assign rfl hset
  · rcases hg a b _ he with ⟨v', heq, -⟩
    cases heq

/-- An operator with a divisor. -/
theorem divide3_effect {g : UInt64 → UInt64 → UInt64} (hp : Presents instn [.cell d, x, y])
    (h : binaryEffect (fun a b => some (if b = 0 then .error vmEArithmetic else .ok (g a b)))
      vm.memory d x y = some out) :
    divide3 g host instn vm = .ok (vm.finish out) := by
  rcases binaryEffect_eq h with ⟨a, b, ha, hb, hres⟩
  unfold divide3
  rw [hp.value 2 y rfl vm b hb, ok_bind]
  by_cases hz : b = 0
  · rw [if_pos hz] at hres ⊢
    rcases hres with ⟨v, hv, -⟩ | ⟨e, he, rfl⟩
    · cases hv
    · cases he
      rfl
  · rw [if_neg hz] at hres ⊢
    rw [hp.value 1 x rfl vm a ha, ok_bind]
    rcases hres with ⟨v, hv, hset⟩ | ⟨e, he, -⟩
    · cases hv
      exact hp.assign rfl hset
    · cases he

theorem divide2_effect {g : UInt64 → UInt64 → UInt64} (hp : Presents instn [.cell d, y])
    (h : binaryEffect (fun a b => some (if b = 0 then .error vmEArithmetic else .ok (g a b)))
      vm.memory d (.cell d) y = some out) :
    divide2 g host instn vm = .ok (vm.finish out) := by
  rcases binaryEffect_eq h with ⟨a, b, ha, hb, hres⟩
  unfold divide2
  rw [hp.value 1 y rfl vm b hb, ok_bind]
  by_cases hz : b = 0
  · rw [if_pos hz] at hres ⊢
    rcases hres with ⟨v, hv, -⟩ | ⟨e, he, rfl⟩
    · cases hv
    · cases he
      rfl
  · rw [if_neg hz] at hres ⊢
    rw [hp.lref64 rfl ha, ok_bind]
    rcases hres with ⟨v, hv, hset⟩ | ⟨e, he, -⟩
    · cases hv
      exact hp.assign rfl hset
    · cases he

theorem lAnd_ok (a b : UInt64) : lAnd (.ok a) (.ok b) = .ok (ofBool (a != 0 && b != 0)) := by
  unfold lAnd
  rw [ok_bind]
  by_cases hz : a = 0
  · rw [if_pos hz, hz]
    rfl
  · rw [if_neg hz, ok_bind, bne_iff_ne.2 hz, Bool.true_and]

theorem lOr_ok (a b : UInt64) : lOr (.ok a) (.ok b) = .ok (ofBool (a != 0 || b != 0)) := by
  unfold lOr
  rw [ok_bind]
  by_cases hz : a = 0
  · rw [if_pos hz, hz, ok_bind]
    rfl
  · rw [if_neg hz, bne_iff_ne.2 hz, Bool.true_or]
    rfl

theorem logical3_effect {f : UInt64 → UInt64 → UInt64}
    {g : Except Ub UInt64 → Except Ub UInt64 → Except Ub UInt64}
    (hg : ∀ a b, g (.ok a) (.ok b) = .ok (f a b)) (hp : Presents instn [.cell d, x, y])
    (h : binaryEffect (fun a b => some (.ok (f a b))) vm.memory d x y = some out) :
    logical3 g host instn vm = .ok (vm.finish out) := by
  rcases binaryEffect_eq h with ⟨a, b, ha, hb, ⟨v, hv, hset⟩ | ⟨e, he, -⟩⟩
  · cases hv
    unfold logical3
    rw [hp.value 1 x rfl vm a ha, hp.value 2 y rfl vm b hb, hg, ok_bind]
    exact hp.assign rfl hset
  · cases he

theorem logical2_effect {f : UInt64 → UInt64 → UInt64}
    {g : Except Ub UInt64 → Except Ub UInt64 → Except Ub UInt64}
    (hg : ∀ a b, g (.ok a) (.ok b) = .ok (f a b)) (hp : Presents instn [.cell d, y])
    (h : binaryEffect (fun a b => some (.ok (f a b))) vm.memory d (.cell d) y = some out) :
    logical2 g host instn vm = .ok (vm.finish out) := by
  rcases binaryEffect_eq h with ⟨a, b, ha, hb, ⟨v, hv, hset⟩ | ⟨e, he, -⟩⟩
  · cases hv
    unfold logical2
    rw [hp.lref64 rfl ha, hp.value 1 y rfl vm b hb, hg, ok_bind]
    exact hp.assign rfl hset
  · cases he

theorem unary2_effect {f : UInt64 → UInt64} (hp : Presents instn [.cell d, x])
    (h : unaryEffect f vm.memory d x = some out) :
    unary2 f host instn vm = .ok (vm.finish out) := by
  rcases unaryEffect_eq h with ⟨a, ha, hset⟩
  unfold unary2
  rw [hp.value 1 x rfl vm a ha, ok_bind]
  exact hp.assign rfl hset

theorem unary1_effect {f : UInt64 → UInt64} (hp : Presents instn [.cell d])
    (h : unaryEffect f vm.memory d (.cell d) = some out) :
    unary1 f host instn vm = .ok (vm.finish out) := by
  rcases unaryEffect_eq h with ⟨a, ha, hset⟩
  unfold unary1
  rw [hp.lref64 rfl ha, ok_bind]
  exact hp.assign rfl hset

/-! ## The memory -/

/-- An access of the source is inside the memory, or is the fault the machine reports. -/
theorem accessEffect_eq {memory : Segment} {address : UInt32} (hw : w < 2 ^ 32)
    {f : Nat → Option (Except UInt32 Segment)} (h : accessEffect memory address w f = some out) :
    (derefMemPtr address (UInt32.ofNat w) memory.size = some address ∧
        f address.toNat = some out) ∨
      derefMemPtr address (UInt32.ofNat w) memory.size = none ∧ out = .error vmEMemFault := by
  have hsize := memory.size_lt'
  have hsum : (address + UInt32.ofNat w).toNat = (address.toNat + w) % 2 ^ 32 := by
    rw [UInt32.toNat_add, UInt32.toNat_ofNat', Nat.mod_eq_of_lt hw]
  unfold accessEffect at h
  unfold derefMemPtr
  rw [hsum]
  split at h
  · next hin =>
      rw [Nat.mod_eq_of_lt (by omega), if_neg (by omega)]
      exact Or.inl ⟨rfl, h⟩
  · next hout =>
      split at h
      · next hlt =>
          rw [Nat.mod_eq_of_lt hlt, if_pos (by omega)]
          exact Or.inr ⟨rfl, (Option.some.inj h).symm⟩
      · cases h

theorem readMem_effect (hw : w < 2 ^ 32) (hp : Presents instn [.cell d, .cell r, x])
    (h : readEffect w vm.memory d r x = some out) :
    readMem w host instn vm = .ok (vm.finish out) := by
  unfold readEffect at h
  split at h
  · next base offset hbase hoffset =>
      unfold readMem
      rw [hp.lref rfl hbase, ok_bind, hp.value 2 x rfl vm offset hoffset, ok_bind]
      rcases accessEffect_eq hw h with ⟨hin, h⟩ | ⟨hout, rfl⟩
      · rw [hin]
        dsimp only
        split at h
        · next v hv =>
            rcases Option.map_eq_some_iff.1 h with ⟨memory, hs, rfl⟩
            rw [hv]
            dsimp only
            rw [hp.lrefSet rfl hs, ok_bind]
            rfl
        · cases h
      · rw [hout]
        rfl
  · cases h

theorem writeMem_effect (hw : w < 2 ^ 32) (hp : Presents instn [x, y, z])
    (h : writeEffect w vm.memory x y z = some out) :
    writeMem w host instn vm = .ok (vm.finish out) := by
  unfold writeEffect at h
  split at h
  · next base offset v hbase hoffset hv =>
      unfold writeMem
      rw [hp.value 0 x rfl vm base hbase, ok_bind, hp.value 1 y rfl vm offset hoffset, ok_bind]
      rcases accessEffect_eq hw h with ⟨hin, h⟩ | ⟨hout, rfl⟩
      · rcases Option.map_eq_some_iff.1 h with ⟨memory, hs, rfl⟩
        rw [hin]
        dsimp only
        rw [hp.value 2 z rfl vm v hv, ok_bind, hs]
        rfl
      · rw [hout]
        rfl
  · cases h

theorem cp3_effect (hp : Presents instn [.cell d, .cell r, x])
    (h : copyEffect vm.memory d r x = some out) :
    opCp3 host instn vm = .ok (vm.finish out) := by
  unfold copyEffect at h
  split at h
  · next n hn =>
      unfold opCp3 memcpy
      rw [hp.cell 0 d rfl, ok_bind, hp.cell 1 r rfl, ok_bind, hp.value 2 x rfl vm n hn, ok_bind]
      by_cases hz : n = 0
      · rw [if_pos hz] at h
        rw [hz, if_pos UInt64.toNat_zero, ← Option.some.inj h]
        rfl
      · have hz' : ¬ n.toNat = 0 := fun heq => hz (UInt64.toNat_inj.1 heq)
        rw [if_neg hz] at h
        rw [if_neg hz']
        split at h
        · cases h
        · next hapart =>
            split at h
            · next bs hbs =>
                rcases Option.map_eq_some_iff.1 h with ⟨memory, hs, rfl⟩
                rw [hbs]
                dsimp only
                rw [if_neg hapart, hs]
                rfl
            · cases h
  · cases h

theorem abrt1_effect (hp : Presents instn [x])
    (h : (x.read vm.memory).map (fun e => Except.error e.toUInt32) = some out) :
    opAbrt1 host instn vm = .ok (vm.finish out) := by
  rcases Option.map_eq_some_iff.1 h with ⟨e, he, rfl⟩
  unfold opAbrt1
  rw [hp.value 0 x rfl vm e he, ok_bind]
  rfl

/-! ## All of them -/

/-- The shape of the operands of an operator, by their number. -/
theorem binaryForm_three (hform : binaryForm os = some (d, x, y)) (hlen : os.length = 3) :
    os = [.cell d, x, y] := by
  unfold binaryForm at hform
  split at hform
  · cases hform
    rfl
  · cases hlen
  · cases hform

theorem binaryForm_two (hform : binaryForm os = some (d, x, y)) (hlen : os.length = 2) :
    x = .cell d ∧ os = [.cell d, y] := by
  unfold binaryForm at hform
  split at hform
  · cases hlen
  · cases hform
    exact ⟨rfl, rfl⟩
  · cases hform

theorem unaryForm_two (hform : unaryForm os = some (d, x)) (hlen : os.length = 2) :
    os = [.cell d, x] := by
  unfold unaryForm at hform
  split at hform
  · cases hform
    rfl
  · cases hlen
  · cases hform

theorem unaryForm_one (hform : unaryForm os = some (d, x)) (hlen : os.length = 1) :
    x = .cell d ∧ os = [.cell d] := by
  unfold unaryForm at hform
  split at hform
  · cases hlen
  · cases hform
    exact ⟨rfl, rfl⟩
  · cases hform

theorem effect_binary {op : Op} {f : UInt64 → UInt64 → Option (Except UInt32 UInt64)}
    {memory : Segment} (hf : op.binary = some f) (h : op.effect os memory = some out) :
    ∃ d x y, binaryForm os = some (d, x, y) ∧ binaryEffect f memory d x y = some out := by
  unfold Op.effect at h
  rw [hf] at h
  rcases Option.bind_eq_some_iff.1 h with ⟨⟨d, x, y⟩, hform, h⟩
  exact ⟨d, x, y, hform, h⟩

theorem effect_unary {op : Op} {f : UInt64 → UInt64} {memory : Segment} (hb : op.binary = none)
    (hf : op.unary = some f) (h : op.effect os memory = some out) :
    ∃ d x, unaryForm os = some (d, x) ∧ unaryEffect f memory d x = some out := by
  unfold Op.effect at h
  rw [hb, hf] at h
  rcases Option.bind_eq_some_iff.1 h with ⟨⟨d, x⟩, hform, h⟩
  exact ⟨d, x, hform, h⟩

theorem effect_other {op : Op} {memory : Segment} (hb : op.binary = none) (hu : op.unary = none)
    (h : op.effect os memory = some out) : op.otherEffect os memory = some out := by
  unfold Op.effect at h
  rwa [hb, hu] at h

theorem handlerOf_other {op : Op} (hp : Presents instn os)
    (h : op.otherEffect os vm.memory = some out) :
    handlerOf op host instn vm = .ok (vm.finish out) := by
  unfold Op.otherEffect at h
  split at h
  · rw [← Option.some.inj h]
    rfl
  · exact cp3_effect host hp h
  · exact readMem_effect host (by decide) hp h
  · exact readMem_effect host (by decide) hp h
  · exact readMem_effect host (by decide) hp h
  · exact readMem_effect host (by decide) hp h
  · exact writeMem_effect host (by decide) hp h
  · exact writeMem_effect host (by decide) hp h
  · exact writeMem_effect host (by decide) hp h
  · exact writeMem_effect host (by decide) hp h
  · exact abrt1_effect host hp h
  · cases h

/-- **The effect of an instruction** in the source is what its handler does. -/
theorem handlerOf_effect {op : Op} (hp : Presents instn os) (hlen : os.length = op.argCount)
    (h : op.effect os vm.memory = some out) :
    handlerOf op host instn vm = .ok (vm.finish out) := by
  cases op with
  | add3 | sub3 | mul3 | eq3 | ne3 | gt3 | lt3 | ge3 | le3 | and3 | or3 | xor3 =>
      rcases effect_binary rfl h with ⟨d, x, y, hform, h⟩
      rw [binaryForm_three hform hlen] at hp
      exact binary3_effect host (returns_total _) hp h
  | shl3 | shr3 =>
      rcases effect_binary rfl h with ⟨d, x, y, hform, h⟩
      rw [binaryForm_three hform hlen] at hp
      exact binary3_effect host (returns_shift _) hp h
  | add2 | sub2 | mul2 | and2 | or2 | xor2 =>
      rcases effect_binary rfl h with ⟨d, x, y, hform, h⟩
      rcases binaryForm_two hform hlen with ⟨rfl, rfl⟩
      exact binary2_effect host (returns_total _) hp h
  | shl2 | shr2 =>
      rcases effect_binary rfl h with ⟨d, x, y, hform, h⟩
      rcases binaryForm_two hform hlen with ⟨rfl, rfl⟩
      exact binary2_effect host (returns_shift _) hp h
  | div3 | mod3 =>
      rcases effect_binary rfl h with ⟨d, x, y, hform, h⟩
      rw [binaryForm_three hform hlen] at hp
      exact divide3_effect host hp h
  | div2 | mod2 =>
      rcases effect_binary rfl h with ⟨d, x, y, hform, h⟩
      rcases binaryForm_two hform hlen with ⟨rfl, rfl⟩
      exact divide2_effect host hp h
  | lAnd3 =>
      rcases effect_binary rfl h with ⟨d, x, y, hform, h⟩
      rw [binaryForm_three hform hlen] at hp
      exact logical3_effect host lAnd_ok hp h
  | lOr3 =>
      rcases effect_binary rfl h with ⟨d, x, y, hform, h⟩
      rw [binaryForm_three hform hlen] at hp
      exact logical3_effect host lOr_ok hp h
  | lAnd2 =>
      rcases effect_binary rfl h with ⟨d, x, y, hform, h⟩
      rcases binaryForm_two hform hlen with ⟨rfl, rfl⟩
      exact logical2_effect host lAnd_ok hp h
  | lOr2 =>
      rcases effect_binary rfl h with ⟨d, x, y, hform, h⟩
      rcases binaryForm_two hform hlen with ⟨rfl, rfl⟩
      exact logical2_effect host lOr_ok hp h
  | lNot2 | lBool2 | not2 =>
      rcases effect_unary rfl rfl h with ⟨d, x, hform, h⟩
      rw [unaryForm_two hform hlen] at hp
      exact unary2_effect host hp h
  | lNot1 | lBool1 | not1 =>
      rcases effect_unary rfl rfl h with ⟨d, x, hform, h⟩
      rcases unaryForm_one hform hlen with ⟨rfl, rfl⟩
      exact unary1_effect host hp h
  | _ => exact handlerOf_other host hp (effect_other rfl rfl h)

end Families

end BvgzVm
