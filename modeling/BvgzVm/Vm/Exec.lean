import BvgzVm.Instn.Handlers

set_option autoImplicit false

/-! # The interpreter loop

`vm_exec.c`: `vm_current_procedure`, `vm_decode_instn` and `execute_vm`. The loop need not end,
so it is given a number of rounds (`executeVm`). What a caller can observe of it is the list of
the instructions that were executed, each with the machine it left (`executeTrace`); more rounds
only make this list longer (`executeTrace_mono`).
-/

namespace BvgzVm

variable {σ : Type}

/-- `VM_CLEANUP_PERIOD_INSTNS` -/
def vmCleanupPeriodInstns : UInt32 := 20

/-- `vm_current_procedure` -/
def vmCurrentProcedure (vm : Vm σ) : Except Ub (Option Proc × Vm σ) :=
  match vm.procedures with
  | [] => .error .noProcedure
  | p :: _ =>
      if vm.code.size ≤ p.iptr.toNat then .ok (none, vm.deleteCurrentProcedure)
      else .ok (some p, vm)

/-- `vm_decode_instn`; `none` is the result `-1`. -/
def vmDecodeInstn (defs : List (InstnDef Op)) (proc : Proc) (vm : Vm σ) :
    Except Ub (Option Instn × Vm σ) :=
  let vm := { vm with iptr := proc.iptr }
  match decodeInstn defs vm.code vm.memory proc.iptr.toNat with
  | .error (.ub u) => .error u
  | .error (.exn e) => .ok (none, vm.raise e)
  | .ok (instn, offt) =>
      let proc := { proc with iptr := proc.iptr + UInt32.ofNat offt }
      .ok (some instn, { vm with procedures := proc :: vm.procedures.tail })

/-- How the first half of a round ends. -/
inductive Fetch (σ : Type)
  | stop (vm : Vm σ)
  | again (vm : Vm σ)
  | decoded (instn : Instn) (vm : Vm σ)

/-- The body of the loop up to the decoded instruction; `execute_vm` and `step_program` begin
with the same lines. -/
def fetchInstn (defs : List (InstnDef Op)) (host : Host σ) (vm : Vm σ) : Except Ub (Fetch σ) := do
  let (nEvents, vm) ← if vm.procedures.isEmpty then vmFireEvents host vm else .ok (1, vm)
  if nEvents < 0 then .ok (.stop vm)
  else if nEvents = 0 then .ok (.again vm)
  else do
    let (proc, vm) ← vmCurrentProcedure vm
    match proc with
    | none => .ok (.again vm)
    | some proc => do
        let (instn, vm) ← vmDecodeInstn defs proc vm
        match instn with
        | none => .ok (.stop vm)
        | some instn => .ok (.decoded instn vm)

/-- The counters after an instruction, and the cleanup that is due every 20 instructions. -/
def countInstn (host : Host σ) (vm : Vm σ) : Except Ub (Vm σ) :=
  let vm := { vm with
    instns := vm.instns + 1
    instnsSinceLastCleanup := vm.instnsSinceLastCleanup + 1 }
  if vm.instnsSinceLastCleanup % vmCleanupPeriodInstns = 0 then cleanupVm host vm else .ok vm

/-- How a round of `execute_vm` ends: without an instruction, after an instruction that stops
the machine, or with the next round. -/
inductive Round (σ : Type)
  | stop (vm : Vm σ)
  | fail (instn : Instn) (vm : Vm σ)
  | again (vm : Vm σ)
  | ran (instn : Instn) (vm : Vm σ)

/-- The body of the loop of `execute_vm`. -/
def executeRound (defs : List (InstnDef Op)) (host : Host σ) (vm : Vm σ) : Except Ub (Round σ) := do
  match ← fetchInstn defs host vm with
  | .stop vm => .ok (.stop vm)
  | .again vm => .ok (.again vm)
  | .decoded instn vm => do
      let (ret, vm) ← vmExecInstn defs host instn vm
      if ret < 0 then .ok (.fail instn vm)
      else do
        let vm ← countInstn host vm
        .ok (.ran instn vm)

/-- `execute_vm`, for at most `n` rounds; `none` if the loop is not over by then. -/
def executeVm (defs : List (InstnDef Op)) (host : Host σ) :
    Nat → Vm σ → Except Ub (Option (Vm σ))
  | 0, _ => .ok none
  | n + 1, vm => do
      match ← executeRound defs host vm with
      | .stop vm | .fail _ vm => do
          let vm ← cleanupVm host vm
          .ok (some vm)
      | .again vm | .ran _ vm => executeVm defs host n vm

/-- The instructions `execute_vm` executes in `n` rounds, each with the machine after it. -/
def executeTrace (defs : List (InstnDef Op)) (host : Host σ) : Nat → Vm σ → List (Instn × Vm σ)
  | 0, _ => []
  | n + 1, vm =>
      match executeRound defs host vm with
      | .error _ => []
      | .ok (.stop _) => []
      | .ok (.fail instn vm) => [(instn, vm)]
      | .ok (.again vm) => executeTrace defs host n vm
      | .ok (.ran instn vm) => (instn, vm) :: executeTrace defs host n vm

/-- More rounds make the trace longer. -/
theorem executeTrace_mono (defs : List (InstnDef Op)) (host : Host σ) (n k : Nat) (vm : Vm σ) :
    executeTrace defs host n vm <+: executeTrace defs host (n + k) vm := by
  induction n generalizing vm with
  | zero => exact List.nil_prefix
  | succ n ih =>
      rw [Nat.succ_add, executeTrace, executeTrace]
      split
      · exact List.prefix_refl _
      · exact List.prefix_refl _
      · exact List.prefix_refl _
      · exact ih _
      · next instn vm' _ => exact (List.prefix_cons_inj (instn, vm')).2 (ih vm')

end BvgzVm
