import BvgzVm.Lib.Except
import BvgzVm.Vm.State

set_option autoImplicit false

/-! # Events

`fire_vm_events`, `has_pending_events` and `vm_fire_events` of `vm_exec.c` and `cleanup_vm` of
`vm.c`, over the event sources of a `Host`. -/

namespace BvgzVm

variable {σ : Type}

/-- `has_pending_events` -/
def hasPendingEvents (host : Host σ) (vm : Vm σ) : Bool :=
  host.hasPendingTimerEvents vm || host.hasPendingIoEvents vm || host.hasPendingProcEvents vm

/-- `fire_vm_events`, the sources one after the other. -/
def fireVmEvents (host : Host σ) (vm : Vm σ) : Except Ub (UInt32 × Vm σ) := do
  let (t, vm) ← host.fireTimerEvents vm
  let (i, vm) ← host.fireIoEvents vm
  let (p, vm) ← host.fireProcEvents vm
  .ok (t + i + p, vm)

/-- `vm_fire_events`: the `uint32_t` count is returned as an `int`. -/
def vmFireEvents (host : Host σ) (vm : Vm σ) : Except Ub (Int × Vm σ) :=
  if hasPendingEvents host vm then do
    let (n, vm) ← fireVmEvents host vm
    if n = 0 then .ok (0, host.nanosleep vm)
    else .ok (n.toInt32.toInt, vm)
  else .ok (-1, vm)

/-- `cleanup_vm`; `cleanup_child_proc` fires the events of child processes. -/
def cleanupVm (host : Host σ) (vm : Vm σ) : Except Ub (Vm σ) := do
  let (_, vm) ← host.fireProcEvents vm
  .ok { vm with instnsSinceLastCleanup := 0 }

/-- A host without events and system calls. -/
def quietHost : Host Unit where
  fireTimerEvents := fun vm => .ok (0, vm)
  fireIoEvents := fun vm => .ok (0, vm)
  fireProcEvents := fun vm => .ok (0, vm)
  hasPendingTimerEvents := fun _ => false
  hasPendingIoEvents := fun _ => false
  hasPendingProcEvents := fun _ => false
  nanosleep := id
  syscallTable := []
  fill := fun _ => 0

end BvgzVm
