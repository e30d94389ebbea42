import BvgzVm.Vm.Exec

set_option autoImplicit false

/-! # The debugger

`debug_exec.c` and the commands of `debug_brk.c` that set and delete breakpoints. The debugger
has an interpreter loop of its own, `step_program`, which looks for a breakpoint between decoding
an instruction and executing it; by then the instruction pointer of the procedure is already
behind the instruction.
-/

namespace BvgzVm

variable {σ : Type}

/-- `dbg_break_pt_t`, without its id. The texts that are only printed are left out. -/
inductive BreakPoint
  | address (address : UInt32)
  | label (address : UInt32)
  | line (address : UInt32)
  | instnName (name : String)
  | instnCount (count : UInt32)
  deriving DecidableEq, Repr

/-- `InstnDefs[idx].name`; the sentinel has no name. -/
def nameAt (defs : List (InstnDef Op)) (idx : Nat) : Except Ub (Option String) :=
  if defs.length < idx then .error .instnTable else .ok (defs[idx]?.map (fun d => d.name))

/-- One case of the `switch` of `has_hit_breakpoint`. -/
def breakPointHit (defs : List (InstnDef Op)) (vm : Vm σ) (instn : Instn) :
    BreakPoint → Except Ub Bool
  | .address a => .ok (a == vm.iptr)
  | .label a => .ok (a == vm.iptr)
  | .line a => .ok (a == vm.iptr)
  | .instnName name => do
      let n ← nameAt defs (instn.code >>> 3)
      .ok (some name == n)
  | .instnCount n => .ok (n.toUInt64 == vm.instns)

/-- `has_hit_breakpoint` -/
def hasHitBreakpoint (defs : List (InstnDef Op)) (vm : Vm σ) (instn : Instn) :
    List (UInt32 × BreakPoint) → Except Ub (Option (UInt32 × BreakPoint))
  | [] => .ok none
  | brk :: rest => do
      let hit ← breakPointHit defs vm instn brk.2
      if hit then .ok (some brk) else hasHitBreakpoint defs vm instn rest

/-- The results `0`, `1` and `2` of `step_program`; a `0` may come from an instruction. -/
inductive StepResult (σ : Type)
  | stopped (last : Option Instn) (vm : Vm σ)
  | ran (instn : Instn) (vm : Vm σ)
  | hit (instn : Instn) (vm : Vm σ)

/-- `step_program`, for at most `fuel` rounds of its loop. -/
def stepProgram (defs : List (InstnDef Op)) (host : Host σ) (checkBreakpoints : Bool)
    (breakpoints : List (UInt32 × BreakPoint)) : Nat → Vm σ → Except Ub (Option (StepResult σ))
  | 0, _ => .ok none
  | fuel + 1, vm => do
      match ← fetchInstn defs host vm with
      | .stop vm => .ok (some (.stopped none vm))
      | .again vm => stepProgram defs host checkBreakpoints breakpoints fuel vm
      | .decoded instn vm => do
          let brk ← if checkBreakpoints then hasHitBreakpoint defs vm instn breakpoints
            else .ok none
          match brk with
          | some _ => .ok (some (.hit instn vm))
          | none => do
              let (ret, vm) ← vmExecInstn defs host instn vm
              if ret < 0 then .ok (some (.stopped (some instn) vm))
              else do
                let vm ← countInstn host vm
                .ok (some (.ran instn vm))

/-! ## Commands -/

/-- `dbg_state_t`: the machine, `flags & F_RUNNING`, and the breakpoints with their ids. -/
structure DbgState (σ : Type) where
  vm : Vm σ
  running : Bool
  breakpoints : List (UInt32 × BreakPoint)
  brkIdPool : UInt32

/-- `create_and_attach_breakpoint`: the new breakpoint becomes the head of the list. -/
def createAndAttachBreakpoint (st : DbgState σ) (brk : BreakPoint) : DbgState σ :=
  { st with
    breakpoints := (st.brkIdPool, brk) :: st.breakpoints
    brkIdPool := st.brkIdPool + 1 }

/-- What the argument of `brk` stands for, once it is parsed and looked up. -/
inductive BreakArg
  | point (brk : BreakPoint)
  | plus (count : UInt32)
  deriving DecidableEq, Repr

/-- `dbg_break`; a count is relative to the instructions executed so far. -/
def dbgBreak (arg : BreakArg) (st : DbgState σ) : DbgState σ :=
  match arg with
  | .point brk => createAndAttachBreakpoint st brk
  | .plus count =>
      createAndAttachBreakpoint st (.instnCount (st.vm.instns + count.toUInt64).toUInt32)

/-- `dbg_break_delete` -/
def dbgBreakDelete (brkId : UInt32) (st : DbgState σ) : DbgState σ :=
  { st with breakpoints := st.breakpoints.eraseP (fun brk => brk.1 == brkId) }

/-- How a command leaves the session: ready for the next one, with a machine that has stopped,
stopped at a breakpoint, or not at all (undefined behaviour, or rounds left to make). -/
inductive CommandEnd
  | done | exited | atBreakpoint | unfinished
  deriving DecidableEq, Repr

/-- The instructions a command executes, each with the machine after it, and its end. -/
structure CommandRun (σ : Type) where
  trace : List (Instn × Vm σ)
  finish : CommandEnd
  state : DbgState σ

/-- `dbg_step` -/
def dbgStep (defs : List (InstnDef Op)) (host : Host σ) (fuel : Nat) (st : DbgState σ) :
    CommandRun σ :=
  if st.running then
    match stepProgram defs host false st.breakpoints fuel st.vm with
    | .error _ => ⟨[], .unfinished, st⟩
    | .ok none => ⟨[], .unfinished, st⟩
    | .ok (some (.stopped last vm)) =>
        ⟨last.toList.map (fun instn => (instn, vm)), .exited, { st with vm := vm }⟩
    | .ok (some (.ran instn vm)) => ⟨[(instn, vm)], .done, { st with vm := vm }⟩
    | .ok (some (.hit _ vm)) => ⟨[], .done, { st with vm := vm }⟩
  else ⟨[], .done, st⟩

/-- The loop of `dbg_run`, for at most `n` instructions. -/
def dbgRunLoop (defs : List (InstnDef Op)) (host : Host σ) (fuel : Nat) :
    Nat → DbgState σ → CommandRun σ
  | 0, st => ⟨[], .unfinished, st⟩
  | n + 1, st =>
      match stepProgram defs host true st.breakpoints fuel st.vm with
      | .error _ => ⟨[], .unfinished, st⟩
      | .ok none => ⟨[], .unfinished, st⟩
      | .ok (some (.stopped last vm)) =>
          ⟨last.toList.map (fun instn => (instn, vm)), .exited,
            { st with vm := vm, running := false }⟩
      | .ok (some (.hit _ vm)) => ⟨[], .atBreakpoint, { st with vm := vm }⟩
      | .ok (some (.ran instn vm)) =>
          let rest := dbgRunLoop defs host fuel n { st with vm := vm }
          { rest with trace := (instn, vm) :: rest.trace }

/-- `dbg_run` -/
def dbgRun (defs : List (InstnDef Op)) (host : Host σ) (fuel : Nat) (st : DbgState σ) :
    CommandRun σ :=
  dbgRunLoop defs host fuel fuel { st with running := true }

/-- The commands `run`, `n`, `brk` and `brkd`. -/
inductive Command
  | run
  | n
  | brk (arg : BreakArg)
  | brkd (brkId : UInt32)
  deriving DecidableEq, Repr

/-- One command. -/
def runCommand (defs : List (InstnDef Op)) (host : Host σ) (fuel : Nat) (st : DbgState σ) :
    Command → CommandRun σ
  | .run => dbgRun defs host fuel st
  | .n => dbgStep defs host fuel st
  | .brk arg => ⟨[], .done, dbgBreak arg st⟩
  | .brkd brkId => ⟨[], .done, dbgBreakDelete brkId st⟩

/-- The instructions a session executes until the machine stops. -/
def session (defs : List (InstnDef Op)) (host : Host σ) (fuel : Nat) :
    List Command → DbgState σ → List (Instn × Vm σ)
  | [], _ => []
  | c :: cs, st =>
      let r := runCommand defs host fuel st c
      match r.finish with
      | .done | .atBreakpoint => r.trace ++ session defs host fuel cs r.state
      | .exited | .unfinished => r.trace

end BvgzVm
