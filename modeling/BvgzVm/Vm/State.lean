import BvgzVm.Lib.Bytes

set_option autoImplicit false

/-! # The state of the virtual machine

The structures of `vm.h`. The interpreter core owns the code and memory segments, the procedure
list, the counters and the exception word. What only timers, descriptors, child processes and
system calls use (`timers`, `io`, `proc`, `error_no` and the outside world) is a parameter `σ`,
and the functions that touch it are collected in `Host`.

Undefined behaviour of C is an outcome of the model (`Ub`): a step that would access memory it
does not own has no successor state.
-/

namespace BvgzVm

/-! ## Exceptions -/

def vmEArithmetic : UInt32 := 0x1
def vmEMemFault : UInt32 := 0x2
def vmEBadInstnPointer : UInt32 := 0x10
def vmEBadInstnCode : UInt32 := 0x20
def vmEBadSyscallNo : UInt32 := 0x40
def vmEAssertFailed : UInt32 := 0x80

/-- What C leaves undefined, by the place where it happens. -/
inductive Ub
  /-- the decoder reads outside the code segment -/
  | codeRead
  /-- an index past the sentinel of `InstnDefs`, or a call of its `NULL` handler -/
  | instnTable
  /-- an access through the reference operand `k` leaves the memory segment -/
  | operand (k : Nat)
  /-- operand `k` is used as a pointer, but no pointer was decoded into it -/
  | wild (k : Nat)
  /-- an access through a pointer of `deref_mem_ptr` leaves the memory segment -/
  | deref
  /-- `memcpy` between overlapping ranges -/
  | overlap
  /-- a shift by the operand width or more -/
  | shift
  /-- a frame outside the block of the call stack -/
  | callStack
  /-- `vm->procedures` is `NULL` and dereferenced -/
  | noProcedure
  /-- undefined behaviour of an event source or a system call -/
  | host
  deriving DecidableEq, Repr

/-! ## Segments -/

/-- The code or the memory of a machine: bytes addressed by 32-bit numbers. -/
structure Segment where
  bytes : List UInt8
  size_lt : bytes.length < 2 ^ 32
  deriving DecidableEq

/-- A size of `0`. -/
def Segment.empty : Segment := ⟨[], by decide⟩

/-- `codesz`, `memsz` -/
def Segment.size (s : Segment) : Nat := s.bytes.length

/-- The `w`-byte number at `off`. -/
def Segment.load (s : Segment) (off w : Nat) : Option Nat := Bytes.load s.bytes off w

/-- The segment with `bs` written at `off`, if the range is inside. -/
def Segment.write (s : Segment) (off : Nat) (bs : List UInt8) : Option Segment :=
  if h : off + bs.length ≤ s.bytes.length then
    some ⟨s.bytes.take off ++ (bs ++ s.bytes.drop (off + bs.length)), by
      have := s.size_lt
      simp only [List.length_append, List.length_take, List.length_drop]
      omega⟩
  else none

/-- The segment with the low `w` bytes of `n` stored at `off`. -/
def Segment.store (s : Segment) (off w n : Nat) : Option Segment := s.write off (Bytes.toLE w n)

theorem Segment.size_lt' (s : Segment) : s.size < 2 ^ 32 := s.size_lt

theorem Segment.write_bytes {s s' : Segment} {off : Nat} {bs : List UInt8}
    (h : s.write off bs = some s') : Bytes.write s.bytes off bs = some s'.bytes := by
  unfold Segment.write at h
  unfold Bytes.write
  split at h
  · next hle => rw [if_pos hle, ← Option.some.inj h]
  · cases h

theorem Segment.write_size {s s' : Segment} {off : Nat} {bs : List UInt8}
    (h : s.write off bs = some s') : s'.size = s.size := Bytes.write_length (s.write_bytes h)

theorem Segment.write_eq_none {s : Segment} {off : Nat} {bs : List UInt8} :
    s.write off bs = none ↔ s.size < off + bs.length := by
  unfold Segment.write Segment.size
  split
  · next hle => simpa using hle
  · next hle => simpa using hle

theorem Segment.load_eq_none {s : Segment} {off w : Nat} :
    s.load off w = none ↔ s.size < off + w := Bytes.load_eq_none

theorem Segment.load_lt {s : Segment} {off w n : Nat} (h : s.load off w = some n) :
    n < 256 ^ w := Bytes.load_lt h

theorem Segment.store_eq_none {s : Segment} {off w n : Nat} :
    s.store off w n = none ↔ s.size < off + w := by
  rw [Segment.store, Segment.write_eq_none, Bytes.length_toLE]

/-! ## Procedures -/

/-- `fcall_t` -/
structure FCall where
  retval : UInt32
  args : UInt32
  retAddress : UInt32
  deriving DecidableEq, Repr

/-- `proc_t`. `cstack` is the allocated block, byte by byte; `cstackSz` and `cstackAlloc` count
frames. -/
structure Proc where
  iptr : UInt32
  cstack : List UInt8
  cstackSz : UInt32
  cstackAlloc : UInt32
  deriving DecidableEq, Repr

/-! ## The machine -/

/-- `vm_t`. The head of `procedures` is the procedure that is running. -/
structure Vm (σ : Type) where
  code : Segment
  memory : Segment
  exceptions : UInt32
  procedures : List Proc
  iptr : UInt32
  instns : UInt64
  assertId : UInt64
  instnsSinceLastCleanup : UInt32
  host : σ
  deriving DecidableEq

/-- The event sources and the system calls, and what `realloc` leaves in the bytes it adds. -/
structure Host (σ : Type) where
  fireTimerEvents : Vm σ → Except Ub (UInt32 × Vm σ)
  fireIoEvents : Vm σ → Except Ub (UInt32 × Vm σ)
  fireProcEvents : Vm σ → Except Ub (UInt32 × Vm σ)
  hasPendingTimerEvents : Vm σ → Bool
  hasPendingIoEvents : Vm σ → Bool
  hasPendingProcEvents : Vm σ → Bool
  /-- `nanosleep(&idle_step, NULL)`, which may set `error_no` -/
  nanosleep : Vm σ → Vm σ
  syscallTable : List (Vm σ → UInt32 → UInt32 → Except Ub (Vm σ))
  fill : Nat → UInt8

variable {σ : Type}

/-- `vm->exceptions |= e` -/
def Vm.raise (vm : Vm σ) (e : UInt32) : Vm σ := { vm with exceptions := vm.exceptions ||| e }

@[simp] theorem Vm.raise_code (vm : Vm σ) (e : UInt32) : (vm.raise e).code = vm.code := rfl
@[simp] theorem Vm.raise_memory (vm : Vm σ) (e : UInt32) : (vm.raise e).memory = vm.memory := rfl
@[simp] theorem Vm.raise_procedures (vm : Vm σ) (e : UInt32) :
    (vm.raise e).procedures = vm.procedures := rfl

/-- `deref_mem_ptr`: the bound is computed in 32 bits. `NULL` is `none`; the exception it raises
is left to the caller (`Vm.raise vmEMemFault`). -/
def derefMemPtr (ref size : UInt32) (memsz : Nat) : Option UInt32 :=
  if memsz < (ref + size).toNat then none else some ref

end BvgzVm
