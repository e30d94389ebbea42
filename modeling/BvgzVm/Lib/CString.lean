import Mathlib.Tactic

set_option autoImplicit false

/-! # Strings of C

A `char` is the `Char` with its code, and a string is the list of its characters without the
terminator. A buffer is the list of the characters before its last one, which is a terminator; it
may contain further terminators. An access outside a buffer has no result.
-/

namespace CLib

/-- A string. -/
abbrev CStr := List Char

/-- The terminator. -/
def nul : Char := Char.ofNat 0

/-- The characters are those of `char`, and none of them is the terminator. -/
def IsCString (s : CStr) : Prop := ∀ c ∈ s, 0 < c.toNat ∧ c.toNat < 256

instance (s : CStr) : Decidable (IsCString s) :=
  List.decidableBAll (fun c : Char => 0 < c.toNat ∧ c.toNat < 256) s

/-- A check of every character of a string. It goes over the string, where deciding the statement
itself may go over all characters there are. -/
theorem forall_mem_of_all {p : Char → Prop} [DecidablePred p] {s : CStr}
    (h : s.all (fun c => decide (p c)) = true) : ∀ c ∈ s, p c := by
  intro c hc
  exact of_decide_eq_true (List.all_eq_true.1 h c hc)

/-- `isspace`, in the C locale -/
def isspace (c : Char) : Bool :=
  c = ' ' || c = '\t' || c = '\n' || c = '\x0b' || c = '\x0c' || c = '\r'

/-! ## Buffers -/

/-- The character at index `i`. -/
def charAt (buf : CStr) (i : Nat) : Option Char := (buf ++ [nul])[i]?

/-- The buffer with `c` stored at index `i`. The last terminator stays. -/
def setChar (buf : CStr) (i : Nat) (c : Char) : Option CStr :=
  if i < buf.length ∨ (i = buf.length ∧ c = nul) then some (buf.set i c) else none

/-- The string at index `i`. -/
def strAt (buf : CStr) (i : Nat) : Option CStr :=
  if i ≤ buf.length then some ((buf.drop i).takeWhile (· ≠ nul)) else none

/-- `while (*p && f(*p)) p++`, from index `i` on. -/
def skipWhile (f : Char → Bool) (buf : CStr) (i : Nat) : Option Nat :=
  if i ≤ buf.length then
    some (i + ((buf.drop i).takeWhile (fun c => c ≠ nul && f c)).length)
  else none

/-! ## `strtoull` -/

/-- The value of a character as a digit. -/
def digit (c : Char) : Option Nat :=
  if '0' ≤ c ∧ c ≤ '9' then some (c.toNat - '0'.toNat)
  else if 'a' ≤ c ∧ c ≤ 'z' then some (c.toNat - 'a'.toNat + 10)
  else if 'A' ≤ c ∧ c ≤ 'Z' then some (c.toNat - 'A'.toNat + 10)
  else none

/-- `c` is a digit to the base. -/
def isDigit (base : Nat) (c : Char) : Bool :=
  match digit c with
  | some d => d < base
  | none => false

/-- The number the digits stand for. -/
def digitsValue (base : Nat) (ds : CStr) : Nat :=
  ds.foldl (fun n c => n * base + (digit c).getD 0) 0

/-- What `strtoull` returns: the value, the string that `endptr` points to, and whether `errno`
has been set to `ERANGE`. -/
structure Strto where
  value : UInt64
  rest : CStr
  erange : Bool
  deriving DecidableEq, Repr

/-- The sign of a number, and what follows it. -/
def strtoSign (s : CStr) : Bool × CStr :=
  match s with
  | '-' :: t => (true, t)
  | '+' :: t => (false, t)
  | t => (false, t)

/-- The base of the digits, and the digits with what follows them. A prefix `0x` counts if a
digit comes after it. -/
def strtoBase (base : Nat) (s : CStr) : Nat × CStr :=
  match s with
  | '0' :: x :: d :: t =>
      if (base = 0 ∨ base = 16) ∧ (x = 'x' ∨ x = 'X') ∧ isDigit 16 d = true then (16, d :: t)
      else if base = 0 then (8, s)
      else (base, s)
  | '0' :: _ => if base = 0 then (8, s) else (base, s)
  | _ => if base = 0 then (10, s) else (base, s)

/-- `strtoull`, and `strtoul` where `unsigned long` has 64 bits. -/
def strtoull (s : CStr) (base : Nat) : Strto :=
  let (negative, t) := strtoSign (s.dropWhile isspace)
  let (base, t) := strtoBase base t
  let ds := t.takeWhile (isDigit base)
  if ds = [] then ⟨0, s, false⟩
  else
    let n := digitsValue base ds
    let rest := t.drop ds.length
    if 2 ^ 64 ≤ n then ⟨0xffffffffffffffff, rest, true⟩
    else if negative then ⟨-UInt64.ofNat n, rest, false⟩
    else ⟨UInt64.ofNat n, rest, false⟩

/-! ## Lines -/

/-- The lines that `getline` returns one after the other, each with its newline. -/
def getlines : CStr → List CStr
  | [] => []
  | c :: s =>
      if c = '\n' then [c] :: getlines s
      else match getlines s with
        | [] => [[c]]
        | l :: ls => (c :: l) :: ls

example : getlines "a\n\nb".toList = ["a\n".toList, "\n".toList, "b".toList] := by decide

example : strtoull " -0x1Fg".toList 0 = ⟨-31, ['g'], false⟩ := by decide

end CLib
