import BvgzVm.Debug.Exec
import BvgzVm.Lib.CString

set_option autoImplicit false

/-! # The symbols of the debugger

What the commands of the debugger look up in the debug data of an image, and the numbers and
addresses in their arguments: `debug_util.c`, on what `setup_state` of `vm_debug.c` has made of the
debug data.
-/

namespace BvgzVm

open CLib

/-! ## The debug data -/

/-- A line of `DBG_CODE_LINE` with the name that `DBG_FILE` gives for its file. -/
structure CodeLine where
  address : UInt32
  lineno : UInt32
  file : CStr
  deriving DecidableEq, Repr

/-- `dbg_label_t` of `debug.h` -/
structure DbgSymbol where
  label : CStr
  isMemRef : Bool
  address : UInt32
  deriving DecidableEq, Repr

/-- `state->data` and `state->labels`, which are there together or not at all. The labels stand in
the order in which `hmap_iterate` comes to them. -/
structure DbgSymbols where
  codeLines : List CodeLine
  labels : List DbgSymbol
  nodup : (labels.map DbgSymbol.label).Nodup

/-- `hmap_get(state->labels, name, ..)` -/
def DbgSymbols.get (symbols : DbgSymbols) (name : CStr) : Option DbgSymbol :=
  symbols.labels.find? (fun l => l.label = name)

/-! ## Numbers and addresses -/

/-- `(uint32_t)-1` -/
def badNumber : UInt32 := 0xffffffff

/-- `parse_uint`: the whole string has to be a number. The result of `strtoul` is cut to 32 bits. -/
def parseUint (n : CStr) (radix : Nat) : UInt32 :=
  let r := strtoull n radix
  if r.rest ≠ [] then badNumber else r.value.toUInt32

/-- `s[0] == '0' && s[1] == 'x'` -/
def isHex (s : CStr) : Bool := ['0', 'x'].isPrefixOf s

/-- `resolve_address` -/
def resolveAddress (addressOrLabel : CStr) (symbols : Option DbgSymbols) (isMemRef : Bool) :
    UInt32 :=
  match symbols.bind (fun t => t.get addressOrLabel) with
  | some label => if label.isMemRef ≠ isMemRef then badNumber else label.address
  | none =>
      if isHex addressOrLabel then parseUint addressOrLabel 16 else parseUint addressOrLabel 10

/-- `resolve_code_address` -/
def resolveCodeAddress (addressOrLabel : CStr) (symbols : Option DbgSymbols) : UInt32 :=
  resolveAddress addressOrLabel symbols false

/-- `find_label` -/
def findLabel (address : UInt32) (isMemRef : Bool) (descr : Option CStr) (label : DbgSymbol) :
    Option CStr :=
  if label.isMemRef = isMemRef ∧ label.address = address then some label.label else descr

/-- `address_label`: of several labels of the address it is the one that comes last. -/
def addressLabel (address : UInt32) (symbols : Option DbgSymbols) (isMemRef : Bool) :
    Option CStr :=
  symbols.bind (fun t => t.labels.foldl (findLabel address isMemRef) none)

/-- The empty string is the number `0`, and digits beyond `2 ^ 32` are cut off. -/
example : parseUint [] 10 = 0 ∧ parseUint "4294967301".toList 10 = 5 ∧
    parseUint "5x".toList 10 = badNumber := by decide

end BvgzVm
