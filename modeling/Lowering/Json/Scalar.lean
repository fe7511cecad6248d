import Lowering.Json.Datum
import Lowering.Json.Numeral
import Lowering.Json.StringBody

/-!
# Reading scalars

Strings, nulls and offsets as data. Where something of another type stands instead, the fault is
that of the type, unless what stands there is faulty itself.
-/

namespace Lowering.Json

/-- The fault of something of an unexpected type: its own fault, if it has one. -/
def Fault.ofUnexpected {α : Type} : Except Fault α → Fault
  | .error fault => fault
  | .ok _ => .invalidType

/-- Scan a numeral that some double can hold. -/
def number (s : List Char) : Except Fault (Numeral × List Char) := do
  let (n, rest) ← numeral .endOfText s
  if n.isHuge then .error .malformed else .ok (n, rest)

/-- The fault of a text that starts with something of an unexpected type. A word, a string or a
numeral that is faulty itself is reported as such. -/
def mismatch : List Char → Fault
  | [] => .endOfText
  | c :: rest =>
      if c = 'n' then .ofUnexpected (word ['u', 'l', 'l'] rest)
      else if c = 't' then .ofUnexpected (word ['r', 'u', 'e'] rest)
      else if c = 'f' then .ofUnexpected (word ['a', 'l', 's', 'e'] rest)
      else if c = '"' then .ofUnexpected (stringBody true rest)
      else if c = '-' ∨ c.isDigit then .ofUnexpected (number (c :: rest))
      else if c = '[' ∨ c = '\x7b' then .invalidType
      else .malformed

/-- Read a string. -/
def readString (s : List Char) : Except Fault (String × List Char) :=
  match skipBlanks s with
  | '"' :: rest => (stringBody true rest).map fun (cs, rest) => (String.ofList cs, rest)
  | s => .error (mismatch s)

/-- Read a null. -/
def readNull (s : List Char) : Except Fault (Datum × List Char) :=
  match skipBlanks s with
  | 'n' :: rest => (word ['u', 'l', 'l'] rest).map fun rest => (.null, rest)
  | s => .error (mismatch s)

/-- The offset that a numeral stands for. -/
def Numeral.toOffset (n : Numeral) : Except Fault UInt32 :=
  match n.integer? with
  | none => .error .invalidType
  | some value =>
      if 0 ≤ value ∧ value < Nat.pow 2 32 then .ok (UInt32.ofNat value.toNat)
      else .error .invalidValue

/-- Read an unsigned number of 32 bits. -/
def readOffset (s : List Char) : Except Fault (Datum × List Char) :=
  match skipBlanks s with
  | [] => .error .endOfText
  | c :: rest =>
      if c = '-' ∨ c.isDigit then do
        let (n, rest) ← number (c :: rest)
        let offset ← n.toOffset
        .ok (.number offset, rest)
      else .error (mismatch (c :: rest))

/-- Read an info. -/
def readInfo : InfoKind → List Char → Except Fault (Datum × List Char)
  | .offset, s => readOffset s
  | .text, s => (readString s).map fun (t, rest) => (.text t, rest)
  | .unit, s => readNull s

end Lowering.Json
