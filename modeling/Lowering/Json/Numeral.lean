import Lowering.Json.Double
import Lowering.Json.Scan

/-!
# Numerals in JSON

A numeral is scanned as it is written; only then is it asked whether it is an integer. Numbers are
unbounded here, but one that no double can hold counts as malformed.
-/

namespace Lowering.Json

/-- A numeral as it is written. -/
structure Numeral where
  negative : Bool
  /-- The digits before the point. -/
  whole : List Char
  /-- The digits after the point, if there is one. -/
  fraction : List Char
  exponent : Option Int
deriving DecidableEq, Repr

/-- The number that decimal digits stand for. -/
def decimal (digits : List Char) : Nat :=
  Nat.ofDigitChars 10 digits 0

/-- Scan one or more digits; `cut` is the fault if the text ends instead. -/
def someDigits (cut : Fault) : List Char → Except Fault (List Char × List Char)
  | [] => .error cut
  | c :: rest =>
      if c.isDigit then .ok (c :: rest.takeWhile Char.isDigit, rest.dropWhile Char.isDigit)
      else .error .malformed

/-- Scan the digits before the point, among which a zero comes first only if it stands alone. -/
def wholeDigits (cut : Fault) (s : List Char) : Except Fault (List Char × List Char) := do
  let (digits, rest) ← someDigits cut s
  if digits.length > 1 ∧ digits.head? = some '0' then .error .malformed else .ok (digits, rest)

/-- Scan a point with digits after it, if there is one. -/
def fractionDigits (cut : Fault) : List Char → Except Fault (List Char × List Char)
  | '.' :: rest => someDigits cut rest
  | s => .ok ([], s)

/-- Scan an exponent, if there is one. -/
def exponentPart (cut : Fault) : List Char → Except Fault (Option Int × List Char)
  | [] => .ok (none, [])
  | c :: rest =>
      if c = 'e' ∨ c = 'E' then do
        let (digits, after) ← someDigits cut (match rest with
          | '+' :: rest | '-' :: rest => rest
          | rest => rest)
        let magnitude : Int := decimal digits
        .ok (some (if rest.head? = some '-' then -magnitude else magnitude), after)
      else .ok (none, c :: rest)

/-- Scan a numeral; `cut` is the fault if the text ends in the middle of it. -/
def numeral (cut : Fault) (s : List Char) : Except Fault (Numeral × List Char) := do
  let negative := s.head? = some '-'
  let (whole, s) ← wholeDigits cut (if negative then s.tail else s)
  let (fraction, s) ← fractionDigits cut s
  let (exponent, s) ← exponentPart cut s
  .ok (⟨negative, whole, fraction, exponent⟩, s)

namespace Numeral

/-- The value of a numeral that is written as an integer and fits 64 bits, signed or unsigned. A
negative zero is no integer. -/
def integer? (n : Numeral) : Option Int :=
  let magnitude := decimal n.whole
  if n.fraction ≠ [] ∨ n.exponent.isSome then none
  else if n.negative then
    if magnitude = 0 ∨ magnitude > Nat.pow 2 63 then none else some (-magnitude)
  else if magnitude ≥ Nat.pow 2 64 then none
  else some magnitude

/-- Go on with a significand, digit by digit, as long as it fits 64 bits. The number of digits taken
comes with it. -/
def takeDigits : Nat → List Char → Nat × Nat
  | significand, [] => (significand, 0)
  | significand, c :: rest =>
      let longer := significand * 10 + (c.toNat - '0'.toNat)
      if longer < Nat.pow 2 64 then
        let (final, count) := takeDigits longer rest
        (final, count + 1)
      else (significand, 0)

/-- The numeral is too large for a double. A digit before the point that no longer fits into the
significand counts for its place alone, and one after the point for nothing. -/
def isHuge (n : Numeral) : Bool :=
  let (whole, before) := takeDigits 0 n.whole
  let (significand, after) := takeDigits whole n.fraction
  overflows significand (n.exponent.getD 0 + (n.whole.length - before) - after)

end Numeral

end Lowering.Json
