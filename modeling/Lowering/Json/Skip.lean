import Lowering.Json.Numeral
import Lowering.Json.StringBody

/-!
# Skipping values

A value that nobody asks for is skipped: it has to be well-formed JSON, but may be of any type and
nested to any depth. The arrays and objects that are open are kept on a stack.
-/

namespace Lowering.Json

/-- What is open around a value. -/
inductive Frame where
  | array
  | object
deriving DecidableEq, Repr

/-- Skip a word, a string or a numeral. -/
def skipScalar : List Char → Except Fault (List Char)
  | [] => .error .endOfText
  | c :: rest =>
      if c = 'n' then word ['u', 'l', 'l'] rest
      else if c = 't' then word ['r', 'u', 'e'] rest
      else if c = 'f' then word ['a', 'l', 's', 'e'] rest
      else if c = '"' then (stringBody false rest).map Prod.snd
      else if c = '-' ∨ c.isDigit then (numeral .malformed (c :: rest)).map Prod.snd
      else .error .malformed

/-- Skip the key of an object with its colon. -/
def skipKey (s : List Char) : Except Fault (List Char) :=
  match skipBlanks s with
  | [] => .error .endOfText
  | c :: rest =>
      if c = '"' then do
        let (_, rest) ← stringBody false rest
        colon rest
      else .error .malformed

mutual

/-- Skip a value and all that belongs to the arrays and objects open around it. Every step takes at
least one character, so the length of the text bounds the number of steps. -/
def skipValueIn : Nat → List Frame → List Char → Except Fault (List Char)
  | 0, _, _ => .error .endOfText
  | steps + 1, frames, s =>
      match skipBlanks s with
      | [] => .error .endOfText
      | c :: rest =>
          if c = '[' then
            match skipBlanks rest with
            | ']' :: rest => skipRestOf steps frames rest
            | rest => skipValueIn steps (.array :: frames) rest
          else if c = '\x7b' then
            match skipBlanks rest with
            | '\x7d' :: rest => skipRestOf steps frames rest
            | rest => do
                let rest ← skipKey rest
                skipValueIn steps (.object :: frames) rest
          else do
            let rest ← skipScalar (c :: rest)
            skipRestOf steps frames rest

/-- Skip what follows a value in the arrays and objects open around it. -/
def skipRestOf : Nat → List Frame → List Char → Except Fault (List Char)
  | _, [], s => .ok s
  | 0, _ :: _, _ => .error .endOfText
  | steps + 1, frame :: frames, s =>
      match frame, skipBlanks s with
      | _, [] => .error .endOfText
      | .array, ',' :: rest => skipValueIn steps (.array :: frames) rest
      | .object, ',' :: rest => do
          let rest ← skipKey rest
          skipValueIn steps (.object :: frames) rest
      | .array, ']' :: rest => skipRestOf steps frames rest
      | .object, '\x7d' :: rest => skipRestOf steps frames rest
      | _, _ => .error .malformed

end

/-- The text after a well-formed value. -/
def skipValue (s : List Char) : Except Fault (List Char) :=
  skipValueIn (s.length + 1) [] s

end Lowering.Json
