import Lowering.Json.Fault

/-!
# Scanning

The smallest steps through a JSON text: blanks, words and colons. A scanner takes the text that is
left and returns what it has found together with the text after it, or the first fault.
-/

namespace Lowering.Json

/-- Two steps succeed together when the first does and the second does after it. -/
theorem bind_eq_ok {α β : Type} {step : Except Fault α} {next : α → Except Fault β} {b : β} :
    step >>= next = .ok b ↔ ∃ a, step = .ok a ∧ next a = .ok b := by
  cases step with
  | error fault => simp [bind, Except.bind]
  | ok a => simp [bind, Except.bind]

/-- The blanks of JSON. -/
def isBlank (c : Char) : Bool :=
  c = ' ' || c = '\t' || c = '\n' || c = '\r'

/-- The text after leading blanks. -/
def skipBlanks (s : List Char) : List Char :=
  s.dropWhile isBlank

/-- The text after an expected word. -/
def word : List Char → List Char → Except Fault (List Char)
  | [], s => .ok s
  | _ :: _, [] => .error .endOfText
  | c :: cs, d :: s => if c = d then word cs s else .error .malformed

/-- The text after a colon, which may follow blanks. -/
def colon (s : List Char) : Except Fault (List Char) :=
  match skipBlanks s with
  | [] => .error .endOfText
  | c :: rest => if c = ':' then .ok rest else .error .malformed

end Lowering.Json
