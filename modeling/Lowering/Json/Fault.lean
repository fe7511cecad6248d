/-!
# Faults

Why a text is refused. A text that is no well-formed JSON either ends too early or is malformed; the
other faults are about well-formed JSON that is not the form of a tree. Reading stops at the first
fault that it meets.
-/

namespace Lowering.Json

/-- The first fault of a text. -/
inductive Fault where
  /-- The text ends before the value does. -/
  | endOfText
  /-- The text is malformed, or nested too deep. -/
  | malformed
  /-- A record lacks a field. -/
  | missingField (field : String)
  /-- A record has a field twice. -/
  | duplicateField (field : String)
  /-- A choice between variants names none of them. -/
  | unknownVariant (variant : String) (expected : List String)
  /-- An array has fewer elements than the record it stands for has fields. -/
  | invalidLength
  /-- A number is an integer but out of range. -/
  | invalidValue
  /-- A value is of another type than expected. -/
  | invalidType
deriving DecidableEq, Repr

namespace Fault

/-- A name between backquotes. -/
def ticked (name : String) : String :=
  "`" ++ name ++ "`"

/-- What to say about a fault; a text that is no JSON needs no more words. -/
def message? : Fault → Option String
  | .endOfText | .malformed => none
  | .missingField field => some ("missing field " ++ ticked field)
  | .duplicateField field => some ("duplicate field " ++ ticked field)
  | .unknownVariant variant expected =>
      let list := ", ".intercalate (expected.map ticked)
      some ("unknown variant " ++ ticked variant ++ ", expected " ++
        (if expected.length = 1 then list else "one of " ++ list))
  | .invalidLength => some "invalid length"
  | .invalidValue => some "invalid value"
  | .invalidType => some "invalid type"

end Fault

end Lowering.Json
