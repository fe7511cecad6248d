import Lowering.Json.Datum

/-!
# Writing data

Every datum has one spelling in each of two layouts: compact, on one line without blanks, and
pretty, with a line for each field and element.
-/

namespace Lowering.Json

/-- How a text is laid out. -/
inductive Layout where
  /-- On one line, without blanks. -/
  | compact
  /-- A field or an element a line, indented by two spaces for each array and object around it. -/
  | pretty
deriving DecidableEq, Repr

/-- What stands before a field or an element inside so many arrays and objects. -/
def Layout.lineBreak : Layout → Nat → List Char
  | .compact, _ => []
  | .pretty, depth => '\n' :: List.replicate (2 * depth) ' '

/-- What stands between a colon and its value. -/
def Layout.gap : Layout → List Char
  | .compact => []
  | .pretty => [' ']

/-- The way a character is written in a string. -/
def writeChar (c : Char) : List Char :=
  if c = '"' then ['\\', '"']
  else if c = '\\' then ['\\', '\\']
  else if c = '\x08' then ['\\', 'b']
  else if c = '\t' then ['\\', 't']
  else if c = '\n' then ['\\', 'n']
  else if c = '\x0c' then ['\\', 'f']
  else if c = '\r' then ['\\', 'r']
  else if c < ' ' then
    ['\\', 'u', '0', '0', Nat.digitChar (c.toNat / 16), Nat.digitChar (c.toNat % 16)]
  else [c]

/-- A string in quotes. -/
def writeString (s : String) : List Char :=
  '"' :: (s.toList.flatMap writeChar ++ ['"'])

/-- A value with its key. -/
def writeKeyed (layout : Layout) (key : String) (value : List Char) : List Char :=
  writeString key ++ ':' :: (layout.gap ++ value)

/-- Parts between brackets, which stand inside so many arrays and objects. -/
def writeBracketed (layout : Layout) (depth : Nat) (opening closing : Char) :
    List (List Char) → List Char
  | [] => [opening, closing]
  | part :: parts =>
      opening :: (layout.lineBreak (depth + 1) ++ part ++
        parts.flatMap (fun p => ',' :: (layout.lineBreak (depth + 1) ++ p)) ++
        layout.lineBreak depth ++ [closing])

mutual

/-- Write a datum that stands inside so many arrays and objects. -/
def Datum.write (layout : Layout) (depth : Nat) : Datum → List Char
  | .null => ['n', 'u', 'l', 'l']
  | .number n => Nat.toDigits 10 n.toNat
  | .text t => writeString t
  | .list items =>
      writeBracketed layout depth '[' ']' (Datum.writeAll layout (depth + 1) items)
  | .record r fields =>
      writeBracketed layout depth '\x7b' '\x7d'
        (List.zipWith (fun field value => writeKeyed layout field.name value) r.fields
          (Datum.writeAll layout (depth + 1) fields))
  | .bare tag => writeString tag.label
  | .variant tag payload =>
      writeBracketed layout depth '\x7b' '\x7d'
        [writeKeyed layout tag.label (Datum.write layout (depth + 1) payload)]

/-- Write each datum of a list. -/
def Datum.writeAll (layout : Layout) (depth : Nat) : List Datum → List (List Char)
  | [] => []
  | d :: ds => Datum.write layout depth d :: Datum.writeAll layout depth ds

end

/-- The text of a datum. -/
def Datum.toText (layout : Layout) (d : Datum) : String :=
  String.ofList (d.write layout 0)

end Lowering.Json
