import Lowering.Json.Scalar
import Lowering.Json.Skip

/-!
# Reading data

Reading a datum of a given shape from a text. A record is read from an object, whose fields come in
any order and among which unknown ones are skipped, or from an array of all its fields in order. At
most `nestingLimit` arrays and objects may be open at once, not counting those in skipped values.

The reader of a shape is given the reader to use one level deeper, if there is a level left; the
number of levels left is what `readAt` recurs on. It is also given a number of steps, which bounds
how many elements and fields it goes through. Each of these takes at least one character, so the
length of the whole text is enough.
-/

namespace Lowering.Json

/-- A reader takes a shape and a text, and returns a datum with the text after it. -/
abbrev ShapeReader := Shape → List Char → Except Fault (Datum × List Char)

/-- How many arrays and objects may be open at once. -/
def nestingLimit : Nat := 127

/-! ## Arrays -/

/-- Go to the next element of an array, or past its end. The flag of the result says whether there
is an element; the flag given, whether it would be the first. -/
def nextElement (first : Bool) (s : List Char) : Except Fault (Bool × List Char) :=
  match skipBlanks s with
  | [] => .error .endOfText
  | c :: rest =>
      if c = ']' then .ok (false, rest)
      else if first then .ok (true, c :: rest)
      else if c = ',' then
        match skipBlanks rest with
        | [] => .error .endOfText
        | d :: rest => if d = ']' then .error .malformed else .ok (true, d :: rest)
      else .error .malformed

/-- Read the elements of an array up to its end. -/
def readElements (element : List Char → Except Fault (Datum × List Char)) :
    Nat → Bool → List Char → Except Fault (List Datum × List Char)
  | 0, _, _ => .error .endOfText
  | steps + 1, first, s => do
      let (more, s) ← nextElement first s
      if more then
        let (v, s) ← element s
        let (vs, s) ← readElements element steps false s
        .ok (v :: vs, s)
      else .ok ([], s)

/-- Read a field, of which a null stands for one that is left out if it is optional. -/
def readField (deeper : ShapeReader) (field : Field) (s : List Char) :
    Except Fault (Datum × List Char) :=
  if field.optional ∧ (skipBlanks s).head? = some 'n' then readNull s
  else deeper field.shape s

/-- Read the fields of a record from an array, of which `[` has been read. -/
def readFieldArray (deeper : ShapeReader) :
    Bool → List Field → List Char → Except Fault (List Datum × List Char)
  | _, [], s =>
      match skipBlanks s with
      | [] => .error .endOfText
      | c :: rest => if c = ']' then .ok ([], rest) else .error .malformed
  | first, field :: fields, s => do
      let (more, s) ← nextElement first s
      if more then
        let (v, s) ← readField deeper field s
        let (vs, s) ← readFieldArray deeper false fields s
        .ok (v :: vs, s)
      else .error .invalidLength

/-! ## Objects -/

/-- Read a key. Nothing but a string can be one. -/
def readKey (s : List Char) : Except Fault (String × List Char) :=
  match skipBlanks s with
  | [] => .error .endOfText
  | c :: rest =>
      if c = '"' then (stringBody true rest).map fun (cs, rest) => (String.ofList cs, rest)
      else .error .malformed

/-- Go to the next key of an object and read it, or go past the end of the object. The flag says
whether the key would be the first. -/
def nextKey (first : Bool) (s : List Char) : Except Fault (Option String × List Char) :=
  match skipBlanks s with
  | [] => .error .endOfText
  | c :: rest =>
      if c = '\x7d' then .ok (none, rest)
      else if first then (readKey (c :: rest)).map fun (key, rest) => (some key, rest)
      else if c = ',' then (readKey rest).map fun (key, rest) => (some key, rest)
      else .error .malformed

/-- Read the fields of a record from an object up to its end, in the order of the text. Those that
have been read before are given. -/
def readFieldObject (deeper : ShapeReader) (fields : List Field) :
    Nat → Bool → List (String × Datum) → List Char →
      Except Fault (List (String × Datum) × List Char)
  | 0, _, _, _ => .error .endOfText
  | steps + 1, first, seen, s => do
      let (key?, s) ← nextKey first s
      match key? with
      | none => .ok (seen, s)
      | some key =>
          match fields.find? (·.name = key) with
          | some field =>
              if (seen.lookup key).isSome then .error (.duplicateField key)
              else
                let s ← colon s
                let (v, s) ← readField deeper field s
                readFieldObject deeper fields steps false (seen ++ [(key, v)]) s
          | none =>
              let s ← colon s
              let s ← skipValueIn steps [] s
              readFieldObject deeper fields steps false seen s

/-- Put the fields that have been read in the order of the record. -/
def arrangeFields (seen : List (String × Datum)) : List Field → Except Fault (List Datum)
  | [] => .ok []
  | field :: fields =>
      match seen.lookup field.name with
      | some v => do
          let vs ← arrangeFields seen fields
          .ok (v :: vs)
      | none =>
          if field.optional then do
            let vs ← arrangeFields seen fields
            .ok (.null :: vs)
          else .error (.missingField field.name)

/-! ## Shapes -/

/-- The variant of a choice with a given label. -/
def Choice.tagOf (choice : Choice) (label : String) : Except Fault Tag :=
  match choice.tags.find? (·.label = label) with
  | some tag => .ok tag
  | none => .error (.unknownVariant label (choice.tags.map Tag.label))

/-- Read what belongs to a variant. -/
def readPayload (deeper : ShapeReader) (tag : Tag) (s : List Char) :
    Except Fault (Datum × List Char) :=
  match tag.payload? with
  | some shape => (deeper shape s).map fun (v, rest) => (.variant tag v, rest)
  | none => (readNull s).map fun (_, rest) => (.bare tag, rest)

/-- Read a choice, from the label alone or from an object with the label as its only key. The label
in the object stands in the place of a key, so what is no string there is malformed and not a value
of another type. -/
def readChoice (deeper? : Option ShapeReader) (choice : Choice) (s : List Char) :
    Except Fault (Datum × List Char) :=
  match skipBlanks s with
  | [] => .error .endOfText
  | c :: rest =>
      if c = '"' then do
        let (label, rest) ← stringBody true rest
        let tag ← choice.tagOf (String.ofList label)
        if tag.payload?.isNone then .ok (.bare tag, rest) else .error .invalidType
      else if c = '\x7b' then
        match deeper? with
        | none => .error .malformed
        | some deeper => do
            let (label, rest) ← readKey rest
            let tag ← choice.tagOf label
            let rest ← colon rest
            let (v, rest) ← readPayload deeper tag rest
            match skipBlanks rest with
            | [] => .error .endOfText
            | c :: rest => if c = '\x7d' then .ok (v, rest) else .error .malformed
      else .error .malformed

/-- Read a list of nodes. -/
def readNodes (steps : Nat) (deeper? : Option ShapeReader) (item : Item) (s : List Char) :
    Except Fault (Datum × List Char) :=
  match skipBlanks s with
  | '[' :: rest =>
      match deeper? with
      | none => .error .malformed
      | some deeper =>
          (readElements (deeper (.node item)) steps true rest).map
            fun (items, rest) => (.list items, rest)
  | s => .error (mismatch s)

/-- Read a record. -/
def readRecord (steps : Nat) (deeper? : Option ShapeReader) (record : Record) (s : List Char) :
    Except Fault (Datum × List Char) :=
  match skipBlanks s with
  | [] => .error .endOfText
  | c :: rest =>
      if c = '[' ∨ c = '\x7b' then
        match deeper? with
        | none => .error .malformed
        | some deeper =>
            if c = '[' then
              (readFieldArray deeper true record.fields rest).map
                fun (fields, rest) => (.record record fields, rest)
            else do
              let (seen, rest) ← readFieldObject deeper record.fields steps true [] rest
              let fields ← arrangeFields seen record.fields
              .ok (.record record fields, rest)
      else .error (mismatch (c :: rest))

/-- Read a value of a given shape, with the reader to use one level deeper. -/
def readShape (kind : InfoKind) (steps : Nat) (deeper? : Option ShapeReader) : ShapeReader
  | .info, s => readInfo kind s
  | .text, s => (readString s).map fun (t, rest) => (.text t, rest)
  | .nodes item, s => readNodes steps deeper? item s
  | .record record, s => readRecord steps deeper? record s
  | .choice choice, s => readChoice deeper? choice s

/-- Read a value with so many levels of nesting left. -/
def readAt (kind : InfoKind) (steps : Nat) : Nat → ShapeReader
  | 0 => readShape kind steps none
  | levels + 1 => readShape kind steps (some (readAt kind steps levels))

/-- Read a whole text as one value. -/
def readText (kind : InfoKind) (shape : Shape) (text : List Char) : Except Fault Datum := do
  let (v, rest) ← readAt kind (text.length + 1) nestingLimit shape text
  if (skipBlanks rest).isEmpty then .ok v else .error .malformed

end Lowering.Json
