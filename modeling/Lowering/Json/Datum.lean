import Lowering.Json.Schema

/-!
# Data

The values that are exchanged: what a text of the form of a tree says, without how it is spelled.
-/

namespace Lowering.Json

/-- A value of some shape. The fields of a record are in the order of the record. -/
inductive Datum where
  | null
  | number (n : UInt32)
  | text (text : String)
  | list (items : List Datum)
  | record (record : Record) (fields : List Datum)
  /-- A variant with nothing to it. -/
  | bare (tag : Tag)
  /-- A variant with what belongs to it. -/
  | variant (tag : Tag) (payload : Datum)

end Lowering.Json
