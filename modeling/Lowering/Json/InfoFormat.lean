import Lowering.Json.Datum

/-!
# Infos as data

Which types of infos can be exchanged, and how.
-/

namespace Lowering

open Json

/-- The types of infos that can be exchanged. -/
class InfoFormat (ι : Type) where
  /-- The kind of info. -/
  kind : InfoKind
  /-- The datum of an info. -/
  toDatum : ι → Datum
  /-- The info that a datum stands for. -/
  ofDatum? : Datum → Option ι
  /-- A datum stands for the info that it was made of. -/
  ofDatum?_toDatum : ∀ i, ofDatum? (toDatum i) = some i

instance : InfoFormat UInt32 where
  kind := .offset
  toDatum n := .number n
  ofDatum?
    | .number n => some n
    | _ => none
  ofDatum?_toDatum _ := rfl

instance : InfoFormat String where
  kind := .text
  toDatum t := .text t
  ofDatum?
    | .text t => some t
    | _ => none
  ofDatum?_toDatum _ := rfl

instance : InfoFormat Unit where
  kind := .unit
  toDatum _ := .null
  ofDatum?
    | .null => some ()
    | _ => none
  ofDatum?_toDatum _ := rfl

end Lowering
