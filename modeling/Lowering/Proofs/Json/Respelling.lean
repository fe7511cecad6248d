import Lowering.Proofs.Json.RoundTrip
import Lowering.Proofs.Json.Spells

/-!
# Data are read from any spelling

Main statements: a datum is read from any of its spellings by a reader that has levels enough for
the brackets of the spelling, of which those in the values of unknown fields do not count
(`Spells.readsAs`), and so is a program.
-/

namespace Lowering

open Json

namespace Json

/-! ## Parts -/

/-- A reader reads a datum from a text, and nothing after it. It has steps enough for texts that are
shorter than so many characters. -/
structure ReadsAs (steps : Nat) (reader : List Char → Except Fault (Datum × List Char)) (d : Datum)
    (text : List Char) : Prop where
  starts : Starts text
  reads {s rest : List Char} (hsteps : s.length < steps) (hends : NumeralEnds rest)
    (hs : skipBlanks s = text ++ rest) : reader s = .ok (d, rest)

/-- Fewer steps are enough for shorter texts. -/
theorem ReadsAs.weaken {steps left : Nat} {reader : List Char → Except Fault (Datum × List Char)}
    {d : Datum} {text : List Char} (h : ReadsAs steps reader d text) (hleft : left ≤ steps) :
    ReadsAs left reader d text where
  starts := h.starts
  reads hsteps := h.reads (Nat.lt_of_lt_of_le hsteps hleft)

section Parts

variable {first : Bool} {s rest : List Char} {parts : List (List Char)}

/-- The next element is reached from what is left of an array. -/
theorem nextElement_padded {item : Padded Spelling} (hstarts : Starts item.core.text)
    (hs : skipBlanks s =
      skipBlanks (partsThen ']' rest first (item.text Spelling.text :: parts))) :
    nextElement first s =
      .ok (true, item.core.text ++ (item.after.chars ++ partsThen ']' rest false parts)) := by
  have htext := Padded.skipBlanks_text (p := item) hstarts (partsThen ']' rest false parts)
  obtain ⟨c, tail, hcore, _, hclosing⟩ := hstarts
  rw [hcore, List.cons_append] at htext ⊢
  cases first with
  | true =>
      rw [partsThen, htext] at hs
      simp only [nextElement, hs, if_neg hclosing, if_true]
  | false =>
      rw [partsThen, skipBlanks_cons rfl] at hs
      simp only [nextElement, hs, htext, if_neg hclosing, Bool.false_eq_true, if_false, if_true]
      rfl

/-- An element is read from what is left of an array. -/
theorem ReadsAs.element {steps : Nat} {reader : List Char → Except Fault (Datum × List Char)}
    {d : Datum} {item : Padded Spelling} (h : ReadsAs steps reader d item.core.text)
    (hsteps : s.length < steps)
    (hs : skipBlanks s =
      skipBlanks (partsThen ']' rest first (item.text Spelling.text :: parts))) :
    ∃ s₁ s₂, nextElement first s = .ok (true, s₁) ∧ reader s₁ = .ok (d, s₂) ∧
      s₂.length < s.length ∧ skipBlanks s₂ = skipBlanks (partsThen ']' rest false parts) := by
  have hlength : (item.core.text ++
      (item.after.chars ++ partsThen ']' rest false parts)).length ≤ s.length := by
    refine Nat.le_trans ?_ (length_skipBlanks_le s)
    rw [hs]
    cases first with
    | true => rw [partsThen, Padded.skipBlanks_text h.starts]
    | false =>
        rw [partsThen, skipBlanks_cons rfl, item.text_append]
        simp only [List.length_cons, List.length_append]
        omega
  have hpos := h.starts.length_pos
  have hread := h.reads (Nat.lt_of_le_of_lt hlength hsteps)
    (numeralEnds_partsThen (.inl rfl) rest parts item.after) (h.starts.skipBlanks_append _)
  refine ⟨_, _, nextElement_padded h.starts hs, hread, ?_, item.after.skipBlanks_append _⟩
  rw [List.length_append] at hlength
  omega

/-- The next key is read from what is left of an object. -/
theorem nextKey_spelled {name : String} {m : Keyed Spelling}
    (hkey : StringSpelling name m.key.core)
    (hs : skipBlanks s =
      skipBlanks (partsThen '\x7d' rest first (m.text Spelling.text :: parts))) :
    ∃ s₁, nextKey first s = .ok (some name, s₁) ∧
      colon s₁ = .ok (m.value.text Spelling.text ++ partsThen '\x7d' rest false parts) := by
  refine ⟨_, ?_, m.key.after.colon_eq _⟩
  have htext : ∀ more, skipBlanks (m.key.text id ++ more) =
      m.key.core ++ (m.key.after.chars ++ more) := Padded.skipBlanks_text hkey.starts
  cases first with
  | true =>
      have hread := hkey.readKey_eq (hkey.starts.skipBlanks_append (m.key.after.chars ++
        ':' :: (m.value.text Spelling.text ++ partsThen '\x7d' rest false parts)))
      obtain ⟨tail, hcons, _⟩ := hkey.eq_cons (m.key.after.chars ++
        ':' :: (m.value.text Spelling.text ++ partsThen '\x7d' rest false parts))
      rw [partsThen, m.text_append, htext, hcons] at hs
      rw [hcons] at hread
      simp only [nextKey, hs, hread, if_true]
      rfl
  | false =>
      rw [partsThen, skipBlanks_cons rfl, m.text_append] at hs
      simp only [nextKey, hs, hkey.readKey_eq (htext _)]
      rfl

/-- The key of a member takes at least one character. -/
theorem length_value_lt {name : String} {m : Keyed Spelling}
    (hkey : StringSpelling name m.key.core)
    (hs : skipBlanks s =
      skipBlanks (partsThen '\x7d' rest first (m.text Spelling.text :: parts))) :
    (m.value.text Spelling.text ++ partsThen '\x7d' rest false parts).length < s.length := by
  refine Nat.lt_of_lt_of_le ?_ (length_skipBlanks_le s)
  rw [hs]
  cases first with
  | true =>
      rw [partsThen, m.text_append, Padded.skipBlanks_text hkey.starts]
      simp only [List.length_cons, List.length_append]
      omega
  | false =>
      rw [partsThen, skipBlanks_cons rfl, m.text_append]
      simp only [List.length_cons, List.length_append]
      omega

/-- What is left after an item is no longer than with the item. -/
theorem Padded.length_after_le (item : Padded Spelling) (more : List Char) :
    (item.after.chars ++ more).length ≤ (item.text Spelling.text ++ more).length := by
  rw [item.text_append]
  simp only [List.length_append]
  omega

/-- A value is read after its colon, whatever members of the object are still to come. -/
theorem ReadsAs.value {steps : Nat} {reader : List Char → Except Fault (Datum × List Char)}
    {d : Datum} {item : Padded Spelling} (h : ReadsAs steps reader d item.core.text)
    (hsteps : (item.text Spelling.text ++ partsThen '\x7d' rest false parts).length < steps) :
    reader (item.text Spelling.text ++ partsThen '\x7d' rest false parts) =
      .ok (d, item.after.chars ++ partsThen '\x7d' rest false parts) :=
  h.reads hsteps (numeralEnds_partsThen (.inr rfl) rest parts item.after)
    (Padded.skipBlanks_text h.starts _)

end Parts

/-! ## Lists and records -/

/-- Elements are read from their spellings, one by one. -/
theorem readElements_spelled {element : List Char → Except Fault (Datum × List Char)} {steps : Nat}
    {items : List (Datum × Padded Spelling)}
    (hitems : ∀ i ∈ items, ReadsAs steps element i.1 i.2.core.text) {left : Nat}
    (hleft : left ≤ steps) {s : List Char} (hs : s.length < left) (first : Bool) {rest : List Char}
    (hparts : skipBlanks s = skipBlanks
      (partsThen ']' rest first (items.map fun i => i.2.text Spelling.text))) :
    readElements element left first s = .ok (items.map Prod.fst, rest) := by
  -- each step takes at least a character, so that as many steps are left as characters
  induction items generalizing left s first with
  | nil =>
      cases left with
      | zero => cases hs
      | succ left =>
          rw [List.map_nil, partsThen, skipBlanks_cons rfl] at hparts
          rw [readElements, nextElement_closing first hparts]
          rfl
  | cons i items ih =>
      cases left with
      | zero => cases hs
      | succ left =>
          obtain ⟨hi, hitems⟩ := List.forall_mem_cons.mp hitems
          obtain ⟨s₁, s₂, hnext, hread, hshort, hparts⟩ :=
            hi.element (Nat.lt_of_lt_of_le hs hleft) hparts
          have ih' := ih hitems (Nat.le_of_succ_le hleft)
            (Nat.lt_of_lt_of_le hshort (Nat.le_of_lt_succ hs)) false hparts
          rw [readElements, hnext]
          simp only [bind, Except.bind, if_true, hread, ih', List.map_cons]

/-- Fields in an array are read from their spellings, one by one. -/
theorem readFieldArray_spelled {deeper : ShapeReader} {steps : Nat}
    {items : List ((Field × Datum) × Padded Spelling)}
    (hitems : ∀ i ∈ items, ReadsAs steps (readField deeper i.1.1) i.1.2 i.2.core.text)
    {s : List Char} (hs : s.length < steps) (first : Bool) {rest : List Char}
    (hparts : skipBlanks s = skipBlanks
      (partsThen ']' rest first (items.map fun i => i.2.text Spelling.text))) :
    readFieldArray deeper first (items.map fun i => i.1.1) s =
      .ok (items.map fun i => i.1.2, rest) := by
  induction items generalizing s first with
  | nil =>
      rw [List.map_nil, partsThen, skipBlanks_cons rfl] at hparts
      rw [List.map_nil, readFieldArray, hparts]
      rfl
  | cons i items ih =>
      obtain ⟨hi, hitems⟩ := List.forall_mem_cons.mp hitems
      obtain ⟨s₁, s₂, hnext, hread, hshort, hparts⟩ := hi.element hs hparts
      have ih' := ih hitems (Nat.lt_trans hshort hs) false hparts
      rw [List.map_cons, readFieldArray, hnext]
      simp only [bind, Except.bind, if_true, hread, ih', List.map_cons]

/-- No field is found by a name that none has. -/
theorem find?_name_eq_none {fields : List Field} {name : String}
    (h : name ∉ fields.map Field.name) : fields.find? (·.name = name) = none := by
  rw [List.find?_eq_none]
  intro field hfield hname
  exact h (List.mem_map.mpr ⟨field, hfield, of_decide_eq_true hname⟩)

section Members

variable {deeper : ShapeReader} {fields : List Field} {first : Bool} {s rest : List Char}
  {parts : List (List Char)} {m : Member} {left : Nat}

/-- An unknown field is passed over. -/
theorem readFieldObject_unknown (hm : m.IsUnknown fields) (hs : s.length < left + 1)
    (hparts : skipBlanks s =
      skipBlanks (partsThen '\x7d' rest first (m.spelled.text Spelling.text :: parts)))
    (seen : List (String × Datum)) :
    ∃ s', s'.length < left ∧ skipBlanks s' = skipBlanks (partsThen '\x7d' rest false parts) ∧
      readFieldObject deeper fields (left + 1) first seen s =
        readFieldObject deeper fields left false seen s' := by
  obtain ⟨name, value, hkey, hname, hvalue, hcore⟩ := hm
  obtain ⟨s₁, hnext, hcolon⟩ := nextKey_spelled hkey hparts
  have hfits := Nat.lt_of_lt_of_le (length_value_lt hkey hparts) (Nat.le_of_lt_succ hs)
  have hstarts : Starts m.spelled.value.core.text := by
    rw [hcore]
    exact hvalue.isSkipped.1
  have htext := Padded.skipBlanks_text hstarts (partsThen '\x7d' rest false parts)
  rw [hcore] at htext
  have hskip := hvalue.skipValueIn_eq hfits
    (numeralEnds_partsThen (.inr rfl) rest parts m.spelled.value.after) htext
  refine ⟨_, Nat.lt_of_le_of_lt (Padded.length_after_le _ _) hfits,
    m.spelled.value.after.skipBlanks_append _, ?_⟩
  rw [readFieldObject, hnext]
  simp only [bind, Except.bind, find?_name_eq_none hname, hcolon, hskip]

/-- A field that has not come yet is read. -/
theorem readFieldObject_known (hfields : (fields.map Field.name).Nodup) {entry : Field × Datum}
    (hfield : entry.1 ∈ fields) (hkey : StringSpelling entry.1.name m.spelled.key.core)
    (hread : ReadsAs (left + 1) (readField deeper entry.1) entry.2 m.spelled.value.core.text)
    (hs : s.length < left + 1)
    (hparts : skipBlanks s =
      skipBlanks (partsThen '\x7d' rest first (m.spelled.text Spelling.text :: parts)))
    {seen : List (String × Datum)} (hnew : seen.lookup entry.1.name = none) :
    ∃ s', s'.length < left ∧ skipBlanks s' = skipBlanks (partsThen '\x7d' rest false parts) ∧
      readFieldObject deeper fields (left + 1) first seen s =
        readFieldObject deeper fields left false (seen ++ [named entry]) s' := by
  obtain ⟨s₁, hnext, hcolon⟩ := nextKey_spelled hkey hparts
  have hfits := Nat.lt_of_lt_of_le (length_value_lt hkey hparts) (Nat.le_of_lt_succ hs)
  have hvalue := hread.value (Nat.lt_succ_of_lt hfits)
  refine ⟨_, Nat.lt_of_le_of_lt (Padded.length_after_le _ _) hfits,
    m.spelled.value.after.skipBlanks_append _, ?_⟩
  rw [readFieldObject, hnext]
  simp only [bind, Except.bind, find?_name hfields hfield, hnew, Option.isSome_none,
    Bool.false_eq_true, if_false, hcolon, hvalue]
  rfl

end Members

/-- A member of an object is read: as the field that it is for, or as an unknown one. -/
def Member.IsRead (steps : Nat) (deeper : ShapeReader) (fields : List Field) (m : Member) : Prop :=
  match m.entry? with
  | none => m.IsUnknown fields
  | some entry =>
      entry.1 ∈ fields ∧ StringSpelling entry.1.name m.spelled.key.core ∧
        ReadsAs steps (readField deeper entry.1) entry.2 m.spelled.value.core.text

/-- Fields in an object are read from their spellings in any order, and members of other names are
skipped. -/
theorem readFieldObject_spelled {deeper : ShapeReader} {fields : List Field} {steps : Nat}
    (hfields : (fields.map Field.name).Nodup) {members : List Member}
    (hmembers : ∀ m ∈ members, m.IsRead steps deeper fields) (done : List (Field × Datum))
    (hnodup : ((done ++ members.filterMap Member.entry?).map fun entry => entry.1.name).Nodup)
    {left : Nat} (hleft : left ≤ steps) {s : List Char} (hs : s.length < left) (first : Bool)
    {rest : List Char}
    (hparts : skipBlanks s = skipBlanks
      (partsThen '\x7d' rest first (members.map fun m => m.spelled.text Spelling.text))) :
    readFieldObject deeper fields left first (done.map named) s =
      .ok ((done ++ members.filterMap Member.entry?).map named, rest) := by
  -- what has been read grows with each known field; no name comes twice in it and what is to come
  induction members generalizing done left s first with
  | nil =>
      cases left with
      | zero => cases hs
      | succ left =>
          rw [List.map_nil, partsThen, skipBlanks_cons rfl] at hparts
          rw [readFieldObject, nextKey_closing first hparts, List.filterMap_nil, List.append_nil]
          rfl
  | cons m members ih =>
      cases left with
      | zero => cases hs
      | succ left =>
          obtain ⟨hm, hmembers⟩ := List.forall_mem_cons.mp hmembers
          have hleft' := Nat.le_of_succ_le hleft
          cases hentry : m.entry? with
          | none =>
              simp only [Member.IsRead, hentry] at hm
              rw [List.filterMap_cons_none hentry] at hnodup ⊢
              obtain ⟨s', hs', hparts', hstep⟩ := readFieldObject_unknown hm hs hparts _
              rw [hstep]
              exact ih hmembers done hnodup hleft' hs' false hparts'
          | some entry =>
              simp only [Member.IsRead, hentry] at hm
              obtain ⟨hfield, hkey, hread⟩ := hm
              rw [List.filterMap_cons_some hentry] at hnodup ⊢
              have hdone : (done ++ [entry]) ++ members.filterMap Member.entry? =
                  done ++ entry :: members.filterMap Member.entry? := by simp
              obtain ⟨s', hs', hparts', hstep⟩ := readFieldObject_known hfields hfield hkey
                (hread.weaken hleft) hs hparts (lookup_named_before hnodup)
              have ih' := ih hmembers (done ++ [entry]) (hdone ▸ hnodup) hleft' hs' false hparts'
              rw [List.map_append, List.map_singleton, hdone] at ih'
              rw [hstep, ih']

section Shapes

variable {steps : Nat} {s rest inside : List Char}

/-- A list of nodes is read from the spellings of its items. -/
theorem readNodes_spelled {deeper : ShapeReader} {item : Item}
    {items : List (Datum × Padded Spelling)}
    (hitems : ∀ i ∈ items, ReadsAs steps (deeper (.node item)) i.1 i.2.core.text)
    (hsteps : inside.length < steps) (hs : skipBlanks s = '[' :: inside)
    (hinside : skipBlanks inside = skipBlanks
      (partsThen ']' rest true (items.map fun i => i.2.text Spelling.text))) :
    readNodes steps (some deeper) item s = .ok (.list (items.map Prod.fst), rest) := by
  simp only [readNodes, hs]
  rw [readElements_spelled hitems (Nat.le_refl steps) hsteps true hinside]
  rfl

/-- A record is read from an array of spellings of its fields. -/
theorem readRecord_array {deeper : ShapeReader} {r : Record}
    {items : List ((Field × Datum) × Padded Spelling)}
    (hfields : items.map (fun i => i.1.1) = r.fields)
    (hitems : ∀ i ∈ items, ReadsAs steps (readField deeper i.1.1) i.1.2 i.2.core.text)
    (hsteps : inside.length < steps) (hs : skipBlanks s = '[' :: inside)
    (hinside : skipBlanks inside = skipBlanks
      (partsThen ']' rest true (items.map fun i => i.2.text Spelling.text))) :
    readRecord steps (some deeper) r s = .ok (.record r (items.map fun i => i.1.2), rest) := by
  simp only [readRecord, hs]
  rw [if_pos (.inl trivial), if_pos trivial, ← hfields,
    readFieldArray_spelled hitems hsteps true hinside]
  rfl

/-- A record is read from an object with spellings of its fields in any order, in which optional
ones may be missing. -/
theorem readRecord_object {deeper : ShapeReader} {r : Record} {data : List Datum}
    {members : List Member} (hlength : data.length = r.fields.length)
    (hwritten : (members.filterMap Member.entry?).Subperm (r.fields.zip data))
    (hmissing : ∀ entry ∈ r.fields.zip data, entry ∉ members.filterMap Member.entry? →
      entry.1.optional = true ∧ entry.2 = .null)
    (hmembers : ∀ m ∈ members, m.IsRead steps deeper r.fields)
    (hsteps : inside.length < steps) (hs : skipBlanks s = '\x7b' :: inside)
    (hinside : skipBlanks inside = skipBlanks
      (partsThen '\x7d' rest true (members.map fun m => m.spelled.text Spelling.text))) :
    readRecord steps (some deeper) r s = .ok (.record r data, rest) := by
  obtain ⟨hnodup, harranged⟩ := arrangeFields_written r.nodup_names hlength hwritten hmissing
  have hobject := readFieldObject_spelled r.nodup_names hmembers [] hnodup (Nat.le_refl steps)
    hsteps true hinside
  simp only [readRecord, hs]
  rw [if_pos (.inr trivial), if_neg (by decide), ← List.map_nil, hobject]
  show (arrangeFields _ _ >>= _) = _
  rw [List.nil_append, harranged]
  rfl

end Shapes

/-! ## Choices -/

/-- Nothing belongs to a variant without payload, which is spelled as null. -/
theorem readPayload_null {tag : Tag} (hpayload : tag.payload? = none) (steps : Nat)
    (deeper : ShapeReader) :
    ReadsAs steps (readPayload deeper tag) (.bare tag) Spelling.null.text := by
  refine ⟨⟨'n', _, rfl, rfl, by decide⟩, ?_⟩
  intro s rest _ _ hs
  rw [readPayload, hpayload]
  dsimp only
  rw [readNull_write hs]
  rfl

/-- The payload of a variant is read from its spelling. -/
theorem readPayload_value {deeper : ShapeReader} {tag : Tag} {shape : Shape}
    (hshape : tag.payload? = some shape) {steps : Nat} {payload : Datum} {text : List Char}
    (h : ReadsAs steps (deeper shape) payload text) :
    ReadsAs steps (readPayload deeper tag) (.variant tag payload) text := by
  refine ⟨h.starts, ?_⟩
  intro s rest hsteps hends hs
  rw [readPayload, hshape]
  dsimp only
  rw [h.reads hsteps hends hs]
  rfl

/-- A variant is read from an object with a spelling of its label as the only key. -/
theorem readChoice_keyed {deeper : ShapeReader} {c : Choice} {tag : Tag} {d : Datum} {steps : Nat}
    {m : Keyed Spelling} (htag : tag ∈ c.tags) (hkey : StringSpelling tag.label m.key.core)
    (hvalue : ReadsAs steps (readPayload deeper tag) d m.value.core.text)
    {s rest inside : List Char} (hsteps : inside.length < steps)
    (hs : skipBlanks s = '\x7b' :: inside)
    (hinside : skipBlanks inside =
      skipBlanks (partsThen '\x7d' rest true [m.text Spelling.text])) :
    readChoice (some deeper) c s = .ok (d, rest) := by
  have hshort := length_value_lt hkey hinside
  have hpayload := hvalue.value (Nat.lt_trans hshort hsteps)
  have hclosing := m.value.after.skipBlanks_append (partsThen '\x7d' rest false [])
  rw [partsThen, m.text_append, Padded.skipBlanks_text hkey.starts] at hinside
  rw [skipBlanks_partsThen (.inr rfl)] at hclosing
  simp only [readChoice, hs, hkey.readKey_eq hinside, bind, Except.bind, Choice.tagOf_label htag,
    m.key.after.colon_eq, hpayload, hclosing]
  rfl

/-! ## Data -/

/-- A field that is not optional is read like its shape. -/
theorem readField_required (deeper : ShapeReader) (name : String) (shape : Shape) :
    readField deeper ⟨name, shape, false⟩ = deeper shape := by
  funext s
  exact if_neg fun h => Bool.false_ne_true h.1

section Readers

variable {kind : InfoKind} {optional : Bool} {shape : Shape} {d : Datum} {steps levels : Nat}
  {text : List Char}

/-- What does not start as a null is read by the reader of its shape. -/
theorem ReadsAs.field {deeper : ShapeReader} (h : ReadsAs steps (deeper shape) d text)
    (hn : ∀ rest, (text ++ rest).head? ≠ some 'n') (name : String) :
    ReadsAs steps (readField deeper ⟨name, shape, optional⟩) d text where
  starts := h.starts
  reads hsteps hends hs := by
    rw [readField, if_neg fun hnull => hn _ (hs ▸ hnull.2)]
    exact h.reads hsteps hends hs

/-- A reader of scalars needs no levels. -/
theorem readsAs_scalar (hstarts : Starts text)
    (h : ∀ deeper? s rest, NumeralEnds rest → skipBlanks s = text ++ rest →
      readShape kind steps deeper? shape s = .ok (d, rest)) :
    ReadsAs steps (readAt kind steps levels shape) d text where
  starts := hstarts
  reads _ hends hs := by
    cases levels with
    | zero => exact h none _ _ hends hs
    | succ levels => exact h (some (readAt kind steps levels)) _ _ hends hs

/-- What is read from a string without going deeper is read from it as a field, too. -/
theorem readsAs_string {t : String} (h : StringSpelling t text)
    (hread : ∀ deeper? s rest, skipBlanks s = text ++ rest →
      readShape kind steps deeper? shape s = .ok (d, rest)) (name : String) :
    ReadsAs steps (readField (readAt kind steps levels) ⟨name, shape, optional⟩) d text := by
  apply (readsAs_scalar h.starts fun deeper? s rest _ => hread deeper? s rest).field
  intro rest hn
  obtain ⟨tail, hcons, _⟩ := h.eq_cons rest
  rw [hcons] at hn
  cases hn

/-- A text is read from every spelling of it. -/
theorem readsAs_text {t : String} (h : StringSpelling t text)
    (hshape : ∀ deeper?, readShape kind steps deeper? shape = fun s =>
      (readString s).map fun (t, rest) => (.text t, rest)) (name : String) :
    ReadsAs steps (readField (readAt kind steps levels) ⟨name, shape, optional⟩) (.text t)
      text := by
  apply readsAs_string h
  intro deeper? s rest hs
  rw [hshape]
  dsimp only
  rw [h.readString_eq hs]
  rfl

/-- What stands in brackets is read with one level less. -/
theorem readsAs_bracketed {opening closing : Char} (hopening : opening = '[' ∨ opening = '\x7b')
    {blanks : Blanks} {parts : List (List Char)}
    (h : ∀ s rest inside, inside.length < steps → skipBlanks s = opening :: inside →
      skipBlanks inside = skipBlanks (partsThen closing rest true parts) →
      readShape kind steps (some (readAt kind steps levels)) shape s = .ok (d, rest))
    (name : String) :
    ReadsAs steps (readField (readAt kind steps (levels + 1)) ⟨name, shape, optional⟩) d
      (bracketed opening closing blanks parts) := by
  have hread : ReadsAs steps (readAt kind steps (levels + 1) shape) d
      (bracketed opening closing blanks parts) := by
    refine ⟨starts_bracketed hopening closing blanks parts, ?_⟩
    intro s rest hsteps _ hs
    have hlength := length_skipBlanks_le s
    rw [bracketed_append] at hs
    rw [hs, List.length_cons] at hlength
    exact h s rest _ (Nat.lt_trans hlength hsteps) hs (blanks.skipBlanks_append _)
  apply hread.field
  intro rest hn
  rcases hopening with rfl | rfl <;> cases hn

end Readers

/-- A datum is read from any of its spellings, if there are levels enough for the brackets that
count. -/
theorem Spells.readsAs {kind : InfoKind} {optional : Bool} {shape : Shape} {d : Datum}
    {sp : Spelling} (h : Spells kind optional shape d sp) {steps levels : Nat}
    (hlevels : mostOpen .outside 0 sp.counted ≤ levels) (name : String) :
    ReadsAs steps (readField (readAt kind steps levels) ⟨name, shape, optional⟩) d sp.text := by
  induction h generalizing levels name with
  | null =>
      refine ⟨⟨'n', _, rfl, rfl, by decide⟩, ?_⟩
      intro s rest _ _ hs
      rw [readField, if_pos ⟨rfl, by rw [hs]; rfl⟩]
      exact readNull_write hs
  | unitInfo =>
      refine ⟨⟨'n', _, rfl, rfl, by decide⟩, ?_⟩
      intro s rest _ _ hs
      rw [readField]
      split
      · exact readNull_write hs
      · cases levels <;> exact readNull_write hs
  | offsetInfo n =>
      obtain ⟨c, tail, hdigits, hc⟩ := toDigits_eq_cons n.toNat
      have hstarts : Starts (Nat.toDigits 10 n.toNat) :=
        ⟨c, tail, hdigits, isBlank_of_isDigit hc, ne_of_isDigit hc (by decide)⟩
      have hread : ReadsAs steps (readAt .offset steps levels .info) (.number n)
          (Nat.toDigits 10 n.toNat) :=
        readsAs_scalar hstarts fun _ s rest hends hs => readOffset_write hends hs
      apply hread.field
      intro rest hn
      rw [hdigits] at hn
      exact ne_of_isDigit hc (by decide) (Option.some.inj hn)
  | textInfo h => exact readsAs_text h (fun _ => rfl) name
  | text h => exact readsAs_text h (fun _ => rfl) name
  | @list kind optional item blanks items hitems ih =>
      obtain ⟨left, rfl, hleft⟩ := levels_of_array
        (List.forall_mem_map.mpr fun i hi => (hitems i hi).balanced) hlevels
      have hread : ∀ i ∈ items, ReadsAs steps (readAt kind steps left (.node item)) i.1
          i.2.core.text := by
        intro i hi
        have hi' := ih i hi (hleft _ (List.mem_map_of_mem hi)) name
        rwa [readField_required] at hi'
      apply readsAs_bracketed (.inl rfl)
      intro s rest inside hsteps hs hinside
      rw [List.map_map] at hinside
      exact readNodes_spelled hread hsteps hs hinside
  | @recordArray kind optional r blanks items hfields hitems ih =>
      obtain ⟨left, rfl, hleft⟩ := levels_of_array
        (List.forall_mem_map.mpr fun i hi => (hitems i hi).balanced) hlevels
      apply readsAs_bracketed (.inl rfl)
      intro s rest inside hsteps hs hinside
      rw [List.map_map] at hinside
      exact readRecord_array hfields
        (fun i hi => ih i hi (hleft _ (List.mem_map_of_mem hi)) i.1.1.name) hsteps hs hinside
  | @recordObject kind optional r data blanks members hlength hwritten hmissing hunknown hkeys
      hvalues ih =>
      have hcloses := closes_of_members hunknown hkeys
        fun m hm entry hentry => (hvalues m hm entry hentry).balanced
      obtain ⟨left, rfl, hleft⟩ := levels_of_object hcloses hlevels
      have hmembers : ∀ m ∈ members, m.IsRead steps (readAt kind steps left) r.fields := by
        intro m hm
        unfold Member.IsRead
        split
        · exact hunknown m hm ‹_›
        · rename_i entry hentry
          have hwrote := hwritten.subset (List.mem_filterMap.mpr ⟨m, hm, hentry⟩)
          exact ⟨(List.of_mem_zip hwrote).1, hkeys m hm entry hentry,
            ih m hm entry hentry (hleft _ (List.mem_map_of_mem hm)) entry.1.name⟩
      apply readsAs_bracketed (.inr rfl)
      intro s rest inside hsteps hs hinside
      rw [List.map_map] at hinside
      exact readRecord_object hlength hwritten hmissing hmembers hsteps hs hinside
  | bare htag hpayload h =>
      apply readsAs_string h
      intro deeper? s rest hs
      exact readChoice_label htag hpayload h hs
  | @bareNull kind optional c tag blanks m htag hpayload hkey hvalue =>
      obtain ⟨left, rfl, _⟩ :=
        levels_of_member ⟨⟨_, hkey⟩, hvalue ▸ Spelling.balanced_null⟩ hlevels
      have hread := readPayload_null hpayload steps (readAt kind steps left)
      rw [← hvalue] at hread
      apply readsAs_bracketed (.inr rfl)
      intro s rest inside hsteps hs hinside
      exact readChoice_keyed htag hkey hread hsteps hs hinside
  | @variant kind optional c tag shape payload blanks m htag hshape hkey hvalue ih =>
      obtain ⟨left, rfl, hleft⟩ := levels_of_member ⟨⟨_, hkey⟩, hvalue.balanced⟩ hlevels
      have hread := ih hleft name
      rw [readField_required] at hread
      apply readsAs_bracketed (.inr rfl)
      intro s rest inside hsteps hs hinside
      exact readChoice_keyed htag hkey (readPayload_value hshape hread) hsteps hs hinside

/-- A text is read as the datum that it spells, within the nesting limit. -/
theorem Spells.readText_eq {kind : InfoKind} {shape : Shape} {d : Datum} {t : Padded Spelling}
    (h : Spells kind false shape d t.core)
    (hlevels : mostOpen .outside 0 t.core.counted ≤ nestingLimit) :
    readText kind shape (t.text Spelling.text) = .ok d := by
  have hread : ReadsAs ((t.text Spelling.text).length + 1) _ d t.core.text := h.readsAs hlevels ""
  rw [readField_required] at hread
  have hends : NumeralEnds t.after.chars := by
    rw [← List.append_nil t.after.chars]
    exact numeralEnds_blanks t.after.isBlank_of_mem (by nofun)
  have hskip := Padded.skipBlanks_text hread.starts []
  have hnone := t.after.skipBlanks_append []
  rw [List.append_nil] at hskip hnone
  rw [readText, hread.reads (Nat.lt_succ_self _) hends (by rw [hskip, List.append_nil])]
  show (if (skipBlanks t.after.chars).isEmpty then _ else _) = _
  rw [hnone]
  rfl

end Json

/-- A program is read from every spelling of it within the nesting limit. -/
theorem Program.decode_of_spells {ι : Type} [InfoFormat ι] {p : Program ι} {t : Padded Spelling}
    (h : Spells (InfoFormat.kind ι) false (.record .program) p.toDatum t.core)
    (hbrackets : openBrackets (String.ofList (t.text Spelling.counted)) ≤ nestingLimit) :
    Program.decode (String.ofList (t.text Spelling.text)) = .ok p := by
  rw [openBrackets, String.toList_ofList, (Padded.opens _ h.balanced).mostOpen_eq] at hbrackets
  rw [Program.decode, decodeAs, String.toList_ofList, h.readText_eq hbrackets]
  simp only [bind, Except.bind, p.ofDatum?_toDatum]

/-- The compact text of a program is one of its spellings. The program is read from each of them
that has at most 127 brackets open at once, not counting those in the values of unknown fields. -/
theorem decode_respelled (p : Program UInt32) :
    Spells .offset false (.record .program) p.toDatum (.plain (p.encode .compact).toList) ∧
    ∀ t : Padded Spelling, Spells .offset false (.record .program) p.toDatum t.core →
      openBrackets (String.ofList (t.text Spelling.counted)) ≤ 127 →
      Program.decode (String.ofList (t.text Spelling.text)) = .ok p := by
  refine ⟨?_, fun t h hbrackets => Program.decode_of_spells h hbrackets⟩
  rw [Program.encode, Datum.toText, String.toList_ofList]
  exact (p.toDatum_fits infosFit_offset).spells false 0

/-- An import without a name, and a unit. -/
def importAndUnit : Program UInt32 :=
  ⟨[.importPackage 7 none "a/b", .expr (.unit 8)]⟩

/-- A value that no field of a program has. -/
def oddValue : List Char :=
  bracketed '[' ']' .none ([.tight (bracketed '\x7b' '\x7d' .none
    ([⟨.tight (quoted "\\ud800".toList), .tight "1.5e3".toList⟩].map (Keyed.text id)))].map
      (Padded.text id))

/-- The import as an array, without its name. -/
def oddImport : Spelling :=
  .array .none [.tight (.plain ['7']), .tight (.object .none [⟨.tight (writeString "import"),
    .tight (.object .none
      [⟨.tight (writeString "path"), .tight (.plain (quoted "a\\/b".toList))⟩])⟩])]

/-- The unit as an object with its item first, and with a null in it. -/
def oddUnit : Spelling :=
  .object .none
    [⟨.tight (writeString "item"), .tight (.object .none [⟨.tight (writeString "expression"),
      .tight (.object .none [⟨.tight (writeString "unit"), .tight .null⟩])⟩])⟩,
    ⟨.tight (writeString "info"), .tight (.plain ['8'])⟩]

/-- A single blank. -/
def oneBlank : Blanks :=
  ⟨[' '], by simp [isBlank]⟩

/-- The program with an unknown field, blanks and an escaped key. -/
def oddProgram : Padded Spelling :=
  ⟨oneBlank, .object .none [⟨.tight (writeString "x"), .tight (.skipped oddValue)⟩,
    ⟨.tight (quoted "\\u0073tatements".toList),
      .tight (.array .none [.tight oddImport, ⟨oneBlank, oddUnit, oneBlank⟩])⟩], .none⟩

/-- What stands at the unknown key is a value. -/
theorem isValue_oddValue : IsValue oddValue := by
  have hkey : IsString (quoted "\\ud800".toList) := by
    have hhex : IsHex 0xd800 "d800".toList := isHex_digits 13 8 0 0 (by decide)
    exact ⟨_, .cons (.unit hhex) .nil, rfl⟩
  have hnumeral : IsNumeral "1.5e3".toList :=
    @IsNumeral.mk [] ['1'] ['.', '5'] ['e', '3'] (.inl rfl)
      (.digits ⟨by decide, by simp⟩ (by decide)) (.digits ⟨by decide, by simp⟩)
      (.digits (.inl rfl) (.inl rfl) ⟨by decide, by simp⟩)
  exact .array .none (List.forall_mem_singleton.mpr (.object .none
    (List.forall_mem_singleton.mpr hkey) (List.forall_mem_singleton.mpr (.numeral hnumeral))))

/-- The import is spelled as an array with an escaped slash, and without the optional name. -/
theorem spells_oddImport :
    Spells .offset false (.node (.choice .stmt)) (nodeDatum (.choice .stmt) (7 : UInt32)
      (Stmt.item (.importPackage (7 : UInt32) none "a/b"))) oddImport := by
  have hpath : StringSpelling "a/b" (quoted "a\\/b".toList) :=
    ⟨_, .cons (charSpelling_write 'a') (.cons (.short (by decide : ('/', '/') ∈ shortEscapes))
      (.cons (charSpelling_write 'b') .nil)), rfl⟩
  have hrecord : Spells .offset false (.record .importPackage)
      (.record .importPackage [.null, .text "a/b"])
      (.object .none [⟨.tight (writeString "path"), .tight (.plain (quoted "a\\/b".toList))⟩]) := by
    refine @Spells.recordObject .offset false .importPackage [.null, .text "a/b"] .none
      [⟨some (⟨"path", .text, false⟩, .text "a/b"), .tight (writeString "path"),
        .tight (.plain (quoted "a\\/b".toList))⟩] rfl ?_ ?_ ?_ ?_ ?_
    · exact (List.sublist_cons_self _ _).subperm
    · exact List.forall_mem_cons.mpr ⟨fun _ => ⟨rfl, rfl⟩,
        List.forall_mem_singleton.mpr fun hmissing => absurd List.mem_cons_self hmissing⟩
    · exact List.forall_mem_singleton.mpr (by nofun)
    · refine List.forall_mem_singleton.mpr ?_
      rintro entry ⟨⟩
      exact stringSpelling_write "path"
    · refine List.forall_mem_singleton.mpr ?_
      rintro entry ⟨⟩
      exact .text hpath
  refine @Spells.recordArray .offset false (.node (.choice .stmt)) .none
    [((⟨"info", .info, false⟩, .number 7), _), ((⟨"item", .choice .stmt, false⟩, _), _)] rfl
    (List.forall_mem_cons.mpr ⟨.offsetInfo 7, List.forall_mem_singleton.mpr ?_⟩)
  exact .variant .none (by decide) rfl (stringSpelling_write "import") hrecord

/-- The unit value is spelled with its fields in another order and a null for what belongs to it. -/
theorem spells_oddUnit :
    Spells .offset false (.node (.choice .stmt)) (nodeDatum (.choice .stmt) (8 : UInt32)
      (Stmt.item (.expr (.unit (8 : UInt32))))) oddUnit := by
  have hitem : Spells .offset false (.choice .stmt) (.variant (.stmt .expr) (.bare (.expr .unit)))
      (.object .none [⟨.tight (writeString "expression"),
        .tight (.object .none [⟨.tight (writeString "unit"), .tight .null⟩])⟩]) :=
    .variant .none (by decide) rfl (stringSpelling_write "expression")
      (.bareNull .none (by decide) rfl (stringSpelling_write "unit") rfl)
  refine @Spells.recordObject .offset false (.node (.choice .stmt))
    [.number 8, .variant (.stmt .expr) (.bare (.expr .unit))] .none
    [⟨some (⟨"item", .choice .stmt, false⟩, .variant (.stmt .expr) (.bare (.expr .unit))), _⟩,
      ⟨some (⟨"info", .info, false⟩, .number 8), _⟩] rfl ?_ ?_ ?_ ?_ ?_
  · exact (List.Perm.swap _ _ _).subperm
  · intro entry hentry hmissing
    exact absurd ((List.Perm.swap _ _ _).mem_iff.mp hentry) hmissing
  · exact List.forall_mem_cons.mpr ⟨by nofun, List.forall_mem_singleton.mpr (by nofun)⟩
  · refine List.forall_mem_cons.mpr ⟨?_, List.forall_mem_singleton.mpr ?_⟩
    · rintro entry ⟨⟩
      exact stringSpelling_write "item"
    · rintro entry ⟨⟩
      exact stringSpelling_write "info"
  · refine List.forall_mem_cons.mpr ⟨?_, List.forall_mem_singleton.mpr ?_⟩
    · rintro entry ⟨⟩
      exact hitem
    · rintro entry ⟨⟩
      exact .offsetInfo 8

/-- The program is spelled with an unknown member and an escape in its only key. -/
theorem spells_oddProgram :
    Spells .offset false (.record .program) importAndUnit.toDatum oddProgram.core := by
  have hkey : StringSpelling "statements" (quoted "\\u0073tatements".toList) := by
    have hhex : IsHex ('s').toNat "0073".toList := isHex_digits 0 0 7 3 (by decide)
    exact ⟨_, .cons (.unit hhex) (bodySpelling_write "tatements".toList), rfl⟩
  have hlist : Spells .offset false .block (.list (Stmt.toData importAndUnit.statements))
      (.array .none [.tight oddImport, ⟨oneBlank, oddUnit, oneBlank⟩]) :=
    @Spells.list .offset false (.choice .stmt) .none
      [(_, .tight oddImport), (_, ⟨oneBlank, oddUnit, oneBlank⟩)]
      (List.forall_mem_cons.mpr ⟨spells_oddImport, List.forall_mem_singleton.mpr spells_oddUnit⟩)
  refine @Spells.recordObject .offset false .program
    [.list (Stmt.toData importAndUnit.statements)] .none
    [⟨none, .tight (writeString "x"), .tight (.skipped oddValue)⟩,
      ⟨some (⟨"statements", .block, false⟩, .list (Stmt.toData importAndUnit.statements)), _⟩]
    rfl ?_ ?_ ?_ ?_ ?_
  · exact List.Subperm.refl _
  · exact fun entry hentry hmissing => absurd hentry hmissing
  · refine List.forall_mem_cons.mpr ⟨fun _ => ?_, List.forall_mem_singleton.mpr (by nofun)⟩
    exact ⟨"x", oddValue, stringSpelling_write "x", by decide, isValue_oddValue, rfl⟩
  · refine List.forall_mem_cons.mpr ⟨by nofun, List.forall_mem_singleton.mpr ?_⟩
    rintro entry ⟨⟩
    exact hkey
  · refine List.forall_mem_cons.mpr ⟨by nofun, List.forall_mem_singleton.mpr ?_⟩
    rintro entry ⟨⟩
    exact hlist

/-- All of these oddities together are read as the program. -/
theorem decode_oddProgram :
    openBrackets (String.ofList (oddProgram.text Spelling.counted)) ≤ 127 ∧
    oddProgram.text Spelling.text =
      (" \x7b\"x\":[\x7b\"\\ud800\":1.5e3\x7d],\"\\u0073tatements\":" ++
        "[[7,\x7b\"import\":\x7b\"path\":\"a\\/b\"\x7d\x7d], " ++
        "\x7b\"item\":\x7b\"expression\":\x7b\"unit\":null\x7d\x7d,\"info\":8\x7d ]\x7d").toList ∧
    Program.decode (String.ofList (oddProgram.text Spelling.text)) = .ok importAndUnit := by
  have hbrackets : openBrackets (String.ofList (oddProgram.text Spelling.counted)) ≤ 127 := by
    decide +kernel
  exact ⟨hbrackets, by decide +kernel,
    (decode_respelled importAndUnit).2 oddProgram spells_oddProgram hbrackets⟩

end Lowering
