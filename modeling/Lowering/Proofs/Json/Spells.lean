import Mathlib.Data.List.Perm.Subperm
import Lowering.Proofs.Json.Brackets
import Lowering.Proofs.Json.Skipping

/-!
# Spellings of data

A datum can be spelled in many ways: the fields of a record may come in any order and among unknown
ones, or in an array; an optional field that is null may be missing; blanks may stand between
tokens, and the characters of strings may be escaped. `Spells` says in which ways. Main statements:
the brackets of a spelling that count are closed in it (`Spells.balanced`), and the compact text of
a datum is one of its spellings (`Datum.Fits.spells`).
-/

namespace Lowering.Json

/-! ## Spellings -/

/-- A text, and what is left of it when the values of unknown fields are taken out. -/
structure Spelling where
  text : List Char
  counted : List Char

namespace Spelling

/-- A text without unknown fields. -/
def plain (chars : List Char) : Spelling :=
  ⟨chars, chars⟩

/-- The word `null`. -/
def null : Spelling :=
  plain ['n', 'u', 'l', 'l']

/-- The value of an unknown field. -/
def skipped (chars : List Char) : Spelling :=
  ⟨chars, []⟩

/-- An array of spelled items. -/
def array (blanks : Blanks) (items : List (Padded Spelling)) : Spelling where
  text := bracketed '[' ']' blanks (items.map (Padded.text Spelling.text))
  counted := bracketed '[' ']' blanks (items.map (Padded.text Spelling.counted))

/-- An object of spelled members. -/
def object (blanks : Blanks) (members : List (Keyed Spelling)) : Spelling where
  text := bracketed '\x7b' '\x7d' blanks (members.map (Keyed.text Spelling.text))
  counted := bracketed '\x7b' '\x7d' blanks (members.map (Keyed.text Spelling.counted))

end Spelling

/-- A member of the object of a record. -/
structure Member where
  /-- The field that it is for, with its datum; nothing if the field is unknown. -/
  entry? : Option (Field × Datum)
  spelled : Keyed Spelling

/-- A member has a key that none of the fields has, and any value that is well-formed. -/
def Member.IsUnknown (fields : List Field) (m : Member) : Prop :=
  ∃ name value, StringSpelling name m.spelled.key.core ∧ name ∉ fields.map Field.name ∧
    IsValue value ∧ m.spelled.value.core = .skipped value

/-- The spellings of the data of a shape, where infos are of a given kind. The flag says whether the
datum is that of an optional field, which may be null. -/
inductive Spells : InfoKind → Bool → Shape → Datum → Spelling → Prop
  | null {kind : InfoKind} {shape : Shape} : Spells kind true shape .null .null
  | unitInfo {optional : Bool} : Spells .unit optional .info .null .null
  | offsetInfo {optional : Bool} (n : UInt32) :
      Spells .offset optional .info (.number n) (.plain (Nat.toDigits 10 n.toNat))
  | textInfo {optional : Bool} {t : String} {text : List Char} (h : StringSpelling t text) :
      Spells .text optional .info (.text t) (.plain text)
  | text {kind : InfoKind} {optional : Bool} {t : String} {text : List Char}
      (h : StringSpelling t text) : Spells kind optional .text (.text t) (.plain text)
  | list {kind : InfoKind} {optional : Bool} {item : Item} (blanks : Blanks)
      {items : List (Datum × Padded Spelling)}
      (hitems : ∀ i ∈ items, Spells kind false (.node item) i.1 i.2.core) :
      Spells kind optional (.nodes item) (.list (items.map Prod.fst))
        (.array blanks (items.map Prod.snd))
  /-- A record as the array of all its fields in order. -/
  | recordArray {kind : InfoKind} {optional : Bool} {r : Record} (blanks : Blanks)
      {items : List ((Field × Datum) × Padded Spelling)}
      (hfields : items.map (fun i => i.1.1) = r.fields)
      (hitems : ∀ i ∈ items, Spells kind i.1.1.optional i.1.1.shape i.1.2 i.2.core) :
      Spells kind optional (.record r) (.record r (items.map fun i => i.1.2))
        (.array blanks (items.map Prod.snd))
  /-- A record as an object, with its fields in any order. -/
  | recordObject {kind : InfoKind} {optional : Bool} {r : Record} {data : List Datum}
      (blanks : Blanks) {members : List Member} (hlength : data.length = r.fields.length)
      (hwritten : (members.filterMap Member.entry?).Subperm (r.fields.zip data))
      (hmissing : ∀ entry ∈ r.fields.zip data, entry ∉ members.filterMap Member.entry? →
        entry.1.optional = true ∧ entry.2 = .null)
      (hunknown : ∀ m ∈ members, m.entry? = none → m.IsUnknown r.fields)
      (hkeys : ∀ m ∈ members, ∀ entry, m.entry? = some entry →
        StringSpelling entry.1.name m.spelled.key.core)
      (hvalues : ∀ m ∈ members, ∀ entry, m.entry? = some entry →
        Spells kind entry.1.optional entry.1.shape entry.2 m.spelled.value.core) :
      Spells kind optional (.record r) (.record r data)
        (.object blanks (members.map Member.spelled))
  | bare {kind : InfoKind} {optional : Bool} {c : Choice} {tag : Tag} {text : List Char}
      (htag : tag ∈ c.tags) (hpayload : tag.payload? = none) (h : StringSpelling tag.label text) :
      Spells kind optional (.choice c) (.bare tag) (.plain text)
  /-- A variant with nothing to it may have a null in the place of it. -/
  | bareNull {kind : InfoKind} {optional : Bool} {c : Choice} {tag : Tag} (blanks : Blanks)
      {m : Keyed Spelling} (htag : tag ∈ c.tags) (hpayload : tag.payload? = none)
      (hkey : StringSpelling tag.label m.key.core) (hvalue : m.value.core = .null) :
      Spells kind optional (.choice c) (.bare tag) (.object blanks [m])
  | variant {kind : InfoKind} {optional : Bool} {c : Choice} {tag : Tag} {shape : Shape}
      {payload : Datum} (blanks : Blanks) {m : Keyed Spelling} (htag : tag ∈ c.tags)
      (hshape : tag.payload? = some shape) (hkey : StringSpelling tag.label m.key.core)
      (hvalue : Spells kind false shape payload m.value.core) :
      Spells kind optional (.choice c) (.variant tag payload) (.object blanks [m])

/-! ## Brackets -/

section Levels

variable {β : Type} {xs : List β} {write inner : β → List Char} {opening closing : Char}
  {blanks : Blanks}

/-- Parts that open brackets close them. -/
theorem balanced_of_opens (hopens : ∀ x ∈ xs, Opens (mostOpen .outside 0 (inner x)) (write x)) :
    ∀ part ∈ xs.map write, Balanced part := by
  intro part hpart
  obtain ⟨x, hx, rfl⟩ := List.mem_map.mp hpart
  exact (hopens x hx).balanced

/-- A text in brackets needs one level more than what stands in it. -/
theorem levels_of_bracketed
    (hopens : ∀ x ∈ xs, Opens (mostOpen .outside 0 (inner x)) (write x))
    (hopening : opening = '[' ∨ opening = '\x7b') (hclosing : closing = ']' ∨ closing = '\x7d')
    {levels : Nat}
    (h : mostOpen .outside 0 (bracketed opening closing blanks (xs.map write)) ≤ levels) :
    ∃ left, levels = left + 1 ∧ ∀ x ∈ xs, mostOpen .outside 0 (inner x) ≤ left := by
  have hparts := balanced_of_opens hopens
  have hdeepest := (opens_bracketed hparts hopening hclosing blanks).mostOpen_eq
  obtain ⟨left, rfl⟩ : ∃ left, levels = left + 1 := ⟨levels - 1, by omega⟩
  refine ⟨left, rfl, ?_⟩
  intro x hx
  have hlt := mostOpen_lt_bracketed hparts hopening hclosing blanks (List.mem_map_of_mem hx)
  rw [(hopens x hx).mostOpen_eq] at hlt
  omega

end Levels

/-- The key of a member is a string, and its value closes all brackets that it opens. -/
def Keyed.Closes (m : Keyed Spelling) : Prop :=
  (∃ name, StringSpelling name m.key.core) ∧ Balanced m.value.core.counted

/-- A member opens as many brackets as its value. -/
theorem Keyed.Closes.opens {m : Keyed Spelling} (h : m.Closes) :
    Opens (mostOpen .outside 0 m.value.core.counted) (m.text Spelling.counted) := by
  obtain ⟨⟨name, hkey⟩, hvalue⟩ := h
  exact Keyed.opens Spelling.counted hkey hvalue

/-- An array closes its brackets if its items do. -/
theorem Spelling.balanced_array {items : List (Padded Spelling)}
    (hitems : ∀ item ∈ items, Balanced item.core.counted) (blanks : Blanks) :
    Balanced (Spelling.array blanks items).counted :=
  (opens_bracketed (balanced_of_opens fun item hitem => Padded.opens _ (hitems item hitem))
    (.inl rfl) (.inl rfl) blanks).balanced

/-- An object closes its brackets if its members do. -/
theorem Spelling.balanced_object {members : List (Keyed Spelling)}
    (hmembers : ∀ m ∈ members, m.Closes) (blanks : Blanks) :
    Balanced (Spelling.object blanks members).counted :=
  (opens_bracketed (balanced_of_opens fun m hm => (hmembers m hm).opens)
    (.inr rfl) (.inr rfl) blanks).balanced

/-- A null opens no brackets. -/
theorem Spelling.balanced_null : Balanced Spelling.null.counted :=
  opens_null.balanced

/-- A member for no field closes its brackets, as the value counts for none. -/
theorem Member.IsUnknown.closes {fields : List Field} {m : Member} (h : m.IsUnknown fields) :
    m.spelled.Closes := by
  obtain ⟨name, value, hkey, _, _, hvalue⟩ := h
  refine ⟨⟨name, hkey⟩, ?_⟩
  rw [hvalue]
  exact (opens_of_unmarked (by nofun)).balanced

/-- The members of an object close what they open if those that are known do. -/
theorem closes_of_members {fields : List Field} {members : List Member}
    (hunknown : ∀ m ∈ members, m.entry? = none → m.IsUnknown fields)
    (hkeys : ∀ m ∈ members, ∀ entry, m.entry? = some entry →
      StringSpelling entry.1.name m.spelled.key.core)
    (hvalues : ∀ m ∈ members, ∀ entry, m.entry? = some entry →
      Balanced m.spelled.value.core.counted) :
    ∀ spelled ∈ members.map Member.spelled, spelled.Closes := by
  intro spelled hspelled
  obtain ⟨m, hm, rfl⟩ := List.mem_map.mp hspelled
  cases hentry : m.entry? with
  | none => exact (hunknown m hm hentry).closes
  | some entry => exact ⟨⟨_, hkeys m hm entry hentry⟩, hvalues m hm entry hentry⟩

/-- An array needs one level more than its items. -/
theorem levels_of_array {items : List (Padded Spelling)}
    (hitems : ∀ item ∈ items, Balanced item.core.counted) {blanks : Blanks} {levels : Nat}
    (h : mostOpen .outside 0 (Spelling.array blanks items).counted ≤ levels) :
    ∃ left, levels = left + 1 ∧ ∀ item ∈ items, mostOpen .outside 0 item.core.counted ≤ left :=
  levels_of_bracketed (fun item hitem => Padded.opens _ (hitems item hitem)) (.inl rfl) (.inl rfl) h

/-- An object needs one level more than the values of its members. -/
theorem levels_of_object {members : List (Keyed Spelling)} (hmembers : ∀ m ∈ members, m.Closes)
    {blanks : Blanks} {levels : Nat}
    (h : mostOpen .outside 0 (Spelling.object blanks members).counted ≤ levels) :
    ∃ left, levels = left + 1 ∧
      ∀ m ∈ members, mostOpen .outside 0 m.value.core.counted ≤ left :=
  levels_of_bracketed (fun m hm => (hmembers m hm).opens) (.inr rfl) (.inr rfl) h

/-- So does an object with one member. -/
theorem levels_of_member {m : Keyed Spelling} (hm : m.Closes) {blanks : Blanks} {levels : Nat}
    (h : mostOpen .outside 0 (Spelling.object blanks [m]).counted ≤ levels) :
    ∃ left, levels = left + 1 ∧ mostOpen .outside 0 m.value.core.counted ≤ left := by
  obtain ⟨left, hlevels, hleft⟩ := levels_of_object (List.forall_mem_singleton.mpr hm) h
  exact ⟨left, hlevels, hleft m List.mem_cons_self⟩

/-- A spelling closes all brackets that it opens. -/
theorem Spells.balanced {kind : InfoKind} {optional : Bool} {shape : Shape} {d : Datum}
    {sp : Spelling} (h : Spells kind optional shape d sp) : Balanced sp.counted := by
  induction h with
  | null => exact Spelling.balanced_null
  | unitInfo => exact Spelling.balanced_null
  | offsetInfo n => exact (opens_toDigits n.toNat).balanced
  | textInfo h => exact h.opens.balanced
  | text h => exact h.opens.balanced
  | list blanks _ ih =>
      apply Spelling.balanced_array
      intro item hitem
      obtain ⟨i, hi, rfl⟩ := List.mem_map.mp hitem
      exact ih i hi
  | recordArray blanks _ _ ih =>
      apply Spelling.balanced_array
      intro item hitem
      obtain ⟨i, hi, rfl⟩ := List.mem_map.mp hitem
      exact ih i hi
  | recordObject blanks _ _ _ hunknown hkeys _ ih =>
      exact Spelling.balanced_object (closes_of_members hunknown hkeys ih) blanks
  | bare _ _ h => exact h.opens.balanced
  | bareNull blanks _ _ hkey hvalue =>
      exact Spelling.balanced_object
        (List.forall_mem_singleton.mpr ⟨⟨_, hkey⟩, hvalue ▸ Spelling.balanced_null⟩) blanks
  | variant blanks _ _ hkey _ ih =>
      exact Spelling.balanced_object (List.forall_mem_singleton.mpr ⟨⟨_, hkey⟩, ih⟩) blanks

/-! ## The compact text -/

/-- No blanks. -/
def Blanks.none : Blanks :=
  ⟨[], by nofun⟩

/-- Something with no blanks around it. -/
def Padded.tight {α : Type} (core : α) : Padded α :=
  ⟨.none, core, .none⟩

/-- Without blanks a part is as it is. -/
@[simp] theorem Padded.text_tight {α : Type} (write : α → List Char) (core : α) :
    (Padded.tight core).text write = write core := by
  rw [Padded.text, tight, Blanks.none, List.nil_append, List.append_nil]

/-- In the compact layout there are no blanks between brackets. -/
theorem writeBracketed_compact (depth : Nat) (opening closing : Char) (parts : List (List Char)) :
    writeBracketed .compact depth opening closing parts =
      bracketed opening closing .none parts := by
  have hwrite := writeBracketed_append .compact depth opening closing parts []
  have hbracketed := bracketed_append opening closing .none parts []
  rw [List.append_nil] at hwrite hbracketed
  rw [hwrite, hbracketed, partsLeft_compact]
  rfl

/-- A datum with its compact text. -/
def compactSpelling (depth : Nat) (d : Datum) : Padded Spelling :=
  .tight (.plain (d.write .compact depth))

/-- A member with the compact text of its value. -/
def compactKeyed (depth : Nat) (key : String) (d : Datum) : Keyed Spelling :=
  ⟨.tight (writeString key), compactSpelling depth d⟩

/-- A field with its compact text. -/
def compactMember (depth : Nat) (entry : Field × Datum) : Member :=
  ⟨some entry, compactKeyed depth entry.1.name entry.2⟩

/-- A compact member is spelled as it is written. -/
@[simp] theorem compactKeyed_text (depth : Nat) (key : String) (d : Datum) :
    (compactKeyed depth key d).text Spelling.text =
      writeKeyed .compact key (d.write .compact depth) := by
  rw [Keyed.text, compactKeyed, compactSpelling, Padded.text_tight, Padded.text_tight]
  rfl

/-- All brackets of a compact member count. -/
@[simp] theorem compactKeyed_counted (depth : Nat) (key : String) (d : Datum) :
    (compactKeyed depth key d).text Spelling.counted =
      writeKeyed .compact key (d.write .compact depth) :=
  compactKeyed_text depth key d

/-- The compact text of a datum is one of its spellings. -/
theorem Datum.Fits.spells {kind : InfoKind} {shape : Shape} {d : Datum} (h : d.Fits kind shape)
    (optional : Bool) (depth : Nat) :
    Spells kind optional shape d (.plain (d.write .compact depth)) := by
  induction h generalizing optional depth with
  | unitInfo => exact .unitInfo
  | offsetInfo n => exact .offsetInfo n
  | textInfo t => exact .textInfo (stringSpelling_write t)
  | text t => exact .text (stringSpelling_write t)
  | @list kind item items hitems ih =>
      have hdata :
          (items.map fun d => (d, compactSpelling (depth + 1) d)).map Prod.fst = items := by
        simp [Function.comp_def]
      have hspelled : .plain ((Datum.list items).write .compact depth) =
          Spelling.array .none
            ((items.map fun d => (d, compactSpelling (depth + 1) d)).map Prod.snd) := by
        simp [Spelling.plain, Spelling.array, Datum.write_list, writeBracketed_compact,
          compactSpelling, Function.comp_def]
      have hspells : ∀ i ∈ items.map fun d => (d, compactSpelling (depth + 1) d),
          Spells kind false (.node item) i.1 i.2.core :=
        List.forall_mem_map.mpr fun d hd => ih d hd false (depth + 1)
      have hlist : Spells kind optional _ _ _ := .list .none hspells
      rwa [hdata, ← hspelled] at hlist
  | @record kind r fields hlength hfields ih =>
      have hentries : ((r.fields.zip fields).map (compactMember (depth + 1))).filterMap
          Member.entry? = r.fields.zip fields := by
        simp [List.filterMap_map, Function.comp_def, compactMember]
      have hspelled : .plain ((Datum.record r fields).write .compact depth) =
          Spelling.object .none
            (((r.fields.zip fields).map (compactMember (depth + 1))).map Member.spelled) := by
        have hwrite : writeEntry .compact (depth + 1) = fun entry =>
            writeKeyed .compact entry.1.name (entry.2.write .compact (depth + 1)) := rfl
        simp [Spelling.plain, Spelling.object, Datum.write_record, writeBracketed_compact,
          compactMember, Function.comp_def, hwrite]
      rw [hspelled]
      refine .recordObject .none hlength ?_ ?_ ?_ ?_ ?_
      · rw [hentries]
      · rw [hentries]
        exact fun entry hentry hmissing => absurd hentry hmissing
      · refine List.forall_mem_map.mpr fun entry _ hunknown => ?_
        cases hunknown
      · refine List.forall_mem_map.mpr fun entry _ known hknown => ?_
        cases hknown
        exact stringSpelling_write entry.1.name
      · refine List.forall_mem_map.mpr fun entry hentry known hknown => ?_
        cases hknown
        by_cases hnull : entry.1.optional = true ∧ entry.2 = .null
        · show Spells kind _ _ _ (.plain (entry.2.write .compact (depth + 1)))
          rw [hnull.1, hnull.2]
          exact .null
        · exact ih entry hentry hnull entry.1.optional (depth + 1)
  | bare htag hpayload => exact .bare htag hpayload (stringSpelling_write _)
  | @variant kind c tag shape payload htag hshape hpayload ih =>
      have hspelled : .plain ((Datum.variant tag payload).write .compact depth) =
          Spelling.object .none [compactKeyed (depth + 1) tag.label payload] := by
        simp [Spelling.plain, Spelling.object, Datum.write_variant, writeBracketed_compact]
      rw [hspelled]
      exact .variant .none htag hshape (stringSpelling_write tag.label) (ih false (depth + 1))

end Lowering.Json
