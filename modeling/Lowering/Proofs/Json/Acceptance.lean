import Lowering.Proofs.Json.Decoding
import Lowering.Proofs.Json.Respelling
import Lowering.Proofs.Json.Scanning

/-!
# What is accepted has a normal form

A reader accepts spellings of data only (`readAt_accepts`), and no spelling of a datum has fewer
brackets open than the datum nests (`Spells.nesting_le`). Main statement: so the compact text of a
program that has been read from any text is accepted as well (`normal_form`).
-/

namespace Lowering

open Json

namespace Json

/-! ## Brackets -/

/-- A bound of all depths is one of the deepest. -/
theorem deepest_le {depths : List Nat} {n : Nat} (h : ∀ depth ∈ depths, depth ≤ n) :
    deepest depths ≤ n := by
  induction depths with
  | nil => exact Nat.zero_le n
  | cons depth depths ih =>
      obtain ⟨hdepth, hdepths⟩ := List.forall_mem_cons.mp h
      exact Nat.max_le.mpr ⟨hdepth, ih hdepths⟩

/-- A bound of how deep each of some data nests is one of how deep all do. -/
theorem Datum.nestingAll_le {ds : List Datum} {n : Nat} (h : ∀ d ∈ ds, d.nesting ≤ n) :
    Datum.nestingAll ds ≤ n := by
  rw [Datum.nestingAll_eq]
  exact deepest_le (List.forall_mem_map.mpr h)

/-- A text in brackets needs no more than one level more than what stands in it. -/
theorem mostOpen_bracketed_le {β : Type} {xs : List β} {write inner : β → List Char}
    {opening closing : Char} {blanks : Blanks}
    (hopens : ∀ x ∈ xs, Opens (mostOpen .outside 0 (inner x)) (write x))
    (hopening : opening = '[' ∨ opening = '\x7b') (hclosing : closing = ']' ∨ closing = '\x7d')
    {levels : Nat} (h : ∀ x ∈ xs, mostOpen .outside 0 (inner x) ≤ levels) :
    mostOpen .outside 0 (bracketed opening closing blanks (xs.map write)) ≤ levels + 1 := by
  rw [(opens_bracketed (balanced_of_opens hopens) hopening hclosing blanks).mostOpen_eq]
  apply Nat.succ_le_succ
  apply deepest_le
  rw [List.map_map, List.forall_mem_map]
  intro x hx
  rw [Function.comp_apply, (hopens x hx).mostOpen_eq]
  exact h x hx

/-- An array has one bracket more open at once than its items. -/
theorem mostOpen_array_le {items : List (Padded Spelling)}
    (hitems : ∀ item ∈ items, Balanced item.core.counted) (blanks : Blanks) {levels : Nat}
    (h : ∀ item ∈ items, mostOpen .outside 0 item.core.counted ≤ levels) :
    mostOpen .outside 0 (Spelling.array blanks items).counted ≤ levels + 1 :=
  mostOpen_bracketed_le (fun item hitem => Padded.opens _ (hitems item hitem)) (.inl rfl) (.inl rfl)
    h

/-- An object has one bracket more open at once than its values. -/
theorem mostOpen_object_le {members : List (Keyed Spelling)} (hmembers : ∀ m ∈ members, m.Closes)
    (blanks : Blanks) {levels : Nat}
    (h : ∀ m ∈ members, mostOpen .outside 0 m.value.core.counted ≤ levels) :
    mostOpen .outside 0 (Spelling.object blanks members).counted ≤ levels + 1 :=
  mostOpen_bracketed_le (fun m hm => (hmembers m hm).opens) (.inr rfl) (.inr rfl) h

/-- An array of spellings has more brackets open at once than any of the data nests. -/
theorem nestingAll_lt_array {β : Type} {items : List β} {datum : β → Datum}
    {spelled : β → Padded Spelling} (hitems : ∀ i ∈ items, Balanced (spelled i).core.counted)
    (h : ∀ i ∈ items, (datum i).nesting ≤ mostOpen .outside 0 (spelled i).core.counted)
    (blanks : Blanks) :
    Datum.nestingAll (items.map datum) <
      mostOpen .outside 0 (Spelling.array blanks (items.map spelled)).counted := by
  obtain ⟨left, hlevels, hleft⟩ := levels_of_array (List.forall_mem_map.mpr hitems)
    (Nat.le_refl (mostOpen .outside 0 (Spelling.array blanks (items.map spelled)).counted))
  rw [hlevels]
  refine Nat.lt_succ_of_le (Datum.nestingAll_le (List.forall_mem_map.mpr fun i hi => ?_))
  exact Nat.le_trans (h i hi) (hleft (spelled i) (List.mem_map_of_mem hi))

/-- No spelling of a datum has fewer brackets open at once than the datum nests, even if the values
of unknown fields are left out. -/
theorem Spells.nesting_le {kind : InfoKind} {optional : Bool} {shape : Shape} {d : Datum}
    {sp : Spelling} (h : Spells kind optional shape d sp) :
    d.nesting ≤ mostOpen .outside 0 sp.counted := by
  induction h with
  | null | unitInfo | offsetInfo | textInfo | text | bare | bareNull => exact Nat.zero_le _
  | list blanks hitems ih =>
      exact nestingAll_lt_array (fun i hi => (hitems i hi).balanced) ih blanks
  | recordArray blanks _ hitems ih =>
      exact nestingAll_lt_array (fun i hi => (hitems i hi).balanced) ih blanks
  | @recordObject kind optional r data blanks members hlength hwritten hmissing hunknown hkeys
      hvalues ih =>
      have hcloses := closes_of_members hunknown hkeys fun m hm entry hentry =>
        (hvalues m hm entry hentry).balanced
      obtain ⟨left, hlevels, hleft⟩ := levels_of_object hcloses (Nat.le_refl
        (mostOpen .outside 0 (Spelling.object blanks (members.map Member.spelled)).counted))
      rw [hlevels]
      refine Nat.succ_le_succ (Datum.nestingAll_le fun d hd => ?_)
      rw [← List.map_snd_zip (Nat.le_of_eq hlength)] at hd
      obtain ⟨entry, hentry, rfl⟩ := List.mem_map.mp hd
      by_cases hmem : entry ∈ members.filterMap Member.entry?
      · obtain ⟨m, hm, hsome⟩ := List.mem_filterMap.mp hmem
        exact Nat.le_trans (ih m hm entry hsome) (hleft m.spelled (List.mem_map_of_mem hm))
      · -- a field that is left out holds no more than a null
        rw [(hmissing entry hentry hmem).2]
        exact Nat.zero_le left
  | @variant kind optional c tag shape payload blanks m htag hshape hkey hvalue ih =>
      obtain ⟨left, hlevels, hleft⟩ := levels_of_member ⟨⟨_, hkey⟩, hvalue.balanced⟩
        (Nat.le_refl (mostOpen .outside 0 (Spelling.object blanks [m]).counted))
      rw [hlevels]
      exact Nat.succ_le_succ (Nat.le_trans ih hleft)

/-! ## Scalars -/

/-- What a reader accepts is a spelling of what it returns, perhaps after blanks, and has at most so
many brackets open at once. -/
def Accepts (kind : InfoKind) (optional : Bool) (shape : Shape) (levels : Nat)
    (reader : List Char → Except Fault (Datum × List Char)) : Prop :=
  ∀ s d rest, reader s = .ok (d, rest) →
    ∃ (before : Blanks) (sp : Spelling), Spells kind optional shape d sp ∧
      mostOpen .outside 0 sp.counted ≤ levels ∧ s = before.chars ++ (sp.text ++ rest)

/-- What is read as null is the word `null`. -/
theorem eq_of_readNull {s rest : List Char} {d : Datum} (h : readNull s = .ok (d, rest)) :
    d = .null ∧ skipBlanks s = ['n', 'u', 'l', 'l'] ++ rest := by
  unfold readNull at h
  split at h
  · rename_i tail hskip
    obtain ⟨after, hword, hd⟩ := map_eq_ok.mp h
    cases hd
    exact ⟨rfl, by rw [hskip, eq_of_word hword]; rfl⟩
  · cases h

/-- What is read as a string is a spelling of it. -/
theorem eq_of_readString {s rest : List Char} {t : String} (h : readString s = .ok (t, rest)) :
    ∃ text, StringSpelling t text ∧ skipBlanks s = text ++ rest := by
  unfold readString at h
  split at h
  · rename_i tail hskip
    obtain ⟨⟨cs, after⟩, hbody, ht⟩ := map_eq_ok.mp h
    cases ht
    obtain ⟨text, htext, htail⟩ := stringSpelling_of_stringBody hbody
    exact ⟨text, htext, hskip.trans htail⟩
  · cases h

/-- What is read as a key is a spelling of it. -/
theorem eq_of_readKey {s rest : List Char} {key : String} (h : readKey s = .ok (key, rest)) :
    ∃ text, StringSpelling key text ∧ skipBlanks s = text ++ rest := by
  unfold readKey at h
  split at h
  · cases h
  · rename_i c tail hskip
    split at h
    · rename_i hc
      obtain ⟨⟨cs, after⟩, hbody, hkey⟩ := map_eq_ok.mp h
      cases hkey
      obtain ⟨text, htext, htail⟩ := stringSpelling_of_stringBody hbody
      exact ⟨text, htext, by rw [hskip, hc, htail]⟩
    · cases h

/-- A scalar opens no brackets. -/
theorem Accepts.of_plain {kind : InfoKind} {optional : Bool} {shape : Shape} {levels : Nat}
    {reader : List Char → Except Fault (Datum × List Char)}
    (h : ∀ s d rest, reader s = .ok (d, rest) → ∃ text,
      Spells kind optional shape d (.plain text) ∧ Opens 0 text ∧ skipBlanks s = text ++ rest) :
    Accepts kind optional shape levels reader := by
  intro s d rest hread
  obtain ⟨text, hspells, hopens, hskip⟩ := h s d rest hread
  obtain ⟨before, hs⟩ := exists_blanks s
  refine ⟨before, .plain text, hspells, ?_, by rw [hs, hskip]; rfl⟩
  rw [show (Spelling.plain text).counted = text from rfl, hopens.mostOpen_eq]
  exact Nat.zero_le levels

/-- The reader of infos accepts their spellings. -/
theorem readInfo_accepts (kind : InfoKind) (optional : Bool) (levels : Nat) :
    Accepts kind optional .info levels (readInfo kind) := by
  apply Accepts.of_plain
  intro s d rest h
  cases kind with
  | offset =>
      obtain ⟨n, rfl, hskip⟩ := eq_of_readOffset h
      exact ⟨_, .offsetInfo n, opens_toDigits n.toNat, hskip⟩
  | text =>
      obtain ⟨⟨t, after⟩, hstring, hd⟩ := map_eq_ok.mp h
      cases hd
      obtain ⟨text, htext, hskip⟩ := eq_of_readString hstring
      exact ⟨text, .textInfo htext, htext.opens, hskip⟩
  | unit =>
      obtain ⟨rfl, hskip⟩ := eq_of_readNull h
      exact ⟨_, .unitInfo, opens_null, hskip⟩

/-- The reader of texts accepts their spellings. -/
theorem readString_accepts (kind : InfoKind) (optional : Bool) (levels : Nat) :
    Accepts kind optional .text levels
      (fun s => (readString s).map fun (t, rest) => (.text t, rest)) := by
  apply Accepts.of_plain
  intro s d rest h
  obtain ⟨⟨t, after⟩, hstring, hd⟩ := map_eq_ok.mp h
  cases hd
  obtain ⟨text, htext, hskip⟩ := eq_of_readString hstring
  exact ⟨text, .text htext, htext.opens, hskip⟩

/-- If the reader of the shape of a field accepts spellings, so does the reader of the field. -/
theorem readField_accepts {deeper : ShapeReader} {kind : InfoKind} {field : Field} {levels : Nat}
    (h : Accepts kind field.optional field.shape levels (deeper field.shape)) :
    Accepts kind field.optional field.shape levels (readField deeper field) := by
  have hnull : Accepts kind true field.shape levels readNull := by
    apply Accepts.of_plain
    intro s d rest hread
    obtain ⟨rfl, hskip⟩ := eq_of_readNull hread
    exact ⟨_, .null, opens_null, hskip⟩
  intro s d rest hread
  unfold readField at hread
  split at hread
  · rename_i hoptional
    rw [hoptional.1]
    exact hnull s d rest hread
  · exact h s d rest hread

/-! ## Arrays -/

/-- The text of an array with what follows it. -/
theorem Spelling.array_text_append (blanks : Blanks) (items : List (Padded Spelling))
    (rest : List Char) :
    (Spelling.array blanks items).text ++ rest =
      '[' :: (blanks.chars ++ partsThen ']' rest true (items.map (Padded.text Spelling.text))) :=
  bracketed_append '[' ']' blanks _ rest

/-- The text of an object with what follows it. -/
theorem Spelling.object_text_append (blanks : Blanks) (members : List (Keyed Spelling))
    (rest : List Char) :
    (Spelling.object blanks members).text ++ rest = '\x7b' :: (blanks.chars ++
      partsThen '\x7d' rest true (members.map (Keyed.text Spelling.text))) :=
  bracketed_append '\x7b' '\x7d' blanks _ rest

/-- What separates a part from those before it. -/
def separator (first : Bool) : List Char :=
  if first then [] else [',']

/-- A part comes after its separator and before the other parts. -/
theorem partsThen_cons (closing : Char) (rest : List Char) (first : Bool) (part : List Char)
    (parts : List (List Char)) :
    partsThen closing rest first (part :: parts) =
      separator first ++ (part ++ partsThen closing rest false parts) := by
  cases first <;> rfl

/-- After the last part the bracket is closed. -/
theorem partsThen_nil (closing : Char) (rest : List Char) (first : Bool) :
    partsThen closing rest first [] = closing :: rest := by
  cases first <;> rfl

/-- What was skipped on the way to an element, or past the end of the array. -/
theorem eq_of_nextElement {first more : Bool} {s rest : List Char}
    (h : nextElement first s = .ok (more, rest)) :
    ∃ before after : Blanks, s = before.chars ++
      (if more then separator first ++ (after.chars ++ rest) else ']' :: rest) := by
  obtain ⟨before, hs⟩ := exists_blanks s
  unfold nextElement at h
  split at h
  · cases h
  · rename_i c tail hskip
    rw [hskip] at hs
    split at h
    · rename_i hc
      cases h
      exact ⟨before, .none, by rw [hs, hc]; rfl⟩
    · split at h
      · rename_i hfirst
        cases h
        exact ⟨before, .none, by rw [hs, hfirst]; rfl⟩
      · rename_i hfirst
        split at h
        · rename_i hc
          obtain ⟨after, htail⟩ := exists_blanks tail
          split at h
          · cases h
          · rename_i d rest' hskip'
            split at h
            · cases h
            · cases h
              rw [Bool.not_eq_true] at hfirst
              exact ⟨before, after, by rw [hs, hc, htail, hskip', hfirst]; rfl⟩
        · cases h

/-- A part is read, and then what is left of the parts, so it is read as one of them. -/
theorem eq_partsThen_cons {first : Bool} {s left rest : List Char}
    {before inner around after : Blanks} {sp : Spelling} {closing : Char} {parts : List (List Char)}
    (hs : s = around.chars ++ (separator first ++ (before.chars ++ left)))
    (hleft : left =
      inner.chars ++ (sp.text ++ (after.chars ++ partsThen closing rest false parts))) :
    s = around.chars ++ partsThen closing rest first
      (Padded.text Spelling.text ⟨before.append inner, sp, after⟩ :: parts) := by
  rw [hs, hleft, partsThen_cons, Padded.text_append]
  simp only [Blanks.append, List.append_assoc]

/-- The elements that were read have been spelled in the text, in order. -/
theorem items_of_readElements {element : List Char → Except Fault (Datum × List Char)}
    {kind : InfoKind} {optional : Bool} {shape : Shape} {levels : Nat}
    (helement : Accepts kind optional shape levels element) {steps : Nat} {first : Bool}
    {s rest : List Char} {ds : List Datum}
    (h : readElements element steps first s = .ok (ds, rest)) :
    ∃ (blanks : Blanks) (items : List (Datum × Padded Spelling)), ds = items.map Prod.fst ∧
      (∀ i ∈ items, Spells kind optional shape i.1 i.2.core ∧
        mostOpen .outside 0 i.2.core.counted ≤ levels) ∧
      s = blanks.chars ++
        partsThen ']' rest first (items.map fun i => i.2.text Spelling.text) := by
  induction steps generalizing first s ds with
  | zero => cases h
  | succ steps ih =>
      obtain ⟨⟨more, s₁⟩, hnext, h₁⟩ := bind_eq_ok.mp h
      obtain ⟨around, before, hs⟩ := eq_of_nextElement hnext
      cases more with
      | false =>
          cases h₁
          exact ⟨around, [], rfl, by nofun, by rw [hs, List.map_nil, partsThen_nil]; rfl⟩
      | true =>
          obtain ⟨⟨d, s₂⟩, hd, h₂⟩ := bind_eq_ok.mp h₁
          obtain ⟨⟨ds', s₃⟩, hds, h₃⟩ := bind_eq_ok.mp h₂
          cases h₃
          obtain ⟨inner, sp, hspells, hlevels, hs₁⟩ := helement s₁ d s₂ hd
          obtain ⟨after, items, rfl, hitems, rfl⟩ := ih hds
          exact ⟨around, (d, ⟨before.append inner, sp, after⟩) :: items, rfl,
            List.forall_mem_cons.mpr ⟨⟨hspells, hlevels⟩, hitems⟩, eq_partsThen_cons hs hs₁⟩

/-- The fields that were read from an array have been spelled in the text, in order. -/
theorem items_of_readFieldArray {deeper : ShapeReader} {kind : InfoKind} {levels : Nat}
    {fields : List Field} (hfields : ∀ field ∈ fields,
      Accepts kind field.optional field.shape levels (readField deeper field)) {first : Bool}
    {s rest : List Char} {ds : List Datum}
    (h : readFieldArray deeper first fields s = .ok (ds, rest)) :
    ∃ (blanks : Blanks) (items : List ((Field × Datum) × Padded Spelling)),
      items.map (fun i => i.1.1) = fields ∧ ds = items.map (fun i => i.1.2) ∧
      (∀ i ∈ items, Spells kind i.1.1.optional i.1.1.shape i.1.2 i.2.core ∧
        mostOpen .outside 0 i.2.core.counted ≤ levels) ∧
      s = blanks.chars ++
        partsThen ']' rest first (items.map fun i => i.2.text Spelling.text) := by
  induction fields generalizing first s ds with
  | nil =>
      obtain ⟨around, hs⟩ := exists_blanks s
      unfold readFieldArray at h
      split at h
      · cases h
      · rename_i c tail hskip
        split at h
        · rename_i hc
          cases h
          exact ⟨around, [], rfl, rfl, by nofun,
            by rw [hs, hskip, hc, List.map_nil, partsThen_nil]⟩
        · cases h
  | cons field fields ih =>
      obtain ⟨hfield, hfields⟩ := List.forall_mem_cons.mp hfields
      obtain ⟨⟨more, s₁⟩, hnext, h₁⟩ := bind_eq_ok.mp h
      obtain ⟨around, before, hs⟩ := eq_of_nextElement hnext
      cases more with
      | false => cases h₁
      | true =>
          obtain ⟨⟨d, s₂⟩, hd, h₂⟩ := bind_eq_ok.mp h₁
          obtain ⟨⟨ds', s₃⟩, hds, h₃⟩ := bind_eq_ok.mp h₂
          cases h₃
          obtain ⟨inner, sp, hspells, hlevels, hs₁⟩ := hfield s₁ d s₂ hd
          obtain ⟨after, items, hnames, rfl, hitems, rfl⟩ := ih hfields hds
          exact ⟨around, ((field, d), ⟨before.append inner, sp, after⟩) :: items,
            congrArg (field :: ·) hnames, rfl,
            List.forall_mem_cons.mpr ⟨⟨hspells, hlevels⟩, hitems⟩, eq_partsThen_cons hs hs₁⟩

/-! ## Objects -/

/-- What was skipped on the way to a key with the spelling of the key, or past the end of the
object. -/
theorem eq_of_nextKey {first : Bool} {key? : Option String} {s rest : List Char}
    (h : nextKey first s = .ok (key?, rest)) :
    ∃ around : Blanks, (key? = none ∧ s = around.chars ++ '\x7d' :: rest) ∨
      ∃ (key : String) (before : Blanks) (text : List Char), key? = some key ∧
        StringSpelling key text ∧
        s = around.chars ++ (separator first ++ (before.chars ++ (text ++ rest))) := by
  obtain ⟨around, hs⟩ := exists_blanks s
  unfold nextKey at h
  split at h
  · cases h
  · rename_i c tail hskip
    rw [hskip] at hs
    split at h
    · rename_i hc
      cases h
      exact ⟨around, .inl ⟨rfl, by rw [hs, hc]⟩⟩
    · split at h
      · rename_i hfirst
        obtain ⟨⟨key, after⟩, hkey, hok⟩ := map_eq_ok.mp h
        cases hok
        obtain ⟨text, htext, hskip'⟩ := eq_of_readKey hkey
        obtain ⟨before, hbefore⟩ := exists_blanks (c :: tail)
        exact ⟨around, .inr ⟨key, before, text, rfl, htext,
          by rw [hs, hfirst, ← hskip', ← hbefore]; rfl⟩⟩
      · rename_i hfirst
        split at h
        · rename_i hc
          obtain ⟨⟨key, after⟩, hkey, hok⟩ := map_eq_ok.mp h
          cases hok
          obtain ⟨text, htext, hskip'⟩ := eq_of_readKey hkey
          obtain ⟨before, hbefore⟩ := exists_blanks tail
          rw [Bool.not_eq_true] at hfirst
          exact ⟨around, .inr ⟨key, before, text, rfl, htext,
            by rw [hs, hc, hfirst, ← hskip', ← hbefore]; rfl⟩⟩
        · cases h

/-- A member is read, and then what is left of the members, so it is read as one of them. -/
theorem eq_partsThen_member {first : Bool} {s value rest : List Char}
    {before inner around gap after : Blanks} {key : List Char} {sp : Spelling}
    {parts : List (List Char)}
    (hs : s = around.chars ++ (separator first ++
      (before.chars ++ (key ++ (gap.chars ++ ':' :: value)))))
    (hvalue : value = inner.chars ++ (sp.text ++
      (after.chars ++ partsThen '\x7d' rest false parts))) :
    s = around.chars ++ partsThen '\x7d' rest first
      (Keyed.text Spelling.text ⟨⟨before, key, gap⟩, ⟨inner, sp, after⟩⟩ :: parts) := by
  rw [hs, hvalue, partsThen_cons, Keyed.text_append]
  simp only [Padded.text, List.append_assoc, id_eq]

/-- The text of an object with a single member. -/
theorem Spelling.object_text_member {tail rest key : List Char} {around gap inner after : Blanks}
    {sp : Spelling}
    (h : tail = around.chars ++ (key ++ (gap.chars ++
      ':' :: (inner.chars ++ (sp.text ++ (after.chars ++ '\x7d' :: rest)))))) :
    '\x7b' :: tail =
      (Spelling.object .none [⟨⟨around, key, gap⟩, ⟨inner, sp, after⟩⟩]).text ++ rest := by
  have hmember : tail = Blanks.none.chars ++ partsThen '\x7d' rest true
      [Keyed.text Spelling.text ⟨⟨around, key, gap⟩, ⟨inner, sp, after⟩⟩] :=
    eq_partsThen_member h rfl
  rw [object_text_append, hmember]
  rfl

/-- The members of an object that has been read, with those of its fields that they are for. -/
structure MembersFor (kind : InfoKind) (levels : Nat) (fields : List Field)
    (members : List Member) : Prop where
  unknown : ∀ m ∈ members, m.entry? = none → m.IsUnknown fields
  known : ∀ m ∈ members, ∀ entry, m.entry? = some entry →
    entry.1 ∈ fields ∧ StringSpelling entry.1.name m.spelled.key.core ∧
      Spells kind entry.1.optional entry.1.shape entry.2 m.spelled.value.core ∧
      mostOpen .outside 0 m.spelled.value.core.counted ≤ levels

/-- A member of a field, or of none, in front of other members. -/
theorem MembersFor.cons {kind : InfoKind} {levels : Nat} {fields : List Field} {m : Member}
    {members : List Member} (hunknown : m.entry? = none → m.IsUnknown fields)
    (hknown : ∀ entry, m.entry? = some entry →
      entry.1 ∈ fields ∧ StringSpelling entry.1.name m.spelled.key.core ∧
        Spells kind entry.1.optional entry.1.shape entry.2 m.spelled.value.core ∧
        mostOpen .outside 0 m.spelled.value.core.counted ≤ levels)
    (h : MembersFor kind levels fields members) : MembersFor kind levels fields (m :: members) where
  unknown := List.forall_mem_cons.mpr ⟨hunknown, h.unknown⟩
  known := List.forall_mem_cons.mpr ⟨hknown, h.known⟩

/-- The object has one bracket more open at once than the values of its fields. -/
theorem MembersFor.mostOpen_le {kind : InfoKind} {levels : Nat} {fields : List Field}
    {members : List Member} (h : MembersFor kind levels fields members) (blanks : Blanks) :
    mostOpen .outside 0 (Spelling.object blanks (members.map Member.spelled)).counted ≤
      levels + 1 := by
  apply mostOpen_object_le
  · exact closes_of_members h.unknown (fun m hm entry hentry => (h.known m hm entry hentry).2.1)
      fun m hm entry hentry => (h.known m hm entry hentry).2.2.1.balanced
  · refine List.forall_mem_map.mpr fun m hm => ?_
    cases hentry : m.entry? with
    | none =>
        obtain ⟨_, value, _, _, _, hvalue⟩ := h.unknown m hm hentry
        rw [hvalue]
        exact Nat.zero_le levels
    | some entry => exact (h.known m hm entry hentry).2.2.2

/-- A key that has not been seen can be added. -/
theorem nodup_seen {seen : List (String × Datum)} (hseen : (seen.map Prod.fst).Nodup) {key : String}
    (hnew : ¬ (seen.lookup key).isSome = true) (d : Datum) :
    ((seen ++ [(key, d)]).map Prod.fst).Nodup := by
  rw [Bool.not_eq_true, Option.isSome_eq_false_iff, Option.isNone_iff_eq_none,
    List.lookup_eq_none_iff] at hnew
  rw [List.map_append, List.map_singleton, List.nodup_append]
  refine ⟨hseen, List.nodup_singleton key, ?_⟩
  rintro _ hother _ hkey rfl
  obtain ⟨pair, hpair, rfl⟩ := List.mem_map.mp hother
  exact bne_iff_ne.mp (hnew pair hpair) (List.mem_singleton.mp hkey).symm

/-- The members of an object that was read are in the text, those of unknown fields among them, and
no field comes twice. -/
theorem members_of_readFieldObject {deeper : ShapeReader} {kind : InfoKind} {levels : Nat}
    {fields : List Field} (hfields : ∀ field ∈ fields,
      Accepts kind field.optional field.shape levels (readField deeper field)) {steps : Nat}
    {first : Bool} {seen all : List (String × Datum)} {s rest : List Char}
    (hseen : (seen.map Prod.fst).Nodup)
    (h : readFieldObject deeper fields steps first seen s = .ok (all, rest)) :
    ∃ (blanks : Blanks) (members : List Member), MembersFor kind levels fields members ∧
      all = seen ++ (members.filterMap Member.entry?).map named ∧ (all.map Prod.fst).Nodup ∧
      s = blanks.chars ++
        partsThen '\x7d' rest first (members.map fun m => m.spelled.text Spelling.text) := by
  induction steps generalizing first seen s with
  | zero => cases h
  | succ steps ih =>
      obtain ⟨⟨key?, s₁⟩, hnext, h₁⟩ := bind_eq_ok.mp h
      obtain ⟨around, ⟨rfl, hs⟩ | ⟨key, before, text, rfl, htext, hs⟩⟩ := eq_of_nextKey hnext
      · cases h₁
        exact ⟨around, [], ⟨by nofun, by nofun⟩, (List.append_nil _).symm, hseen,
          by rw [hs, List.map_nil, partsThen_nil]⟩
      dsimp only at h₁
      split at h₁
      · rename_i field hfind
        split at h₁
        · cases h₁
        · rename_i hnew
          obtain ⟨s₂, hcolon, h₂⟩ := bind_eq_ok.mp h₁
          obtain ⟨⟨d, s₃⟩, hd, h₃⟩ := bind_eq_ok.mp h₂
          obtain ⟨gap, rfl⟩ := eq_of_colon hcolon
          have hfield := List.mem_of_find?_eq_some hfind
          have hname := List.find?_some hfind
          rw [decide_eq_true_eq] at hname
          subst hname
          obtain ⟨inner, sp, hspells, hlevels, hs₂⟩ := hfields field hfield s₂ d s₃ hd
          obtain ⟨after, members, hmembers, rfl, hnodup, rfl⟩ := ih (nodup_seen hseen hnew d) h₃
          refine ⟨around, ⟨some (field, d), ⟨⟨before, text, gap⟩, ⟨inner, sp, after⟩⟩⟩ :: members,
            hmembers.cons (by nofun) ?_, by simp [named], hnodup, eq_partsThen_member hs hs₂⟩
          rintro entry ⟨⟩
          exact ⟨hfield, htext, hspells, hlevels⟩
      · rename_i hfind
        obtain ⟨s₂, hcolon, h₂⟩ := bind_eq_ok.mp h₁
        obtain ⟨s₃, hskip, h₃⟩ := bind_eq_ok.mp h₂
        obtain ⟨gap, rfl⟩ := eq_of_colon hcolon
        obtain ⟨inner, value, hvalue, hs₂⟩ := isValue_of_skipValueIn hskip
        obtain ⟨after, members, hmembers, rfl, hnodup, rfl⟩ := ih hseen h₃
        have hname : key ∉ fields.map Field.name := by
          rintro hmem
          obtain ⟨field, hfield, rfl⟩ := List.mem_map.mp hmem
          exact List.find?_eq_none.mp hfind field hfield (decide_eq_true rfl)
        exact ⟨around, ⟨none, ⟨⟨before, text, gap⟩, ⟨inner, .skipped value, after⟩⟩⟩ :: members,
          hmembers.cons (fun _ => ⟨key, value, htext, hname, hvalue, rfl⟩) (by nofun), rfl, hnodup,
          eq_partsThen_member hs hs₂⟩

/-! ## Records -/

/-- The fields of a record have been put in order: each of them as it was seen, or null. -/
theorem entries_of_arrangeFields {seen : List (String × Datum)} {fields : List Field}
    {data : List Datum} (h : arrangeFields seen fields = .ok data) :
    data.length = fields.length ∧ ∀ entry ∈ fields.zip data,
      seen.lookup entry.1.name = some entry.2 ∨
      seen.lookup entry.1.name = none ∧ entry.1.optional = true ∧ entry.2 = .null := by
  induction fields generalizing data with
  | nil =>
      cases h
      exact ⟨rfl, by nofun⟩
  | cons field fields ih =>
      unfold arrangeFields at h
      split at h
      · rename_i v hlookup
        obtain ⟨vs, hvs, hdata⟩ := bind_eq_ok.mp h
        cases hdata
        obtain ⟨hlength, hentries⟩ := ih hvs
        exact ⟨congrArg (· + 1) hlength, List.forall_mem_cons.mpr ⟨.inl hlookup, hentries⟩⟩
      · rename_i hlookup
        split at h
        · rename_i hoptional
          obtain ⟨vs, hvs, hdata⟩ := bind_eq_ok.mp h
          cases hdata
          obtain ⟨hlength, hentries⟩ := ih hvs
          exact ⟨congrArg (· + 1) hlength,
            List.forall_mem_cons.mpr ⟨.inr ⟨hlookup, hoptional, rfl⟩, hentries⟩⟩
        · cases h

/-- The members of an object spell the record whose fields they have been put in the order of. -/
theorem MembersFor.spells {kind : InfoKind} {levels : Nat} {r : Record} {members : List Member}
    (h : MembersFor kind levels r.fields members) {data : List Datum}
    (hnodup : ((members.filterMap Member.entry?).map fun entry => entry.1.name).Nodup)
    (hdata : arrangeFields ((members.filterMap Member.entry?).map named) r.fields = .ok data)
    (optional : Bool) (blanks : Blanks) :
    Spells kind optional (.record r) (.record r data)
      (.object blanks (members.map Member.spelled)) := by
  obtain ⟨hlength, hentries⟩ := entries_of_arrangeFields hdata
  have hfirst : (r.fields.zip data).map Prod.fst = r.fields :=
    List.map_fst_zip (Nat.le_of_eq hlength.symm)
  have hsub : members.filterMap Member.entry? ⊆ r.fields.zip data := by
    rintro ⟨field, d⟩ hentry
    obtain ⟨m, hm, hsome⟩ := List.mem_filterMap.mp hentry
    have hfield := (h.known m hm (field, d) hsome).1
    rw [← hfirst] at hfield
    obtain ⟨⟨_, d'⟩, hmem, rfl⟩ := List.mem_map.mp hfield
    have hlookup := lookup_named hnodup hentry
    rcases hentries _ hmem with hseen | ⟨hunseen, _⟩
    · rw [hlookup, Option.some.injEq] at hseen
      cases hseen
      exact hmem
    · rw [hlookup] at hunseen
      cases hunseen
  refine .recordObject blanks hlength (List.subperm_of_subset hnodup.of_map hsub) ?_ h.unknown
    (fun m hm entry hentry => (h.known m hm entry hentry).2.1)
    (fun m hm entry hentry => (h.known m hm entry hentry).2.2.1)
  intro entry hentry hmissing
  have hnames : ((r.fields.zip data).map fun entry => entry.1.name).Nodup := by
    have hfields := r.nodup_names
    rwa [← hfirst, List.map_map] at hfields
  have hunseen : ((members.filterMap Member.entry?).map named).lookup entry.1.name = none := by
    apply lookup_named_eq_none
    intro other hother hname
    exact hmissing (List.inj_on_of_nodup_map hnames (hsub hother) hentry hname ▸ hother)
  rcases hentries entry hentry with hseen | ⟨_, hnull⟩
  · rw [hunseen] at hseen
    cases hseen
  · exact hnull

/-- The reader for one level deeper, if there is one, accepts spellings for the levels left. -/
def DeeperAccepts (kind : InfoKind) (levels : Nat) (deeper? : Option ShapeReader) : Prop :=
  ∀ deeper ∈ deeper?, ∃ left, levels = left + 1 ∧
    ∀ optional shape, Accepts kind optional shape left (deeper shape)

/-- The reader of a record accepts its spellings, as an object or as an array. -/
theorem readRecord_accepts {kind : InfoKind} {levels : Nat} {deeper? : Option ShapeReader}
    (hdeeper : DeeperAccepts kind levels deeper?) (optional : Bool) (steps : Nat) (r : Record) :
    Accepts kind optional (.record r) levels (readRecord steps deeper? r) := by
  intro s d rest h
  obtain ⟨before, hs⟩ := exists_blanks s
  unfold readRecord at h
  split at h
  · cases h
  · rename_i c tail hskip
    rw [hskip] at hs
    split at h
    · rename_i hc
      split at h
      · cases h
      · rename_i deeper
        obtain ⟨left, rfl, haccepts⟩ := hdeeper deeper rfl
        have hfields : ∀ field ∈ r.fields,
            Accepts kind field.optional field.shape left (readField deeper field) :=
          fun field _ => readField_accepts (haccepts field.optional field.shape)
        split at h
        · rename_i hc
          obtain ⟨⟨ds, after⟩, hds, hd⟩ := map_eq_ok.mp h
          cases hd
          obtain ⟨blanks, items, hnames, rfl, hitems, rfl⟩ := items_of_readFieldArray hfields hds
          refine ⟨before, .array blanks (items.map Prod.snd),
            .recordArray blanks hnames fun i hi => (hitems i hi).1, ?_, ?_⟩
          · exact mostOpen_array_le
              (List.forall_mem_map.mpr fun i hi => (hitems i hi).1.balanced) blanks
              (List.forall_mem_map.mpr fun i hi => (hitems i hi).2)
          · rw [hs, hc, Spelling.array_text_append, List.map_map]
            rfl
        · rename_i hc'
          obtain ⟨⟨seen, after⟩, hseen, h₁⟩ := bind_eq_ok.mp h
          obtain ⟨data, hdata, h₂⟩ := bind_eq_ok.mp h₁
          cases h₂
          have hnone : (([] : List (String × Datum)).map Prod.fst).Nodup := List.nodup_nil
          obtain ⟨blanks, members, hmembers, rfl, hnodup, rfl⟩ :=
            members_of_readFieldObject hfields hnone hseen
          rw [List.nil_append, List.map_map] at hnodup
          refine ⟨before, .object blanks (members.map Member.spelled),
            hmembers.spells hnodup hdata optional blanks, hmembers.mostOpen_le blanks, ?_⟩
          rw [hs, hc.resolve_left hc', Spelling.object_text_append, List.map_map]
          rfl
    · cases h

/-! ## Shapes -/

/-- The reader of a list of nodes accepts its spellings. -/
theorem readNodes_accepts {kind : InfoKind} {levels : Nat} {deeper? : Option ShapeReader}
    (hdeeper : DeeperAccepts kind levels deeper?) (optional : Bool) (steps : Nat) (item : Item) :
    Accepts kind optional (.nodes item) levels (readNodes steps deeper? item) := by
  intro s d rest h
  obtain ⟨before, hs⟩ := exists_blanks s
  unfold readNodes at h
  split at h
  · rename_i tail hskip
    rw [hskip] at hs
    split at h
    · cases h
    · rename_i deeper
      obtain ⟨left, rfl, haccepts⟩ := hdeeper deeper rfl
      obtain ⟨⟨ds, after⟩, hds, hd⟩ := map_eq_ok.mp h
      cases hd
      obtain ⟨blanks, items, rfl, hitems, rfl⟩ :=
        items_of_readElements (haccepts false (.node item)) hds
      refine ⟨before, .array blanks (items.map Prod.snd),
        .list blanks fun i hi => (hitems i hi).1, ?_, ?_⟩
      · exact mostOpen_array_le
          (List.forall_mem_map.mpr fun i hi => (hitems i hi).1.balanced) blanks
          (List.forall_mem_map.mpr fun i hi => (hitems i hi).2)
      · rw [hs, Spelling.array_text_append, List.map_map]
        rfl
  · cases h

/-- The variant found for a label is one of the choice and has the label. -/
theorem Choice.mem_of_tagOf {c : Choice} {label : String} {tag : Tag}
    (h : c.tagOf label = .ok tag) :
    tag ∈ c.tags ∧ tag.label = label := by
  unfold Choice.tagOf at h
  split at h
  · rename_i found hfind
    cases h
    have hlabel := List.find?_some hfind
    rw [decide_eq_true_eq] at hlabel
    exact ⟨List.mem_of_find?_eq_some hfind, hlabel⟩
  · cases h

/-- What belongs to a variant is a payload, or a null if there is nothing to it. -/
theorem spells_of_readPayload {deeper : ShapeReader} {kind : InfoKind} {levels : Nat}
    (hdeeper : ∀ optional shape, Accepts kind optional shape levels (deeper shape)) {c : Choice}
    {tag : Tag} (htag : tag ∈ c.tags) {s rest : List Char} {d : Datum}
    (h : readPayload deeper tag s = .ok (d, rest)) :
    ∃ (before : Blanks) (sp : Spelling), s = before.chars ++ (sp.text ++ rest) ∧
      Balanced sp.counted ∧ mostOpen .outside 0 sp.counted ≤ levels ∧
      ∀ (optional : Bool) (blanks : Blanks) (m : Keyed Spelling), m.value.core = sp →
        StringSpelling tag.label m.key.core →
        Spells kind optional (.choice c) d (.object blanks [m]) := by
  unfold readPayload at h
  split at h
  · rename_i shape hshape
    obtain ⟨⟨payload, after⟩, hpayload, hd⟩ := map_eq_ok.mp h
    cases hd
    obtain ⟨before, sp, hspells, hlevels, hs⟩ := hdeeper false shape s payload rest hpayload
    refine ⟨before, sp, hs, hspells.balanced, hlevels, ?_⟩
    rintro optional blanks m rfl hkey
    exact .variant blanks htag hshape hkey hspells
  · rename_i hnone
    obtain ⟨⟨nothing, after⟩, hnull, hd⟩ := map_eq_ok.mp h
    cases hd
    obtain ⟨rfl, hskip⟩ := eq_of_readNull hnull
    obtain ⟨before, hs⟩ := exists_blanks s
    rw [hskip] at hs
    have hopen : mostOpen .outside 0 Spelling.null.counted = 0 := opens_null.mostOpen_eq
    refine ⟨before, .null, hs, Spelling.balanced_null, hopen ▸ Nat.zero_le levels, ?_⟩
    exact fun optional blanks m hvalue hkey => .bareNull blanks htag hnone hkey hvalue

/-- The reader of a choice accepts its spellings, alone or with a payload. -/
theorem readChoice_accepts {kind : InfoKind} {levels : Nat} {deeper? : Option ShapeReader}
    (hdeeper : DeeperAccepts kind levels deeper?) (optional : Bool) (c : Choice) :
    Accepts kind optional (.choice c) levels (readChoice deeper? c) := by
  intro s d rest h
  obtain ⟨before, hs⟩ := exists_blanks s
  unfold readChoice at h
  split at h
  · cases h
  · rename_i first tail hskip
    rw [hskip] at hs
    split at h
    · rename_i hquote
      obtain ⟨⟨cs, after⟩, hbody, h₁⟩ := bind_eq_ok.mp h
      obtain ⟨tag, htag, h₂⟩ := bind_eq_ok.mp h₁
      split at h₂
      · rename_i hpayload
        cases h₂
        obtain ⟨hmem, hlabel⟩ := Choice.mem_of_tagOf htag
        obtain ⟨text, htext, htail⟩ := stringSpelling_of_stringBody hbody
        rw [← hlabel] at htext
        rw [Option.isNone_iff_eq_none] at hpayload
        refine ⟨before, .plain text, .bare hmem hpayload htext, ?_, ?_⟩
        · exact Nat.le_trans (Nat.le_of_eq htext.opens.mostOpen_eq) (Nat.zero_le levels)
        · rw [hs, hquote, htail]
          rfl
      · cases h₂
    · split at h
      · rename_i hbrace
        split at h
        · cases h
        · rename_i deeper
          obtain ⟨left, rfl, haccepts⟩ := hdeeper deeper rfl
          obtain ⟨⟨label, s₁⟩, hkey, h₁⟩ := bind_eq_ok.mp h
          obtain ⟨tag, htag, h₂⟩ := bind_eq_ok.mp h₁
          obtain ⟨s₂, hcolon, h₃⟩ := bind_eq_ok.mp h₂
          obtain ⟨⟨v, s₃⟩, hpayload, h₄⟩ := bind_eq_ok.mp h₃
          obtain ⟨hmem, rfl⟩ := Choice.mem_of_tagOf htag
          obtain ⟨text, htext, htail⟩ := eq_of_readKey hkey
          obtain ⟨around, haround⟩ := exists_blanks tail
          obtain ⟨gap, rfl⟩ := eq_of_colon hcolon
          obtain ⟨inner, sp, rfl, hbalanced, hlevels, hspells⟩ :=
            spells_of_readPayload haccepts hmem hpayload
          obtain ⟨after, hafter⟩ := exists_blanks s₃
          dsimp only at h₄
          split at h₄
          · cases h₄
          · rename_i final rest' hskip'
            split at h₄
            · rename_i hclose
              cases h₄
              have hobject := Spelling.object_text_member (haround.trans (by
                rw [htail, hafter, hskip', hclose]))
              refine ⟨before, _, hspells optional .none ⟨⟨around, text, gap⟩, ⟨inner, sp, after⟩⟩
                rfl htext, ?_, by rw [hs, hbrace, hobject]⟩
              exact mostOpen_object_le
                (List.forall_mem_singleton.mpr ⟨⟨_, htext⟩, hbalanced⟩) .none
                (List.forall_mem_singleton.mpr hlevels)
            · cases h₄
      · cases h

/-- A reader accepts spellings of data only, which have no more brackets open than it has levels. -/
theorem readAt_accepts (kind : InfoKind) (steps levels : Nat) (optional : Bool) (shape : Shape) :
    Accepts kind optional shape levels (readAt kind steps levels shape) := by
  have hshape : ∀ {levels deeper?}, DeeperAccepts kind levels deeper? → ∀ optional shape,
      Accepts kind optional shape levels (readShape kind steps deeper? shape) := by
    intro levels deeper? hdeeper optional shape
    cases shape with
    | info => exact readInfo_accepts kind optional levels
    | text => exact readString_accepts kind optional levels
    | nodes item => exact readNodes_accepts hdeeper optional steps item
    | record r => exact readRecord_accepts hdeeper optional steps r
    | choice c => exact readChoice_accepts hdeeper optional c
  induction levels generalizing optional shape with
  | zero => exact hshape (by nofun) optional shape
  | succ levels ih =>
      refine hshape ?_ optional shape
      rintro deeper ⟨⟩
      exact ⟨levels, rfl, ih⟩

/-- A text is accepted only if it is a spelling of the datum that is read, with at most
`nestingLimit` brackets open at once. -/
theorem spells_of_readText {kind : InfoKind} {shape : Shape} {text : List Char} {d : Datum}
    (h : readText kind shape text = .ok d) :
    ∃ t : Padded Spelling, Spells kind false shape d t.core ∧
      openBrackets (String.ofList (t.text Spelling.counted)) ≤ nestingLimit ∧
      t.text Spelling.text = text := by
  obtain ⟨⟨v, rest⟩, hread, hend⟩ := bind_eq_ok.mp h
  dsimp only at hend
  split at hend
  · rename_i hblank
    cases hend
    obtain ⟨before, sp, hspells, hlevels, hs⟩ :=
      readAt_accepts kind _ nestingLimit false shape text d rest hread
    obtain ⟨after, hafter⟩ := exists_blanks rest
    rw [List.isEmpty_iff.mp hblank, List.append_nil] at hafter
    refine ⟨⟨before, sp, after⟩, hspells, ?_, ?_⟩
    · have hopens : Opens _ (Padded.text Spelling.counted ⟨before, sp, after⟩) :=
        Padded.opens Spelling.counted hspells.balanced
      rw [openBrackets, String.toList_ofList, hopens.mostOpen_eq]
      exact hlevels
    · rw [hs, hafter]
      rfl
  · cases hend

end Json

/-- A text that is read as a program is a spelling of it within the nesting limit. -/
theorem Program.spells_of_decode {ι : Type} [InfoFormat ι] (hinfos : InfosTold ι) {t : String}
    {p : Program ι} (h : Program.decode t = .ok p) :
    ∃ s : Padded Spelling, Spells (InfoFormat.kind ι) false (.record .program) p.toDatum s.core ∧
      openBrackets (String.ofList (s.text Spelling.counted)) ≤ nestingLimit ∧
      String.ofList (s.text Spelling.text) = t := by
  obtain ⟨d, hread, hd⟩ := bind_eq_ok.mp h
  split at hd
  · rename_i q hq
    cases hd
    obtain ⟨s, hspells, hbrackets, htext⟩ := spells_of_readText hread
    rw [Program.toDatum_of_ofDatum? hinfos hq]
    exact ⟨s, hspells, hbrackets, by rw [htext, String.ofList_toList]⟩
  · cases hd

/-- No spelling of a program has fewer brackets open at once than its compact text. -/
theorem Program.openBrackets_encode_le {p : Program UInt32} {s : Padded Spelling}
    (h : Spells .offset false (.record .program) p.toDatum s.core) :
    openBrackets (p.encode .compact) ≤ openBrackets (String.ofList (s.text Spelling.counted)) := by
  rw [Program.encode, openBrackets_toText (p.toDatum_fits infosFit_offset), openBrackets,
    String.toList_ofList, (Padded.opens Spelling.counted h.balanced).mostOpen_eq]
  exact h.nesting_le

/-- Read a program and write it again. -/
def reencode (text : String) : Except Fault String :=
  (Program.decode (ι := UInt32) text).map (Program.encode .compact)

/-- A text that is accepted is a spelling of the program that is read, and however it is taken as
one, it has at least as many brackets open at once as the compact text of the program, without those
in the values of unknown fields. So the compact text is accepted, too: as the same program, which is
written as it stands there. -/
theorem normal_form {t : String} {p : Program UInt32} (h : Program.decode t = .ok p) :
    (∃ s : Padded Spelling, String.ofList (s.text Spelling.text) = t ∧
      Spells .offset false (.record .program) p.toDatum s.core) ∧
    (∀ s : Padded Spelling, String.ofList (s.text Spelling.text) = t →
      Spells .offset false (.record .program) p.toDatum s.core →
      openBrackets (p.encode .compact) ≤ openBrackets (String.ofList (s.text Spelling.counted))) ∧
    Program.decode (p.encode .compact) = .ok p ∧
    reencode t = .ok (p.encode .compact) ∧
    reencode (p.encode .compact) = .ok (p.encode .compact) := by
  obtain ⟨s, hspells, hbrackets, htext⟩ := Program.spells_of_decode infosTold_offset h
  have hopen := Nat.le_trans (Program.openBrackets_encode_le hspells) hbrackets
  have hdecode : Program.decode (p.encode .compact) = .ok p := by
    rw [p.decode_encode_of_infosFit infosFit_offset, if_pos hopen]
  refine ⟨⟨s, htext, hspells⟩, fun s _ hs => Program.openBrackets_encode_le hs, hdecode, ?_, ?_⟩
  · rw [reencode, h]
    rfl
  · rw [reencode, hdecode]
    rfl

/-- A text with blanks, escapes, fields in another order and an unknown one is read, and written in
normal form. -/
theorem normal_form_oddProgram :
    Program.decode (String.ofList (oddProgram.text Spelling.text)) = .ok importAndUnit ∧
    openBrackets (String.ofList (oddProgram.text Spelling.counted)) = 5 ∧
    openBrackets (importAndUnit.encode .compact) ≤ 5 ∧
    reencode (String.ofList (oddProgram.text Spelling.text)) =
      .ok (importAndUnit.encode .compact) ∧
    reencode (importAndUnit.encode .compact) = .ok (importAndUnit.encode .compact) := by
  have hopen : openBrackets (String.ofList (oddProgram.text Spelling.counted)) = 5 := by
    decide +kernel
  have hdecode : Program.decode (String.ofList (oddProgram.text Spelling.text)) =
      .ok importAndUnit :=
    Program.decode_of_spells spells_oddProgram (hopen ▸ (by decide : 5 ≤ nestingLimit))
  obtain ⟨_, hle, _, hreencode⟩ := normal_form hdecode
  exact ⟨hdecode, hopen, hopen ▸ hle oddProgram rfl spells_oddProgram, hreencode⟩

end Lowering
