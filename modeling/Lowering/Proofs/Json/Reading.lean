import Mathlib.Data.List.Nodup
import Mathlib.Data.List.Perm.Subperm
import Lowering.Json.Reader
import Lowering.Proofs.Json.Brackets

/-!
# Data are read as they were written

Main statement: a datum of a shape is read back from its text by a reader that has levels enough for
its nesting, and refused as malformed by one that has not (`Datum.Fits.readsBack`). Since a reader
goes through a text in order, the first bracket too deep is the first fault that it meets.
-/

namespace Lowering.Json

/-! ## Levels -/

/-- What comes of reading something that nests so deep, with so many levels left. -/
def ifWithin {α : Type} (levels nesting : Nat) (result : α) : Except Fault α :=
  if nesting ≤ levels then .ok result else .error .malformed

/-- What opens nothing is within every limit. -/
theorem ifWithin_zero {α : Type} (levels : Nat) (a : α) : ifWithin levels 0 a = .ok a :=
  if_pos (Nat.zero_le levels)

/-- One bracket more takes one level more. -/
theorem ifWithin_succ {α : Type} (levels nesting : Nat) (a : α) :
    ifWithin (levels + 1) (nesting + 1) a = ifWithin levels nesting a := by
  unfold ifWithin
  simp only [Nat.add_le_add_iff_right]

/-- A result within the limit can be changed afterwards. -/
theorem ifWithin_map {α β : Type} (levels nesting : Nat) (a : α) (f : α → β) :
    (ifWithin levels nesting a).map f = ifWithin levels nesting (f a) := by
  unfold ifWithin
  split <;> rfl

/-- Two readings one after the other need the levels of the deeper one. -/
theorem ifWithin_bind {α β : Type} {levels m n : Nat} {a : α} {b : β} {next : α → Except Fault β}
    (h : next a = ifWithin levels n b) :
    (ifWithin levels m a >>= next) = ifWithin levels (max m n) b := by
  by_cases hm : m ≤ levels
  · have hmax : max m n ≤ levels ↔ n ≤ levels := by omega
    rw [ifWithin, if_pos hm]
    show next a = _
    rw [h, ifWithin, ifWithin]
    simp only [hmax]
  · have hmax : ¬ max m n ≤ levels := by omega
    rw [ifWithin, if_neg hm, ifWithin, if_neg hmax]
    rfl

/-- A result within the limit can be read on from. -/
theorem ifWithin_bind_ok {α β : Type} {levels n : Nat} {a : α} {b : β} {next : α → Except Fault β}
    (h : next a = .ok b) : (ifWithin levels n a >>= next) = ifWithin levels n b := by
  rw [ifWithin_bind (h.trans (ifWithin_zero levels b).symm), Nat.max_zero]

/-- A reader reads a datum back from its text. -/
def ReadsWithin (levels : Nat) (layout : Layout) (depth : Nat)
    (reader : List Char → Except Fault (Datum × List Char)) (d : Datum) : Prop :=
  ∀ s rest, (∀ n, d = .number n → NumeralEnds rest) →
    skipBlanks s = d.write layout depth ++ rest →
    reader s = ifWithin levels d.nesting (d, rest)

/-! ## Parts between brackets -/

/-- What is written between brackets begins with the opening one. -/
theorem writeBracketed_eq_cons (layout : Layout) (depth : Nat) (opening closing : Char)
    (parts : List (List Char)) :
    ∃ tail, writeBracketed layout depth opening closing parts = opening :: tail := by
  cases parts with
  | nil => exact ⟨_, rfl⟩
  | cons part parts => exact ⟨_, rfl⟩

/-- A datum starts neither with a blank nor with a bracket that closes, and only a null starts as
one does. -/
theorem Datum.write_eq_cons (layout : Layout) (depth : Nat) (d : Datum) :
    ∃ c tail, d.write layout depth = c :: tail ∧ isBlank c = false ∧ c ≠ ']' ∧
      (c = 'n' → d = .null) := by
  cases d with
  | null => exact ⟨'n', _, rfl, rfl, by decide, fun _ => rfl⟩
  | number n =>
      obtain ⟨c, tail, hdigits, hc⟩ := toDigits_eq_cons n.toNat
      exact ⟨c, tail, hdigits, isBlank_of_isDigit hc, ne_of_isDigit hc (by decide),
        fun h => absurd h (ne_of_isDigit hc (by decide))⟩
  | text t => exact ⟨'"', _, rfl, rfl, by decide, fun h => absurd h (by decide)⟩
  | list items =>
      obtain ⟨tail, htail⟩ := writeBracketed_eq_cons layout depth '[' ']' _
      exact ⟨'[', tail, htail, rfl, by decide, fun h => absurd h (by decide)⟩
  | record r fields =>
      obtain ⟨tail, htail⟩ := writeBracketed_eq_cons layout depth '\x7b' '\x7d' _
      exact ⟨'\x7b', tail, htail, rfl, by decide, fun h => absurd h (by decide)⟩
  | bare tag => exact ⟨'"', _, rfl, rfl, by decide, fun h => absurd h (by decide)⟩
  | variant tag payload =>
      obtain ⟨tail, htail⟩ := writeBracketed_eq_cons layout depth '\x7b' '\x7d' _
      exact ⟨'\x7b', tail, htail, rfl, by decide, fun h => absurd h (by decide)⟩

/-- No datum is written with a blank in front. -/
theorem Datum.skipBlanks_write (layout : Layout) (depth : Nat) (d : Datum) (rest : List Char) :
    skipBlanks (d.write layout depth ++ rest) = d.write layout depth ++ rest := by
  obtain ⟨c, tail, hwrite, hblank, _, _⟩ := d.write_eq_cons layout depth
  rw [hwrite, List.cons_append, skipBlanks_cons hblank]

/-- No string is written with a blank in front. -/
theorem skipBlanks_writeString (t : String) (rest : List Char) :
    skipBlanks (writeString t ++ rest) = writeString t ++ rest := by
  rw [writeString_append, skipBlanks_cons rfl]

/-- A closing bracket ends an array. -/
theorem nextElement_closing (first : Bool) {s rest : List Char} (hs : skipBlanks s = ']' :: rest) :
    nextElement first s = .ok (false, rest) := by
  rw [nextElement, hs]
  rfl

/-- A closing bracket ends an object. -/
theorem nextKey_closing (first : Bool) {s rest : List Char}
    (hs : skipBlanks s = '\x7d' :: rest) : nextKey first s = .ok (none, rest) := by
  rw [nextKey, hs]
  rfl

section PartsLeft

variable (layout : Layout) (depth : Nat) (rest : List Char) (first : Bool)

/-- Line breaks are skipped. -/
theorem Layout.skipBlanks_lineBreak {c : Char} (h : isBlank c = false) (s : List Char) :
    skipBlanks (layout.lineBreak depth ++ c :: s) = c :: s := by
  rw [skipBlanks_append (layout.isBlank_lineBreak depth), skipBlanks_cons h]

/-- No numeral goes on after a part. -/
theorem numeralEnds_partsLeft {closing : Char} (hclosing : closing = ']' ∨ closing = '\x7d')
    (parts : List (List Char)) :
    NumeralEnds (partsLeft layout depth closing rest false parts) := by
  have hends : ∀ (c : Char) (s : List Char), c = ',' ∨ c = '\n' ∨ c = ']' ∨ c = '\x7d' →
      NumeralEnds (c :: s) := by
    rintro c s hc d hd
    cases hd
    rcases hc with rfl | rfl | rfl | rfl <;> decide
  cases parts with
  | cons part parts => exact hends ',' _ (.inl rfl)
  | nil =>
      cases layout with
      | compact => exact hends closing rest (.inr (.inr hclosing))
      | pretty => exact hends '\n' _ (.inr (.inl rfl))

/-- After the last part the closing bracket comes next. -/
theorem skipBlanks_partsLeft_nil {closing : Char} (h : isBlank closing = false) :
    skipBlanks (partsLeft layout depth closing rest first []) = closing :: rest := by
  cases first with
  | true => exact skipBlanks_cons h rest
  | false => exact layout.skipBlanks_lineBreak depth h rest

/-- After the last element an array ends. -/
theorem nextElement_end :
    nextElement first (partsLeft layout depth ']' rest first []) = .ok (false, rest) :=
  nextElement_closing first (skipBlanks_partsLeft_nil layout depth rest first rfl)

/-- The next element is reached from what is left of an array. -/
theorem nextElement_part {part : List Char} {c : Char} {tail : List Char} (hpart : part = c :: tail)
    (hblank : isBlank c = false) (hclosing : c ≠ ']') (parts : List (List Char)) :
    nextElement first (partsLeft layout depth ']' rest first (part :: parts)) =
      .ok (true, part ++ partsLeft layout depth ']' rest false parts) := by
  subst hpart
  have hskip := layout.skipBlanks_lineBreak (depth + 1) hblank
    (tail ++ partsLeft layout depth ']' rest false parts)
  cases first with
  | true => simp only [nextElement, partsLeft, List.cons_append, hskip, if_neg hclosing, if_true]
  | false =>
      have hcomma : ∀ s, skipBlanks (',' :: s) = ',' :: s := skipBlanks_cons rfl
      simp only [nextElement, partsLeft, List.cons_append, hcomma, hskip, if_neg hclosing,
        Bool.false_eq_true, if_false, if_true]
      rfl

/-- A key is read from every spelling of it. -/
theorem StringSpelling.readKey_eq {t : String} {text s after : List Char}
    (h : StringSpelling t text) (hs : skipBlanks s = text ++ after) :
    readKey s = .ok (t, after) := by
  obtain ⟨tail, hcons, hbody⟩ := h.eq_cons after
  rw [hcons] at hs
  simp only [readKey, hs, if_true, hbody, Except.map, String.ofList_toList]

/-- After the last field an object ends. -/
theorem nextKey_end :
    nextKey first (partsLeft layout depth '\x7d' rest first []) = .ok (none, rest) :=
  nextKey_closing first (skipBlanks_partsLeft_nil layout depth rest first rfl)

/-- The text of a key with its value and what follows. -/
theorem writeKeyed_append (key : String) (value after : List Char) :
    writeKeyed layout key value ++ after =
      writeString key ++ ':' :: (layout.gap ++ (value ++ after)) := by
  rw [writeKeyed, List.append_assoc, List.cons_append, List.append_assoc]

/-- After a line break the key comes next. -/
theorem skipBlanks_writeKeyed (key : String) (value after : List Char) :
    skipBlanks (layout.lineBreak depth ++ (writeKeyed layout key value ++ after)) =
      writeString key ++ ':' :: (layout.gap ++ (value ++ after)) := by
  rw [writeKeyed_append, writeString_append, layout.skipBlanks_lineBreak depth rfl]

/-- The next key is read from what is left of an object. -/
theorem nextKey_keyed (key : String) (value : List Char) (parts : List (List Char)) :
    nextKey first (partsLeft layout depth '\x7d' rest first
        (writeKeyed layout key value :: parts)) =
      .ok (some key, ':' :: (layout.gap ++
        (value ++ partsLeft layout depth '\x7d' rest false parts))) := by
  have hskip := skipBlanks_writeKeyed layout (depth + 1) key value
    (partsLeft layout depth '\x7d' rest false parts)
  cases first with
  | true =>
      have hkey := (stringSpelling_write key).readKey_eq (skipBlanks_writeString key
        (':' :: (layout.gap ++ (value ++ partsLeft layout depth '\x7d' rest false parts))))
      rw [writeString_append] at hskip hkey
      simp only [nextKey, partsLeft, hskip, hkey, if_true]
      rfl
  | false =>
      have hcomma : ∀ s, skipBlanks (',' :: s) = ',' :: s := skipBlanks_cons rfl
      simp only [nextKey, partsLeft, hcomma, (stringSpelling_write key).readKey_eq hskip]
      rfl

end PartsLeft

/-- A value is read after its colon, whatever parts of the object are still to come. -/
theorem ReadsWithin.after_colon {levels depth : Nat} {layout : Layout} {d : Datum}
    {reader : List Char → Except Fault (Datum × List Char)}
    (h : ReadsWithin levels layout (depth + 1) reader d) (rest : List Char)
    (parts : List (List Char)) :
    reader (layout.gap ++ (d.write layout (depth + 1) ++
        partsLeft layout depth '\x7d' rest false parts)) =
      ifWithin levels d.nesting (d, partsLeft layout depth '\x7d' rest false parts) := by
  apply h
  · exact fun _ _ => numeralEnds_partsLeft layout depth rest (.inr rfl) parts
  · rw [skipBlanks_append layout.isBlank_gap, d.skipBlanks_write]

/-- A colon is read. -/
theorem colon_cons (s : List Char) : colon (':' :: s) = .ok s := by
  rw [colon, skipBlanks_cons rfl]
  rfl

/-! ## Lists -/

/-- The elements of an array are read one by one, if they are within the limit. -/
theorem readElements_partsLeft {element : List Char → Except Fault (Datum × List Char)}
    {levels depth : Nat} {layout : Layout} {items : List Datum}
    (hitems : ∀ d ∈ items, ReadsWithin levels layout (depth + 1) element d) {steps : Nat}
    (hsteps : items.length < steps) (first : Bool) (rest : List Char) :
    readElements element steps first
        (partsLeft layout depth ']' rest first (items.map (Datum.write layout (depth + 1)))) =
      ifWithin levels (Datum.nestingAll items) (items, rest) := by
  -- only the first element does without a comma, so the flag changes along the induction
  induction items generalizing steps first with
  | nil =>
      cases steps with
      | zero => cases hsteps
      | succ steps =>
          rw [readElements, List.map_nil, nextElement_end]
          rfl
  | cons d items ih =>
      cases steps with
      | zero => cases hsteps
      | succ steps =>
          have hitems' := fun e he => hitems e (List.mem_cons_of_mem d he)
          have ih' := ih hitems' (Nat.lt_of_succ_lt_succ hsteps) false
          obtain ⟨c, tail, hwrite, hblank, hclosing, _⟩ := d.write_eq_cons layout (depth + 1)
          have hnext := nextElement_part layout depth rest first hwrite hblank hclosing
            (items.map (Datum.write layout (depth + 1)))
          have hd := hitems d List.mem_cons_self _
            (partsLeft layout depth ']' rest false (items.map (Datum.write layout (depth + 1))))
            (fun _ _ => numeralEnds_partsLeft layout depth rest (.inl rfl) _)
            (d.skipBlanks_write layout (depth + 1) _)
          rw [readElements, List.map_cons, hnext]
          show (element _ >>= _) = _
          rw [hd, Datum.nestingAll]
          apply ifWithin_bind
          dsimp only
          rw [ih']
          exact ifWithin_bind_ok rfl

/-! ## Records -/

/-- A null is read for an optional field, and any other datum by the reader of its shape. -/
theorem readField_readsWithin {deeper : ShapeReader} {levels depth : Nat} {layout : Layout}
    {field : Field} {d : Datum} (h : ¬ (field.optional = true ∧ d = .null) →
      ReadsWithin levels layout depth (deeper field.shape) d) :
    ReadsWithin levels layout depth (readField deeper field) d := by
  intro s rest hends hs
  by_cases hnull : field.optional = true ∧ d = .null
  · obtain ⟨hoptional, rfl⟩ := hnull
    rw [readField, hs, if_pos ⟨hoptional, rfl⟩]
    exact readNull_write hs
  · have hread : ¬ (field.optional = true ∧ (skipBlanks s).head? = some 'n') := by
      rintro ⟨hoptional, hhead⟩
      obtain ⟨c, tail, hwrite, _, _, hn⟩ := d.write_eq_cons layout depth
      rw [hs, hwrite, List.cons_append, List.head?_cons, Option.some.injEq] at hhead
      exact hnull ⟨hoptional, hn hhead⟩
    rw [readField, if_neg hread]
    exact h hnull s rest hends hs

/-- An entry under its name, as a reader keeps it. -/
def named (entry : Field × Datum) : String × Datum :=
  (entry.1.name, entry.2)

/-- A field is not found among those with other names. -/
theorem lookup_named_eq_none {entries : List (Field × Datum)} {name : String}
    (h : ∀ entry ∈ entries, entry.1.name ≠ name) : (entries.map named).lookup name = none := by
  rw [List.lookup_eq_none_iff]
  intro pair hpair
  obtain ⟨entry, hentry, rfl⟩ := List.mem_map.mp hpair
  exact bne_iff_ne.mpr (h entry hentry).symm

/-- A name is not among those that come before it in a list without repeats. -/
theorem lookup_named_before {before after : List (Field × Datum)} {entry : Field × Datum}
    (hnodup : ((before ++ entry :: after).map fun entry => entry.1.name).Nodup) :
    (before.map named).lookup entry.1.name = none := by
  rw [List.map_append, List.nodup_append] at hnodup
  apply lookup_named_eq_none
  intro other hother
  exact hnodup.2.2 _ (List.mem_map_of_mem hother) _ List.mem_cons_self

/-- The fields of an object are read one by one after those read before, if they are within the
limit. -/
theorem readFieldObject_partsLeft {deeper : ShapeReader} {fields : List Field}
    {levels depth : Nat} {layout : Layout} (done todo : List (Field × Datum))
    (hnodup : ((done ++ todo).map fun entry => entry.1.name).Nodup)
    (hfind : ∀ entry ∈ todo, fields.find? (·.name = entry.1.name) = some entry.1)
    (htodo : ∀ entry ∈ todo,
      ReadsWithin levels layout (depth + 1) (readField deeper entry.1) entry.2)
    {steps : Nat} (hsteps : todo.length < steps) (first : Bool) (rest : List Char) :
    readFieldObject deeper fields steps first (done.map named)
        (partsLeft layout depth '\x7d' rest first (todo.map (writeEntry layout (depth + 1)))) =
      ifWithin levels (Datum.nestingAll (todo.map Prod.snd)) ((done ++ todo).map named, rest) := by
  -- what has been read grows by one entry with each step; no name comes twice in both together
  induction todo generalizing done steps first with
  | nil =>
      cases steps with
      | zero => cases hsteps
      | succ steps =>
          rw [readFieldObject, List.map_nil, nextKey_end, List.append_nil]
          rfl
  | cons entry todo ih =>
      cases steps with
      | zero => cases hsteps
      | succ steps =>
          have hdone : (done ++ [entry]) ++ todo = done ++ entry :: todo := by simp
          have hnew := lookup_named_before hnodup
          have ih' := ih (done ++ [entry]) (hdone ▸ hnodup)
            (fun e he => hfind e (List.mem_cons_of_mem entry he))
            (fun e he => htodo e (List.mem_cons_of_mem entry he))
            (Nat.lt_of_succ_lt_succ hsteps) false
          rw [List.map_append, List.map_singleton, hdone] at ih'
          have hnext := nextKey_keyed layout depth rest first entry.1.name
            (entry.2.write layout (depth + 1)) (todo.map (writeEntry layout (depth + 1)))
          have hvalue := (htodo entry List.mem_cons_self).after_colon rest
            (todo.map (writeEntry layout (depth + 1)))
          rw [readFieldObject, List.map_cons, writeEntry, hnext]
          simp only [bind, Except.bind, hfind entry List.mem_cons_self, hnew, Option.isSome_none,
            Bool.false_eq_true, if_false, colon_cons]
          show (readField deeper entry.1 _ >>= _) = _
          rw [hvalue, List.map_cons, Datum.nestingAll]
          exact ifWithin_bind ih'

/-- The fields of a record are put back in order, where an optional one that is null may be
missing. -/
theorem arrangeFields_eq {seen : List (String × Datum)} {fields : List Field} {data : List Datum}
    (hlength : data.length = fields.length)
    (hseen : ∀ entry ∈ fields.zip data, seen.lookup entry.1.name = some entry.2 ∨
      seen.lookup entry.1.name = none ∧ entry.1.optional = true ∧ entry.2 = .null) :
    arrangeFields seen fields = .ok data := by
  induction fields generalizing data with
  | nil =>
      rw [List.eq_nil_of_length_eq_zero hlength]
      rfl
  | cons field fields ih =>
      cases data with
      | nil => cases hlength
      | cons d data =>
          rw [List.zip_cons_cons, List.forall_mem_cons] at hseen
          obtain ⟨hpresent | ⟨hmissing, hoptional, rfl⟩, hseen⟩ := hseen
          · rw [arrangeFields, hpresent, ih (Nat.succ.inj hlength) hseen]
            rfl
          · rw [arrangeFields, hmissing]
            dsimp only
            rw [if_pos hoptional, ih (Nat.succ.inj hlength) hseen]
            rfl

/-- No two fields of a record have the same name. -/
theorem Record.nodup_names (r : Record) : (r.fields.map Field.name).Nodup := by
  cases r <;> simp [Record.fields]

/-- A field is found by its name. -/
theorem find?_name {fields : List Field} (hnodup : (fields.map Field.name).Nodup) {field : Field}
    (hfield : field ∈ fields) : fields.find? (·.name = field.name) = some field := by
  obtain ⟨before, after, rfl⟩ := List.append_of_mem hfield
  rw [List.map_append, List.nodup_append] at hnodup
  rw [List.find?_eq_some_iff_append]
  refine ⟨decide_eq_true rfl, before, after, rfl, ?_⟩
  intro other hother
  have hne := hnodup.2.2 _ (List.mem_map_of_mem hother) _ List.mem_cons_self
  rw [Bool.not_eq_true', decide_eq_false_iff_not]
  exact hne

/-- The datum of a field is found by the name of the field. -/
theorem lookup_named {entries : List (Field × Datum)}
    (hnodup : (entries.map fun entry => entry.1.name).Nodup) {entry : Field × Datum}
    (hentry : entry ∈ entries) : (entries.map named).lookup entry.1.name = some entry.2 := by
  obtain ⟨before, after, rfl⟩ := List.append_of_mem hentry
  rw [List.map_append, List.lookup_append, lookup_named_before hnodup, Option.none_or]
  exact List.lookup_cons_self

/-- The fields that have been read are put in order, where those that are missing are null. -/
theorem arrangeFields_written {fields : List Field} {data : List Datum}
    (hfields : (fields.map Field.name).Nodup) (hlength : data.length = fields.length)
    {written : List (Field × Datum)} (hwritten : written.Subperm (fields.zip data))
    (hmissing : ∀ entry ∈ fields.zip data, entry ∉ written →
      entry.1.optional = true ∧ entry.2 = .null) :
    (written.map fun entry => entry.1.name).Nodup ∧
      arrangeFields (written.map named) fields = .ok data := by
  have hnames : ((fields.zip data).map fun entry => entry.1.name).Nodup := by
    have hfirst : (fields.zip data).map Prod.fst = fields :=
      List.map_fst_zip (Nat.le_of_eq hlength.symm)
    rwa [← hfirst, List.map_map] at hfields
  have hnodup : (written.map fun entry => entry.1.name).Nodup := by
    obtain ⟨sorted, hperm, hsub⟩ := hwritten
    exact ((hperm.map _).nodup_iff).mp (hnames.sublist (hsub.map _))
  refine ⟨hnodup, arrangeFields_eq hlength ?_⟩
  intro entry hentry
  by_cases hmem : entry ∈ written
  · exact .inl (lookup_named hnodup hmem)
  · refine .inr ⟨lookup_named_eq_none ?_, hmissing entry hentry hmem⟩
    intro other hother hname
    exact hmem (List.inj_on_of_nodup_map hnames (hwritten.subset hother) hentry hname ▸ hother)

/-- A record is read back from its object, if its fields are within the limit. -/
theorem readRecord_write {deeper : ShapeReader} {levels depth steps : Nat} {layout : Layout}
    {r : Record} {fields : List Datum} (hlength : fields.length = r.fields.length)
    (hentries : ∀ entry ∈ r.fields.zip fields,
      ReadsWithin levels layout (depth + 1) (readField deeper entry.1) entry.2)
    (hsteps : (r.fields.zip fields).length < steps) {s rest : List Char}
    (hs : skipBlanks s = (Datum.record r fields).write layout depth ++ rest) :
    readRecord steps (some deeper) r s =
      ifWithin levels (Datum.nestingAll fields) (.record r fields, rest) := by
  obtain ⟨hnodup, harranged⟩ := arrangeFields_written r.nodup_names hlength (.refl _)
    fun entry hentry hmissing => absurd hentry hmissing
  have hfind : ∀ entry ∈ r.fields.zip fields,
      r.fields.find? (·.name = entry.1.name) = some entry.1 := fun entry hentry =>
    find?_name r.nodup_names (List.of_mem_zip hentry).1
  have hobject := readFieldObject_partsLeft [] (r.fields.zip fields) hnodup hfind hentries hsteps
    true rest
  rw [List.map_snd_zip (Nat.le_of_eq hlength)] at hobject
  rw [Datum.write_record, writeBracketed_append] at hs
  simp only [readRecord, hs]
  rw [if_pos (.inr trivial), if_neg (by decide), ← List.map_nil, hobject]
  apply ifWithin_bind_ok
  dsimp only [List.nil_append]
  rw [harranged]
  rfl

/-! ## Choices -/

/-- A variant is found by its label. -/
theorem Choice.tagOf_label {c : Choice} {tag : Tag} (h : tag ∈ c.tags) :
    c.tagOf tag.label = .ok tag := by
  have hfind : ∀ tag ∈ c.tags, c.tags.find? (·.label = tag.label) = some tag := by
    cases c <;> decide
  rw [Choice.tagOf, hfind tag h]

/-- A variant without payload is read from every spelling of its label. -/
theorem readChoice_label {deeper? : Option ShapeReader} {c : Choice} {tag : Tag}
    (htag : tag ∈ c.tags) (hpayload : tag.payload? = none) {text s rest : List Char}
    (h : StringSpelling tag.label text) (hs : skipBlanks s = text ++ rest) :
    readChoice deeper? c s = .ok (.bare tag, rest) := by
  obtain ⟨tail, hcons, hbody⟩ := h.eq_cons rest
  rw [hcons] at hs
  simp only [readChoice, hs, if_true, hbody, bind, Except.bind, String.ofList_toList,
    Choice.tagOf_label htag, hpayload, Option.isNone_none]

/-- A variant with a payload is read back from its object, if the payload is within the limit. -/
theorem readChoice_variant {deeper : ShapeReader} {levels depth : Nat} {layout : Layout}
    {c : Choice} {tag : Tag} {shape : Shape} {payload : Datum} (htag : tag ∈ c.tags)
    (hshape : tag.payload? = some shape)
    (hpayload : ReadsWithin levels layout (depth + 1) (deeper shape) payload) {s rest : List Char}
    (hs : skipBlanks s = (Datum.variant tag payload).write layout depth ++ rest) :
    readChoice (some deeper) c s =
      ifWithin levels payload.nesting (.variant tag payload, rest) := by
  have hkey := (stringSpelling_write tag.label).readKey_eq (skipBlanks_writeKeyed layout (depth + 1)
    tag.label (payload.write layout (depth + 1)) (layout.lineBreak depth ++ '\x7d' :: rest))
  have hvalue := hpayload.after_colon rest []
  rw [partsLeft] at hvalue
  have hclose := layout.skipBlanks_lineBreak depth (c := '\x7d') rfl rest
  rw [Datum.write_variant, writeBracketed_append] at hs
  simp only [readChoice, hs, List.map_singleton, partsLeft, hkey, bind, Except.bind,
    Choice.tagOf_label htag, colon_cons, readPayload, hshape, hvalue, ifWithin_map]
  apply ifWithin_bind_ok
  dsimp only
  rw [hclose]
  rfl

/-! ## Steps -/

/-- There are fewer parts than characters left. -/
theorem length_lt_partsLeft (layout : Layout) (depth : Nat) (closing : Char) (rest : List Char)
    (parts : List (List Char)) :
    parts.length < (partsLeft layout depth closing rest false parts).length := by
  induction parts with
  | nil =>
      rw [partsLeft, List.length_append, List.length_cons, List.length_nil]
      omega
  | cons part parts ih =>
      rw [partsLeft, List.length_cons, List.length_cons, List.length_append, List.length_append]
      omega

/-- Each part is among the characters left. -/
theorem length_le_partsLeft (layout : Layout) (depth : Nat) (closing : Char) (rest : List Char)
    {parts : List (List Char)} {part : List Char} (h : part ∈ parts) :
    part.length ≤ (partsLeft layout depth closing rest false parts).length := by
  induction parts with
  | nil => cases h
  | cons other parts ih =>
      rw [partsLeft, List.length_cons, List.length_append, List.length_append]
      rcases List.mem_cons.mp h with rfl | h
      · omega
      · have := ih h
        omega

/-- So many steps as a text between brackets has characters are enough for its parts. -/
theorem steps_of_writeBracketed {layout : Layout} {depth steps : Nat} {opening closing : Char}
    {parts : List (List Char)}
    (h : (writeBracketed layout depth opening closing parts).length ≤ steps) :
    parts.length < steps ∧ ∀ part ∈ parts, part.length ≤ steps := by
  cases parts with
  | nil => exact ⟨Nat.lt_of_lt_of_le Nat.zero_lt_two h, by nofun⟩
  | cons part parts =>
      -- the opening bracket makes up for the comma that the first part does without
      have hlength : (writeBracketed layout depth opening closing (part :: parts)).length =
          (partsLeft layout depth closing [] false (part :: parts)).length := by
        rw [← List.append_nil (writeBracketed _ _ _ _ _), writeBracketed_append]
        rfl
      rw [hlength] at h
      exact ⟨Nat.lt_of_lt_of_le (length_lt_partsLeft layout depth closing [] _) h,
        fun other hother => Nat.le_trans (length_le_partsLeft layout depth closing [] hother) h⟩

/-- A value with its key is no shorter than the value. -/
theorem length_le_writeKeyed (layout : Layout) (key : String) (value : List Char) :
    value.length ≤ (writeKeyed layout key value).length := by
  rw [writeKeyed, List.length_append, List.length_cons, List.length_append]
  omega

/-! ## Data -/

section Readers

variable {kind : InfoKind} {layout : Layout} {depth steps levels : Nat}

/-- A reader of scalars needs no levels. -/
theorem readAt_readsWithin {shape : Shape} {d : Datum} (hflat : d.nesting = 0)
    (h : ∀ deeper? s rest, (∀ n, d = .number n → NumeralEnds rest) →
      skipBlanks s = d.write layout depth ++ rest →
      readShape kind steps deeper? shape s = .ok (d, rest)) :
    ReadsWithin levels layout depth (readAt kind steps levels shape) d := by
  intro s rest hends hs
  rw [hflat, ifWithin_zero]
  cases levels with
  | zero => exact h none s rest hends hs
  | succ levels => exact h (some (readAt kind steps levels)) s rest hends hs

/-- A reader of what stands between brackets needs one level more than a reader of its parts. -/
theorem readAt_readsWithin_succ {shape : Shape} {d : Datum} {nesting : Nat}
    (hnesting : d.nesting = nesting + 1)
    (hnone : ∀ s rest, skipBlanks s = d.write layout depth ++ rest →
      readShape kind steps none shape s = .error .malformed)
    (hsome : ∀ levels s rest, skipBlanks s = d.write layout depth ++ rest →
      readShape kind steps (some (readAt kind steps levels)) shape s =
        ifWithin levels nesting (d, rest)) :
    ReadsWithin levels layout depth (readAt kind steps levels shape) d := by
  intro s rest _ hs
  rw [hnesting]
  cases levels with
  | zero => exact hnone s rest hs
  | succ levels =>
      rw [ifWithin_succ]
      exact hsome levels s rest hs

end Readers

/-- A datum of a shape is read back from its text, if there are levels enough for its nesting. -/
theorem Datum.Fits.readsBack {kind : InfoKind} {shape : Shape} {d : Datum} (h : d.Fits kind shape)
    {layout : Layout} {depth steps : Nat} (levels : Nat)
    (hsteps : (d.write layout depth).length ≤ steps) :
    ReadsWithin levels layout depth (readAt kind steps levels shape) d := by
  induction h generalizing depth levels with
  | unitInfo => exact readAt_readsWithin rfl fun _ s rest _ hs => readNull_write hs
  | offsetInfo n =>
      exact readAt_readsWithin rfl fun _ s rest hends hs => readOffset_write (hends n rfl) hs
  | textInfo t =>
      apply readAt_readsWithin rfl
      intro _ s rest _ hs
      show (readString s).map _ = _
      rw [(stringSpelling_write t).readString_eq hs]
      rfl
  | text t =>
      apply readAt_readsWithin rfl
      intro _ s rest _ hs
      show (readString s).map _ = _
      rw [(stringSpelling_write t).readString_eq hs]
      rfl
  | @list kind item items hitems ih =>
      rw [Datum.write_list] at hsteps
      obtain ⟨hmany, hlong⟩ := steps_of_writeBracketed hsteps
      rw [List.length_map] at hmany
      apply readAt_readsWithin_succ rfl
      · intro s rest hs
        rw [Datum.write_list, writeBracketed_append] at hs
        simp only [readShape, readNodes, hs]
      · intro levels s rest hs
        rw [Datum.write_list, writeBracketed_append] at hs
        have helements := readElements_partsLeft
          (fun d hd => ih d hd levels (hlong _ (List.mem_map_of_mem hd))) hmany true rest
        simp only [readShape, readNodes, hs]
        rw [helements, ifWithin_map]
  | @record kind r fields hlength hfields ih =>
      rw [Datum.write_record] at hsteps
      obtain ⟨hmany, hlong⟩ := steps_of_writeBracketed hsteps
      rw [List.length_map] at hmany
      apply readAt_readsWithin_succ rfl
      · intro s rest hs
        rw [Datum.write_record, writeBracketed_append] at hs
        simp only [readShape, readRecord, hs]
        rfl
      · intro levels s rest hs
        have hentries : ∀ entry ∈ r.fields.zip fields, ReadsWithin levels layout (depth + 1)
            (readField (readAt kind steps levels) entry.1) entry.2 := by
          intro entry hentry
          apply readField_readsWithin
          intro hpresent
          exact ih entry hentry hpresent levels
            (Nat.le_trans (length_le_writeKeyed layout entry.1.name _)
              (hlong _ (List.mem_map_of_mem hentry)))
        exact readRecord_write hlength hentries hmany hs
  | @bare kind c tag htag hpayload =>
      exact readAt_readsWithin rfl fun deeper? s rest _ hs =>
        readChoice_label htag hpayload (stringSpelling_write tag.label) hs
  | @variant kind c tag shape payload htag hshape hpayload ih =>
      rw [Datum.write_variant] at hsteps
      obtain ⟨_, hlong⟩ := steps_of_writeBracketed hsteps
      have hlength : (payload.write layout (depth + 1)).length ≤ steps :=
        Nat.le_trans (length_le_writeKeyed layout tag.label _) (hlong _ List.mem_cons_self)
      apply readAt_readsWithin_succ rfl
      · intro s rest hs
        rw [Datum.write_variant, writeBracketed_append] at hs
        simp only [readShape, readChoice, hs]
        rfl
      · intro levels s rest hs
        exact readChoice_variant htag hshape (ih levels hlength) hs

end Lowering.Json
