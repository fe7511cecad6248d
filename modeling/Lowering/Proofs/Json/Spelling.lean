import Lowering.Proofs.Json.Scalars

/-!
# Spellings of texts

One text can be spelled in many ways: blanks may stand between its tokens, and the characters of a
string may be escaped. This module says in which ways, and that a string is scanned as what it
spells (`StringSpelling.readString_eq`).
-/

namespace Lowering.Json

/-! ## Characters -/

/-- A hexadecimal digit of either case, with its value. -/
def IsHexDigit (value : Nat) (c : Char) : Prop :=
  value < 16 ∧ (c = Nat.digitChar value ∨ c = (Nat.digitChar value).toUpper)

/-- Four hexadecimal digits, with the number that they stand for. -/
inductive IsHex : Nat → List Char → Prop
  | digits {w x y z : Nat} {a b c d : Char} (ha : IsHexDigit w a) (hb : IsHexDigit x b)
      (hc : IsHexDigit y c) (hd : IsHexDigit z d) :
      IsHex (((w * 16 + x) * 16 + y) * 16 + z) [a, b, c, d]

/-- The letters that stand for a character after a backslash, each with its character. -/
def shortEscapes : List (Char × Char) :=
  [('"', '"'), ('\\', '\\'), ('/', '/'), ('b', '\x08'), ('f', '\x0c'), ('n', '\n'), ('r', '\r'),
    ('t', '\t')]

/-- The spellings of a character in a string: as it is, by a letter, by its number, or by the
numbers of a pair of surrogates. -/
inductive CharSpelling : Char → List Char → Prop
  | plain {c : Char} (hquote : c ≠ '"') (hbackslash : c ≠ '\\') (hcontrol : ¬ c < ' ') :
      CharSpelling c [c]
  | short {letter c : Char} (h : (letter, c) ∈ shortEscapes) : CharSpelling c ['\\', letter]
  | unit {c : Char} {hex : List Char} (h : IsHex c.toNat hex) : CharSpelling c ('\\' :: 'u' :: hex)
  | pair {c : Char} {high low : List Char} (hc : 0x10000 ≤ c.toNat)
      (hhigh : IsHex (0xd800 + (c.toNat - 0x10000) / 0x400) high)
      (hlow : IsHex (0xdc00 + (c.toNat - 0x10000) % 0x400) low) :
      CharSpelling c ('\\' :: 'u' :: (high ++ '\\' :: 'u' :: low))

/-- A hexadecimal digit, large or small, has its value. -/
theorem hexValue?_of_isHexDigit {value : Nat} {c : Char} (h : IsHexDigit value c) :
    hexValue? c = some value := by
  have hvalues : ∀ k < 16, hexValue? (Nat.digitChar k) = some k ∧
      hexValue? (Nat.digitChar k).toUpper = some k := by decide
  obtain ⟨hlt, rfl | rfl⟩ := h
  · exact (hvalues value hlt).1
  · exact (hvalues value hlt).2

/-- Four hexadecimal digits are read as their unit. -/
theorem IsHex.fourHex_eq {unit : Nat} {hex : List Char} (h : IsHex unit hex) (rest : List Char) :
    fourHex (hex ++ rest) = .ok (unit, rest) := by
  cases h with
  | digits ha hb hc hd =>
      simp only [List.cons_append, List.nil_append, fourHex, hexValue?_of_isHexDigit ha,
        hexValue?_of_isHexDigit hb, hexValue?_of_isHexDigit hc, hexValue?_of_isHexDigit hd]

/-- A letter of a short escape is scanned to its character. -/
theorem escape_short {letter c : Char} (h : (letter, c) ∈ shortEscapes) (paired : Bool)
    (rest : List Char) : escape paired (letter :: rest) = .ok (c, rest) := by
  have hletters : ∀ pair ∈ shortEscapes, pair.1 ≠ 'u' ∧ escapeLetter? pair.1 = some pair.2 := by
    decide
  obtain ⟨hu, hvalue⟩ := hletters (letter, c) h
  exact escape_letter hu hvalue paired rest

/-- The number of a character is that of no surrogate. -/
theorem toNat_valid (c : Char) :
    c.toNat < 0xd800 ∨ (0xdfff < c.toNat ∧ c.toNat < 0x110000) :=
  c.valid

/-- The units that are low surrogates. -/
theorem isLowSurrogate_iff {unit : Nat} :
    isLowSurrogate unit = true ↔ 0xdc00 ≤ unit ∧ unit ≤ 0xdfff := by
  simp [isLowSurrogate]

/-- The units that are high surrogates. -/
theorem isHighSurrogate_iff {unit : Nat} :
    isHighSurrogate unit = true ↔ 0xd800 ≤ unit ∧ unit ≤ 0xdbff := by
  simp [isHighSurrogate]

/-- The number of a character is scanned to it. -/
theorem escape_unit {c : Char} {hex : List Char} (h : IsHex c.toNat hex) (paired : Bool)
    (rest : List Char) : escape paired ('u' :: (hex ++ rest)) = .ok (c, rest) := by
  have hvalid := toNat_valid c
  have hlow : ¬ (paired && isLowSurrogate c.toNat) = true := by
    rw [Bool.and_eq_true, isLowSurrogate_iff]
    omega
  have hhigh : ¬ (paired && isHighSurrogate c.toNat) = true := by
    rw [Bool.and_eq_true, isHighSurrogate_iff]
    omega
  simp only [escape, if_true, h.fourHex_eq, bind, Except.bind, if_neg hlow, if_neg hhigh,
    Char.ofNat_toNat]

/-- The numbers of a pair of surrogates are scanned to the character that the pair stands for. -/
theorem escape_pair {c : Char} {high low : List Char} (hc : 0x10000 ≤ c.toNat)
    (hhigh : IsHex (0xd800 + (c.toNat - 0x10000) / 0x400) high)
    (hlow : IsHex (0xdc00 + (c.toNat - 0x10000) % 0x400) low) (rest : List Char) :
    escape true ('u' :: (high ++ '\\' :: 'u' :: (low ++ rest))) = .ok (c, rest) := by
  have hvalid := toNat_valid c
  have hnotLow : ¬ (true && isLowSurrogate (0xd800 + (c.toNat - 0x10000) / 0x400)) = true := by
    rw [Bool.true_and, isLowSurrogate_iff]
    omega
  have hisHigh : isHighSurrogate (0xd800 + (c.toNat - 0x10000) / 0x400) = true := by
    rw [isHighSurrogate_iff]
    omega
  have hisLow : isLowSurrogate (0xdc00 + (c.toNat - 0x10000) % 0x400) = true := by
    rw [isLowSurrogate_iff]
    omega
  have hnumber : 0x10000 + (0xd800 + (c.toNat - 0x10000) / 0x400 - 0xd800) * 0x400 +
      (0xdc00 + (c.toNat - 0x10000) % 0x400 - 0xdc00) = c.toNat := by
    omega
  simp only [escape, if_true, hhigh.fourHex_eq, bind, Except.bind, if_neg hnotLow, hisHigh,
    Bool.and_self, surrogatePair, hlow.fourHex_eq, hisLow, hnumber, Char.ofNat_toNat]

/-- A character is scanned from any of its spellings. -/
theorem CharSpelling.stringBody_eq {c : Char} {part : List Char} (h : CharSpelling c part)
    (rest : List Char) :
    stringBody true (part ++ rest) =
      (stringBody true rest).map fun (cs, final) => (c :: cs, final) := by
  cases h with
  | plain hquote hbackslash hcontrol => exact stringBody_plain true hquote hbackslash hcontrol rest
  | short h => exact stringBody_escape (escape_short h true rest)
  | unit h => exact stringBody_escape (escape_unit h true rest)
  | @pair _ high low hc hhigh hlow =>
      have hrest : high ++ '\\' :: 'u' :: low ++ rest = high ++ '\\' :: 'u' :: (low ++ rest) := by
        rw [List.append_assoc, List.cons_append, List.cons_append]
      rw [List.cons_append, List.cons_append, hrest]
      exact stringBody_escape (escape_pair hc hhigh hlow rest)

/-! ## Strings -/

/-- The spellings of the characters of a string, one after the other. -/
inductive BodySpelling : List Char → List Char → Prop
  | nil : BodySpelling [] []
  | cons {c : Char} {cs part body : List Char} (hpart : CharSpelling c part)
      (hbody : BodySpelling cs body) : BodySpelling (c :: cs) (part ++ body)

/-- A text between quotes. -/
def quoted (body : List Char) : List Char :=
  '"' :: (body ++ ['"'])

/-- The spellings of a string, which stands between quotes. -/
def StringSpelling (t : String) (text : List Char) : Prop :=
  ∃ body, BodySpelling t.toList body ∧ text = quoted body

/-- The text of a quoted body with what follows. -/
theorem quoted_append (body rest : List Char) :
    quoted body ++ rest = '"' :: (body ++ '"' :: rest) := by
  rw [quoted, List.cons_append, List.append_assoc, List.singleton_append]

/-- A body is read from every spelling of it. -/
theorem BodySpelling.stringBody_eq {cs body : List Char} (h : BodySpelling cs body)
    (rest : List Char) : stringBody true (body ++ '"' :: rest) = .ok (cs, rest) := by
  induction h with
  | nil => exact stringBody_quote true rest
  | cons hpart _ ih =>
      rw [List.append_assoc, hpart.stringBody_eq, ih]
      rfl

/-- A string is spelled by a quote, and scanned after it. -/
theorem StringSpelling.eq_cons {t : String} {text : List Char} (h : StringSpelling t text)
    (rest : List Char) : ∃ tail, text ++ rest = '"' :: tail ∧
      stringBody true tail = .ok (t.toList, rest) := by
  obtain ⟨body, hbody, rfl⟩ := h
  exact ⟨_, quoted_append body rest, hbody.stringBody_eq rest⟩

/-- A string is read from every spelling of it. -/
theorem StringSpelling.readString_eq {t : String} {text : List Char} (h : StringSpelling t text)
    {s rest : List Char} (hs : skipBlanks s = text ++ rest) : readString s = .ok (t, rest) := by
  obtain ⟨tail, htext, hbody⟩ := h.eq_cons rest
  rw [htext] at hs
  simp only [readString, hs, hbody, Except.map, String.ofList_toList]

/-! ## Strings as they are written -/

/-- The letters that stand for a character are those of the table. -/
theorem mem_shortEscapes {letter c : Char} (h : escapeLetter? letter = some c) :
    (letter, c) ∈ shortEscapes := by
  unfold escapeLetter? at h
  split at h
  · rename_i hsame
    cases h
    rcases hsame with rfl | rfl | rfl <;> decide
  · iterate 5
      split at h
      · subst letter
        cases h
        decide
    cases h

/-- Every four digits are the spelling of a unit. -/
theorem isHex_digits (w x y z : Nat) (h : w < 16 ∧ x < 16 ∧ y < 16 ∧ z < 16) :
    IsHex (((w * 16 + x) * 16 + y) * 16 + z)
      [Nat.digitChar w, Nat.digitChar x, Nat.digitChar y, Nat.digitChar z] :=
  .digits ⟨h.1, .inl rfl⟩ ⟨h.2.1, .inl rfl⟩ ⟨h.2.2.1, .inl rfl⟩ ⟨h.2.2.2, .inl rfl⟩

/-- A character is written in one of its spellings. -/
theorem charSpelling_write (c : Char) : CharSpelling c (writeChar c) := by
  rcases writeChar_cases c with ⟨letter, hwrite, _, hletter⟩ | ⟨hcontrol, hwrite⟩ |
    ⟨hquote, hbackslash, hcontrol, hwrite⟩
  · rw [hwrite]
    exact .short (mem_shortEscapes hletter)
  · have hsmall : c.toNat < 32 := hcontrol
    have hdigits := isHex_digits 0 0 (c.toNat / 16) (c.toNat % 16) (by omega)
    have hnumber : ((0 * 16 + 0) * 16 + c.toNat / 16) * 16 + c.toNat % 16 = c.toNat := by omega
    rw [hwrite]
    rw [hnumber] at hdigits
    exact .unit hdigits
  · rw [hwrite]
    exact .plain hquote hbackslash hcontrol

/-- What is written for characters is a spelling of them. -/
theorem bodySpelling_write (cs : List Char) : BodySpelling cs (cs.flatMap writeChar) := by
  induction cs with
  | nil => exact .nil
  | cons c cs ih =>
      rw [List.flatMap_cons]
      exact .cons (charSpelling_write c) ih

/-- What is written for a string is a spelling of it. -/
theorem stringSpelling_write (t : String) : StringSpelling t (writeString t) :=
  ⟨_, bodySpelling_write t.toList, rfl⟩

/-! ## Blanks between tokens -/

/-- Blanks, or nothing. -/
structure Blanks where
  chars : List Char
  isBlank_of_mem : ∀ c ∈ chars, isBlank c = true

/-- Something with blanks around it. -/
structure Padded (α : Type) where
  before : Blanks
  core : α
  after : Blanks

/-- A value with its key, and with blanks around both. -/
structure Keyed (α : Type) where
  key : Padded (List Char)
  value : Padded α

variable {α : Type} (write : α → List Char)

/-- The text of something with its blanks, given how it is written. -/
def Padded.text (p : Padded α) : List Char :=
  p.before.chars ++ (write p.core ++ p.after.chars)

/-- The text of a member, given how its value is written. -/
def Keyed.text (m : Keyed α) : List Char :=
  m.key.text id ++ ':' :: m.value.text write

/-- Parts with commas between them, in brackets. The blanks stand for those between brackets with no
part between them. -/
def bracketed (opening closing : Char) (blanks : Blanks) (parts : List (List Char)) : List Char :=
  opening :: (blanks.chars ++ ([','].intercalate parts ++ [closing]))

/-- What is left of a text in brackets, with the parts that are still to come and the text after it.
The flag says whether the next part would be the first. -/
def partsThen (closing : Char) (rest : List Char) : Bool → List (List Char) → List Char
  | _, [] => closing :: rest
  | true, part :: parts => part ++ partsThen closing rest false parts
  | false, part :: parts => ',' :: (part ++ partsThen closing rest false parts)

/-- Parts joined by commas with the closing bracket after them. -/
theorem intercalate_append (closing : Char) (rest : List Char) (parts : List (List Char)) :
    [','].intercalate parts ++ closing :: rest = partsThen closing rest true parts := by
  induction parts with
  | nil => rfl
  | cons part parts ih =>
      cases parts with
      | nil => rw [List.intercalate_singleton, partsThen, partsThen]
      | cons next parts =>
          rw [List.intercalate_cons_cons, List.append_assoc, List.append_assoc, ih]
          rfl

/-- A text in brackets is its opening bracket and all parts left. -/
theorem bracketed_append (opening closing : Char) (blanks : Blanks) (parts : List (List Char))
    (rest : List Char) :
    bracketed opening closing blanks parts ++ rest =
      opening :: (blanks.chars ++ partsThen closing rest true parts) := by
  rw [bracketed, List.cons_append, List.append_assoc, List.append_assoc, List.singleton_append,
    intercalate_append]

/-- A text starts with neither a blank nor a bracket that closes an array. -/
def Starts (text : List Char) : Prop :=
  ∃ c tail, text = c :: tail ∧ isBlank c = false ∧ c ≠ ']'

/-- What starts with no blank stays. -/
theorem Starts.skipBlanks_append {text : List Char} (h : Starts text) (rest : List Char) :
    skipBlanks (text ++ rest) = text ++ rest := by
  obtain ⟨c, tail, rfl, hblank, _⟩ := h
  exact skipBlanks_cons hblank (tail ++ rest)

/-- What starts with a character is not empty. -/
theorem Starts.length_pos {text : List Char} (h : Starts text) : 0 < text.length := by
  obtain ⟨c, tail, rfl, _, _⟩ := h
  exact Nat.zero_lt_succ _

/-- A string starts with a quote. -/
theorem starts_quoted (body : List Char) : Starts (quoted body) :=
  ⟨'"', _, rfl, rfl, by decide⟩

/-- A text in brackets starts with the opening one. -/
theorem starts_bracketed {opening : Char} (hopening : opening = '[' ∨ opening = '\x7b')
    (closing : Char) (blanks : Blanks) (parts : List (List Char)) :
    Starts (bracketed opening closing blanks parts) := by
  refine ⟨opening, _, rfl, ?_⟩
  rcases hopening with rfl | rfl <;> decide

/-- Every spelling of a string starts with a quote. -/
theorem StringSpelling.starts {t : String} {text : List Char} (h : StringSpelling t text) :
    Starts text := by
  obtain ⟨body, _, rfl⟩ := h
  exact starts_quoted body

/-- Blanks are skipped. -/
theorem Blanks.skipBlanks_append (blanks : Blanks) (rest : List Char) :
    skipBlanks (blanks.chars ++ rest) = skipBlanks rest :=
  Json.skipBlanks_append blanks.isBlank_of_mem rest

/-- A colon is read after blanks. -/
theorem Blanks.colon_eq (blanks : Blanks) (rest : List Char) :
    colon (blanks.chars ++ ':' :: rest) = .ok rest := by
  rw [colon, blanks.skipBlanks_append, skipBlanks_cons rfl]
  rfl

variable {write}

/-- The text of a padded part with what follows. -/
theorem Padded.text_append (p : Padded α) (rest : List Char) :
    p.text write ++ rest = p.before.chars ++ (write p.core ++ (p.after.chars ++ rest)) := by
  rw [Padded.text, List.append_assoc, List.append_assoc]

/-- The blanks before a part are skipped, and those after it stay. -/
theorem Padded.skipBlanks_text {p : Padded α} (h : Starts (write p.core)) (rest : List Char) :
    skipBlanks (p.text write ++ rest) = write p.core ++ (p.after.chars ++ rest) := by
  rw [p.text_append, p.before.skipBlanks_append, h.skipBlanks_append]

/-- The text of a member with what follows. -/
theorem Keyed.text_append (m : Keyed α) (rest : List Char) :
    m.text write ++ rest = m.key.text id ++ ':' :: (m.value.text write ++ rest) := by
  rw [Keyed.text, List.append_assoc, List.cons_append]

/-- A comma or a closing bracket follows a part, and a numeral does not go on there. -/
theorem partsThen_false_eq_cons {closing : Char} (hclosing : closing = ']' ∨ closing = '\x7d')
    (rest : List Char) (parts : List (List Char)) :
    ∃ c tail, partsThen closing rest false parts = c :: tail ∧ isBlank c = false ∧
      NumeralEnds (c :: tail) := by
  have hends : ∀ c tail, c = ',' ∨ c = ']' ∨ c = '\x7d' →
      isBlank c = false ∧ NumeralEnds (c :: tail) := by
    rintro c tail hc
    refine ⟨by rcases hc with rfl | rfl | rfl <;> rfl, ?_⟩
    rintro d hd
    cases hd
    rcases hc with rfl | rfl | rfl <;> decide
  cases parts with
  | nil => exact ⟨closing, rest, rfl, hends closing rest (.inr hclosing)⟩
  | cons part parts => exact ⟨',', _, rfl, hends ',' _ (.inl rfl)⟩

/-- What comes after a part starts with no blank. -/
theorem skipBlanks_partsThen {closing : Char} (hclosing : closing = ']' ∨ closing = '\x7d')
    (rest : List Char) (parts : List (List Char)) :
    skipBlanks (partsThen closing rest false parts) = partsThen closing rest false parts := by
  obtain ⟨c, tail, hparts, hblank, _⟩ := partsThen_false_eq_cons hclosing rest parts
  rw [hparts, skipBlanks_cons hblank]

/-- What comes after a part can follow a numeral. -/
theorem numeralEnds_partsThen {closing : Char} (hclosing : closing = ']' ∨ closing = '\x7d')
    (rest : List Char) (parts : List (List Char)) (blanks : Blanks) :
    NumeralEnds (blanks.chars ++ partsThen closing rest false parts) := by
  obtain ⟨c, tail, hparts, _, hends⟩ := partsThen_false_eq_cons hclosing rest parts
  rw [hparts]
  exact numeralEnds_blanks blanks.isBlank_of_mem hends

/-- Skipping blanks makes no text longer. -/
theorem length_skipBlanks_le (s : List Char) : (skipBlanks s).length ≤ s.length :=
  (List.dropWhile_suffix isBlank).length_le

end Lowering.Json
