import Mathlib.Data.List.DropRight
import Lowering.Json.Skip
import Lowering.Proofs.Json.Spelling

/-!
# Well-formed values are skipped

`IsValue` says which texts are well-formed JSON values. Main statement: a value that nobody asks for
is skipped if it is well-formed, however deep it nests (`IsValue.skipValueIn_eq`).
-/

namespace Lowering.Json

/-! ## Numerals -/

/-- One or more digits. -/
def IsDigits (digits : List Char) : Prop :=
  digits ≠ [] ∧ ∀ c ∈ digits, c.isDigit = true

/-- The digits of an integer, among which a zero comes first only if it stands alone. -/
inductive IsInteger : List Char → Prop
  | zero : IsInteger ['0']
  | digits {digits : List Char} (h : IsDigits digits) (hzero : digits.head? ≠ some '0') :
      IsInteger digits

/-- A point with digits after it, or nothing. -/
inductive IsFraction : List Char → Prop
  | absent : IsFraction []
  | digits {digits : List Char} (h : IsDigits digits) : IsFraction ('.' :: digits)

/-- An exponent, or nothing. -/
inductive IsExponent : List Char → Prop
  | absent : IsExponent []
  | digits {mark : Char} {sign digits : List Char} (hmark : mark = 'e' ∨ mark = 'E')
      (hsign : sign = [] ∨ sign = ['+'] ∨ sign = ['-']) (h : IsDigits digits) :
      IsExponent (mark :: (sign ++ digits))

/-- A number as JSON has it. -/
inductive IsNumeral : List Char → Prop
  | mk {sign integer fraction exponent : List Char} (hsign : sign = [] ∨ sign = ['-'])
      (hinteger : IsInteger integer) (hfraction : IsFraction fraction)
      (hexponent : IsExponent exponent) :
      IsNumeral (sign ++ (integer ++ (fraction ++ exponent)))

/-- Digits begin with a digit. -/
theorem IsDigits.head_isDigit {digits : List Char} (h : IsDigits digits) (rest : List Char) :
    ∃ c tail, digits ++ rest = c :: tail ∧ c.isDigit = true := by
  obtain ⟨c, cs, rfl⟩ := List.exists_cons_of_ne_nil h.1
  exact ⟨c, cs ++ rest, rfl, h.2 c List.mem_cons_self⟩

/-- An integer is made of digits. -/
theorem IsInteger.isDigits {integer : List Char} (h : IsInteger integer) : IsDigits integer := by
  cases h with
  | zero => exact ⟨by decide, by simp⟩
  | digits h _ => exact h

/-- An integer is read up to the first character that is no digit. -/
theorem IsInteger.wholeDigits_eq {integer rest : List Char} (h : IsInteger integer)
    (hends : ∀ c ∈ rest.head?, c.isDigit = false) (cut : Fault) :
    wholeDigits cut (integer ++ rest) = .ok (integer, rest) := by
  have hsingle : ¬ (integer.length > 1 ∧ integer.head? = some '0') := by
    cases h with
    | zero => decide
    | digits _ hzero => exact fun hlong => hzero hlong.2
  simp only [wholeDigits, someDigits_append h.isDigits.1 h.isDigits.2 hends, bind, Except.bind,
    if_neg hsingle]

/-- A fraction is read to its end. -/
theorem IsFraction.fractionDigits_eq {fraction rest : List Char} (h : IsFraction fraction)
    (hends : ∀ c ∈ rest.head?, c.isDigit = false ∧ c ≠ '.') (cut : Fault) :
    ∃ digits, fractionDigits cut (fraction ++ rest) = .ok (digits, rest) := by
  cases h with
  | absent => exact ⟨[], fractionDigits_of_ne (fun c hc => (hends c hc).2) cut⟩
  | @digits digits h =>
      exact ⟨digits, someDigits_append h.1 h.2 (fun c hc => (hends c hc).1) cut⟩

/-- An exponent is read to its end. -/
theorem IsExponent.exponentPart_eq {exponent rest : List Char} (h : IsExponent exponent)
    (hends : NumeralEnds rest) (cut : Fault) :
    ∃ value, exponentPart cut (exponent ++ rest) = .ok (value, rest) := by
  cases h with
  | absent => exact ⟨none, exponentPart_of_ne (fun c hc => (hends c hc).2.2) cut⟩
  | @digits mark sign digits hmark hsign h =>
      have hdigits := someDigits_append h.1 h.2 (fun c hc => (hends c hc).1) cut
      rw [List.cons_append, List.append_assoc]
      rcases hsign with rfl | rfl | rfl
      · obtain ⟨c, tail, hcons, hc⟩ := h.head_isDigit rest
        have hplus : c ≠ '+' := ne_of_isDigit hc (by decide)
        have hminus : c ≠ '-' := ne_of_isDigit hc (by decide)
        rw [hcons] at hdigits
        rw [List.nil_append, hcons, exponentPart, if_pos hmark, hdigits]
        · exact ⟨_, rfl⟩
        · exact fun tail' htail => hplus (List.cons.inj htail).1
        · exact fun tail' htail => hminus (List.cons.inj htail).1
      · rw [List.singleton_append, exponentPart, if_pos hmark, hdigits]
        exact ⟨_, rfl⟩
      · rw [List.singleton_append, exponentPart, if_pos hmark, hdigits]
        exact ⟨_, rfl⟩

/-- A numeral is scanned up to where it does not go on. -/
theorem IsNumeral.numeral_eq {text rest : List Char} (h : IsNumeral text) (hends : NumeralEnds rest)
    (cut : Fault) : ∃ n, numeral cut (text ++ rest) = .ok (n, rest) := by
  cases h with
  | @mk sign integer fraction exponent hsign hinteger hfraction hexponent =>
      have hexponentEnds : ∀ c ∈ (exponent ++ rest).head?, c.isDigit = false ∧ c ≠ '.' := by
        cases hexponent with
        | absent => exact fun c hc => ⟨(hends c hc).1, (hends c hc).2.1⟩
        | digits hmark _ _ =>
            rintro c hc
            cases hc
            rcases hmark with rfl | rfl <;> decide
      have hfractionEnds : ∀ c ∈ (fraction ++ (exponent ++ rest)).head?, c.isDigit = false := by
        cases hfraction with
        | absent => exact fun c hc => (hexponentEnds c hc).1
        | digits _ =>
            rintro c hc
            cases hc
            decide
      have hwhole := hinteger.wholeDigits_eq hfractionEnds cut
      obtain ⟨digits, hpoint⟩ := hfraction.fractionDigits_eq hexponentEnds cut
      obtain ⟨value, hpower⟩ := hexponent.exponentPart_eq hends cut
      obtain ⟨c, tail, hcons, hc⟩ := hinteger.isDigits.head_isDigit (fraction ++ (exponent ++ rest))
      rw [List.append_assoc, List.append_assoc, List.append_assoc]
      rcases hsign with rfl | rfl
      · have hpositive : ¬ (integer ++ (fraction ++ (exponent ++ rest))).head? = some '-' := by
          rw [hcons, List.head?_cons, Option.some.injEq]
          exact ne_of_isDigit hc (by decide)
        simp only [List.nil_append, numeral, hpositive, if_false, hwhole, hpoint, hpower, bind,
          Except.bind, decide_false]
        exact ⟨_, rfl⟩
      · simp only [List.singleton_append, numeral, List.head?_cons, if_true, List.tail_cons, hwhole,
          hpoint, hpower, bind, Except.bind]
        exact ⟨_, rfl⟩

/-! ## Strings -/

/-- A part of a string: a character as it is, or an escape. Surrogates need not come in pairs. -/
inductive IsStringPart : List Char → Prop
  | plain {c : Char} (hquote : c ≠ '"') (hbackslash : c ≠ '\\') (hcontrol : ¬ c < ' ') :
      IsStringPart [c]
  | short {letter c : Char} (h : (letter, c) ∈ shortEscapes) : IsStringPart ['\\', letter]
  | unit {unit : Nat} {hex : List Char} (h : IsHex unit hex) : IsStringPart ('\\' :: 'u' :: hex)

/-- The parts of a string, one after the other. -/
inductive IsStringBody : List Char → Prop
  | nil : IsStringBody []
  | cons {part body : List Char} (hpart : IsStringPart part) (hbody : IsStringBody body) :
      IsStringBody (part ++ body)

/-- A string as JSON has it. -/
def IsString (text : List Char) : Prop :=
  ∃ body, IsStringBody body ∧ text = quoted body

/-- A part of a string is skipped as one character. -/
theorem IsStringPart.stringBody_eq {part : List Char} (h : IsStringPart part) (rest : List Char) :
    ∃ c, stringBody false (part ++ rest) =
      (stringBody false rest).map fun (cs, final) => (c :: cs, final) := by
  cases h with
  | @plain c hquote hbackslash hcontrol =>
      exact ⟨c, stringBody_plain false hquote hbackslash hcontrol rest⟩
  | @short letter c h => exact ⟨c, stringBody_escape (escape_short h false rest)⟩
  | @unit unit hex h =>
      have hescape : escape false ('u' :: (hex ++ rest)) = .ok (Char.ofNat unit, rest) := by
        rw [escape, if_pos rfl, h.fourHex_eq]
        rfl
      exact ⟨Char.ofNat unit, stringBody_escape hescape⟩

/-- The parts of a string are skipped up to its closing quote. -/
theorem IsStringBody.stringBody_eq {body : List Char} (h : IsStringBody body) (rest : List Char) :
    ∃ cs, stringBody false (body ++ '"' :: rest) = .ok (cs, rest) := by
  induction h with
  | nil => exact ⟨[], stringBody_quote false rest⟩
  | @cons part body hpart _ ih =>
      obtain ⟨cs, hcs⟩ := ih
      obtain ⟨c, hc⟩ := hpart.stringBody_eq (body ++ '"' :: rest)
      refine ⟨c :: cs, ?_⟩
      rw [List.append_assoc, hc, hcs]
      rfl

/-- A string begins with a quote and is skipped from there. -/
theorem IsString.eq_cons {text : List Char} (h : IsString text) (rest : List Char) :
    ∃ tail cs, text ++ rest = '"' :: tail ∧ stringBody false tail = .ok (cs, rest) := by
  obtain ⟨body, hbody, rfl⟩ := h
  obtain ⟨cs, hcs⟩ := hbody.stringBody_eq rest
  exact ⟨_, cs, quoted_append body rest, hcs⟩

/-- A string begins neither with a blank nor with a closing bracket. -/
theorem IsString.starts {text : List Char} (h : IsString text) : Starts text := by
  obtain ⟨body, _, rfl⟩ := h
  exact starts_quoted body

/-! ## Values -/

/-- The well-formed values. -/
inductive IsValue : List Char → Prop
  | null : IsValue ['n', 'u', 'l', 'l']
  | true : IsValue ['t', 'r', 'u', 'e']
  | false : IsValue ['f', 'a', 'l', 's', 'e']
  | numeral {text : List Char} (h : IsNumeral text) : IsValue text
  | string {text : List Char} (h : IsString text) : IsValue text
  | array (blanks : Blanks) {items : List (Padded (List Char))}
      (hitems : ∀ item ∈ items, IsValue item.core) :
      IsValue (bracketed '[' ']' blanks (items.map (Padded.text id)))
  | object (blanks : Blanks) {members : List (Keyed (List Char))}
      (hkeys : ∀ m ∈ members, IsString m.key.core)
      (hvalues : ∀ m ∈ members, IsValue m.value.core) :
      IsValue (bracketed '\x7b' '\x7d' blanks (members.map (Keyed.text id)))

/-- The text of a scalar: it is not in brackets, and skipped as a scalar. -/
def IsScalar (text : List Char) : Prop :=
  ∀ rest, NumeralEnds rest → ∃ c tail, text ++ rest = c :: tail ∧ isBlank c = false ∧ c ≠ ']' ∧
    c ≠ '[' ∧ c ≠ '\x7b' ∧ skipScalar (c :: tail) = .ok rest

/-- The words are scalars. -/
theorem isScalar_word {text : List Char}
    (h : text ∈ ["null".toList, "true".toList, "false".toList]) : IsScalar text := by
  intro rest _
  simp only [List.mem_cons, List.not_mem_nil, or_false] at h
  rcases h with rfl | rfl | rfl
  all_goals exact ⟨_, _, rfl, rfl, by decide, by decide, by decide, rfl⟩

/-- Numerals are scalars. -/
theorem IsNumeral.isScalar {text : List Char} (h : IsNumeral text) : IsScalar text := by
  intro rest hends
  obtain ⟨n, hn⟩ := h.numeral_eq hends .malformed
  have hfirst : ∃ c tail, text ++ rest = c :: tail ∧ (c = '-' ∨ c.isDigit = true) := by
    cases h with
    | @mk sign integer fraction exponent hsign hinteger _ _ =>
        obtain ⟨c, tail, hcons, hc⟩ := hinteger.isDigits.head_isDigit (fraction ++ exponent ++ rest)
        rw [List.append_assoc, List.append_assoc, hcons]
        rcases hsign with rfl | rfl
        · exact ⟨c, tail, rfl, .inr hc⟩
        · exact ⟨'-', c :: tail, rfl, .inl rfl⟩
  obtain ⟨c, tail, hcons, hc⟩ := hfirst
  have hne : ∀ d : Char, d.isDigit = false → d ≠ '-' → c ≠ d := by
    rintro d hd hminus rfl
    rcases hc with rfl | hc
    · exact hminus rfl
    · rw [hc] at hd
      cases hd
  have hblank : isBlank c = false := by
    simp [isBlank, hne]
  rw [hcons] at hn
  refine ⟨c, tail, hcons, hblank, hne _ (by decide) (by decide), hne _ (by decide) (by decide),
    hne _ (by decide) (by decide), ?_⟩
  rw [skipScalar, if_neg (hne 'n' (by decide) (by decide)),
    if_neg (hne 't' (by decide) (by decide)), if_neg (hne 'f' (by decide) (by decide)),
    if_neg (hne '"' (by decide) (by decide)), if_pos hc, hn]
  rfl

/-- Strings are scalars. -/
theorem IsString.isScalar {text : List Char} (h : IsString text) : IsScalar text := by
  intro rest _
  obtain ⟨tail, cs, hcons, hbody⟩ := h.eq_cons rest
  refine ⟨'"', tail, hcons, rfl, by decide, by decide, by decide, ?_⟩
  show (stringBody false tail).map Prod.snd = .ok rest
  rw [hbody]
  rfl

/-- A text is skipped as a value: what is left to do is to skip what follows it in the arrays and
objects around it. -/
def IsSkipped (text : List Char) : Prop :=
  Starts text ∧ ∀ frames steps s rest, NumeralEnds rest → skipBlanks s = text ++ rest →
    s.length < steps → ∃ left, rest.length < left ∧
      skipValueIn steps frames s = skipRestOf left frames rest

/-- A scalar is skipped in one step. -/
theorem IsScalar.isSkipped {text : List Char} (h : IsScalar text) : IsSkipped text := by
  have hpos : Starts text := by
    obtain ⟨c, tail, hcons, hblank, hclosing, _⟩ := h [] (by nofun)
    rw [List.append_nil] at hcons
    exact ⟨c, tail, hcons, hblank, hclosing⟩
  refine ⟨hpos, ?_⟩
  intro frames steps s rest hends hs hsteps
  obtain ⟨c, tail, hcons, _, _, hsquare, hcurly, hscalar⟩ := h rest hends
  have hlength := length_skipBlanks_le s
  rw [hs, List.length_append] at hlength
  have := hpos.length_pos
  cases steps with
  | zero => cases hsteps
  | succ steps =>
      rw [hcons] at hs
      refine ⟨steps, by omega, ?_⟩
      rw [skipValueIn, hs]
      dsimp only
      rw [if_neg hsquare, if_neg hcurly, hscalar]
      rfl

/-! ## Arrays and objects -/

/-- The bracket that opens an array or an object. -/
def Frame.opening : Frame → Char
  | .array => '['
  | .object => '\x7b'

/-- The bracket that closes an array or an object. -/
def Frame.closing : Frame → Char
  | .array => ']'
  | .object => '\x7d'

/-- The opening brackets. -/
theorem Frame.opening_eq (frame : Frame) : frame.opening = '[' ∨ frame.opening = '\x7b' := by
  cases frame <;> decide

/-- The closing brackets. -/
theorem Frame.closing_eq (frame : Frame) : frame.closing = ']' ∨ frame.closing = '\x7d' := by
  cases frame <;> decide

/-- Skip an item of an array, or a member of an object. -/
def skipPart (steps : Nat) (frames : List Frame) (s : List Char) :
    Frame → Except Fault (List Char)
  | .array => skipValueIn steps (.array :: frames) s
  | .object => do
      let rest ← skipKey s
      skipValueIn steps (.object :: frames) rest

/-- At a closing bracket, what follows the array or object around is to be skipped. -/
theorem skipRestOf_closing {frame : Frame} {frames : List Frame} {steps : Nat} {s rest : List Char}
    (hs : skipBlanks s = frame.closing :: rest) :
    skipRestOf (steps + 1) (frame :: frames) s = skipRestOf steps frames rest := by
  rw [skipRestOf.eq_def]
  dsimp only
  rw [hs]
  cases frame <;> rfl

/-- After a comma, the next part is to be skipped. -/
theorem skipRestOf_comma {frame : Frame} {frames : List Frame} {steps : Nat} {s rest : List Char}
    (hs : skipBlanks s = ',' :: rest) :
    skipRestOf (steps + 1) (frame :: frames) s = skipPart steps frames rest frame := by
  rw [skipRestOf.eq_def]
  dsimp only
  rw [hs]
  cases frame <;> rfl

/-- An array or object without parts is skipped at once. -/
theorem skipValueIn_empty {frame : Frame} {frames : List Frame} {steps : Nat}
    {s inside rest : List Char} (hs : skipBlanks s = frame.opening :: inside)
    (hinside : skipBlanks inside = frame.closing :: rest) :
    skipValueIn (steps + 1) frames s = skipRestOf steps frames rest := by
  rw [skipValueIn, hs]
  cases frame with
  | array =>
      dsimp only [Frame.opening]
      rw [if_pos rfl, hinside]
      rfl
  | object =>
      dsimp only [Frame.opening]
      rw [if_neg (by decide), if_pos rfl, hinside]
      rfl

/-- After an opening bracket, the first part is to be skipped. -/
theorem skipValueIn_opening {frame : Frame} {frames : List Frame} {steps : Nat}
    {s inside tail : List Char} {c : Char} (hs : skipBlanks s = frame.opening :: inside)
    (hinside : skipBlanks inside = c :: tail) (hc : c ≠ frame.closing) :
    skipValueIn (steps + 1) frames s = skipPart steps frames (c :: tail) frame := by
  rw [skipValueIn, hs]
  cases frame with
  | array =>
      dsimp only [Frame.opening]
      rw [if_pos rfl, hinside]
      split
      · rename_i heq
        exact absurd (List.cons.inj heq).1 hc
      · rfl
  | object =>
      dsimp only [Frame.opening]
      rw [if_neg (by decide), if_pos rfl, hinside]
      split
      · rename_i heq
        exact absurd (List.cons.inj heq).1 hc
      · rfl

/-- A text is skipped as an item of an array, or as a member of an object, up to where a comma or
the closing bracket is expected. -/
structure IsSkippedIn (frame : Frame) (part : List Char) : Prop where
  starts (more : List Char) :
    ∃ c tail, skipBlanks (part ++ more) = c :: tail ∧ c ≠ frame.closing
  skips (frames : List Frame) {steps : Nat} {s more : List Char}
    (hends : ∀ blanks : Blanks, NumeralEnds (blanks.chars ++ more))
    (hs : skipBlanks s = skipBlanks (part ++ more)) (hsteps : s.length < steps) :
    ∃ left s', s'.length < left ∧ skipBlanks s' = skipBlanks more ∧
      skipPart steps frames s frame = skipRestOf left (frame :: frames) s'

/-- An element is skipped in an array if its value is skipped. -/
theorem IsSkippedIn.item {item : Padded (List Char)} (h : IsSkipped item.core) :
    IsSkippedIn .array (item.text id) where
  starts more := by
    obtain ⟨c, tail, hcore, _, hclosing⟩ := h.1
    refine ⟨c, tail ++ (item.after.chars ++ more), ?_, hclosing⟩
    rw [Padded.skipBlanks_text h.1, id_eq, hcore, List.cons_append]
  skips frames steps s more hends hs hsteps := by
    rw [Padded.skipBlanks_text h.1] at hs
    obtain ⟨left, hleft, hskip⟩ := h.2 (.array :: frames) steps s _ (hends item.after) hs hsteps
    exact ⟨left, _, hleft, item.after.skipBlanks_append more, hskip⟩

/-- A key is skipped with its colon. -/
theorem skipKey_eq {key : Padded (List Char)} (h : IsString key.core) {s more : List Char}
    (hs : skipBlanks s = skipBlanks (key.text id ++ ':' :: more)) : skipKey s = .ok more := by
  obtain ⟨tail, cs, hcons, hbody⟩ := h.eq_cons (key.after.chars ++ ':' :: more)
  rw [Padded.skipBlanks_text h.starts, id_eq, hcons] at hs
  simp only [skipKey, hs, if_true, hbody, bind, Except.bind, key.after.colon_eq]

/-- A member is skipped in an object if its key is a string and its value is skipped. -/
theorem IsSkippedIn.member {m : Keyed (List Char)} (hkey : IsString m.key.core)
    (hvalue : IsSkipped m.value.core) : IsSkippedIn .object (m.text id) where
  starts more := by
    obtain ⟨tail, _, hcons, _⟩ :=
      hkey.eq_cons (m.key.after.chars ++ ':' :: (m.value.text id ++ more))
    refine ⟨'"', tail, ?_, by decide⟩
    rw [m.text_append, Padded.skipBlanks_text hkey.starts, id_eq, hcons]
  skips frames steps s more hends hs hsteps := by
    rw [m.text_append] at hs
    have hlength : (m.value.text id ++ more).length < steps := by
      have hshort := length_skipBlanks_le s
      rw [hs, Padded.skipBlanks_text hkey.starts] at hshort
      simp only [List.length_append, List.length_cons] at hshort ⊢
      omega
    have htext : skipBlanks (m.value.text id ++ more) =
        m.value.core ++ (m.value.after.chars ++ more) := Padded.skipBlanks_text hvalue.1 more
    obtain ⟨left, hleft, hskip⟩ :=
      hvalue.2 (.object :: frames) steps _ _ (hends m.value.after) htext hlength
    refine ⟨left, _, hleft, m.value.after.skipBlanks_append more, ?_⟩
    rw [skipPart, skipKey_eq hkey hs]
    exact hskip

/-- The parts of an array or an object that are left are skipped with it. -/
theorem skipRestOf_parts {frame : Frame} {parts : List (List Char)}
    (hparts : ∀ part ∈ parts, IsSkippedIn frame part) (frames : List Frame) {steps : Nat}
    {s rest : List Char} (hs : skipBlanks s = partsThen frame.closing rest false parts)
    (hsteps : s.length < steps) :
    ∃ left, rest.length < left ∧
      skipRestOf steps (frame :: frames) s = skipRestOf left frames rest := by
  induction parts generalizing steps s with
  | nil =>
      have hlength := length_skipBlanks_le s
      rw [hs, partsThen, List.length_cons] at hlength
      cases steps with
      | zero => cases hsteps
      | succ steps => exact ⟨steps, by omega, skipRestOf_closing hs⟩
  | cons part parts ih =>
      have hlength := length_skipBlanks_le s
      rw [hs, partsThen, List.length_cons] at hlength
      cases steps with
      | zero => cases hsteps
      | succ steps =>
          obtain ⟨hpart, hrest⟩ := List.forall_mem_cons.mp hparts
          obtain ⟨left, s', hleft, hs', hskip⟩ := hpart.skips frames
            (numeralEnds_partsThen frame.closing_eq rest parts) rfl
            (Nat.lt_of_lt_of_le hlength (Nat.le_of_lt_succ hsteps))
          rw [skipBlanks_partsThen frame.closing_eq] at hs'
          rw [skipRestOf_comma hs, hskip]
          exact ih hrest hs' hleft

/-- An array or an object is skipped if its parts are. -/
theorem isSkipped_bracketed {frame : Frame} (blanks : Blanks) {parts : List (List Char)}
    (hparts : ∀ part ∈ parts, IsSkippedIn frame part) :
    IsSkipped (bracketed frame.opening frame.closing blanks parts) := by
  refine ⟨starts_bracketed frame.opening_eq frame.closing blanks parts, ?_⟩
  intro frames steps s rest _ hs hsteps
  have hlength := length_skipBlanks_le s
  rw [bracketed_append] at hs
  rw [hs, List.length_cons, List.length_append] at hlength
  have hinside := blanks.skipBlanks_append (partsThen frame.closing rest true parts)
  cases steps with
  | zero => cases hsteps
  | succ steps =>
      cases parts with
      | nil =>
          rw [partsThen, skipBlanks_cons (by cases frame <;> rfl)] at hinside
          rw [partsThen, List.length_cons] at hlength
          exact ⟨steps, by omega, skipValueIn_empty hs hinside⟩
      | cons part parts =>
          obtain ⟨hpart, hrest⟩ := List.forall_mem_cons.mp hparts
          obtain ⟨c, tail, hfirst, hc⟩ := hpart.starts (partsThen frame.closing rest false parts)
          rw [partsThen, hfirst] at hinside
          have hshort := length_skipBlanks_le (part ++ partsThen frame.closing rest false parts)
          have hagain : skipBlanks (c :: tail) =
              skipBlanks (part ++ partsThen frame.closing rest false parts) := by
            rw [← hfirst]
            exact List.dropWhile_idempotent isBlank _
          rw [hfirst] at hshort
          rw [partsThen] at hlength
          have hfits : (c :: tail).length < steps := by omega
          obtain ⟨left, s', hleft, hs', hskip⟩ := hpart.skips frames
            (numeralEnds_partsThen frame.closing_eq rest parts) hagain hfits
          rw [skipBlanks_partsThen frame.closing_eq] at hs'
          rw [skipValueIn_opening hs hinside hc, hskip]
          exact skipRestOf_parts hrest frames hs' hleft

/-- A well-formed value is skipped. -/
theorem IsValue.isSkipped {text : List Char} (h : IsValue text) : IsSkipped text := by
  induction h with
  | null => exact (isScalar_word (by decide)).isSkipped
  | true => exact (isScalar_word (by decide)).isSkipped
  | false => exact (isScalar_word (by decide)).isSkipped
  | numeral h => exact h.isScalar.isSkipped
  | string h => exact h.isScalar.isSkipped
  | array blanks hitems ih =>
      refine isSkipped_bracketed blanks (?_ : ∀ part ∈ _, IsSkippedIn .array part)
      intro part hpart
      obtain ⟨item, hitem, rfl⟩ := List.mem_map.mp hpart
      exact .item (ih item hitem)
  | object blanks hkeys hvalues ih =>
      refine isSkipped_bracketed blanks (?_ : ∀ part ∈ _, IsSkippedIn .object part)
      intro part hpart
      obtain ⟨m, hm, rfl⟩ := List.mem_map.mp hpart
      exact .member (hkeys m hm) (ih m hm)

/-- A well-formed value is skipped, and nothing after it. -/
theorem IsValue.skipValueIn_eq {text s rest : List Char} (h : IsValue text) {steps : Nat}
    (hsteps : s.length < steps) (hends : NumeralEnds rest) (hs : skipBlanks s = text ++ rest) :
    skipValueIn steps [] s = .ok rest := by
  obtain ⟨left, _, hskip⟩ := h.isSkipped.2 [] steps s rest hends hs hsteps
  rw [hskip]
  cases left <;> rfl

end Lowering.Json
