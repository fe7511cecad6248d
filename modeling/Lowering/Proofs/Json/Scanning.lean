import Lowering.Proofs.Json.Skipping

/-!
# What is scanned is well-formed

A scanner succeeds on well-formed texts only: what it goes through is a spelling of what it returns,
and the text that it returns stands after that. Main statements: `stringSpelling_of_stringBody` for
strings, `isNumeral_of_numeral` for numerals, and `isValue_of_skipValueIn` for values that nobody
asks for.
-/

namespace Lowering.Json

/-- A step whose result is changed afterwards succeeds if the step does. -/
theorem map_eq_ok {α β : Type} {step : Except Fault α} {f : α → β} {b : β} :
    step.map f = .ok b ↔ ∃ a, step = .ok a ∧ f a = b := by
  cases step with
  | error fault => simp [Except.map]
  | ok a => simp [Except.map]

/-! ## Blanks and words -/

/-- A text is its leading blanks and what is left without them. -/
theorem exists_blanks (s : List Char) : ∃ blanks : Blanks, s = blanks.chars ++ skipBlanks s :=
  ⟨⟨s.takeWhile isBlank, fun _ hc => List.mem_takeWhile_imp hc⟩,
    List.takeWhile_append_dropWhile.symm⟩

/-- Blanks after blanks. -/
def Blanks.append (first second : Blanks) : Blanks where
  chars := first.chars ++ second.chars
  isBlank_of_mem c hc :=
    (List.mem_append.mp hc).elim (first.isBlank_of_mem c) (second.isBlank_of_mem c)

/-- What is read as a word is the word. -/
theorem eq_of_word {expected s rest : List Char} (h : word expected s = .ok rest) :
    s = expected ++ rest := by
  fun_induction word expected s with
  | case1 s =>
      cases h
      rfl
  | case2 => cases h
  | case3 c cs s ih => rw [ih h, List.cons_append]
  | case4 => cases h

/-- What is read as a colon is one, perhaps after blanks. -/
theorem eq_of_colon {s rest : List Char} (h : colon s = .ok rest) :
    ∃ blanks : Blanks, s = blanks.chars ++ ':' :: rest := by
  obtain ⟨blanks, hs⟩ := exists_blanks s
  unfold colon at h
  split at h
  · cases h
  · rename_i c tail hskip
    split at h
    · rename_i hc
      cases h
      rw [hskip, hc] at hs
      exact ⟨blanks, hs⟩
    · cases h

/-! ## Strings -/

/-- What has a value as a hexadecimal digit is such a digit. -/
theorem isHexDigit_of_hexValue? {c : Char} {value : Nat} (h : hexValue? c = some value) :
    IsHexDigit value c := by
  have hdigits : ∀ n < 103, ∀ value ∈ hexValue? (Char.ofNat n), value < 16 ∧
      (Char.ofNat n = Nat.digitChar value ∨ Char.ofNat n = (Nat.digitChar value).toUpper) := by
    decide
  have hlt : c.toNat < 103 := by
    unfold hexValue? at h
    split at h
    · rename_i hc
      have hle : c.toNat ≤ ('9').toNat := hc.2
      exact Nat.lt_of_le_of_lt hle (by decide)
    · split at h
      · rename_i hc
        have hle : c.toNat ≤ ('f').toNat := hc.2
        exact Nat.lt_of_le_of_lt hle (by decide)
      · split at h
        · rename_i hc
          have hle : c.toNat ≤ ('F').toNat := hc.2
          exact Nat.lt_of_le_of_lt hle (by decide)
        · cases h
  have hc := hdigits c.toNat hlt
  rw [Char.ofNat_toNat] at hc
  exact hc value h

/-- What is read as a unit is four hexadecimal digits. -/
theorem isHex_of_fourHex {s rest : List Char} {unit : Nat} (h : fourHex s = .ok (unit, rest)) :
    ∃ hex, IsHex unit hex ∧ s = hex ++ rest := by
  unfold fourHex at h
  split at h
  · rename_i a b c d tail
    split at h
    · rename_i w x y z ha hb hc hd
      cases h
      exact ⟨[a, b, c, d], .digits (isHexDigit_of_hexValue? ha) (isHexDigit_of_hexValue? hb)
        (isHexDigit_of_hexValue? hc) (isHexDigit_of_hexValue? hd), rfl⟩
    · cases h
  · cases h

/-- Four hexadecimal digits stand for at most 16 bits. -/
theorem IsHex.lt {unit : Nat} {hex : List Char} (h : IsHex unit hex) : unit < 0x10000 := by
  cases h with
  | digits ha hb hc hd =>
      have := ha.1
      have := hb.1
      have := hc.1
      have := hd.1
      omega

/-- A valid number is that of its character. -/
theorem toNat_ofNat {n : Nat} (h : n.isValidChar) : (Char.ofNat n).toNat = n := by
  rw [Char.ofNat, dif_pos h]
  rfl

/-- A code unit that is no surrogate is the number of a character. -/
theorem toNat_ofNat_unit {unit : Nat} (hlt : unit < 0x10000) (hlow : isLowSurrogate unit = false)
    (hhigh : isHighSurrogate unit = false) : (Char.ofNat unit).toNat = unit := by
  have hlow' := isLowSurrogate_iff.not.mp (Bool.eq_false_iff.mp hlow)
  have hhigh' := isHighSurrogate_iff.not.mp (Bool.eq_false_iff.mp hhigh)
  apply toNat_ofNat
  unfold Nat.isValidChar
  omega

/-- A pair of surrogates stands for the character with the number that they share out. -/
theorem charSpelling_pair {high low : Nat} {hex hex' : List Char} (hhex : IsHex high hex)
    (hhex' : IsHex low hex') (hhigh : isHighSurrogate high = true)
    (hlow : isLowSurrogate low = true) :
    CharSpelling (Char.ofNat (0x10000 + (high - 0xd800) * 0x400 + (low - 0xdc00)))
      ('\\' :: 'u' :: (hex ++ '\\' :: 'u' :: hex')) := by
  rw [isHighSurrogate_iff] at hhigh
  rw [isLowSurrogate_iff] at hlow
  have hvalid : (0x10000 + (high - 0xd800) * 0x400 + (low - 0xdc00)).isValidChar := by
    unfold Nat.isValidChar
    omega
  have hfirst : 0xd800 + (0x10000 + (high - 0xd800) * 0x400 + (low - 0xdc00) - 0x10000) / 0x400 =
      high := by omega
  have hsecond : 0xdc00 + (0x10000 + (high - 0xd800) * 0x400 + (low - 0xdc00) - 0x10000) % 0x400 =
      low := by omega
  apply CharSpelling.pair
  · rw [toNat_ofNat hvalid]
    omega
  · rw [toNat_ofNat hvalid, hfirst]
    exact hhex
  · rw [toNat_ofNat hvalid, hsecond]
    exact hhex'

/-- What is read after a high surrogate completes the spelling of a character. -/
theorem charSpelling_of_surrogatePair {unit : Nat} {hex s rest : List Char} {c : Char}
    (hhex : IsHex unit hex) (hhigh : isHighSurrogate unit = true)
    (h : surrogatePair unit s = .ok (c, rest)) :
    ∃ part, CharSpelling c ('\\' :: 'u' :: (hex ++ part)) ∧ s = part ++ rest := by
  unfold surrogatePair at h
  split at h
  · cases h
  · split at h
    · rename_i hc
      split at h
      · cases h
      · split at h
        · rename_i hu
          obtain ⟨⟨low, after⟩, hfour, hpair⟩ := bind_eq_ok.mp h
          dsimp only at hpair
          split at hpair
          · rename_i hlow
            obtain ⟨hex', hhex', rfl⟩ := isHex_of_fourHex hfour
            simp only [Except.ok.injEq, Prod.mk.injEq] at hpair
            obtain ⟨rfl, rfl⟩ := hpair
            subst hc hu
            exact ⟨_, charSpelling_pair hhex hhex' hhigh hlow, rfl⟩
          · cases hpair
        · cases h
    · cases h

/-- What is scanned after a backslash is a spelling of its character. -/
theorem charSpelling_of_escape {s rest : List Char} {c : Char} (h : escape true s = .ok (c, rest)) :
    ∃ part, CharSpelling c ('\\' :: part) ∧ s = part ++ rest := by
  unfold escape at h
  split at h
  · cases h
  · rename_i letter tail
    split at h
    · rename_i hu
      subst hu
      obtain ⟨⟨unit, after⟩, hfour, hunit⟩ := bind_eq_ok.mp h
      obtain ⟨hex, hhex, rfl⟩ := isHex_of_fourHex hfour
      simp only [Bool.true_and] at hunit
      split at hunit
      · cases hunit
      · rename_i hlow
        split at hunit
        · rename_i hhigh
          obtain ⟨part, hpart, rfl⟩ := charSpelling_of_surrogatePair hhex hhigh hunit
          exact ⟨'u' :: (hex ++ part), hpart, by rw [List.cons_append, List.append_assoc]⟩
        · rename_i hhigh
          cases hunit
          rw [Bool.not_eq_true] at hlow hhigh
          refine ⟨'u' :: hex, .unit ?_, rfl⟩
          rw [toNat_ofNat_unit hhex.lt hlow hhigh]
          exact hhex
    · split at h
      · rename_i hletter
        cases h
        exact ⟨[letter], .short (mem_shortEscapes hletter), rfl⟩
      · cases h

/-- What is skipped as an escape is a part of a string. -/
theorem isStringPart_of_escape {s rest : List Char} {c : Char}
    (h : escape false s = .ok (c, rest)) :
    ∃ part, IsStringPart ('\\' :: part) ∧ s = part ++ rest := by
  unfold escape at h
  split at h
  · cases h
  · rename_i letter tail
    split at h
    · rename_i hu
      subst hu
      obtain ⟨⟨unit, after⟩, hfour, hunit⟩ := bind_eq_ok.mp h
      obtain ⟨hex, hhex, rfl⟩ := isHex_of_fourHex hfour
      cases hunit
      exact ⟨'u' :: hex, .unit hhex, rfl⟩
    · split at h
      · rename_i hletter
        cases h
        exact ⟨[letter], .short (mem_shortEscapes hletter), rfl⟩
      · cases h

section StringBody

variable {paired : Bool} (Part : Char → List Char → Prop) (Body : List Char → List Char → Prop)

/-- What is scanned of a string is made of parts, one for each character, and a quote stands after
it. -/
theorem parts_of_stringBody
    (hplain : ∀ {c}, c ≠ '"' → c ≠ '\\' → ¬ c < ' ' → Part c [c])
    (hescape : ∀ {s rest c}, escape paired s = .ok (c, rest) →
      ∃ part, Part c ('\\' :: part) ∧ s = part ++ rest)
    (hnil : Body [] [])
    (hcons : ∀ {c cs part body}, Part c part → Body cs body → Body (c :: cs) (part ++ body))
    {s cs rest : List Char} (h : stringBody paired s = .ok (cs, rest)) :
    ∃ body, Body cs body ∧ s = body ++ '"' :: rest := by
  fun_induction stringBody paired s generalizing cs with
  | case1 => cases h
  | case2 tail =>
      cases h
      exact ⟨[], hnil, rfl⟩
  | case3 => cases h
  | case4 tail c after hscan _ _ ih =>
      obtain ⟨⟨ds, final⟩, hbody, hcs⟩ := map_eq_ok.mp h
      cases hcs
      obtain ⟨part, hpart, rfl⟩ := hescape hscan
      obtain ⟨body, hds, rfl⟩ := ih hbody
      exact ⟨_, hcons hpart hds, by rw [List.cons_append, List.cons_append, List.append_assoc]⟩
  | case5 => cases h
  | case6 c tail hquote hbackslash hcontrol ih =>
      obtain ⟨⟨ds, final⟩, hbody, hcs⟩ := map_eq_ok.mp h
      cases hcs
      obtain ⟨body, hds, rfl⟩ := ih hbody
      exact ⟨_, hcons (hplain hquote hbackslash hcontrol) hds, rfl⟩

end StringBody

/-- What is read as the rest of a string completes a spelling of it. -/
theorem stringSpelling_of_stringBody {s cs rest : List Char}
    (h : stringBody true s = .ok (cs, rest)) :
    ∃ text, StringSpelling (String.ofList cs) text ∧ '"' :: s = text ++ rest := by
  obtain ⟨body, hbody, rfl⟩ := parts_of_stringBody CharSpelling BodySpelling .plain
    charSpelling_of_escape .nil .cons h
  exact ⟨quoted body, ⟨body, by rwa [String.toList_ofList], rfl⟩, (quoted_append body rest).symm⟩

/-- What is skipped as the rest of a string completes one. -/
theorem isString_of_stringBody {s cs rest : List Char} (h : stringBody false s = .ok (cs, rest)) :
    ∃ text, IsString text ∧ '"' :: s = text ++ rest := by
  obtain ⟨body, hbody, rfl⟩ := parts_of_stringBody (fun _ => IsStringPart) (fun _ => IsStringBody)
    .plain isStringPart_of_escape .nil .cons h
  exact ⟨quoted body, ⟨body, hbody, rfl⟩, (quoted_append body rest).symm⟩

/-! ## Numerals -/

/-- What is read as digits is digits. -/
theorem isDigits_of_someDigits {cut : Fault} {s digits rest : List Char}
    (h : someDigits cut s = .ok (digits, rest)) : IsDigits digits ∧ s = digits ++ rest := by
  unfold someDigits at h
  split at h
  · cases h
  · rename_i c tail
    split at h
    · rename_i hc
      cases h
      refine ⟨⟨List.cons_ne_nil _ _, List.forall_mem_cons.mpr ⟨hc, fun d hd => ?_⟩⟩, ?_⟩
      · exact List.mem_takeWhile_imp hd
      · rw [List.cons_append, List.takeWhile_append_dropWhile]
    · cases h

/-- What is read as the digits before the point is an integer without leading zeros. -/
theorem isInteger_of_wholeDigits {cut : Fault} {s digits rest : List Char}
    (h : wholeDigits cut s = .ok (digits, rest)) : IsInteger digits ∧ s = digits ++ rest := by
  obtain ⟨⟨found, after⟩, hsome, hzero⟩ := bind_eq_ok.mp h
  dsimp only at hzero
  split at hzero
  · cases hzero
  · rename_i hlong
    cases hzero
    obtain ⟨hdigits, hs⟩ := isDigits_of_someDigits hsome
    refine ⟨?_, hs⟩
    by_cases hhead : digits.head? = some '0'
    · have hlength : digits.tail = [] := by
        have hshort : ¬ digits.length > 1 := fun h => hlong ⟨h, hhead⟩
        rw [← List.length_eq_zero_iff, List.length_tail]
        omega
      rw [← List.cons_head?_tail hhead, hlength]
      exact .zero
    · exact .digits hdigits hhead

/-- What is read as the digits after the point is a fraction, or nothing. -/
theorem isFraction_of_fractionDigits {cut : Fault} {s digits rest : List Char}
    (h : fractionDigits cut s = .ok (digits, rest)) :
    ∃ fraction, IsFraction fraction ∧ s = fraction ++ rest ∧ (digits = [] → fraction = []) := by
  unfold fractionDigits at h
  split at h
  · obtain ⟨hdigits, rfl⟩ := isDigits_of_someDigits h
    exact ⟨'.' :: digits, .digits hdigits, rfl, fun hnil => absurd hnil hdigits.1⟩
  · cases h
    exact ⟨[], .absent, rfl, fun _ => rfl⟩

/-- What is read as an exponent is one, or nothing. -/
theorem isExponent_of_exponentPart {cut : Fault} {s rest : List Char} {value : Option Int}
    (h : exponentPart cut s = .ok (value, rest)) :
    ∃ exponent, IsExponent exponent ∧ s = exponent ++ rest ∧ (value = none → exponent = []) := by
  unfold exponentPart at h
  split at h
  · cases h
    exact ⟨[], .absent, rfl, fun _ => rfl⟩
  · rename_i mark tail
    split at h
    · rename_i hmark
      obtain ⟨⟨digits, after⟩, hsome, hvalue⟩ := bind_eq_ok.mp h
      cases hvalue
      obtain ⟨hdigits, hs⟩ := isDigits_of_someDigits hsome
      split at hs
      · rename_i plus
        exact ⟨mark :: (['+'] ++ digits), .digits hmark (.inr (.inl rfl)) hdigits, by rw [hs]; rfl,
          by simp⟩
      · rename_i minus
        exact ⟨mark :: (['-'] ++ digits), .digits hmark (.inr (.inr rfl)) hdigits, by rw [hs]; rfl,
          by simp⟩
      · exact ⟨mark :: ([] ++ digits), .digits hmark (.inl rfl) hdigits, by rw [hs]; rfl, by simp⟩
    · cases h
      exact ⟨[], .absent, rfl, fun _ => rfl⟩

/-- A numeral is scanned part by part. -/
theorem numeral_parts {cut : Fault} {s rest : List Char} {n : Numeral}
    (h : numeral cut s = .ok (n, rest)) :
    ∃ fraction exponent, IsInteger n.whole ∧ IsFraction fraction ∧ IsExponent exponent ∧
      s = (if n.negative then ['-'] else []) ++ (n.whole ++ (fraction ++ exponent)) ++ rest ∧
      (n.fraction = [] → fraction = []) ∧ (n.exponent = none → exponent = []) := by
  obtain ⟨⟨whole, s₁⟩, hwhole, hrest⟩ := bind_eq_ok.mp h
  obtain ⟨⟨digits, s₂⟩, hdigits, hrest⟩ := bind_eq_ok.mp hrest
  obtain ⟨⟨value, s₃⟩, hvalue, hrest⟩ := bind_eq_ok.mp hrest
  cases hrest
  obtain ⟨hinteger, hs⟩ := isInteger_of_wholeDigits hwhole
  obtain ⟨fraction, hfraction, rfl, hpoint⟩ := isFraction_of_fractionDigits hdigits
  obtain ⟨exponent, hexponent, rfl, hpower⟩ := isExponent_of_exponentPart hvalue
  refine ⟨fraction, exponent, hinteger, hfraction, hexponent, ?_, hpoint, hpower⟩
  simp only [List.append_assoc, ← hs, decide_eq_true_eq]
  by_cases hminus : s.head? = some '-'
  · rw [if_pos hminus, if_pos hminus]
    exact (List.cons_head?_tail hminus).symm
  · rw [if_neg hminus, if_neg hminus, List.nil_append]

/-- What is read as a numeral is one. -/
theorem isNumeral_of_numeral {cut : Fault} {s rest : List Char} {n : Numeral}
    (h : numeral cut s = .ok (n, rest)) : ∃ text, IsNumeral text ∧ s = text ++ rest := by
  obtain ⟨fraction, exponent, hinteger, hfraction, hexponent, hs, _⟩ := numeral_parts h
  refine ⟨_, .mk ?_ hinteger hfraction hexponent, hs⟩
  split
  · exact .inr rfl
  · exact .inl rfl

/-- A digit is how its value is written. -/
theorem toDigits_of_isDigit {c : Char} (h : c.isDigit = true) :
    Nat.toDigits 10 (c.toNat - '0'.toNat) = [c] ∧ c.toNat - '0'.toNat < 10 := by
  obtain ⟨hlow, hhigh⟩ := Char.isDigit_iff_toNat.mp h
  have hten : '0'.toNat + 9 = '9'.toNat := rfl
  have hlt : c.toNat - '0'.toNat < 10 := by omega
  have hdigit : Nat.digitChar (c.toNat - '0'.toNat) = c := by
    rw [← Char.toNat_inj, Nat.toNat_digitChar_of_lt_ten hlt]
    have hzero : '0'.toNat = 48 := rfl
    omega
  rw [Nat.toDigits_of_lt_base hlt, hdigit]
  exact ⟨rfl, hlt⟩

/-- Digits after those of a number are the digits of the number that they go on to. -/
theorem toDigits_ofDigitChars {digits : List Char} (h : ∀ c ∈ digits, c.isDigit = true)
    {start : Nat} (hstart : 0 < start) :
    Nat.toDigits 10 (Nat.ofDigitChars 10 digits start) = Nat.toDigits 10 start ++ digits := by
  induction digits generalizing start with
  | nil => rw [Nat.ofDigitChars_nil, List.append_nil]
  | cons c cs ih =>
      obtain ⟨hc, hcs⟩ := List.forall_mem_cons.mp h
      obtain ⟨hdigit, hlt⟩ := toDigits_of_isDigit hc
      rw [Nat.ofDigitChars_cons, ih hcs (by omega),
        ← Nat.toDigits_append_toDigits (by decide) hstart hlt, hdigit, List.append_assoc,
        List.singleton_append]

/-- An integer without leading zeros is how its value is written. -/
theorem IsInteger.toDigits_decimal {digits : List Char} (h : IsInteger digits) :
    Nat.toDigits 10 (decimal digits) = digits := by
  cases h with
  | zero => rfl
  | digits h hzero =>
      obtain ⟨c, cs, rfl⟩ := List.exists_cons_of_ne_nil h.1
      obtain ⟨hc, hcs⟩ := List.forall_mem_cons.mp h.2
      obtain ⟨hdigit, hlt⟩ := toDigits_of_isDigit hc
      have hpositive : 0 < c.toNat - '0'.toNat := by
        have hne : c.toNat ≠ '0'.toNat := fun heq => hzero (congrArg some (Char.toNat_inj.mp heq))
        have hle := (Char.isDigit_iff_toNat.mp hc).1
        omega
      rw [decimal, Nat.ofDigitChars_cons, Nat.mul_zero, Nat.zero_add,
        toDigits_ofDigitChars hcs hpositive, hdigit, List.singleton_append]

/-- Only an integer without a sign is an offset. -/
theorem Numeral.eq_of_toOffset {n : Numeral} {offset : UInt32} (h : n.toOffset = .ok offset) :
    n.negative = false ∧ n.fraction = [] ∧ n.exponent = none ∧ offset.toNat = decimal n.whole := by
  unfold toOffset at h
  split at h
  · cases h
  · rename_i value hvalue
    split at h
    · rename_i hrange
      cases h
      simp only [integer?] at hvalue
      split at hvalue
      · cases hvalue
      · rename_i hwritten
        obtain ⟨hfraction, hexponent⟩ := not_or.mp hwritten
        rw [not_not] at hfraction
        rw [Bool.not_eq_true, Option.isSome_eq_false_iff, Option.isNone_iff_eq_none] at hexponent
        split at hvalue
        · split at hvalue
          · cases hvalue
          · rename_i hzero
            cases hvalue
            omega
        · rename_i hnegative
          split at hvalue
          · cases hvalue
          · cases hvalue
            have hlt : decimal n.whole < 2 ^ 32 := by
              have hpow : (Nat.pow 2 32 : Int) = 2 ^ 32 := rfl
              omega
            refine ⟨Bool.eq_false_iff.mpr hnegative, hfraction, hexponent, ?_⟩
            rw [Int.toNat_natCast, UInt32.toNat_ofNat_of_lt' hlt]
    · cases h

/-- A number that is read has been scanned as a numeral. -/
theorem numeral_of_number {s rest : List Char} {n : Numeral} (h : number s = .ok (n, rest)) :
    numeral .endOfText s = .ok (n, rest) := by
  obtain ⟨⟨m, after⟩, hnumeral, hhuge⟩ := bind_eq_ok.mp h
  dsimp only at hhuge
  split at hhuge
  · cases hhuge
  · cases hhuge
    exact hnumeral

/-- An offset is read from its digits. -/
theorem eq_of_readOffset {s rest : List Char} {d : Datum} (h : readOffset s = .ok (d, rest)) :
    ∃ n : UInt32, d = .number n ∧ skipBlanks s = Nat.toDigits 10 n.toNat ++ rest := by
  unfold readOffset at h
  split at h
  · cases h
  · rename_i c tail hskip
    split at h
    · obtain ⟨⟨n, after⟩, hnumber, hnext⟩ := bind_eq_ok.mp h
      obtain ⟨offset, hoffset, hd⟩ := bind_eq_ok.mp hnext
      cases hd
      obtain ⟨hsign, hfraction, hexponent, hvalue⟩ := Numeral.eq_of_toOffset hoffset
      obtain ⟨fraction, exponent, hinteger, _, _, htext, hpoint, hpower⟩ :=
        numeral_parts (numeral_of_number hnumber)
      refine ⟨offset, rfl, ?_⟩
      rw [hskip, htext, hsign, hpoint hfraction, hpower hexponent, hvalue,
        hinteger.toDigits_decimal]
      simp
    · cases h

/-! ## Values -/

/-- What is skipped as a scalar is a value. -/
theorem isValue_of_skipScalar {s rest : List Char} (h : skipScalar s = .ok rest) :
    ∃ text, IsValue text ∧ s = text ++ rest := by
  unfold skipScalar at h
  split at h
  · cases h
  · rename_i c tail
    split at h
    · rename_i hc
      exact ⟨_, .null, by rw [hc, eq_of_word h]; rfl⟩
    · split at h
      · rename_i hc
        exact ⟨_, .true, by rw [hc, eq_of_word h]; rfl⟩
      · split at h
        · rename_i hc
          exact ⟨_, .false, by rw [hc, eq_of_word h]; rfl⟩
        · split at h
          · rename_i hc
            obtain ⟨⟨cs, after⟩, hbody, rfl⟩ := map_eq_ok.mp h
            obtain ⟨text, htext, hs⟩ := isString_of_stringBody hbody
            exact ⟨text, .string htext, by rw [hc, hs]⟩
          · split at h
            · obtain ⟨⟨n, after⟩, hnumeral, rfl⟩ := map_eq_ok.mp h
              obtain ⟨text, htext, hs⟩ := isNumeral_of_numeral hnumeral
              exact ⟨text, .numeral htext, hs⟩
            · cases h

/-- What is skipped as a key is a string with a colon after it. -/
theorem isString_of_skipKey {s rest : List Char} (h : skipKey s = .ok rest) :
    ∃ key : Padded (List Char), IsString key.core ∧ s = key.text id ++ ':' :: rest := by
  obtain ⟨before, hs⟩ := exists_blanks s
  unfold skipKey at h
  split at h
  · cases h
  · rename_i c tail hskip
    split at h
    · rename_i hc
      obtain ⟨⟨cs, after⟩, hbody, hcolon⟩ := bind_eq_ok.mp h
      obtain ⟨text, htext, hstring⟩ := isString_of_stringBody hbody
      obtain ⟨blanks, hblanks⟩ := eq_of_colon hcolon
      refine ⟨⟨before, text, blanks⟩, htext, ?_⟩
      rw [hs, hskip, hc, hstring, hblanks, Padded.text_append]
      rfl
    · cases h

/-- A value is skipped in so many steps only if it is well-formed; what is left to do then is to
skip what follows it. -/
def SkipsValue (steps : Nat) : Prop :=
  ∀ frames s rest, skipValueIn steps frames s = .ok rest →
    ∃ (before : Blanks) (text mid : List Char) (left : Nat), IsValue text ∧
      s = before.chars ++ (text ++ mid) ∧ left < steps ∧ skipRestOf left frames mid = .ok rest

/-- What follows an element is skipped in so many steps only if elements are left of the array. -/
def SkipsElements (steps : Nat) : Prop :=
  ∀ frames s rest, skipRestOf steps (.array :: frames) s = .ok rest →
    ∃ (after : Blanks) (items : List (Padded (List Char))) (mid : List Char) (left : Nat),
      (∀ item ∈ items, IsValue item.core) ∧
      s = after.chars ++ partsThen ']' mid false (items.map (Padded.text id)) ∧ left < steps ∧
      skipRestOf left frames mid = .ok rest

/-- What follows a member is skipped in so many steps only if members are left of the object. -/
def SkipsMembers (steps : Nat) : Prop :=
  ∀ frames s rest, skipRestOf steps (.object :: frames) s = .ok rest →
    ∃ (after : Blanks) (members : List (Keyed (List Char))) (mid : List Char) (left : Nat),
      (∀ m ∈ members, IsString m.key.core ∧ IsValue m.value.core) ∧
      s = after.chars ++ partsThen '\x7d' mid false (members.map (Keyed.text id)) ∧ left < steps ∧
      skipRestOf left frames mid = .ok rest

/-- An element with those that follow it. -/
theorem SkipsValue.elements {steps : Nat} (hvalue : SkipsValue steps)
    (helements : ∀ left < steps, SkipsElements left) {frames : List Frame} {s rest : List Char}
    (h : skipValueIn steps (.array :: frames) s = .ok rest) :
    ∃ (item : Padded (List Char)) (items : List (Padded (List Char))) (mid : List Char)
      (left : Nat), (∀ i ∈ item :: items, IsValue i.core) ∧
      s = item.text id ++ partsThen ']' mid false (items.map (Padded.text id)) ∧ left < steps ∧
      skipRestOf left frames mid = .ok rest := by
  obtain ⟨before, text, mid₁, left₁, htext, rfl, hleft₁, hrest⟩ := hvalue _ _ _ h
  obtain ⟨after, items, mid, left, hitems, rfl, hleft, hrest⟩ := helements left₁ hleft₁ _ _ _ hrest
  refine ⟨⟨before, text, after⟩, items, mid, left, List.forall_mem_cons.mpr ⟨htext, hitems⟩, ?_,
    Nat.lt_trans hleft hleft₁, hrest⟩
  rw [Padded.text_append]
  rfl

/-- A member with those that follow it. -/
theorem SkipsValue.members {steps : Nat} (hvalue : SkipsValue steps)
    (hmembers : ∀ left < steps, SkipsMembers left) {frames : List Frame} {s value rest : List Char}
    (hkey : skipKey s = .ok value) (h : skipValueIn steps (.object :: frames) value = .ok rest) :
    ∃ (m : Keyed (List Char)) (ms : List (Keyed (List Char))) (mid : List Char) (left : Nat),
      (∀ other ∈ m :: ms, IsString other.key.core ∧ IsValue other.value.core) ∧
      s = m.text id ++ partsThen '\x7d' mid false (ms.map (Keyed.text id)) ∧ left < steps ∧
      skipRestOf left frames mid = .ok rest := by
  obtain ⟨key, hstring, rfl⟩ := isString_of_skipKey hkey
  obtain ⟨before, text, mid₁, left₁, htext, rfl, hleft₁, hrest⟩ := hvalue _ _ _ h
  obtain ⟨after, ms, mid, left, hms, rfl, hleft, hrest⟩ := hmembers left₁ hleft₁ _ _ _ hrest
  refine ⟨⟨key, ⟨before, text, after⟩⟩, ms, mid, left,
    List.forall_mem_cons.mpr ⟨⟨hstring, htext⟩, hms⟩, ?_, Nat.lt_trans hleft hleft₁, hrest⟩
  have hpadded := @Padded.text_append _ id ⟨before, text, after⟩
    (partsThen '\x7d' mid false (ms.map (Keyed.text id)))
  rw [Keyed.text_append, hpadded]
  rfl

section Steps

variable {steps : Nat} (hvalue : SkipsValue steps)
include hvalue

/-- What follows an element is well-formed if values are that take fewer steps. -/
theorem skipsElements_succ (hrest : ∀ left < steps, SkipsElements left) :
    SkipsElements (steps + 1) := by
  intro frames s rest h
  obtain ⟨after, hs⟩ := exists_blanks s
  unfold skipRestOf at h
  split at h
  · cases h
  · rename_i tail hskip
    obtain ⟨item, items, mid, left, hitems, rfl, hleft, h⟩ := hvalue.elements hrest h
    exact ⟨after, item :: items, mid, left, hitems, by rw [hs, hskip]; rfl,
      Nat.lt_succ_of_lt hleft, h⟩
  · contradiction
  · rename_i tail _ hskip
    exact ⟨after, [], tail, steps, by nofun, by rw [hs, hskip]; rfl, Nat.lt_succ_self steps, h⟩
  · contradiction
  · cases h

/-- What follows a member is well-formed if values are that take fewer steps. -/
theorem skipsMembers_succ (hrest : ∀ left < steps, SkipsMembers left) :
    SkipsMembers (steps + 1) := by
  intro frames s rest h
  obtain ⟨after, hs⟩ := exists_blanks s
  unfold skipRestOf at h
  split at h
  · cases h
  · contradiction
  · rename_i tail hskip
    obtain ⟨value, hkey, h⟩ := bind_eq_ok.mp h
    obtain ⟨m, ms, mid, left, hms, rfl, hleft, h⟩ := hvalue.members hrest hkey h
    exact ⟨after, m :: ms, mid, left, hms, by rw [hs, hskip]; rfl, Nat.lt_succ_of_lt hleft, h⟩
  · contradiction
  · rename_i tail _ hskip
    exact ⟨after, [], tail, steps, by nofun, by rw [hs, hskip]; rfl, Nat.lt_succ_self steps, h⟩
  · cases h

/-- A value is well-formed if what is nested in it is, which takes fewer steps. -/
theorem skipsValue_succ (helements : ∀ left < steps, SkipsElements left)
    (hmembers : ∀ left < steps, SkipsMembers left) : SkipsValue (steps + 1) := by
  intro frames s rest h
  obtain ⟨before, hs⟩ := exists_blanks s
  unfold skipValueIn at h
  split at h
  · cases h
  · rename_i c tail hskip
    obtain ⟨blanks, htail⟩ := exists_blanks tail
    split at h
    · rename_i hc
      split at h
      · rename_i mid hend
        refine ⟨before, _, mid, steps, @IsValue.array blanks [] (List.forall_mem_nil _), ?_,
          Nat.lt_succ_self steps, h⟩
        rw [hs, hskip, hc, htail, hend, bracketed_append]
        rfl
      · obtain ⟨item, items, mid, left, hitems, hparts, hleft, h⟩ := hvalue.elements helements h
        refine ⟨before, _, mid, left, .array blanks hitems, ?_, Nat.lt_succ_of_lt hleft, h⟩
        rw [hs, hskip, hc, htail, hparts, bracketed_append]
        rfl
    · split at h
      · rename_i hc
        split at h
        · rename_i mid hend
          refine ⟨before, _, mid, steps, @IsValue.object blanks [] (List.forall_mem_nil _)
            (List.forall_mem_nil _), ?_, Nat.lt_succ_self steps, h⟩
          rw [hs, hskip, hc, htail, hend, bracketed_append]
          rfl
        · obtain ⟨value, hkey, h⟩ := bind_eq_ok.mp h
          obtain ⟨m, ms, mid, left, hms, hparts, hleft, h⟩ := hvalue.members hmembers hkey h
          refine ⟨before, _, mid, left, .object blanks (fun m hm => (hms m hm).1)
            (fun m hm => (hms m hm).2), ?_, Nat.lt_succ_of_lt hleft, h⟩
          rw [hs, hskip, hc, htail, hparts, bracketed_append]
          rfl
      · obtain ⟨mid, hscalar, h⟩ := bind_eq_ok.mp h
        obtain ⟨text, htext, htail⟩ := isValue_of_skipScalar hscalar
        exact ⟨before, text, mid, steps, htext, by rw [hs, hskip, htail], Nat.lt_succ_self steps, h⟩

end Steps

/-- In any number of steps, only well-formed values are skipped. -/
theorem skips (steps : Nat) : SkipsValue steps ∧ SkipsElements steps ∧ SkipsMembers steps := by
  induction steps using Nat.strongRecOn with
  | _ steps ih =>
      cases steps with
      | zero => exact ⟨nofun, nofun, nofun⟩
      | succ steps =>
          have hvalue := (ih steps (Nat.lt_succ_self steps)).1
          have helements : ∀ left < steps, SkipsElements left := fun left hleft =>
            (ih left (Nat.lt_succ_of_lt hleft)).2.1
          have hmembers : ∀ left < steps, SkipsMembers left := fun left hleft =>
            (ih left (Nat.lt_succ_of_lt hleft)).2.2
          exact ⟨skipsValue_succ hvalue helements hmembers, skipsElements_succ hvalue helements,
            skipsMembers_succ hvalue hmembers⟩

/-- A value is skipped only if it is well-formed. -/
theorem isValue_of_skipValueIn {steps : Nat} {s rest : List Char}
    (h : skipValueIn steps [] s = .ok rest) :
    ∃ (before : Blanks) (text : List Char), IsValue text ∧ s = before.chars ++ (text ++ rest) := by
  obtain ⟨before, text, mid, left, htext, hs, _, hrest⟩ := (skips steps).1 [] s rest h
  rw [skipRestOf] at hrest
  cases hrest
  exact ⟨before, text, htext, hs⟩

end Lowering.Json
