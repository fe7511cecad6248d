import Mathlib.Data.List.Basic
import Lowering.Json.Scalar
import Lowering.Json.Writer

/-!
# Scalars are read as they were written

Nulls and offsets that the writer has written are read back, whatever stands after them; only a
numeral must not go on (`NumeralEnds`). Readers skip blanks first, so each statement is about a text
whose blanks have been skipped. Main statements: `readNull_write` and `readOffset_write`. For
strings there are the steps of reading and writing them, one character after the other.
-/

namespace Lowering.Json

/-! ## Blanks -/

/-- Blanks at the start of a text are skipped. -/
theorem skipBlanks_append {blanks : List Char} (h : ∀ c ∈ blanks, isBlank c = true)
    (s : List Char) : skipBlanks (blanks ++ s) = skipBlanks s :=
  List.dropWhile_append_of_pos h

/-- What begins with no blank stays. -/
theorem skipBlanks_cons {c : Char} (h : isBlank c = false) (s : List Char) :
    skipBlanks (c :: s) = c :: s :=
  List.dropWhile_cons_of_neg (by simp [h])

/-- A line break is made of blanks. -/
theorem Layout.isBlank_lineBreak (layout : Layout) (depth : Nat) :
    ∀ c ∈ layout.lineBreak depth, isBlank c = true := by
  intro c hc
  cases layout with
  | compact => cases hc
  | pretty =>
      rcases List.mem_cons.mp hc with rfl | hc
      · rfl
      · rw [(List.mem_replicate.mp hc).2]
        rfl

/-- The gap after a colon is made of blanks. -/
theorem Layout.isBlank_gap (layout : Layout) : ∀ c ∈ layout.gap, isBlank c = true := by
  intro c hc
  cases layout with
  | compact => cases hc
  | pretty =>
      rw [List.mem_singleton.mp hc]
      rfl

/-! ## Strings -/

/-- The three ways in which a character is written: by a letter after a backslash, by its number, or
as it is. -/
theorem writeChar_cases (c : Char) :
    (∃ letter, writeChar c = ['\\', letter] ∧ letter ≠ 'u' ∧ escapeLetter? letter = some c) ∨
    (c < ' ' ∧ writeChar c =
      ['\\', 'u', '0', '0', Nat.digitChar (c.toNat / 16), Nat.digitChar (c.toNat % 16)]) ∨
    (c ≠ '"' ∧ c ≠ '\\' ∧ ¬ c < ' ' ∧ writeChar c = [c]) := by
  unfold writeChar
  iterate 7
    split
    · rename_i hc
      subst hc
      exact .inl ⟨_, rfl, by decide, rfl⟩
  split
  · rename_i hcontrol
    exact .inr (.inl ⟨hcontrol, rfl⟩)
  · rename_i hquote hbackslash _ _ _ _ _ hcontrol
    exact .inr (.inr ⟨hquote, hbackslash, hcontrol, rfl⟩)

/-- A string ends at a quote. -/
theorem stringBody_quote (paired : Bool) (rest : List Char) :
    stringBody paired ('"' :: rest) = .ok ([], rest) := by
  rw [stringBody, if_pos rfl]

/-- A character that is neither a quote, a backslash nor a control character stands for itself. -/
theorem stringBody_plain (paired : Bool) {c : Char} (hquote : c ≠ '"') (hbackslash : c ≠ '\\')
    (hcontrol : ¬ c < ' ') (rest : List Char) :
    stringBody paired (c :: rest) =
      (stringBody paired rest).map fun (cs, final) => (c :: cs, final) := by
  rw [stringBody, if_neg hquote, if_neg hbackslash, if_neg hcontrol]

/-- An escape stands for the character that it is scanned to. -/
theorem stringBody_escape {paired : Bool} {d : Char} {rest after : List Char}
    (h : escape paired rest = .ok (d, after)) :
    stringBody paired ('\\' :: rest) =
      (stringBody paired after).map fun (ds, final) => (d :: ds, final) := by
  rw [stringBody, if_neg (by decide), if_pos rfl]
  -- the match carries a proof for termination, so the scanned escape cannot be rewritten in place
  split
  · rename_i hfault
    rw [h] at hfault
    cases hfault
  · rename_i hok
    rw [h] at hok
    cases hok
    rfl

/-- An escape by a letter stands for its character. -/
theorem escape_letter {letter c : Char} (hletter : letter ≠ 'u') (h : escapeLetter? letter = some c)
    (paired : Bool) (rest : List Char) : escape paired (letter :: rest) = .ok (c, rest) := by
  rw [escape, if_neg hletter, h]

/-- The text of a string with what follows. -/
theorem writeString_append (t : String) (rest : List Char) :
    writeString t ++ rest = '"' :: (t.toList.flatMap writeChar ++ '"' :: rest) := by
  rw [writeString, List.cons_append, List.append_assoc, List.singleton_append]

/-- The word `null` is read as null. -/
theorem readNull_write {s rest : List Char}
    (hs : skipBlanks s = ['n', 'u', 'l', 'l'] ++ rest) : readNull s = .ok (.null, rest) := by
  simp only [readNull, hs, List.cons_append, List.nil_append]
  rfl

/-! ## Offsets -/

/-- A digit is no other character. -/
theorem ne_of_isDigit {c d : Char} (hc : c.isDigit = true) (hd : d.isDigit = false) : c ≠ d := by
  rintro rfl
  rw [hc] at hd
  cases hd

/-- A digit is no blank. -/
theorem isBlank_of_isDigit {c : Char} (h : c.isDigit = true) : isBlank c = false := by
  have hne : ∀ d : Char, d.isDigit = false → c ≠ d := fun _ => ne_of_isDigit h
  simp [isBlank, hne]

/-- A number is written in digits. -/
theorem isDigit_of_mem_toDigits {n : Nat} {c : Char} (h : c ∈ Nat.toDigits 10 n) :
    c.isDigit = true :=
  Nat.isDigit_of_mem_toDigits (by decide) (by decide) h

/-- A number is written with a digit first. -/
theorem toDigits_eq_cons (n : Nat) :
    ∃ c cs, Nat.toDigits 10 n = c :: cs ∧ c.isDigit = true := by
  obtain ⟨c, cs, hcs⟩ := List.exists_cons_of_ne_nil (Nat.toDigits_ne_nil (b := 10) (n := n))
  exact ⟨c, cs, hcs, isDigit_of_mem_toDigits (hcs ▸ List.mem_cons_self)⟩

/-- A numeral does not go on: what follows is no digit, no point and no exponent. -/
def NumeralEnds (rest : List Char) : Prop :=
  ∀ c ∈ rest.head?, c.isDigit = false ∧ c ≠ '.' ∧ c ≠ 'e' ∧ c ≠ 'E'

/-- A blank ends a numeral. -/
theorem numeralEnds_blanks {blanks rest : List Char} (h : ∀ c ∈ blanks, isBlank c = true)
    (hrest : NumeralEnds rest) : NumeralEnds (blanks ++ rest) := by
  cases blanks with
  | nil => exact hrest
  | cons c blanks =>
      rintro d hd
      cases hd
      have hc := h c List.mem_cons_self
      simp only [isBlank, Bool.or_eq_true, decide_eq_true_eq] at hc
      rcases hc with ((rfl | rfl) | rfl) | rfl <;> decide

/-- A positive number is written without leading zeros. -/
theorem toDigits_head_ne_zero {n : Nat} (hn : 0 < n) : (Nat.toDigits 10 n).head? ≠ some '0' := by
  induction n using Nat.strongRecOn with
  | _ n ih =>
      by_cases hsmall : n < 10
      · rw [Nat.toDigits_of_lt_base hsmall]
        have hdigits : ∀ k < 10, 0 < k → [Nat.digitChar k].head? ≠ some '0' := by decide
        exact hdigits n hsmall hn
      · rw [Nat.toDigits_of_base_le (by decide) (by omega),
          List.head?_append_of_ne_nil _ Nat.toDigits_ne_nil]
        exact ih (n / 10) (by omega) (by omega)

/-- No number is written with a zero before other digits. -/
theorem toDigits_no_leading_zero (n : Nat) :
    ¬ ((Nat.toDigits 10 n).length > 1 ∧ (Nat.toDigits 10 n).head? = some '0') := by
  rintro ⟨hlong, hzero⟩
  rcases Nat.eq_zero_or_pos n with rfl | hn
  · exact absurd hlong (by decide)
  · exact toDigits_head_ne_zero hn hzero

/-- Digits are read up to the first other character. -/
theorem someDigits_append {digits rest : List Char} (hne : digits ≠ [])
    (hdigits : ∀ c ∈ digits, c.isDigit = true) (hends : ∀ c ∈ rest.head?, c.isDigit = false)
    (cut : Fault) : someDigits cut (digits ++ rest) = .ok (digits, rest) := by
  obtain ⟨c, cs, rfl⟩ := List.exists_cons_of_ne_nil hne
  have hc : c.isDigit = true := hdigits c List.mem_cons_self
  have hcs : ∀ d ∈ cs, d.isDigit = true := fun d hd => hdigits d (List.mem_cons_of_mem _ hd)
  have hstop : rest.takeWhile Char.isDigit = [] ∧ rest.dropWhile Char.isDigit = rest := by
    cases rest with
    | nil => exact ⟨rfl, rfl⟩
    | cons d rest =>
        have hd := hends d rfl
        exact ⟨List.takeWhile_cons_of_neg (by simp [hd]), List.dropWhile_cons_of_neg (by simp [hd])⟩
  rw [List.cons_append, someDigits, if_pos hc, List.takeWhile_append_of_pos hcs,
    List.dropWhile_append_of_pos hcs, hstop.1, hstop.2, List.append_nil]

/-- The digits of a number are scanned as a numeral without a point or an exponent. -/
theorem fractionDigits_of_ne {rest : List Char} (h : ∀ c ∈ rest.head?, c ≠ '.') (cut : Fault) :
    fractionDigits cut rest = .ok ([], rest) := by
  unfold fractionDigits
  split
  · exact absurd rfl (h '.' rfl)
  · rfl

/-- There is no exponent without its letter. -/
theorem exponentPart_of_ne {rest : List Char} (h : ∀ c ∈ rest.head?, c ≠ 'e' ∧ c ≠ 'E')
    (cut : Fault) : exponentPart cut rest = .ok (none, rest) := by
  cases rest with
  | nil => rfl
  | cons c rest => exact if_neg fun hc => hc.elim (h c rfl).1 (h c rfl).2

/-- The digits of a number are read as its numeral. -/
theorem numeral_toDigits (n : Nat) {rest : List Char} (hends : NumeralEnds rest) (cut : Fault) :
    numeral cut (Nat.toDigits 10 n ++ rest) =
      .ok (⟨false, Nat.toDigits 10 n, [], none⟩, rest) := by
  have hdigits : ∀ c ∈ Nat.toDigits 10 n, c.isDigit = true := fun _ => isDigit_of_mem_toDigits
  have hpositive : ¬ (Nat.toDigits 10 n ++ rest).head? = some '-' := by
    rw [List.head?_append_of_ne_nil _ Nat.toDigits_ne_nil]
    intro h
    exact absurd (hdigits '-' (List.mem_of_head? h)) (by decide)
  have hwhole : wholeDigits cut (Nat.toDigits 10 n ++ rest) = .ok (Nat.toDigits 10 n, rest) := by
    have hsome := someDigits_append Nat.toDigits_ne_nil hdigits fun c hc => (hends c hc).1
    simp only [wholeDigits, hsome, bind, Except.bind, if_neg (toDigits_no_leading_zero n)]
  have hfraction := fractionDigits_of_ne (fun c hc => (hends c hc).2.1) cut
  have hexponent := exponentPart_of_ne (fun c hc => (hends c hc).2.2) cut
  simp only [numeral, hpositive, if_false, hwhole, hfraction, hexponent, bind, Except.bind,
    decide_false]

/-- More digits make no smaller number. -/
theorem le_ofDigitChars (digits : List Char) (init : Nat) :
    init ≤ Nat.ofDigitChars 10 digits init := by
  induction digits generalizing init with
  | nil => exact Nat.le_refl init
  | cons c cs ih =>
      rw [Nat.ofDigitChars_cons]
      exact Nat.le_trans (by omega) (ih _)

/-- A significand that fits 64 bits takes all its digits. -/
theorem Numeral.takeDigits_eq {digits : List Char} {significand : Nat}
    (h : Nat.ofDigitChars 10 digits significand < Nat.pow 2 64) :
    takeDigits significand digits = (Nat.ofDigitChars 10 digits significand, digits.length) := by
  induction digits generalizing significand with
  | nil => rfl
  | cons c cs ih =>
      rw [Nat.ofDigitChars_cons, Nat.mul_comm] at h ⊢
      have hlonger : significand * 10 + (c.toNat - '0'.toNat) < Nat.pow 2 64 :=
        Nat.lt_of_le_of_lt (le_ofDigitChars cs _) h
      rw [takeDigits, if_pos hlonger, ih h]
      rfl

/-- The digits of a number stand for it. -/
theorem decimal_toDigits (n : Nat) : decimal (Nat.toDigits 10 n) = n :=
  Nat.ofDigitChars_ten_toDigits

/-- An integer below `2 ^ 53` fits a double. -/
theorem overflows_zero_scale {n : Nat} (h : n < Nat.pow 2 53) : overflows n 0 = false := by
  have hone : roundToDouble (Nat.pow 10 (0 : Int).toNat) = 1 := roundToDouble_of_lt (by decide)
  have hbelow : ∀ k, 53 ≤ k → ¬ roundToDouble (roundToDouble n * 1) ≥ Nat.pow 2 k := by
    intro k hk
    rw [Nat.mul_one, roundToDouble_of_lt h, roundToDouble_of_lt h, Nat.not_le]
    exact Nat.lt_of_lt_of_le h (Nat.pow_le_pow_right (by decide) hk)
  rw [overflows, hone, decide_eq_false (hbelow 1024 (by decide)), Bool.and_false, Bool.or_false,
    decide_eq_false (by decide : ¬ (0 : Int) > largestScale), Bool.and_false]

/-- A number below the limit of exact ones is not taken as huge. -/
theorem Numeral.isHuge_toDigits {n : Nat} (h : n < Nat.pow 2 53) :
    (⟨false, Nat.toDigits 10 n, [], none⟩ : Numeral).isHuge = false := by
  have hvalue : Nat.ofDigitChars 10 (Nat.toDigits 10 n) 0 = n := decimal_toDigits n
  -- all digits fit the significand, so that no digit is left to scale it by
  have htake : takeDigits 0 (Nat.toDigits 10 n) = (n, (Nat.toDigits 10 n).length) := by
    rw [takeDigits_eq, hvalue]
    rw [hvalue]
    exact Nat.lt_trans h (by decide)
  have hscale : (none : Option Int).getD 0 +
      ((Nat.toDigits 10 n).length - (Nat.toDigits 10 n).length : Int) - (0 : Nat) = 0 := by
    simp
  simp only [isHuge, htake, takeDigits, hscale, overflows_zero_scale h]

/-- The digits of an offset stand for it. -/
theorem Numeral.toOffset_toDigits (n : UInt32) :
    (⟨false, Nat.toDigits 10 n.toNat, [], none⟩ : Numeral).toOffset = .ok n := by
  have hn : n.toNat < Nat.pow 2 32 := n.toNat_lt
  have hinteger : (⟨false, Nat.toDigits 10 n.toNat, [], none⟩ : Numeral).integer? =
      some (n.toNat : Int) := by
    have h : ¬ n.toNat ≥ Nat.pow 2 64 := by
      rw [Nat.not_le]
      exact Nat.lt_trans hn (by decide)
    simp [integer?, decimal_toDigits, h]
  have hrange : 0 ≤ (n.toNat : Int) ∧ (n.toNat : Int) < Nat.pow 2 32 := by
    omega
  rw [toOffset, hinteger]
  simp only [hrange, and_self, if_true, Int.toNat_natCast, UInt32.ofNat_toNat]

/-- An offset is read back from its digits. -/
theorem readOffset_write {n : UInt32} {s rest : List Char} (hends : NumeralEnds rest)
    (hs : skipBlanks s = Nat.toDigits 10 n.toNat ++ rest) :
    readOffset s = .ok (.number n, rest) := by
  have hsmall : n.toNat < Nat.pow 2 53 := Nat.lt_trans n.toNat_lt (by decide)
  have hnumber : number (Nat.toDigits 10 n.toNat ++ rest) =
      .ok (⟨false, Nat.toDigits 10 n.toNat, [], none⟩, rest) := by
    simp only [number, numeral_toDigits _ hends, bind, Except.bind,
      Numeral.isHuge_toDigits hsmall, Bool.false_eq_true, if_false]
  obtain ⟨c, cs, hcs, hc⟩ := toDigits_eq_cons n.toNat
  have htext : Nat.toDigits 10 n.toNat ++ rest = c :: (cs ++ rest) := by
    rw [hcs, List.cons_append]
  rw [htext] at hs hnumber
  simp only [readOffset, hs, hc, or_true, if_true, hnumber, bind, Except.bind,
    Numeral.toOffset_toDigits]

end Lowering.Json
