import Mathlib.Data.List.DropRight
import Lowering.Proofs.Json.RoundTrip

/-!
# Texts that are cut short

The text of a program is complete only at its last character. Main statement: of a text that is cut
short, all that is wrong is that it ends, and after the whole text nothing but blanks may stand
(`decode_delimited`). A reader of a text that is cut short goes on as in the whole text until it
comes to the cut (`CutsOff`). Only numbers have texts that can be cut short to that of another one;
since something has to follow them, the end of the text is found after them.
-/

namespace Lowering.Json

/-! ## Cuts -/

/-- What comes of reading something that the text may be cut short in, where `after` is to follow
it and `cut` is missing in the end: the text ends, or there is nothing left of it, or that has been
read which was to be read. -/
def CutsOff {α : Type} (cut after : List Char) (result : Except Fault (α × List Char)) (a : α) :
    Prop :=
  result = .error .endOfText ∨ (∃ b, result = .ok (b, [])) ∨
    ∃ left, left ++ cut = after ∧ result = .ok (a, left)

/-- A result that is cut off can be changed afterwards. -/
theorem CutsOff.map {α β : Type} {cut after : List Char} {result : Except Fault (α × List Char)}
    {a : α} (h : CutsOff cut after result a) (f : α → β) :
    CutsOff cut after (result.map fun (b, rest) => (f b, rest)) (f a) := by
  rcases h with h | ⟨b, h⟩ | ⟨left, hleft, h⟩
  · exact .inl (by rw [h]; rfl)
  · exact .inr (.inl ⟨f b, by rw [h]; rfl⟩)
  · exact .inr (.inr ⟨left, hleft, by rw [h]; rfl⟩)

/-- If the text ends after what has been read, it ends in both together. -/
theorem CutsOff.bind {α β : Type} {cut after : List Char} {result : Except Fault (α × List Char)}
    {a : α} (h : CutsOff cut after result a) {next : α × List Char → Except Fault β}
    (hempty : ∀ b, next (b, []) = .error .endOfText)
    (hnext : ∀ left, left ++ cut = after → next (a, left) = .error .endOfText) :
    (result >>= next) = .error .endOfText := by
  rcases h with h | ⟨b, h⟩ | ⟨left, hleft, h⟩
  · rw [h]
    rfl
  · rw [h]
    exact hempty b
  · rw [h]
    exact hnext left hleft

/-- A text of two parts is cut short in the first or after it. -/
theorem cut_cases {s cut part after : List Char} (h : s ++ cut = part ++ after) :
    (∃ missing, missing ≠ [] ∧ s ++ missing = part ∧ cut = missing ++ after) ∨
      ∃ left, s = part ++ left ∧ left ++ cut = after := by
  rcases List.append_eq_append_iff.mp h with ⟨missing, hpart, hcut⟩ | ⟨left, hs, hafter⟩
  · cases missing with
    | nil => exact .inr ⟨[], by rw [hpart, List.append_nil, List.append_nil], hcut⟩
    | cons c missing => exact .inl ⟨c :: missing, List.cons_ne_nil _ _, hpart.symm, hcut⟩
  · exact .inr ⟨left, hs, hafter.symm⟩

/-- A text that is cut short either ends with its leading blanks, or goes on as the whole text. -/
theorem skipBlanks_cut {s cut text : List Char} (h : skipBlanks (s ++ cut) = text) :
    skipBlanks s = [] ∨ skipBlanks s ++ cut = text := by
  rw [skipBlanks, List.dropWhile_append] at h
  split at h
  · rename_i hempty
    exact .inl (List.isEmpty_iff.mp hempty)
  · exact .inr h

/-- A single character that is cut is missing. -/
theorem eq_nil_of_cut {s cut : List Char} {c : Char} (hcut : cut ≠ []) (h : s ++ cut = [c]) :
    s = [] := by
  rcases List.append_eq_singleton_iff.mp h with ⟨hs, _⟩ | ⟨_, hnil⟩
  · exact hs
  · exact absurd hnil hcut

/-- What is cut off from something that starts with a character leaves nothing, or the character. -/
theorem cut_cons {s cut text : List Char} {c : Char} (h : s ++ cut = c :: text) :
    s = [] ∨ ∃ tail, s = c :: tail ∧ tail ++ cut = text := by
  cases s with
  | nil => exact .inl rfl
  | cons d tail =>
      cases h
      exact .inr ⟨tail, rfl, rfl⟩

/-! ## Scalars -/

/-- A word that is cut ends too early. -/
theorem word_cut {expected s cut : List Char} (hcut : cut ≠ []) (h : s ++ cut = expected) :
    word expected s = .error .endOfText := by
  subst h
  induction s with
  | nil =>
      obtain ⟨c, cs, rfl⟩ := List.exists_cons_of_ne_nil hcut
      rfl
  | cons c s ih =>
      rw [List.cons_append, word, if_pos rfl, ih]

/-- Characters of one byte each take up as many bytes as there are. -/
theorem utf8ByteSize_eq_length {s : List Char} (h : ∀ c ∈ s, c.utf8Size = 1) :
    (String.ofList s).utf8ByteSize = s.length := by
  induction s with
  | nil => rfl
  | cons c s ih =>
      rw [String.ofList_cons, String.utf8ByteSize_append, String.utf8ByteSize_singleton,
        h c List.mem_cons_self, ih fun d hd => h d (List.mem_cons_of_mem c hd), List.length_cons,
        Nat.add_comm]

/-- Hexadecimal digits take one byte each. -/
theorem IsHex.utf8Size_eq {unit : Nat} {hex : List Char} (h : IsHex unit hex) :
    ∀ c ∈ hex, c.utf8Size = 1 := by
  have hdigits : ∀ k < 16, (Nat.digitChar k).utf8Size = 1 ∧
      (Nat.digitChar k).toUpper.utf8Size = 1 := by decide
  have hdigit : ∀ {value : Nat} {c : Char}, IsHexDigit value c → c.utf8Size = 1 := by
    rintro value c ⟨hlt, rfl | rfl⟩
    · exact (hdigits value hlt).1
    · exact (hdigits value hlt).2
  cases h with
  | digits ha hb hc hd => simp [hdigit ha, hdigit hb, hdigit hc, hdigit hd]

/-- A unit that is cut ends too early. -/
theorem IsHex.fourHex_cut {unit : Nat} {hex s cut : List Char} (h : IsHex unit hex)
    (hcut : cut ≠ []) (hs : s ++ cut = hex) : fourHex s = .error .endOfText := by
  have hlength : s.length < 4 := by
    have hfour : hex.length = 4 := by cases h; rfl
    have hpositive := List.length_pos_iff.mpr hcut
    rw [← hs, List.length_append] at hfour
    omega
  have hsize : (String.ofList s).utf8ByteSize < 4 := by
    rw [utf8ByteSize_eq_length fun c hc => h.utf8Size_eq c (hs ▸ List.mem_append_left cut hc)]
    exact hlength
  unfold fourHex
  split
  · simp only [List.length_cons] at hlength
    omega
  · rw [if_pos hsize]

/-- A string that is cut in an escape ends too early. -/
theorem stringBody_escape_cut {rest : List Char} (h : escape true rest = .error .endOfText) :
    stringBody true ('\\' :: rest) = .error .endOfText := by
  rw [stringBody, if_neg (by decide), if_pos rfl]
  split
  · rename_i hfault
    rw [h] at hfault
    cases hfault
    rfl
  · rename_i hok
    rw [h] at hok
    cases hok

/-- A character that is cut short is found to end. -/
theorem stringBody_cut_char {c : Char} {s cut : List Char} (hcut : cut ≠ [])
    (h : s ++ cut = writeChar c) : stringBody true s = .error .endOfText := by
  have hempty : stringBody true [] = .error .endOfText := by rw [stringBody]
  rcases writeChar_cases c with ⟨letter, hwrite, _, _⟩ | ⟨hcontrol, hwrite⟩ | ⟨_, _, _, hwrite⟩
  · rw [hwrite] at h
    rcases cut_cons h with rfl | ⟨tail, rfl, htail⟩
    · exact hempty
    · rw [eq_nil_of_cut hcut htail]
      exact stringBody_escape_cut rfl
  · have hsmall : c.toNat < 32 := hcontrol
    rw [hwrite] at h
    rcases cut_cons h with rfl | ⟨tail, rfl, htail⟩
    · exact hempty
    apply stringBody_escape_cut
    rcases cut_cons htail with rfl | ⟨hex, rfl, hhex⟩
    · rfl
    · have hdigits := isHex_digits 0 0 (c.toNat / 16) (c.toNat % 16) (by omega)
      rw [escape, if_pos rfl, hdigits.fourHex_cut hcut hhex]
      rfl
  · rw [hwrite] at h
    rw [eq_nil_of_cut hcut h]
    exact hempty

/-- A string that is cut ends too early. -/
theorem stringBody_cut {cs s cut : List Char} (hcut : cut ≠ [])
    (h : s ++ cut = cs.flatMap writeChar ++ ['"']) : stringBody true s = .error .endOfText := by
  induction cs generalizing s with
  | nil => rw [eq_nil_of_cut hcut h, stringBody]
  | cons c cs ih =>
      rw [List.flatMap_cons, List.append_assoc] at h
      rcases cut_cases h with ⟨missing, hmissing, hchar, _⟩ | ⟨left, rfl, hleft⟩
      · exact stringBody_cut_char hmissing hchar
      · rw [(charSpelling_write c).stringBody_eq, ih hleft]
        rfl

/-- Of a string that is cut short there is nothing left, or its start without an end. -/
theorem writeString_cut {t : String} {s cut : List Char} (hcut : cut ≠ [])
    (h : s ++ cut = writeString t) :
    s = [] ∨ ∃ body, s = '"' :: body ∧ stringBody true body = .error .endOfText := by
  rcases cut_cons h with hs | ⟨body, hs, hbody⟩
  · exact .inl hs
  · exact .inr ⟨body, hs, stringBody_cut hcut hbody⟩

/-- What is left of the digits of a number are the digits of a number. -/
theorem toDigits_cut {n : Nat} {s cut : List Char} (hs : s ≠ [])
    (h : s ++ cut = Nat.toDigits 10 n) : ∃ m ≤ n, s = Nat.toDigits 10 m := by
  induction n using Nat.strongRecOn generalizing cut with
  | _ n ih =>
      by_cases hcut : cut = []
      · rw [hcut, List.append_nil] at h
        exact ⟨n, Nat.le_refl n, h⟩
      by_cases hsmall : n < 10
      · rw [Nat.toDigits_of_lt_base hsmall] at h
        exact absurd (eq_nil_of_cut hcut h) hs
      · rw [Nat.toDigits_of_base_le (by decide) (by omega),
          ← List.dropLast_append_getLast hcut, ← List.append_assoc] at h
        obtain ⟨m, hm, hdigits⟩ := ih (n / 10) (by omega) (List.append_inj_left' h rfl)
        exact ⟨m, by omega, hdigits⟩

/-- The digits of an offset that are cut are none, or those of another offset. -/
theorem readOffset_cut {n : UInt32} {s cut : List Char}
    (h : skipBlanks s ++ cut = Nat.toDigits 10 n.toNat) :
    readOffset s = .error .endOfText ∨ ∃ m, readOffset s = .ok (.number m, []) := by
  by_cases hs : skipBlanks s = []
  · exact .inl (by rw [readOffset, hs])
  · obtain ⟨m, hm, hdigits⟩ := toDigits_cut hs h
    have hlt : m < 2 ^ 32 := Nat.lt_of_le_of_lt hm n.toNat_lt
    have hends : NumeralEnds [] := by simp [NumeralEnds]
    refine .inr ⟨UInt32.ofNat m, readOffset_write hends ?_⟩
    rw [hdigits, List.append_nil, UInt32.toNat_ofNat_of_lt' hlt]

/-! ## Data up to a cut -/

/-- A reader finds that the text of a datum is cut short; only a number may be read all the same. So
many steps as characters are left are enough. -/
def EndsEarly (steps : Nat) (layout : Layout) (depth : Nat)
    (reader : List Char → Except Fault (Datum × List Char)) (d : Datum) : Prop :=
  ∀ s cut, cut ≠ [] → (d.write layout depth).length ≤ steps + cut.length →
    skipBlanks s ++ cut = d.write layout depth →
    reader s = .error .endOfText ∨ (∃ n, d = .number n) ∧ ∃ v, reader s = .ok (v, [])

/-- A reader reads a datum in a text that is cut short somewhere, if it can. -/
def ReadsToCut (steps : Nat) (layout : Layout) (depth : Nat)
    (reader : List Char → Except Fault (Datum × List Char)) (d : Datum) : Prop :=
  ∀ s cut after, cut ≠ [] → NumeralEnds after →
    (d.write layout depth ++ after).length ≤ steps + cut.length →
    skipBlanks (s ++ cut) = d.write layout depth ++ after → CutsOff cut after (reader s) d

/-- What can follow a numeral still can when it is cut. -/
theorem NumeralEnds.of_append {left cut : List Char} (h : NumeralEnds (left ++ cut)) :
    NumeralEnds left := by
  intro c hc
  cases left with
  | nil => cases hc
  | cons d left => exact h c hc

/-- A reader that ends early inside a datum and reads it as a whole reads up to a cut. -/
theorem EndsEarly.readsToCut {steps levels depth : Nat} {layout : Layout} {d : Datum}
    {reader : List Char → Except Fault (Datum × List Char)}
    (hearly : EndsEarly steps layout depth reader d)
    (hback : (d.write layout depth).length ≤ steps → ReadsWithin levels layout depth reader d)
    (hlevels : d.nesting ≤ levels) : ReadsToCut steps layout depth reader d := by
  intro s cut after hcut hends hsteps hs
  rw [List.length_append] at hsteps
  have hfound : (reader s = .error .endOfText ∨ (∃ n, d = .number n) ∧
      ∃ v, reader s = .ok (v, [])) → CutsOff cut after (reader s) d :=
    Or.imp id fun h => .inl h.2
  rcases skipBlanks_cut hs with hblank | hs
  · obtain ⟨c, tail, hwrite, _⟩ := d.write_eq_cons layout depth
    refine hfound (hearly s (d.write layout depth) ?_ (Nat.le_add_left _ _) ?_)
    · rw [hwrite]
      exact List.cons_ne_nil c tail
    · rw [hblank, List.nil_append]
  rcases cut_cases hs with ⟨missing, hmissing, hpart, rfl⟩ | ⟨left, hleft, rfl⟩
  · rw [List.length_append] at hsteps
    exact hfound (hearly s missing hmissing (by omega) hpart)
  · rw [List.length_append] at hsteps
    refine .inr (.inr ⟨left, rfl, ?_⟩)
    rw [hback (by omega) s left (fun _ _ => hends.of_append) hleft, ifWithin, if_pos hlevels]

/-! ## Parts between brackets -/

section Parts

variable {layout : Layout} {depth : Nat} {s cut : List Char}

/-- After a line break that may be cut, either nothing is left or the next character is. -/
theorem lineBreak_cut {c : Char} {text : List Char} (hblank : isBlank c = false)
    (h : s ++ cut = layout.lineBreak depth ++ c :: text) :
    skipBlanks s = [] ∨ ∃ tail, skipBlanks s = c :: tail ∧ tail ++ cut = text := by
  have hskip := layout.skipBlanks_lineBreak depth hblank text
  rw [← h] at hskip
  exact (skipBlanks_cut hskip).elim .inl cut_cons

/-- Only blanks are left of what stands after the last part. -/
theorem skipBlanks_cut_end {closing : Char} (hclosing : isBlank closing = false) {first : Bool}
    (hcut : cut ≠ []) (h : s ++ cut = partsLeft layout depth closing [] first []) :
    skipBlanks s = [] := by
  have hskip := skipBlanks_partsLeft_nil layout depth [] first hclosing
  rw [← h] at hskip
  exact (skipBlanks_cut hskip).elim id (eq_nil_of_cut hcut)

/-- An array that is cut after its last element ends too early. -/
theorem nextElement_cut_end {first : Bool} (hcut : cut ≠ [])
    (h : s ++ cut = partsLeft layout depth ']' [] first []) :
    nextElement first s = .error .endOfText := by
  rw [nextElement, skipBlanks_cut_end rfl hcut h]

/-- The next element is reached, if the text is not cut short before it. -/
theorem nextElement_cut_part {first : Bool} {part : List Char} {c : Char} {tail : List Char}
    (hpart : part = c :: tail) (hblank : isBlank c = false) (hclosing : c ≠ ']')
    {parts : List (List Char)}
    (h : s ++ cut = partsLeft layout depth ']' [] first (part :: parts)) :
    nextElement first s = .error .endOfText ∨
      ∃ left, nextElement first s = .ok (true, left) ∧
        skipBlanks (left ++ cut) = part ++ partsLeft layout depth ']' [] false parts := by
  subst hpart
  cases first with
  | true =>
      rcases lineBreak_cut hblank h with hs | ⟨left, hs, hleft⟩
      · exact .inl (by rw [nextElement, hs])
      · refine .inr ⟨c :: left, ?_, ?_⟩
        · simp only [nextElement, hs, if_neg hclosing, if_true]
        · rw [List.cons_append, skipBlanks_cons hblank, hleft]
          rfl
  | false =>
      rcases cut_cons h with rfl | ⟨s, rfl, hs⟩
      · exact .inl rfl
      have hcomma : skipBlanks (',' :: s) = ',' :: s := skipBlanks_cons rfl s
      rcases lineBreak_cut hblank hs with hs | ⟨left, hs, hleft⟩
      · exact .inl (by simp only [nextElement, hcomma, hs]; rfl)
      · refine .inr ⟨c :: left, ?_, ?_⟩
        · simp only [nextElement, hcomma, hs, if_neg hclosing]
          rfl
        · rw [List.cons_append, skipBlanks_cons hblank, hleft]
          rfl

/-- A key that may be cut ends too early or is read. -/
theorem readKey_cut {key : String} {after : List Char}
    (h : skipBlanks (s ++ cut) = writeString key ++ after) :
    readKey s = .error .endOfText ∨ ∃ left, readKey s = .ok (key, left) ∧ left ++ cut = after := by
  rcases skipBlanks_cut h with hs | hs
  · exact .inl (by rw [readKey, hs])
  rcases cut_cases hs with ⟨missing, hmissing, hpart, _⟩ | ⟨left, hs, hleft⟩
  · rcases writeString_cut hmissing hpart with hs | ⟨body, hs, hbody⟩
    · exact .inl (by rw [readKey, hs])
    · exact .inl (by simp only [readKey, hs, if_true, hbody, Except.map])
  · exact .inr ⟨left, (stringSpelling_write key).readKey_eq hs, hleft⟩

/-- The first key of an object is read as any key. -/
theorem nextKey_first (h : (skipBlanks s).head? ≠ some '\x7d') :
    nextKey true s = (readKey s).map fun (key, rest) => (some key, rest) := by
  cases hs : skipBlanks s with
  | nil => simp only [nextKey, readKey, hs, Except.map]
  | cons c tail =>
      rw [hs, List.head?_cons, ne_eq, Option.some.injEq] at h
      have hskip : skipBlanks (c :: tail) = c :: tail := by
        rw [← hs]
        exact List.dropWhile_idempotent isBlank s
      simp only [nextKey, readKey, hs, hskip, if_neg h, if_true]

/-- The next key is read, if the text is not cut short before its end. -/
theorem nextKey_cut {first : Bool} {key : String} {value : List Char} {parts : List (List Char)}
    (h : s ++ cut = partsLeft layout depth '\x7d' [] first (writeKeyed layout key value :: parts)) :
    nextKey first s = .error .endOfText ∨
      ∃ left, nextKey first s = .ok (some key, left) ∧
        left ++ cut = ':' :: (layout.gap ++
          (value ++ partsLeft layout depth '\x7d' [] false parts)) := by
  have hskip := skipBlanks_writeKeyed layout (depth + 1) key value
    (partsLeft layout depth '\x7d' [] false parts)
  cases first with
  | true =>
      rw [partsLeft] at h
      rw [← h] at hskip
      have hfirst : (skipBlanks s).head? ≠ some '\x7d' := by
        rcases skipBlanks_cut hskip with hs | hs
        · simp [hs]
        · rw [writeString_append] at hs
          rcases cut_cons hs with hs | ⟨tail, hs, _⟩ <;> simp [hs]
      rw [nextKey_first hfirst]
      rcases readKey_cut hskip with hkey | ⟨left, hkey, hleft⟩
      · exact .inl (by rw [hkey]; rfl)
      · exact .inr ⟨left, by rw [hkey]; rfl, hleft⟩
  | false =>
      rcases cut_cons h with rfl | ⟨s, rfl, hs⟩
      · exact .inl rfl
      have hcomma : skipBlanks (',' :: s) = ',' :: s := skipBlanks_cons rfl s
      rw [← hs] at hskip
      rcases readKey_cut hskip with hkey | ⟨left, hkey, hleft⟩
      · exact .inl (by simp only [nextKey, hcomma, hkey]; rfl)
      · exact .inr ⟨left, by simp only [nextKey, hcomma, hkey]; rfl, hleft⟩

/-- A colon that may be cut ends too early or is read. -/
theorem colon_cut {after : List Char} (h : s ++ cut = ':' :: after) :
    colon s = .error .endOfText ∨ ∃ left, colon s = .ok left ∧ left ++ cut = after := by
  rcases cut_cons h with rfl | ⟨left, rfl, hleft⟩
  · exact .inl rfl
  · exact .inr ⟨left, colon_cons left, hleft⟩

end Parts

/-- What is left from a part on is no longer than with what separates it. -/
theorem length_part_le (layout : Layout) (depth : Nat) (closing : Char) (first : Bool)
    (part : List Char) (parts : List (List Char)) :
    (part ++ partsLeft layout depth closing [] false parts).length ≤
      (partsLeft layout depth closing [] first (part :: parts)).length := by
  cases first with
  | true => simp [partsLeft]
  | false =>
      simp only [partsLeft, List.length_cons, List.length_append]
      omega

/-! ## Lists and records -/

/-- An array that is cut behind an element ends too early. -/
theorem readElements_nil (element : List Char → Except Fault (Datum × List Char)) (steps : Nat) :
    readElements element steps false [] = .error .endOfText := by
  cases steps <;> rfl

/-- An array that is cut anywhere ends too early. -/
theorem readElements_cut {element : List Char → Except Fault (Datum × List Char)}
    {steps depth : Nat} {layout : Layout} {items : List Datum}
    (hitems : ∀ d ∈ items, ReadsToCut steps layout (depth + 1) element d) (left : Nat)
    {first : Bool} {s cut : List Char} (hcut : cut ≠ [])
    (h : s ++ cut =
      partsLeft layout depth ']' [] first (items.map (Datum.write layout (depth + 1))))
    (hsteps : (s ++ cut).length ≤ steps + cut.length) :
    readElements element left first s = .error .endOfText := by
  induction items generalizing left first s with
  | nil =>
      cases left with
      | zero => rfl
      | succ left =>
          rw [readElements, nextElement_cut_end hcut h]
          rfl
  | cons d items ih =>
      cases left with
      | zero => rfl
      | succ left =>
          obtain ⟨c, tail, hwrite, hblank, hclosing, _⟩ := d.write_eq_cons layout (depth + 1)
          rcases nextElement_cut_part hwrite hblank hclosing h with hnext | ⟨s', hnext, hs'⟩
          · rw [readElements, hnext]
            rfl
          have hlength := length_part_le layout depth ']' first (d.write layout (depth + 1))
            (items.map (Datum.write layout (depth + 1)))
          rw [h, List.map_cons] at hsteps
          have hd := hitems d List.mem_cons_self s' cut _ hcut
            (numeralEnds_partsLeft layout depth [] (.inl rfl) _)
            (Nat.le_trans hlength hsteps) hs'
          rw [readElements, hnext]
          show (element s' >>= _) = _
          apply hd.bind
          · intro b
            show (readElements element left false [] >>= _) = _
            rw [readElements_nil]
            rfl
          · intro rest hrest
            rw [← hrest] at hlength
            rw [List.length_append] at hlength
            have ih' := ih (fun e he => hitems e (List.mem_cons_of_mem d he)) left hrest (by omega)
            show (readElements element left false rest >>= _) = _
            rw [ih']
            rfl

/-- A value is read after its colon, as far as the text goes. -/
theorem ReadsToCut.after_colon {steps depth : Nat} {layout : Layout} {d : Datum}
    {reader : List Char → Except Fault (Datum × List Char)}
    (h : ReadsToCut steps layout (depth + 1) reader d) {s cut : List Char} (hcut : cut ≠ [])
    {key : String} {parts : List (List Char)}
    (hs : s ++ cut = layout.gap ++
      (d.write layout (depth + 1) ++ partsLeft layout depth '\x7d' [] false parts))
    (hsteps : (writeKeyed layout key (d.write layout (depth + 1)) ++
      partsLeft layout depth '\x7d' [] false parts).length ≤ steps + cut.length) :
    CutsOff cut (partsLeft layout depth '\x7d' [] false parts) (reader s) d := by
  have hlength := length_le_writeKeyed layout key (d.write layout (depth + 1))
  apply h s cut _ hcut (numeralEnds_partsLeft layout depth [] (.inr rfl) parts)
  · rw [List.length_append] at hsteps ⊢
    omega
  · rw [hs, skipBlanks_append layout.isBlank_gap, d.skipBlanks_write]

/-- An object that is cut behind a field ends too early. -/
theorem readFieldObject_nil (deeper : ShapeReader) (fields : List Field) (steps : Nat)
    (seen : List (String × Datum)) :
    readFieldObject deeper fields steps false seen [] = .error .endOfText := by
  cases steps <;> rfl

/-- An object that is cut anywhere ends too early. -/
theorem readFieldObject_cut {deeper : ShapeReader} {fields : List Field} {steps depth : Nat}
    {layout : Layout} (done todo : List (Field × Datum))
    (hnodup : ((done ++ todo).map fun entry => entry.1.name).Nodup)
    (hfind : ∀ entry ∈ todo, fields.find? (·.name = entry.1.name) = some entry.1)
    (htodo : ∀ entry ∈ todo,
      ReadsToCut steps layout (depth + 1) (readField deeper entry.1) entry.2)
    (left : Nat) {first : Bool} {s cut : List Char} (hcut : cut ≠ [])
    (h : s ++ cut =
      partsLeft layout depth '\x7d' [] first (todo.map (writeEntry layout (depth + 1))))
    (hsteps : (s ++ cut).length ≤ steps + cut.length) :
    readFieldObject deeper fields left first (done.map named) s = .error .endOfText := by
  induction todo generalizing done left first s with
  | nil =>
      cases left with
      | zero => rfl
      | succ left =>
          rw [readFieldObject, nextKey, skipBlanks_cut_end rfl hcut h]
          rfl
  | cons entry todo ih =>
      cases left with
      | zero => rfl
      | succ left =>
          have hlength := length_part_le layout depth '\x7d' first
            (writeEntry layout (depth + 1) entry) (todo.map (writeEntry layout (depth + 1)))
          rw [h, List.map_cons] at hsteps
          rcases nextKey_cut h with hnext | ⟨s₁, hnext, hs₁⟩
          · rw [readFieldObject, hnext]
            rfl
          have hnew := lookup_named_before hnodup
          rw [readFieldObject, hnext]
          simp only [bind, Except.bind, hfind entry List.mem_cons_self, hnew, Option.isSome_none,
            Bool.false_eq_true, if_false]
          rcases colon_cut hs₁ with hcolon | ⟨s₂, hcolon, hs₂⟩
          · rw [hcolon]
          have hvalue := (htodo entry List.mem_cons_self).after_colon hcut hs₂
            (Nat.le_trans hlength hsteps)
          rw [hcolon]
          show (readField deeper entry.1 s₂ >>= _) = _
          apply hvalue.bind
          · intro d
            exact readFieldObject_nil deeper fields left _
          · intro rest hrest
            have hdone : (done ++ [entry]) ++ todo = done ++ entry :: todo := by simp
            rw [← hrest, List.length_append] at hlength
            have ih' := ih (done ++ [entry]) (hdone ▸ hnodup)
              (fun e he => hfind e (List.mem_cons_of_mem entry he))
              (fun e he => htodo e (List.mem_cons_of_mem entry he)) left hrest (by omega)
            rwa [List.map_append, List.map_singleton] at ih'

/-! ## Data -/

/-- Blanks alone are the start of a text of any shape. -/
theorem readAt_blank (kind : InfoKind) (steps levels : Nat) (shape : Shape) {s : List Char}
    (h : skipBlanks s = []) : readAt kind steps levels shape s = .error .endOfText := by
  have hshape : ∀ deeper?, readShape kind steps deeper? shape s = .error .endOfText := by
    intro deeper?
    cases shape with
    | info =>
        cases kind with
        | offset => simp only [readShape, readInfo, readOffset, h]
        | text => simp only [readShape, readInfo, readString, h, mismatch, Except.map]
        | unit => simp only [readShape, readInfo, readNull, h, mismatch]
    | text => simp only [readShape, readString, h, mismatch, Except.map]
    | nodes item => simp only [readShape, readNodes, h, mismatch]
    | record record => simp only [readShape, readRecord, h]
    | choice choice => simp only [readShape, readChoice, h]
  cases levels with
  | zero => exact hshape none
  | succ levels => exact hshape (some (readAt kind steps levels))

/-- A text that is cut ends too early. -/
theorem readString_cut {t : String} {s cut : List Char} (hcut : cut ≠ [])
    (h : skipBlanks s ++ cut = writeString t) : readString s = .error .endOfText := by
  rcases writeString_cut hcut h with hs | ⟨body, hs, hbody⟩
  · simp only [readString, hs, mismatch]
  · simp only [readString, hs, hbody, Except.map]

/-- A null that is cut ends too early. -/
theorem readNull_cut {s cut : List Char} (hcut : cut ≠ [])
    (h : skipBlanks s ++ cut = ['n', 'u', 'l', 'l']) : readNull s = .error .endOfText := by
  rcases cut_cons h with hs | ⟨tail, hs, htail⟩
  · simp only [readNull, hs, mismatch]
  · simp only [readNull, hs, word_cut hcut htail, Except.map]

/-- A field is found to end as the datum in it is. -/
theorem readField_endsEarly {kind : InfoKind} {steps levels depth : Nat} {layout : Layout}
    {field : Field} {d : Datum} (h : ¬ (field.optional = true ∧ d = .null) →
      EndsEarly steps layout depth (readAt kind steps levels field.shape) d) :
    EndsEarly steps layout depth (readField (readAt kind steps levels) field) d := by
  intro s cut hcut hsteps hs
  obtain ⟨c, tail, hwrite, _, _, hn⟩ := d.write_eq_cons layout depth
  rcases cut_cons (hs.trans hwrite) with hblank | ⟨rest, hrest, _⟩
  · rw [readField, hblank, if_neg (by simp)]
    exact .inl (readAt_blank kind steps levels field.shape hblank)
  by_cases hnull : field.optional = true ∧ d = .null
  · obtain ⟨hoptional, rfl⟩ := hnull
    cases hwrite
    rw [readField, hrest, if_pos ⟨hoptional, rfl⟩]
    exact .inl (readNull_cut hcut hs)
  · have hread : ¬ (field.optional = true ∧ (skipBlanks s).head? = some 'n') := by
      rintro ⟨hoptional, hhead⟩
      rw [hrest, List.head?_cons, Option.some.injEq] at hhead
      exact hnull ⟨hoptional, hn hhead⟩
    rw [readField, if_neg hread]
    exact h hnull s cut hcut hsteps hs

/-- A list of nodes that is cut ends too early. -/
theorem readNodes_cut {deeper : ShapeReader} {steps depth : Nat} {layout : Layout} {item : Item}
    {items : List Datum}
    (hitems : ∀ d ∈ items, ReadsToCut steps layout (depth + 1) (deeper (.node item)) d)
    {s cut : List Char} (hcut : cut ≠ [])
    (hsteps : ((Datum.list items).write layout depth).length ≤ steps + cut.length)
    (hs : skipBlanks s ++ cut = (Datum.list items).write layout depth) :
    readNodes steps (some deeper) item s = .error .endOfText := by
  rw [← List.append_nil ((Datum.list items).write layout depth), Datum.write_list,
    writeBracketed_append] at hs hsteps
  rcases cut_cons hs with hs | ⟨s₁, hs, hs₁⟩
  · simp only [readNodes, hs, mismatch]
  · rw [List.length_cons, ← hs₁] at hsteps
    simp only [readNodes, hs]
    rw [readElements_cut hitems steps hcut hs₁ (Nat.le_of_succ_le hsteps)]
    rfl

/-- A record that is cut ends too early. -/
theorem readRecord_cut {deeper : ShapeReader} {steps depth : Nat} {layout : Layout} {r : Record}
    {data : List Datum} (hlength : data.length = r.fields.length)
    (hdata : ∀ entry ∈ r.fields.zip data,
      ReadsToCut steps layout (depth + 1) (readField deeper entry.1) entry.2)
    {s cut : List Char} (hcut : cut ≠ [])
    (hsteps : ((Datum.record r data).write layout depth).length ≤ steps + cut.length)
    (hs : skipBlanks s ++ cut = (Datum.record r data).write layout depth) :
    readRecord steps (some deeper) r s = .error .endOfText := by
  obtain ⟨hnodup, _⟩ := arrangeFields_written r.nodup_names hlength (.refl _)
    fun entry hentry hmissing => absurd hentry hmissing
  have hfind : ∀ entry ∈ r.fields.zip data,
      r.fields.find? (·.name = entry.1.name) = some entry.1 := fun entry hentry =>
    find?_name r.nodup_names (List.of_mem_zip hentry).1
  rw [← List.append_nil ((Datum.record r data).write layout depth), Datum.write_record,
    writeBracketed_append] at hs hsteps
  rcases cut_cons hs with hs | ⟨s₁, hs, hs₁⟩
  · simp only [readRecord, hs]
  · rw [List.length_cons, ← hs₁] at hsteps
    have hobject := readFieldObject_cut [] (r.fields.zip data) hnodup hfind hdata steps hcut hs₁
      (Nat.le_of_succ_le hsteps)
    simp only [readRecord, hs]
    rw [if_pos (.inr trivial), if_neg (by decide), ← List.map_nil, hobject]
    rfl

/-- A variant without payload that is cut ends too early. -/
theorem readChoice_label_cut {deeper? : Option ShapeReader} {c : Choice} {label : String}
    {s cut : List Char} (hcut : cut ≠ []) (h : skipBlanks s ++ cut = writeString label) :
    readChoice deeper? c s = .error .endOfText := by
  rcases writeString_cut hcut h with hs | ⟨body, hs, hbody⟩
  · simp only [readChoice, hs]
  · simp only [readChoice, hs, if_true, hbody, bind, Except.bind]

/-- A variant with a payload that is cut ends too early. -/
theorem readChoice_variant_cut {deeper : ShapeReader} {steps depth : Nat} {layout : Layout}
    {c : Choice} {tag : Tag} {shape : Shape} {payload : Datum} (htag : tag ∈ c.tags)
    (hshape : tag.payload? = some shape)
    (hpayload : ReadsToCut steps layout (depth + 1) (deeper shape) payload) {s cut : List Char}
    (hcut : cut ≠ [])
    (hsteps : ((Datum.variant tag payload).write layout depth).length ≤ steps + cut.length)
    (hs : skipBlanks s ++ cut = (Datum.variant tag payload).write layout depth) :
    readChoice (some deeper) c s = .error .endOfText := by
  rw [← List.append_nil ((Datum.variant tag payload).write layout depth), Datum.write_variant,
    writeBracketed_append, List.map_singleton] at hs hsteps
  rcases cut_cons hs with hs | ⟨s₁, hs, hs₁⟩
  · simp only [readChoice, hs]
  have hskip := skipBlanks_writeKeyed layout (depth + 1) tag.label
    (payload.write layout (depth + 1)) (partsLeft layout depth '\x7d' [] false [])
  rw [partsLeft] at hs₁
  rw [← hs₁] at hskip
  simp only [readChoice, hs]
  show (readKey s₁ >>= _) = _
  rcases readKey_cut hskip with hkey | ⟨s₂, hkey, hs₂⟩
  · rw [hkey]
    rfl
  simp only [hkey, bind, Except.bind, Choice.tagOf_label htag]
  rcases colon_cut hs₂ with hcolon | ⟨s₃, hcolon, hs₃⟩
  · rw [hcolon]
  simp only [hcolon, readPayload, hshape]
  have hlength := length_part_le layout depth '\x7d' true
    (writeKeyed layout tag.label (payload.write layout (depth + 1))) []
  rw [List.length_cons] at hsteps
  have hvalue := (hpayload.after_colon hcut hs₃ (Nat.le_trans hlength (by omega))).map
    (Datum.variant tag)
  apply hvalue.bind
  · exact fun _ => rfl
  · intro left hleft
    dsimp only
    rw [skipBlanks_cut_end rfl hcut hleft]

section Readers

variable {kind : InfoKind} {layout : Layout} {depth steps levels : Nat}

/-- A reader of scalars looks no levels deeper. -/
theorem readAt_endsEarly {shape : Shape} {d : Datum}
    (h : ∀ deeper? s cut, cut ≠ [] → skipBlanks s ++ cut = d.write layout depth →
      readShape kind steps deeper? shape s = .error .endOfText ∨
        (∃ n, d = .number n) ∧ ∃ v, readShape kind steps deeper? shape s = .ok (v, [])) :
    EndsEarly steps layout depth (readAt kind steps levels shape) d := by
  intro s cut hcut _ hs
  cases levels with
  | zero => exact h none s cut hcut hs
  | succ levels => exact h (some (readAt kind steps levels)) s cut hcut hs

/-- A reader of what stands between brackets looks one level deeper. -/
theorem readAt_endsEarly_succ {shape : Shape} {d : Datum} {nesting : Nat}
    (hlevels : nesting + 1 ≤ levels)
    (h : ∀ levels, nesting ≤ levels → ∀ s cut, cut ≠ [] →
      (d.write layout depth).length ≤ steps + cut.length →
      skipBlanks s ++ cut = d.write layout depth →
      readShape kind steps (some (readAt kind steps levels)) shape s = .error .endOfText) :
    EndsEarly steps layout depth (readAt kind steps levels shape) d := by
  intro s cut hcut hsteps hs
  cases levels with
  | zero => cases hlevels
  | succ levels => exact .inl (h levels (Nat.le_of_succ_le_succ hlevels) s cut hcut hsteps hs)

end Readers

/-- Each of some data nests at most as deep as all of them. -/
theorem Datum.nesting_le_nestingAll {ds : List Datum} {d : Datum} (h : d ∈ ds) :
    d.nesting ≤ Datum.nestingAll ds := by
  rw [Datum.nestingAll_eq]
  exact le_deepest (List.mem_map_of_mem h)

/-- The text of a datum of a shape is found to end when it is cut short, if there are levels enough
for its nesting. -/
theorem Datum.Fits.endsEarly {kind : InfoKind} {shape : Shape} {d : Datum} (h : d.Fits kind shape)
    {layout : Layout} {depth steps levels : Nat} (hlevels : d.nesting ≤ levels) :
    EndsEarly steps layout depth (readAt kind steps levels shape) d := by
  induction h generalizing depth levels with
  | unitInfo => exact readAt_endsEarly fun _ s cut hcut hs => .inl (readNull_cut hcut hs)
  | offsetInfo n =>
      apply readAt_endsEarly
      intro _ s cut _ hs
      exact (readOffset_cut hs).imp id fun ⟨m, hm⟩ => ⟨⟨n, rfl⟩, .number m, hm⟩
  | textInfo t | text t =>
      apply readAt_endsEarly
      intro _ s cut hcut hs
      refine .inl ?_
      show (readString s).map _ = _
      rw [readString_cut hcut hs]
      rfl
  | @list kind item items hitems ih =>
      apply readAt_endsEarly_succ hlevels
      intro levels hlevels s cut hcut hsteps hs
      refine readNodes_cut (fun d hd => ?_) hcut hsteps hs
      have hnesting := Nat.le_trans (Datum.nesting_le_nestingAll hd) hlevels
      exact (ih d hd hnesting).readsToCut ((hitems d hd).readsBack levels) hnesting
  | @record kind r fields hlength hfields ih =>
      apply readAt_endsEarly_succ hlevels
      intro levels hlevels s cut hcut hsteps hs
      refine readRecord_cut hlength (fun entry hentry => ?_) hcut hsteps hs
      have hnesting := Nat.le_trans
        (Datum.nesting_le_nestingAll (List.of_mem_zip hentry).2) hlevels
      refine EndsEarly.readsToCut (readField_endsEarly fun hpresent => ?_) (fun hlong => ?_)
        hnesting
      · exact ih entry hentry hpresent hnesting
      · exact readField_readsWithin fun hpresent =>
          (hfields entry hentry hpresent).readsBack levels hlong
  | @bare kind c tag htag hpayload =>
      exact readAt_endsEarly fun _ s cut hcut hs => .inl (readChoice_label_cut hcut hs)
  | @variant kind c tag shape payload htag hshape hpayload ih =>
      apply readAt_endsEarly_succ hlevels
      intro levels hlevels s cut hcut hsteps hs
      have hreads : ReadsToCut steps layout (depth + 1) (readAt kind steps levels shape) payload :=
        EndsEarly.readsToCut (ih hlevels) (hpayload.readsBack levels) hlevels
      exact readChoice_variant_cut htag hshape hreads hcut hsteps hs

/-! ## Texts -/

/-- A record is no number, which alone could be cut to a shorter one. -/
theorem Datum.Fits.ne_number {kind : InfoKind} {r : Record} {d : Datum}
    (h : d.Fits kind (.record r)) (n : UInt32) : d ≠ .number n := by
  cases h with
  | record => nofun

/-- A whole text that is cut short ends too early. -/
theorem readText_cut {kind : InfoKind} {r : Record} {d : Datum} (h : d.Fits kind (.record r))
    (hnesting : d.nesting ≤ nestingLimit) {layout : Layout} {s cut : List Char} (hcut : cut ≠ [])
    (hs : s ++ cut = d.write layout 0) : readText kind (.record r) s = .error .endOfText := by
  have hskip : skipBlanks (s ++ cut) = d.write layout 0 := by
    rw [hs, ← List.append_nil (d.write layout 0), d.skipBlanks_write]
  have hsteps : (d.write layout 0).length ≤ s.length + 1 + cut.length := by
    rw [← hs, List.length_append]
    omega
  have hread : readAt kind (s.length + 1) nestingLimit (.record r) s = .error .endOfText := by
    rcases skipBlanks_cut hskip with hblank | hleft
    · exact readAt_blank kind _ nestingLimit (.record r) hblank
    · rcases h.endsEarly hnesting s cut hcut hsteps hleft with hend | ⟨⟨n, hn⟩, _⟩
      · exact hend
      · exact absurd hn (h.ne_number n)
  rw [readText, hread]
  rfl

/-- Nothing but blanks may follow a whole text. -/
theorem readText_append {kind : InfoKind} {r : Record} {d : Datum} (h : d.Fits kind (.record r))
    (hnesting : d.nesting ≤ nestingLimit) (layout : Layout) (rest : List Char) :
    readText kind (.record r) (d.write layout 0 ++ rest) =
      if rest.all isBlank then .ok d else .error .malformed := by
  have hsteps : (d.write layout 0).length ≤ (d.write layout 0 ++ rest).length + 1 := by
    rw [List.length_append]
    omega
  have hread := h.readsBack nestingLimit hsteps (d.write layout 0 ++ rest) rest
    (fun n hn => absurd hn (h.ne_number n)) (d.skipBlanks_write layout 0 rest)
  rw [ifWithin, if_pos hnesting] at hread
  have hblank : (skipBlanks rest).isEmpty = rest.all isBlank := by
    rw [Bool.eq_iff_iff, List.isEmpty_iff, List.all_eq_true]
    exact List.dropWhile_eq_nil_iff
  simp only [readText, hread, bind, Except.bind, hblank]

end Lowering.Json

namespace Lowering

open Json

/-- The text of a program that can be read says where it ends: cut short anywhere it ends too early,
and after it there may be any blanks, but nothing else. -/
theorem decode_delimited (layout : Layout) {p : Program UInt32}
    (hopen : openBrackets (p.encode layout) ≤ 127) :
    (∀ s cut : String, cut ≠ "" → s ++ cut = p.encode layout →
      Program.decode (ι := UInt32) s = .error .endOfText) ∧
    ∀ s : String, Program.decode (p.encode layout ++ s) =
      if s.toList.all isBlank then .ok p else .error .malformed := by
  have hfits := p.toDatum_fits infosFit_offset
  have hnesting : p.toDatum.nesting ≤ nestingLimit := by
    rwa [Program.encode, openBrackets_toText hfits] at hopen
  have hencode : (p.encode layout).toList = p.toDatum.write layout 0 := String.toList_ofList
  constructor
  · intro s cut hcut hs
    have hchars : s.toList ++ cut.toList = p.toDatum.write layout 0 := by
      rw [← String.toList_append, hs, hencode]
    have hcut' : cut.toList ≠ [] := fun h => hcut (String.toList_eq_nil_iff.mp h)
    rw [Program.decode, decodeAs, readText_cut hfits hnesting hcut' hchars]
    rfl
  · intro s
    rw [Program.decode, decodeAs, String.toList_append, hencode, readText_append hfits hnesting]
    split
    · simp only [bind, Except.bind, p.ofDatum?_toDatum]
    · rfl

/-- A program with a text that takes an escape to write. -/
def quotingProgram : Program UInt32 :=
  ⟨[.ret 10 (.text 200 "\x07\"")]⟩

/-- A program is read with blanks after its text, but not with anything else, and not when it is cut
in a number. -/
theorem delimited_quotingProgram :
    openBrackets (quotingProgram.encode .compact) ≤ 127 ∧
    quotingProgram.encode .compact =
      "\x7b\"statements\":[\x7b\"info\":10,\"item\":\x7b\"return\":\x7b\"info\":200," ++
        "\"item\":\x7b\"text\":\"\\u0007\\\"\"\x7d\x7d\x7d\x7d]\x7d" ∧
    Program.decode (ι := UInt32)
      "\x7b\"statements\":[\x7b\"info\":10,\"item\":\x7b\"return\":\x7b\"info\":2" =
      .error .endOfText ∧
    Program.decode (quotingProgram.encode .compact ++ " \t\r\n") = .ok quotingProgram ∧
    Program.decode (ι := UInt32) (quotingProgram.encode .compact ++ " 0") = .error .malformed := by
  have hopen : openBrackets (quotingProgram.encode .compact) ≤ 127 := by decide +kernel
  obtain ⟨hcut, hrest⟩ := decode_delimited .compact hopen
  refine ⟨hopen, by decide +kernel, ?_, ?_, ?_⟩
  · exact hcut _ "00,\"item\":\x7b\"text\":\"\\u0007\\\"\"\x7d\x7d\x7d\x7d]\x7d" (by decide)
      (by decide +kernel)
  · rw [hrest, if_pos (by decide)]
  · rw [hrest, if_neg (by decide)]

end Lowering
