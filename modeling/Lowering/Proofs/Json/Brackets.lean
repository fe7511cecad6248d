import Mathlib.Data.List.Basic
import Lowering.Proofs.Json.Fitting
import Lowering.Proofs.Json.Spelling

/-!
# Brackets in a text

How many brackets of a text are open at once, counted on the text alone: `openBrackets`. Brackets in
strings do not count. Main statement: for the text of a datum it is the nesting of the datum
(`openBrackets_toText`).
-/

namespace Lowering.Json

/-! ## Counting -/

/-- Where in a text a character stands. -/
inductive Place where
  | outside
  | inString
  /-- In a string, after a backslash. -/
  | escaped
deriving DecidableEq, Repr

/-- The most brackets that are open at once from a place in a text on, at which so many are open. -/
def mostOpen : Place → Nat → List Char → Nat
  | _, opened, [] => opened
  | .outside, opened, c :: rest =>
      if c = '"' then mostOpen .inString opened rest
      else if c = '[' ∨ c = '\x7b' then mostOpen .outside (opened + 1) rest
      else if c = ']' ∨ c = '\x7d' then max opened (mostOpen .outside (opened - 1) rest)
      else mostOpen .outside opened rest
  | .inString, opened, c :: rest =>
      if c = '"' then mostOpen .outside opened rest
      else if c = '\\' then mostOpen .escaped opened rest
      else mostOpen .inString opened rest
  | .escaped, opened, _ :: rest => mostOpen .inString opened rest

/-- The most brackets of a text that are open at once. -/
def openBrackets (text : String) : Nat :=
  mostOpen .outside 0 text.toList

/-- The brackets that are open count. -/
theorem le_mostOpen (place : Place) (opened : Nat) (s : List Char) :
    opened ≤ mostOpen place opened s := by
  fun_induction mostOpen place opened s <;> omega

/-- A part of a text opens so many brackets at once, and closes all of them. -/
def Opens (n : Nat) (part : List Char) : Prop :=
  ∀ opened rest, mostOpen .outside opened (part ++ rest) =
    max (opened + n) (mostOpen .outside opened rest)

/-- Two parts in a row open as many brackets at once as the one that opens more. -/
theorem Opens.append {m n : Nat} {first second : List Char} (hfirst : Opens m first)
    (hsecond : Opens n second) : Opens (max m n) (first ++ second) := by
  intro opened rest
  rw [List.append_assoc, hfirst, hsecond]
  omega

/-- The characters that a count of brackets looks at. -/
def isMark (c : Char) : Bool :=
  c = '"' || c = '[' || c = '\x7b' || c = ']' || c = '\x7d'

/-- Text without quotes and brackets opens none. -/
theorem opens_of_unmarked {part : List Char} (h : ∀ c ∈ part, isMark c = false) :
    Opens 0 part := by
  intro opened rest
  induction part with
  | nil => exact (Nat.max_eq_right (le_mostOpen _ _ _)).symm
  | cons c part ih =>
      have hc := h c List.mem_cons_self
      simp only [isMark, Bool.or_eq_false_iff, decide_eq_false_iff_not] at hc
      obtain ⟨⟨⟨⟨hquote, hsquare⟩, hcurly⟩, hsquare'⟩, hcurly'⟩ := hc
      rw [List.cons_append, mostOpen, if_neg hquote, if_neg (not_or.mpr ⟨hsquare, hcurly⟩),
        if_neg (not_or.mpr ⟨hsquare', hcurly'⟩)]
      exact ih fun d hd => h d (List.mem_cons_of_mem c hd)

/-- Blanks are neither quotes nor brackets. -/
theorem isMark_of_isBlank {c : Char} (h : isBlank c = true) : isMark c = false := by
  simp only [isBlank, Bool.or_eq_true, decide_eq_true_eq] at h
  rcases h with ((rfl | rfl) | rfl) | rfl <;> rfl

/-- Digits are neither quotes nor brackets. -/
theorem isMark_of_isDigit {c : Char} (h : c.isDigit = true) : isMark c = false := by
  have hne : ∀ d : Char, d.isDigit = false → c ≠ d := fun _ => ne_of_isDigit h
  simp [isMark, hne]

/-- Blanks open no bracket. -/
theorem opens_blanks {blanks : List Char} (h : ∀ c ∈ blanks, isBlank c = true) : Opens 0 blanks :=
  opens_of_unmarked fun c hc => isMark_of_isBlank (h c hc)

/-- A number opens no brackets. -/
theorem opens_toDigits (n : Nat) : Opens 0 (Nat.toDigits 10 n) :=
  opens_of_unmarked fun _ hc => isMark_of_isDigit (isDigit_of_mem_toDigits hc)

/-- A null opens no brackets. -/
theorem opens_null : Opens 0 ['n', 'u', 'l', 'l'] :=
  opens_of_unmarked (by simp [isMark])

/-! ## Strings -/

/-- Hexadecimal digits in a string do not end it. -/
theorem IsHex.mostOpen_eq {unit : Nat} {hex : List Char} (h : IsHex unit hex) (opened : Nat)
    (rest : List Char) :
    mostOpen .inString opened (hex ++ rest) = mostOpen .inString opened rest := by
  have hdigits : ∀ k < 16, ∀ c, c = Nat.digitChar k ∨ c = (Nat.digitChar k).toUpper →
      c ≠ '"' ∧ c ≠ '\\' := by
    rintro k hk c (rfl | rfl)
    · revert k
      decide
    · revert k
      decide
  have hdigit : ∀ {value : Nat} {c : Char} (rest : List Char), IsHexDigit value c →
      mostOpen .inString opened (c :: rest) = mostOpen .inString opened rest := by
    intro value c rest hc
    obtain ⟨hquote, hbackslash⟩ := hdigits value hc.1 c hc.2
    rw [mostOpen, if_neg hquote, if_neg hbackslash]
  cases h with
  | digits ha hb hc hd =>
      simp only [List.cons_append, List.nil_append]
      rw [hdigit _ ha, hdigit _ hb, hdigit _ hc, hdigit _ hd]

/-- No spelling of a character ends the string. -/
theorem CharSpelling.mostOpen_eq {c : Char} {part : List Char} (h : CharSpelling c part)
    (opened : Nat) (rest : List Char) :
    mostOpen .inString opened (part ++ rest) = mostOpen .inString opened rest := by
  cases h with
  | plain hquote hbackslash _ =>
      rw [List.singleton_append, mostOpen, if_neg hquote, if_neg hbackslash]
  | short _ => rfl
  | unit h => exact h.mostOpen_eq opened rest
  | @pair _ high low _ hhigh hlow =>
      show mostOpen .inString opened (high ++ '\\' :: 'u' :: low ++ rest) = _
      rw [List.append_assoc, hhigh.mostOpen_eq]
      exact hlow.mostOpen_eq opened rest

/-- However its characters are spelled, a string ends at its closing quote. -/
theorem BodySpelling.mostOpen_eq {cs body : List Char} (h : BodySpelling cs body) (opened : Nat)
    (rest : List Char) :
    mostOpen .inString opened (body ++ '"' :: rest) = mostOpen .outside opened rest := by
  induction h with
  | nil => rfl
  | cons hpart _ ih => rw [List.append_assoc, hpart.mostOpen_eq, ih]

/-- A string opens no brackets, whichever are in it. -/
theorem StringSpelling.opens {t : String} {text : List Char} (h : StringSpelling t text) :
    Opens 0 text := by
  obtain ⟨body, hbody, rfl⟩ := h
  intro opened rest
  rw [quoted_append]
  show mostOpen .inString opened (body ++ '"' :: rest) = _
  rw [hbody.mostOpen_eq]
  exact (Nat.max_eq_right (le_mostOpen _ _ _)).symm

/-- A string that is written opens no brackets. -/
theorem opens_writeString (t : String) : Opens 0 (writeString t) :=
  (stringSpelling_write t).opens

/-- A key adds no brackets to its value. -/
theorem opens_writeKeyed (layout : Layout) (key : String) {n : Nat} {value : List Char}
    (h : Opens n value) : Opens n (writeKeyed layout key value) := by
  have hgap := (opens_blanks layout.isBlank_gap).append h
  have hcolon : Opens 0 [':'] := opens_of_unmarked (by simp [isMark])
  have hkeyed : Opens (max 0 (max 0 (max 0 n))) (writeKeyed layout key value) :=
    (opens_writeString key).append (hcolon.append hgap)
  simpa only [Nat.zero_max] using hkeyed

/-! ## Parts between brackets -/

/-- What is left of a text between brackets, with the parts that are still to come and the text
after it. The flag says whether the next part would be the first. -/
def partsLeft (layout : Layout) (depth : Nat) (closing : Char) (rest : List Char) :
    Bool → List (List Char) → List Char
  | true, [] => closing :: rest
  | false, [] => layout.lineBreak depth ++ closing :: rest
  | true, part :: parts =>
      layout.lineBreak (depth + 1) ++ (part ++ partsLeft layout depth closing rest false parts)
  | false, part :: parts =>
      ',' :: (layout.lineBreak (depth + 1) ++
        (part ++ partsLeft layout depth closing rest false parts))

/-- The parts after the first one, each behind its comma. -/
theorem partsLeft_false (layout : Layout) (depth : Nat) (closing : Char) (rest : List Char)
    (parts : List (List Char)) :
    parts.flatMap (fun p => ',' :: (layout.lineBreak (depth + 1) ++ p)) ++
        (layout.lineBreak depth ++ closing :: rest) =
      partsLeft layout depth closing rest false parts := by
  induction parts with
  | nil => rfl
  | cons part parts ih =>
      rw [List.flatMap_cons, List.append_assoc, ih, partsLeft, List.cons_append, List.append_assoc]

/-- A text between brackets is its opening bracket and all parts left. -/
theorem writeBracketed_append (layout : Layout) (depth : Nat) (opening closing : Char)
    (parts : List (List Char)) (rest : List Char) :
    writeBracketed layout depth opening closing parts ++ rest =
      opening :: partsLeft layout depth closing rest true parts := by
  cases parts with
  | nil => rfl
  | cons part parts =>
      rw [writeBracketed, partsLeft, ← partsLeft_false]
      simp only [List.cons_append, List.append_assoc, List.nil_append]

/-- The largest of some numbers. -/
def deepest (depths : List Nat) : Nat :=
  depths.foldr max 0

/-- The parts left reach as deep as the deepest of them, before their bracket is closed. -/
theorem mostOpen_partsLeft {α : Type} {opens : α → Nat} {text : α → List Char} {items : List α}
    (hitems : ∀ a ∈ items, Opens (opens a) (text a)) (layout : Layout) (depth : Nat)
    {closing : Char} (hclosing : closing = ']' ∨ closing = '\x7d') (first : Bool) (opened : Nat)
    (rest : List Char) :
    mostOpen .outside (opened + 1)
        (partsLeft layout depth closing rest first (items.map text)) =
      max (opened + (deepest (items.map opens) + 1)) (mostOpen .outside opened rest) := by
  have hbreak : ∀ depth, Opens 0 (layout.lineBreak depth) := fun depth =>
    opens_blanks (layout.isBlank_lineBreak depth)
  -- a count is not lost when the bracket is closed: the maximum keeps it
  have hclose : mostOpen .outside (opened + 1) (closing :: rest) =
      max (opened + 1) (mostOpen .outside opened rest) := by
    rcases hclosing with rfl | rfl <;> rfl
  induction items generalizing first with
  | nil =>
      cases first with
      | true => exact hclose
      | false =>
          show mostOpen .outside (opened + 1) (layout.lineBreak depth ++ closing :: rest) = _
          rw [hbreak, hclose]
          show _ = max (opened + (0 + 1)) _
          omega
  | cons a items ih =>
      have ih' := ih (fun b hb => hitems b (List.mem_cons_of_mem a hb)) false
      have ha := hitems a List.mem_cons_self
      have hparts : mostOpen .outside (opened + 1) (layout.lineBreak (depth + 1) ++
          (text a ++ partsLeft layout depth closing rest false (items.map text))) =
          max (opened + (deepest ((a :: items).map opens) + 1))
            (mostOpen .outside opened rest) := by
        rw [hbreak, ha, ih']
        show _ = max (opened + (max (opens a) (deepest (items.map opens)) + 1)) _
        omega
      cases first with
      | true => exact hparts
      | false => exact hparts

/-- Parts between brackets open one bracket more than the deepest of them. -/
theorem opens_writeBracketed {α : Type} {opens : α → Nat} {text : α → List Char} {items : List α}
    (hitems : ∀ a ∈ items, Opens (opens a) (text a)) (layout : Layout) (depth : Nat)
    {opening closing : Char} (hopening : opening = '[' ∨ opening = '\x7b')
    (hclosing : closing = ']' ∨ closing = '\x7d') :
    Opens (deepest (items.map opens) + 1)
      (writeBracketed layout depth opening closing (items.map text)) := by
  intro opened rest
  rw [writeBracketed_append, ← mostOpen_partsLeft hitems layout depth hclosing true]
  rcases hopening with rfl | rfl <;> rfl

/-! ## Data -/

/-- Data are written one by one. -/
theorem Datum.writeAll_eq_map (layout : Layout) (depth : Nat) (ds : List Datum) :
    Datum.writeAll layout depth ds = ds.map (Datum.write layout depth) := by
  induction ds with
  | nil => rfl
  | cons d ds ih => rw [Datum.writeAll, ih, List.map_cons]

/-- A list is written as its items between square brackets. -/
theorem Datum.write_list (layout : Layout) (depth : Nat) (items : List Datum) :
    (Datum.list items).write layout depth =
      writeBracketed layout depth '[' ']' (items.map (Datum.write layout (depth + 1))) := by
  rw [Datum.write, Datum.writeAll_eq_map]

/-- Data nest as deep as the deepest of them. -/
theorem Datum.nestingAll_eq (ds : List Datum) :
    Datum.nestingAll ds = deepest (ds.map Datum.nesting) := by
  induction ds with
  | nil => rfl
  | cons d ds ih =>
      rw [Datum.nestingAll, ih]
      rfl

/-- A field of a record with its datum, as it is written. -/
def writeEntry (layout : Layout) (depth : Nat) (entry : Field × Datum) : List Char :=
  writeKeyed layout entry.1.name (entry.2.write layout depth)

/-- A record is written as its entries between curly brackets. -/
theorem Datum.write_record (layout : Layout) (depth : Nat) (r : Record) (fields : List Datum) :
    (Datum.record r fields).write layout depth =
      writeBracketed layout depth '\x7b' '\x7d'
        ((r.fields.zip fields).map (writeEntry layout (depth + 1))) := by
  rw [Datum.write, Datum.writeAll_eq_map, List.zipWith_map_right, List.zip, List.map_zipWith]
  rfl

/-- A variant with a payload is written as an object with its label as the only key. -/
theorem Datum.write_variant (layout : Layout) (depth : Nat) (tag : Tag) (payload : Datum) :
    (Datum.variant tag payload).write layout depth =
      writeBracketed layout depth '\x7b' '\x7d'
        ([payload].map fun d => writeKeyed layout tag.label (d.write layout (depth + 1))) := by
  rw [Datum.write, List.map_singleton]

/-- The text of a datum opens as many brackets at once as the datum nests. -/
theorem Datum.Fits.opens_write {kind : InfoKind} {shape : Shape} {d : Datum}
    (h : d.Fits kind shape) (layout : Layout) (depth : Nat) :
    Opens d.nesting (d.write layout depth) := by
  induction h generalizing depth with
  | unitInfo => exact opens_null
  | offsetInfo n =>
      exact opens_toDigits n.toNat
  | textInfo t => exact opens_writeString t
  | text t => exact opens_writeString t
  | @list kind item items hitems ih =>
      have hbracketed := opens_writeBracketed (fun d hd => ih d hd (depth + 1)) layout depth
        (.inl rfl) (.inl rfl)
      rwa [← Datum.nestingAll_eq, ← Datum.write_list] at hbracketed
  | @record kind r fields hlength hfields ih =>
      have hentries : ∀ entry ∈ r.fields.zip fields,
          Opens entry.2.nesting (writeEntry layout (depth + 1) entry) := by
        intro entry hentry
        apply opens_writeKeyed
        by_cases hnull : entry.1.optional = true ∧ entry.2 = .null
        · rw [hnull.2]
          exact opens_null
        · exact ih entry hentry hnull (depth + 1)
      have hnesting : (r.fields.zip fields).map (fun entry => entry.2.nesting) =
          fields.map Datum.nesting := by
        show (r.fields.zip fields).map (Datum.nesting ∘ Prod.snd) = _
        rw [← List.map_map, List.map_snd_zip (Nat.le_of_eq hlength)]
      have hbracketed := opens_writeBracketed hentries layout depth (.inr rfl) (.inr rfl)
      rwa [hnesting, ← Datum.nestingAll_eq, ← Datum.write_record] at hbracketed
  | bare => exact opens_writeString _
  | @variant kind c tag shape payload htag hshape hpayload ih =>
      have hitems : ∀ d ∈ [payload],
          Opens d.nesting (writeKeyed layout tag.label (d.write layout (depth + 1))) := by
        intro d hd
        rw [List.mem_singleton.mp hd]
        exact opens_writeKeyed layout tag.label (ih (depth + 1))
      have hbracketed := opens_writeBracketed hitems layout depth (.inr rfl) (.inr rfl)
      rwa [← Datum.write_variant, ← Datum.nestingAll_eq, Datum.nestingAll, Datum.nestingAll,
        Nat.max_zero] at hbracketed

/-- The brackets of the text of a datum are those that its nesting asks for. -/
theorem openBrackets_toText {kind : InfoKind} {shape : Shape} {d : Datum} (h : d.Fits kind shape)
    (layout : Layout) : openBrackets (d.toText layout) = d.nesting := by
  have hopens := h.opens_write layout 0 0 []
  rw [List.append_nil] at hopens
  rw [openBrackets, Datum.toText, String.toList_ofList, hopens, mostOpen]
  omega

/-! ## Brackets of spellings -/

/-- A part of a text closes all brackets that it opens. -/
def Balanced (part : List Char) : Prop :=
  Opens (mostOpen .outside 0 part) part

/-- What opens so many brackets has so many open at most. -/
theorem Opens.mostOpen_eq {n : Nat} {part : List Char} (h : Opens n part) :
    mostOpen .outside 0 part = n := by
  have hopened := h 0 []
  rw [List.append_nil, mostOpen] at hopened
  omega

/-- What opens brackets closes them. -/
theorem Opens.balanced {n : Nat} {part : List Char} (h : Opens n part) : Balanced part := by
  rwa [Balanced, h.mostOpen_eq]

/-- Blanks open no brackets. -/
theorem Blanks.opens (blanks : Blanks) : Opens 0 blanks.chars :=
  opens_blanks blanks.isBlank_of_mem

variable {α : Type} (write : α → List Char)

/-- Blanks around a part add no brackets. -/
theorem Padded.opens {n : Nat} {p : Padded α} (h : Opens n (write p.core)) :
    Opens n (p.text write) := by
  have hpadded := p.before.opens.append (h.append p.after.opens)
  rwa [Nat.max_zero, Nat.zero_max] at hpadded

/-- A key, however it is spelled, adds no brackets to its value. -/
theorem Keyed.opens {n : Nat} {m : Keyed α} {t : String} (hkey : StringSpelling t m.key.core)
    (hvalue : Opens n (write m.value.core)) : Opens n (m.text write) := by
  have hcolon : Opens 0 [':'] := opens_of_unmarked (by simp [isMark])
  have hkeyed := (Padded.opens id hkey.opens).append (hcolon.append (Padded.opens write hvalue))
  rwa [Nat.zero_max, Nat.zero_max] at hkeyed

/-- Without line breaks, the parts left are the parts with separators. -/
theorem partsLeft_compact (depth : Nat) (closing : Char) (rest : List Char) (first : Bool)
    (parts : List (List Char)) :
    partsLeft .compact depth closing rest first parts = partsThen closing rest first parts := by
  induction parts generalizing first with
  | nil => cases first <;> rfl
  | cons part parts ih =>
      cases first with
      | true => rw [partsLeft, ih]; rfl
      | false => rw [partsLeft, ih]; rfl

/-- A text in brackets opens one more bracket than the deepest of its parts. -/
theorem opens_bracketed {parts : List (List Char)} (hparts : ∀ part ∈ parts, Balanced part)
    {opening closing : Char} (hopening : opening = '[' ∨ opening = '\x7b')
    (hclosing : closing = ']' ∨ closing = '\x7d') (blanks : Blanks) :
    Opens (deepest (parts.map (mostOpen .outside 0)) + 1)
      (bracketed opening closing blanks parts) := by
  intro opened rest
  have hleft := mostOpen_partsLeft hparts .compact 0 hclosing true opened rest
  rw [List.map_id', partsLeft_compact] at hleft
  have hopen : ∀ s, mostOpen .outside opened (opening :: s) =
      mostOpen .outside (opened + 1) s := by
    intro s
    rcases hopening with rfl | rfl <;> rfl
  rw [bracketed_append, hopen, blanks.opens, hleft]
  omega

/-- No depth exceeds the deepest. -/
theorem le_deepest {depths : List Nat} {depth : Nat} (h : depth ∈ depths) :
    depth ≤ deepest depths := by
  induction depths with
  | nil => cases h
  | cons other depths ih =>
      show depth ≤ max other (deepest depths)
      rcases List.mem_cons.mp h with rfl | h
      · exact Nat.le_max_left _ _
      · exact Nat.le_trans (ih h) (Nat.le_max_right _ _)

/-- A part of a text in brackets opens fewer brackets at once than the whole text. -/
theorem mostOpen_lt_bracketed {parts : List (List Char)} (hparts : ∀ part ∈ parts, Balanced part)
    {opening closing : Char} (hopening : opening = '[' ∨ opening = '\x7b')
    (hclosing : closing = ']' ∨ closing = '\x7d') (blanks : Blanks) {part : List Char}
    (hpart : part ∈ parts) :
    mostOpen .outside 0 part < mostOpen .outside 0 (bracketed opening closing blanks parts) := by
  have hdeepest := le_deepest (List.mem_map_of_mem (f := mostOpen .outside 0) hpart)
  rw [(opens_bracketed hparts hopening hclosing blanks).mostOpen_eq]
  omega

end Lowering.Json
