import Lowering.Json.StringBody
import Lowering.Tree.Render

/-!
# Reading rendered texts

A reader for the textual form of trees. It takes a tree off the start of a text by the first word or
mark of the text, and does not look at the layout: line breaks, commas and blanks between words only
separate them. It stands next to rendering, which does not need it: that the reader finds every tree
again shows that no two trees have the same text.

A reader of trees calls itself for the parts of a tree. The number of nested calls is bounded by
`steps`, for which the length of the text is enough.
-/

namespace Lowering.Rendering

/-- Takes a value off the start of a text, and returns it with the text that is left. -/
abbrev Reader (α : Type) := List Char → Option (α × List Char)

variable {α : Type}

/-! ## Words and marks -/

/-- The characters of names and numbers. -/
def isWordChar (c : Char) : Bool :=
  c.isAlphanum || c = '_' || c = '@'

/-- The characters that stand between words and marks. -/
def isSeparator (c : Char) : Bool :=
  c = ' ' || c = '\n' || c = ','

/-- The words with a meaning of their own. -/
def keywords : List String :=
  ["unit", "function", "class", "var", "if", "else", "return", "import", "as"]

/-- A name that is neither a keyword nor a number. -/
def isIdentifier (n : String) : Bool :=
  n.toList.head?.any (!·.isDigit) && n.toList.all isWordChar && !keywords.contains n

/-- A number in digits. -/
def isNumeral (d : String) : Bool :=
  d != "" && d.toList.all Char.isDigit

/-- The text after leading separators. -/
def skip (text : List Char) : List Char :=
  text.dropWhile isSeparator

/-- Take a word, which is empty in front of a mark. -/
def word (text : List Char) : String × List Char :=
  (String.ofList ((skip text).takeWhile isWordChar), (skip text).dropWhile isWordChar)

/-- The text after an expected mark. -/
def mark (c : Char) (text : List Char) : Option (List Char) :=
  match skip text with
  | [] => none
  | d :: rest => if d = c then some rest else none

/-- The name that a word gives, if it is not empty. -/
def optionalName (w : String) : Option String :=
  if w = "" then none else some w

/-! ## Quoted texts -/

/-- Where in a quoted text the reader is: at a character that stands for itself, after a backslash,
or in the number of a code point, with the value of the digits so far. -/
inductive Quoting where
  | plain
  | escaped
  | code (value : Nat)

/-- The character that stands after a backslash, in place of one that is escaped. -/
def unescape (c : Char) : Char :=
  if c = '0' then '\x00' else if c = 't' then '\t' else if c = 'r' then '\r'
  else if c = 'n' then '\n' else c

/-- Take characters up to the closing quote. -/
def unquote : Quoting → Reader (List Char)
  | _, [] => none
  | .plain, c :: text =>
      if c = '"' then some ([], text)
      else if c = '\\' then unquote .escaped text
      else (unquote .plain text).map fun (cs, rest) => (c :: cs, rest)
  | .escaped, c :: text =>
      if c = 'u' then unquote (.code 0) text
      else (unquote .plain text).map fun (cs, rest) => (unescape c :: cs, rest)
  | .code value, c :: text =>
      if c = '\x7b' then unquote (.code 0) text
      else if c = '\x7d' then
        (unquote .plain text).map fun (cs, rest) => (Char.ofNat value :: cs, rest)
      else unquote (.code (16 * value + (Json.hexValue? c).getD 0)) text

/-! ## Trees

The readers of the parts of a tree are arguments, and are themselves `expr` and `stmt`. -/

/-- Take items as long as there are any, at most as many as `count`. -/
def many (item : Reader α) : (count : Nat) → List Char → List α × List Char
  | 0, text => ([], skip text)
  | count + 1, text =>
      match item text with
      | none => ([], skip text)
      | some (a, rest) =>
          let (as, rest) := many item count rest
          (a :: as, rest)

/-- Take items between two marks. -/
def enclosed (opening closing : Char) (item : Reader α) : Reader (List α) := fun text => do
  let text ← mark opening text
  let (as, text) := many item text.length text
  let text ← mark closing text
  return (as, text)

/-- Take a parameter. -/
def param : Reader (Param Unit) := fun text =>
  let (n, text) := word text
  if isIdentifier n then some (⟨(), n⟩, text) else none

/-- Take parameters and a body, given the reader of its statements. -/
def routine (stmt : Reader (Stmt Unit)) : Reader (List (Param Unit) × List (Stmt Unit)) :=
    fun text => do
  let (params, text) ← enclosed '(' ')' param text
  let (body, text) ← enclosed '\x7b' '\x7d' stmt text
  return ((params, body), text)

/-- Take a method. -/
def method (stmt : Reader (Stmt Unit)) : Reader (Method Unit) := fun text =>
  let (n, text) := word text
  if isIdentifier n then do
    let ((params, body), text) ← routine stmt text
    return (.mk () n params body, text)
  else none

/-- Take an expression that is neither a member nor a call. -/
def head (stmt : Reader (Stmt Unit)) : Reader (Expr Unit) := fun text =>
  let (w, text) := word text
  if w = "" then
    match text with
    | '"' :: text => do
        let (t, text) ← unquote .plain text
        return (.text () (String.ofList t), text)
    | ':' :: text =>
        let (n, text) := word text
        some (.name () n, text)
    | _ => none
  else if w = "unit" then some (.unit (), text)
  else if w = "function" then do
    let (n, text) := word text
    let ((params, body), text) ← routine stmt text
    return (.functionLit () (optionalName n) params body, text)
  else if w = "class" then do
    let (n, text) := word text
    let (methods, text) ← enclosed '\x7b' '\x7d' (method stmt) text
    return (.classLit () (optionalName n) methods, text)
  else if isIdentifier w then some (.variable () w, text)
  else if isNumeral w then some (.number () w, text)
  else none

/-- Take the members and calls that follow an expression, at most as many as `count`. -/
def postfixes (expr : Reader (Expr Unit)) : (count : Nat) → Expr Unit → Reader (Expr Unit)
  | count + 1, e, '.' :: text =>
      let (m, text) := word text
      postfixes expr count (.member () e m) text
  | count + 1, e, '(' :: text => do
      let (inputs, text) ← enclosed '(' ')' expr ('(' :: text)
      postfixes expr count (.call () e inputs) text
  | _, e, text => some (e, text)

/-- Take the name of an import, if there is one. -/
def importName : List Char → Option String × List Char
  | ' ' :: 'a' :: 's' :: text =>
      let (n, text) := word text
      (some n, text)
  | text => (none, text)

/-- Take the second branch of a conditional, which is empty if it is left out. -/
def elseBlock (stmt : Reader (Stmt Unit)) : Reader (List (Stmt Unit))
  | ' ' :: 'e' :: 'l' :: 's' :: 'e' :: text => enclosed '\x7b' '\x7d' stmt text
  | text => some ([], text)

/-- Take a statement that starts with a keyword. -/
def keywordStmt (expr : Reader (Expr Unit)) (stmt : Reader (Stmt Unit)) : Reader (Stmt Unit) :=
    fun text =>
  let (w, text) := word text
  if w = "import" then do
    let text ← mark '"' text
    let (path, text) ← unquote .plain text
    let (n, text) := importName text
    return (.importPackage () n (String.ofList path), text)
  else if w = "var" then do
    let (n, text) := word text
    let text ← mark '=' text
    let (value, text) ← expr text
    return (.declare () n value, text)
  else if w = "return" then do
    let (value, text) ← expr text
    return (.ret () value, text)
  else if w = "if" then do
    let (condition, text) ← expr text
    let (thenBlock, text) ← enclosed '\x7b' '\x7d' stmt text
    let (otherwise, text) ← elseBlock stmt text
    return (.branch () condition thenBlock otherwise, text)
  else none

/-- Take a statement. No expression starts with the keyword of a statement; an expression in front
of an equals sign is the target of an assignment. -/
def anyStmt (expr : Reader (Expr Unit)) (stmt : Reader (Stmt Unit)) : Reader (Stmt Unit) :=
    fun text =>
  match expr text with
  | none => keywordStmt expr stmt text
  | some (.variable _ n, ' ' :: '=' :: text) => do
      let (value, text) ← expr text
      return (.assign () n value, text)
  | some (.member _ object m, ' ' :: '=' :: text) => do
      let (value, text) ← expr text
      return (.assignMember () object m value, text)
  | some (e, text) => some (.expr e, text)

mutual

/-- Take an expression. -/
def expr : (steps : Nat) → Reader (Expr Unit)
  | 0, _ => none
  | steps + 1, text => do
      let (e, text) ← head (stmt steps) text
      postfixes (expr steps) text.length e text

/-- Take a statement. -/
def stmt : (steps : Nat) → Reader (Stmt Unit)
  | 0, _ => none
  | steps + 1, text => anyStmt (expr steps) (stmt steps) text

end

/-- Read a program. -/
def program (text : String) : Option (Program Unit) :=
  match many (stmt (text.length + 1)) text.length text.toList with
  | (statements, []) => some ⟨statements⟩
  | _ => none

/-! ## Reading one word, mark or text -/

/-- Separators are skipped. -/
theorem skip_append {separators : List Char} (h : ∀ c ∈ separators, isSeparator c = true)
    (text : List Char) : skip (separators ++ text) = skip text :=
  List.dropWhile_append_of_pos h

/-- A character of a word is no separator. -/
theorem not_isSeparator_of_isWordChar {c : Char} (h : isWordChar c = true) :
    isSeparator c = false := by
  cases hc : isSeparator c with
  | false => rfl
  | true =>
      simp only [isSeparator, Bool.or_eq_true, decide_eq_true_eq] at hc
      obtain (rfl | rfl) | rfl := hc <;> cases h

/-- The text goes on with something that is not part of a word. -/
def EndsWord : List Char → Prop
  | [] => True
  | c :: _ => isWordChar c = false

/-- A word is read up to what ends it. -/
theorem word_append {w : String} (hne : w ≠ "") (hw : w.toList.all isWordChar = true)
    {rest : List Char} (hrest : EndsWord rest) : word (w.toList ++ rest) = (w, rest) := by
  rw [List.all_eq_true] at hw
  have hskip : skip (w.toList ++ rest) = w.toList ++ rest := by
    cases hlist : w.toList with
    | nil => exact absurd (String.toList_eq_nil_iff.mp hlist) hne
    | cons c cs =>
        have hc : isWordChar c = true := hw c (by rw [hlist]; exact List.mem_cons_self)
        rw [skip, List.cons_append, List.dropWhile_cons_of_neg]
        simp [not_isSeparator_of_isWordChar hc]
  have htake : rest.takeWhile isWordChar = [] ∧ rest.dropWhile isWordChar = rest := by
    cases rest with
    | nil => exact ⟨rfl, rfl⟩
    | cons c cs =>
        have hc : isWordChar c = false := hrest
        simp [hc]
  rw [word, hskip, List.takeWhile_append_of_pos hw, List.dropWhile_append_of_pos hw, htake.1,
    htake.2, List.append_nil, String.ofList_toList]

/-- A hexadecimal digit of an escape adds to its value. -/
theorem unquote_digitChar {k : Nat} (hk : k < 16) (value : Nat) (text : List Char) :
    unquote (.code value) (Nat.digitChar k :: text) = unquote (.code (16 * value + k)) text := by
  have hdigits : ∀ k < 16, Nat.digitChar k ≠ '\x7b' ∧ Nat.digitChar k ≠ '\x7d' ∧
      Json.hexValue? (Nat.digitChar k) = some k := by decide
  obtain ⟨hopening, hclosing, hvalue⟩ := hdigits k hk
  rw [unquote, if_neg hopening, if_neg hclosing, hvalue, Option.getD_some]

/-- The digits of a number are read as that number. -/
theorem unquote_toDigits (n : Nat) (text : List Char) :
    unquote (.code 0) (Nat.toDigits 16 n ++ text) = unquote (.code n) text := by
  induction n using Nat.strongRecOn generalizing text with
  | ind n ih =>
      by_cases hn : n < 16
      · rw [Nat.toDigits_of_lt_base hn, List.singleton_append, unquote_digitChar hn,
          Nat.mul_zero, Nat.zero_add]
      · -- the last digit comes on top of the number that those before it make
        have hle : 16 ≤ n := Nat.le_of_not_lt hn
        rw [Nat.toDigits_of_base_le (by decide) hle, List.append_assoc, ih (n / 16) (by omega),
          List.singleton_append, unquote_digitChar (Nat.mod_lt n (by decide)), Nat.div_add_mod]

/-- Each character is got back from how it is quoted. -/
theorem unquote_quotedChar (c : Char) (text : List Char) :
    unquote .plain (Text.quotedChar c ++ text) =
      (unquote .plain text).map fun (cs, rest) => (c :: cs, rest) := by
  by_cases hescaped :
      c = '\x00' ∨ c = '\t' ∨ c = '\r' ∨ c = '\n' ∨ c = '"' ∨ c = '\\'
  · obtain rfl | rfl | rfl | rfl | rfl | rfl := hescaped <;> rfl
  · simp only [not_or] at hescaped
    obtain ⟨hnull, htab, hreturn, hbreak, hquote, hbackslash⟩ := hescaped
    rw [Text.quotedChar, if_neg hnull, if_neg htab, if_neg hreturn, if_neg hbreak, if_neg hquote,
      if_neg hbackslash]
    split
    · show unquote (.code 0) ((Nat.toDigits 16 c.toNat ++ ['\x7d']) ++ text) = _
      rw [List.append_assoc, unquote_toDigits, List.singleton_append, unquote, if_neg (by decide),
        if_pos rfl, Char.ofNat_toNat]
    · rw [List.singleton_append, unquote, if_neg hquote, if_neg hbackslash]

/-- A text in quotes is read as that text. -/
theorem unquote_quoted (t : List Char) (rest : List Char) :
    unquote .plain (t.flatMap Text.quotedChar ++ '"' :: rest) = some (t, rest) := by
  induction t with
  | nil => rfl
  | cons c t ih => rw [List.flatMap_cons, List.append_assoc, unquote_quotedChar, ih]; rfl

/-! ## Reading items -/

section Items

variable {β : Type} {item : Reader α}

/-- The reader does not look at leading separators. -/
def Skips (item : Reader α) : Prop :=
  ∀ first second : List Char, skip first = skip second → item first = item second

/-- Where no item can be read, there are none. -/
theorem many_of_none {text : List Char} (h : item text = none) (count : Nat) :
    many item count text = ([], skip text) := by
  cases count with
  | zero => rfl
  | succ count => rw [many, h]

/-- Separators in front of items make no difference. -/
theorem many_of_skip_eq (hitem : Skips item) {first second : List Char}
    (h : skip first = skip second) (count : Nat) :
    many item count first = many item count second := by
  cases count with
  | zero => rw [many, many, h]
  | succ count => rw [many, many, hitem first second h, h]

/-- An item is read, and then the items after the separators that follow it. -/
theorem many_of_some (hitem : Skips item) {text rest next last : List Char} {a : α} {as : List α}
    {count : Nat} (h : item text = some (a, rest)) (hskip : skip rest = skip next)
    (hnext : many item count next = (as, last)) :
    many item (count + 1) text = (a :: as, last) := by
  rw [many, h]
  dsimp only
  rw [many_of_skip_eq hitem hskip, hnext]

/-- Items with commas between them are read up to the closing parenthesis. -/
theorem many_intercalate (hitem : Skips item) {values : β → α} {texts : β → String}
    {rest : List Char} (hstop : item (')' :: rest) = none) {xs : List β}
    (hreads : ∀ x ∈ xs, item ((texts x).toList ++ ')' :: rest) = some (values x, ')' :: rest) ∧
      ∀ more, item ((texts x).toList ++ ',' :: more) = some (values x, ',' :: more))
    {count : Nat}
    (hcount : ((", ".intercalate (xs.map texts)).toList ++ ')' :: rest).length ≤ count) :
    many item count ((", ".intercalate (xs.map texts)).toList ++ ')' :: rest) =
      (xs.map values, ')' :: rest) := by
  induction xs generalizing count with
  | nil => exact many_of_none hstop count
  | cons x xs ih =>
      obtain ⟨hx, hxs⟩ := List.forall_mem_cons.mp hreads
      cases xs with
      | nil =>
          obtain ⟨count, rfl⟩ : ∃ k, count = k + 1 := ⟨count - 1, by simp at hcount; omega⟩
          rw [List.map_singleton, String.intercalate_singleton]
          exact many_of_some hitem hx.1 rfl (many_of_none hstop count)
      | cons y ys =>
          have htext : (", ".intercalate ((x :: y :: ys).map texts)).toList ++ ')' :: rest =
              (texts x).toList ++ ',' :: ' ' ::
                ((", ".intercalate ((y :: ys).map texts)).toList ++ ')' :: rest) := by simp
          rw [htext] at hcount ⊢
          rw [List.length_append, List.length_cons, List.length_cons] at hcount
          obtain ⟨count, rfl⟩ : ∃ k, count = k + 1 := ⟨count - 1, by omega⟩
          have hnext := @ih hxs count (by omega)
          -- the comma and the blank after it are skipped
          exact many_of_some hitem (hx.2 _) (by rfl) hnext

/-- Items in front of a closing bracket are read with the brackets around them. -/
theorem enclosed_of_many {opening closing : Char} (hopening : isSeparator opening = false)
    (hclosing : isSeparator closing = false) {text rest : List Char} {as : List α}
    (h : many item text.length text = (as, closing :: rest)) :
    enclosed opening closing item (opening :: text) = some (as, rest) := by
  have hmark : ∀ {c : Char} (text : List Char), isSeparator c = false →
      mark c (c :: text) = some text := by
    intro c text hc
    simp [mark, skip, hc]
  simp only [enclosed, hmark text hopening, h, hmark rest hclosing, Option.bind_eq_bind,
    Option.bind_some, Option.pure_def]

/-- A list in parentheses is read as the items in it. -/
theorem enclosed_list (hitem : Skips item) {values : β → α} {texts : β → String} {xs : List β}
    {rest : List Char} (hstop : item (')' :: rest) = none)
    (hreads : ∀ x ∈ xs, item ((texts x).toList ++ ')' :: rest) = some (values x, ')' :: rest) ∧
      ∀ more, item ((texts x).toList ++ ',' :: more) = some (values x, ',' :: more)) :
    enclosed '(' ')' item ('(' :: ((", ".intercalate (xs.map texts)).toList ++ ')' :: rest)) =
      some (xs.map values, rest) :=
  enclosed_of_many rfl rfl (many_intercalate hitem hstop hreads (Nat.le_refl _))

/-- Lines that start with the same blanks. -/
def linesText (blanks : String) (lines : List String) : List Char :=
  lines.flatMap fun line => blanks.toList ++ (line.toList ++ ['\n'])

/-- Each line is shorter than all of them with their line breaks. -/
theorem length_lt_linesText {line : String} {lines : List String} (h : line ∈ lines)
    (blanks : String) : line.length < (linesText blanks lines).length := by
  obtain ⟨before, after, rfl⟩ := List.append_of_mem h
  rw [← String.length_toList]
  simp only [linesText, List.flatMap_append, List.flatMap_cons, List.length_append,
    List.length_singleton]
  omega

/-- The characters of lines in braces. -/
theorem toList_bracedLines {lines : List String} (h : lines ≠ []) (depth : Nat) :
    (bracedLines depth lines).toList = '\x7b' :: '\n' ::
      (linesText (indentation (depth + 1)) lines ++ ((indentation depth).toList ++ ['\x7d'])) := by
  simp [bracedLines, h, linesText, List.flatMap_map]

/-- Lines in braces begin with the opening one. -/
theorem bracedLines_eq_cons (depth : Nat) (lines : List String) :
    ∃ tail, (bracedLines depth lines).toList = '\x7b' :: tail := by
  unfold bracedLines
  split <;> simp

/-- Each line is shorter than all of them in braces. -/
theorem length_lt_bracedLines {line : String} {lines : List String} (h : line ∈ lines)
    (depth : Nat) : line.length + 3 < (bracedLines depth lines).length := by
  have hline := length_lt_linesText h (indentation (depth + 1))
  have hlength := congrArg List.length (toList_bracedLines (List.ne_nil_of_mem h) depth)
  simp only [String.length_toList, List.length_cons, List.length_append] at hlength
  omega

/-- Items that stand one a line are read up to a text that does not start with an item. -/
theorem many_linesText (hitem : Skips item) {values : β → α} {texts : β → String} {blanks : String}
    (hblanks : ∀ c ∈ blanks.toList, isSeparator c = true) {stop : List Char}
    (hstop : item stop = none) {xs : List β}
    (hreads : ∀ x ∈ xs, ∀ rest,
      item ((texts x).toList ++ '\n' :: rest) = some (values x, '\n' :: rest))
    {count : Nat} (hcount : (linesText blanks (xs.map texts) ++ stop).length ≤ count) :
    many item count (linesText blanks (xs.map texts) ++ stop) = (xs.map values, skip stop) := by
  induction xs generalizing count with
  | nil => exact many_of_none hstop count
  | cons x xs ih =>
      obtain ⟨hx, hxs⟩ := List.forall_mem_cons.mp hreads
      have htext : linesText blanks ((x :: xs).map texts) ++ stop = blanks.toList ++
          ((texts x).toList ++ '\n' :: (linesText blanks (xs.map texts) ++ stop)) := by
        simp [linesText]
      rw [htext] at hcount ⊢
      rw [List.length_append, List.length_append, List.length_cons] at hcount
      obtain ⟨count, rfl⟩ : ∃ k, count = k + 1 := ⟨count - 1, by omega⟩
      have hline := (hitem _ _ (skip_append hblanks _)).trans
        (hx (linesText blanks (xs.map texts) ++ stop))
      have hnext := @ih hxs count (by omega)
      exact many_of_some hitem hline (by rfl) hnext

/-- Indentation is made of separators. -/
theorem isSeparator_of_mem_indentation (depth : Nat) :
    ∀ c ∈ (indentation depth).toList, isSeparator c = true := by
  intro c hc
  rw [indentation, String.toList_ofList] at hc
  rw [List.eq_of_mem_replicate hc]
  rfl

/-- Lines in braces are read as the items in them. -/
theorem enclosed_bracedLines (hitem : Skips item) {values : β → α} {texts : β → String}
    {xs : List β} {depth : Nat} {rest : List Char} (hstop : item ('\x7d' :: rest) = none)
    (hreads : ∀ x ∈ xs, ∀ more,
      item ((texts x).toList ++ '\n' :: more) = some (values x, '\n' :: more)) :
    enclosed '\x7b' '\x7d' item ((bracedLines depth (xs.map texts)).toList ++ rest) =
      some (xs.map values, rest) := by
  cases xs with
  | nil =>
      -- an empty block stands on one line
      have htext : (bracedLines depth (([] : List β).map texts)).toList ++ rest =
          '\x7b' :: '\x7d' :: rest := by simp [bracedLines]
      rw [htext]
      exact enclosed_of_many rfl rfl (many_of_none hstop _)
  | cons x xs =>
      have htext : (bracedLines depth ((x :: xs).map texts)).toList ++ rest = '\x7b' :: '\n' ::
          (linesText (indentation (depth + 1)) ((x :: xs).map texts) ++
            ((indentation depth).toList ++ '\x7d' :: rest)) := by
        simp [toList_bracedLines (List.cons_ne_nil _ _)]
      have hclosing : skip ((indentation depth).toList ++ '\x7d' :: rest) = '\x7d' :: rest :=
        skip_append (isSeparator_of_mem_indentation depth) _
      have hlines := many_linesText hitem (isSeparator_of_mem_indentation (depth + 1))
        ((hitem _ _ hclosing).trans hstop) hreads (Nat.le_succ _)
      rw [hclosing] at hlines
      rw [htext]
      exact enclosed_of_many rfl rfl ((many_of_skip_eq hitem (by rfl) _).trans hlines)

end Items

/-! ## Readers of trees and separators -/

/-- Separators in front of a word make no difference. -/
theorem word_of_skip_eq {first second : List Char} (h : skip first = skip second) :
    word first = word second := by
  rw [word, word, h]

/-- Separators in front of a parameter make no difference. -/
theorem skips_param : Skips param := by
  intro first second h
  rw [param, param, word_of_skip_eq h]

/-- Separators in front of a method make no difference. -/
theorem skips_method (stmt : Reader (Stmt Unit)) : Skips (method stmt) := by
  intro first second h
  rw [method, method, word_of_skip_eq h]

/-- Separators in front of an expression make no difference. -/
theorem skips_expr (steps : Nat) : Skips (expr steps) := by
  intro first second h
  cases steps with
  | zero => rfl
  | succ steps => rw [expr, expr, head, head, word_of_skip_eq h]

/-- Separators in front of a statement make no difference. -/
theorem skips_stmt (steps : Nat) : Skips (stmt steps) := by
  intro first second h
  cases steps with
  | zero => rfl
  | succ steps =>
      rw [stmt, stmt, anyStmt, anyStmt, skips_expr steps first second h, keywordStmt, keywordStmt,
        word_of_skip_eq h]

/-- No expression starts with a closing mark. -/
theorem expr_closing {c : Char} (hc : c = ')' ∨ c = '\x7d') (steps : Nat) (rest : List Char) :
    expr steps (c :: rest) = none := by
  cases steps with
  | zero => rfl
  | succ steps => obtain rfl | rfl := hc <;> rfl

/-- No expression starts with the keyword of a statement. -/
theorem expr_keyword {w : String} (hw : w = "import" ∨ w = "var" ∨ w = "return" ∨ w = "if")
    (steps : Nat) {text rest : List Char} (h : word text = (w, rest)) :
    expr steps text = none := by
  cases steps with
  | zero => rfl
  | succ steps =>
      rw [expr, head, h]
      obtain rfl | rfl | rfl | rfl := hw <;> rfl

/-- No statement begins with a closing brace. -/
theorem stmt_closing (steps : Nat) (rest : List Char) : stmt steps ('\x7d' :: rest) = none := by
  cases steps with
  | zero => rfl
  | succ steps =>
      rw [stmt, anyStmt, expr_closing (Or.inr rfl)]
      rfl

/-- No statement is empty. -/
theorem stmt_nil (steps : Nat) : stmt steps [] = none := by
  cases steps with
  | zero => rfl
  | succ steps => cases steps <;> rfl

end Lowering.Rendering
