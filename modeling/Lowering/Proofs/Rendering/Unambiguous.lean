import Lowering.Proofs.MappedInfos
import Lowering.Proofs.Rendering.Reader

/-!
# Renderings are unambiguous

A tree is legible if its names can be told from keywords and numbers, and its numbers are digits;
its texts can be anything. The text of a legible tree is read as that tree without its infos.
Members and calls follow the expression that they belong to, so the text of an expression does not
show where the expression ends; what is said of an expression is therefore that the reader goes on
from it, with whatever follows (`Expr.ReadsBack`). There is one lemma for each kind of node.

Main statement: legible programs have the same text exactly if they are equal up to infos
(`render_unambiguous`).
-/

namespace Lowering

open Rendering

variable {ι κ : Type}

/-! ## Legible trees -/

/-- A name or a number of a tree. -/
inductive Word where
  | name (name : String)
  | number (digits : String)

namespace Word

/-- A name that is neither a keyword nor a number, or a number in digits. -/
def isLegible : Word → Bool
  | .name n => isIdentifier n
  | .number d => isNumeral d

/-- Every node contributes the names and numbers that it shows. -/
def collector : Collector Unit ι Word where
  onStmt
    | _, .importPackage _ n _ => n.toList.map .name
    | _, .declare _ n _ | _, .assign _ n _ | _, .assignMember _ _ n _ => [.name n]
    | _, _ => []
  onExpr
    | _, .name _ n | _, .variable _ n | _, .member _ _ n => [.name n]
    | _, .number _ d => [.number d]
    | _, .functionLit _ n params _ => (n.toList ++ Param.names params).map .name
    | _, .classLit _ n _ => n.toList.map .name
    | _, _ => []
  onMethod
    | _, .mk _ n params _ => (n :: Param.names params).map .name

end Word

/-- The names and numbers of a program. -/
def Program.words (p : Program ι) : List Word :=
  Word.collector.block () p.statements

/-! ## Words of trees -/

namespace Rendering

/-- An identifier is read up to what ends it. -/
theorem word_identifier {n : String} (hn : isIdentifier n = true) {rest : List Char}
    (hrest : EndsWord rest) : word (n.toList ++ rest) = (n, rest) := by
  simp only [isIdentifier, Bool.and_eq_true] at hn
  refine word_append ?_ hn.1.2 hrest
  rintro rfl
  exact absurd hn.1.1 (by decide)

/-- The same after a blank. -/
theorem word_blank_identifier {n : String} (hn : isIdentifier n = true) {rest : List Char}
    (hrest : EndsWord rest) : word (' ' :: (n.toList ++ rest)) = (n, rest) :=
  (word_of_skip_eq rfl).trans (word_identifier hn hrest)

/-- A numeral is read up to what ends it. -/
theorem word_numeral {d : String} (hd : isNumeral d = true) {rest : List Char}
    (hrest : EndsWord rest) : word (d.toList ++ rest) = (d, rest) := by
  simp only [isNumeral, Bool.and_eq_true, List.all_eq_true, bne_iff_ne] at hd
  refine word_append hd.1 (List.all_eq_true.mpr ?_) hrest
  intro c hc
  simp [isWordChar, Char.isAlphanum, hd.2 c hc]

/-- An identifier is none of the words that are none. -/
theorem ne_of_isIdentifier {n w : String} (hn : isIdentifier n = true)
    (hw : isIdentifier w = false) : n ≠ w := by
  rintro rfl
  rw [hn] at hw
  cases hw

/-- A numeral is none of the words that are none. -/
theorem ne_of_isNumeral {d w : String} (hd : isNumeral d = true) (hw : isNumeral w = false) :
    d ≠ w := by
  rintro rfl
  rw [hd] at hw
  cases hw

/-- No numeral is an identifier. -/
theorem not_isIdentifier_of_isNumeral {d : String} (hd : isNumeral d = true) :
    isIdentifier d = false := by
  simp only [isNumeral, Bool.and_eq_true, List.all_eq_true, bne_iff_ne] at hd
  cases hlist : d.toList with
  | nil => exact absurd (String.toList_eq_nil_iff.mp hlist) hd.1
  | cons c cs =>
      have hc : c.isDigit = true := hd.2 c (by rw [hlist]; exact List.mem_cons_self)
      simp [isIdentifier, hlist, hc]

/-- An identifier in the place of an optional name is the name. -/
theorem optionalName_identifier {n : String} (hn : isIdentifier n = true) :
    optionalName n = some n :=
  if_neg (ne_of_isIdentifier hn (by decide))

end Rendering

/-! ## Lists of trees -/

/-- Expressions are rendered one by one. -/
theorem Expr.renderAll_eq_map (depth : Nat) (es : List (Expr ι)) :
    Expr.renderAll depth es = es.map (Expr.renderAt depth) := by
  induction es with
  | nil => rfl
  | cons e es ih => rw [Expr.renderAll, ih, List.map_cons]

/-- Statements are rendered one by one. -/
theorem Stmt.renderAll_eq_map (depth : Nat) (ss : List (Stmt ι)) :
    Stmt.renderAll depth ss = ss.map (Stmt.renderAt depth) := by
  induction ss with
  | nil => rfl
  | cons s ss ih => rw [Stmt.renderAll, ih, List.map_cons]

/-- Methods are rendered one by one. -/
theorem Method.renderAll_eq_map (depth : Nat) (ms : List (Method ι)) :
    Method.renderAll depth ms = ms.map (Method.renderAt depth) := by
  induction ms with
  | nil => rfl
  | cons m ms ih => rw [Method.renderAll, ih, List.map_cons]

/-- The infos of a list of methods are replaced one by one. -/
theorem Method.mapInfos_eq_map (g : ι → κ) (ms : List (Method ι)) :
    Method.mapInfos g ms = ms.map (Method.mapInfo g) := by
  induction ms with
  | nil => rfl
  | cons m ms ih => rw [Method.mapInfos, ih, List.map_cons]

/-- Each text is no longer than all of them joined. -/
theorem length_le_intercalate {text : String} {texts : List String} (h : text ∈ texts) :
    text.length ≤ (", ".intercalate texts).length := by
  induction texts with
  | nil => cases h
  | cons first others ih =>
      cases others with
      | nil => exact Nat.le_of_eq (by rw [List.mem_singleton.mp h, String.intercalate_singleton])
      | cons second others =>
          rw [String.intercalate_cons_cons, String.length_append, String.length_append]
          obtain rfl | h := List.mem_cons.mp h
          · omega
          · have hle := ih h
            omega

/-! ## What is read back -/

/-- The reader goes on from the expression, with whatever follows its text. -/
def Expr.ReadsBack (e : Expr ι) : Prop :=
  ∀ (depth steps : Nat) (rest : List Char) (r : Expr Unit × List Char),
    (e.renderAt depth).length ≤ steps → EndsWord rest →
    (∀ count, rest.length ≤ count →
      postfixes (expr steps) count (e.mapInfo fun _ => ()) rest = some r) →
    expr (steps + 1) ((e.renderAt depth).toList ++ rest) = some r

/-- The text of a statement is read as the statement at the end of a line. -/
def Stmt.ReadsBack (s : Stmt ι) : Prop :=
  ∀ (depth steps : Nat) (rest : List Char), (s.renderAt depth).length + 1 < steps →
    stmt steps ((s.renderAt depth).toList ++ '\n' :: rest) =
      some (s.mapInfo fun _ => (), '\n' :: rest)

/-- The text of a method is read as the method at the end of a line. -/
def Method.ReadsBack (m : Method ι) : Prop :=
  ∀ (depth steps : Nat) (rest : List Char), (m.renderAt depth).length ≤ steps →
    method (stmt steps) ((m.renderAt depth).toList ++ '\n' :: rest) =
      some (m.mapInfo fun _ => (), '\n' :: rest)

namespace Rendering

/-- A separator or a closing parenthesis ends an expression. -/
theorem postfixes_end {c : Char} (hc : isSeparator c = true ∨ c = ')') (item : Reader (Expr Unit))
    (count : Nat) (e : Expr Unit) (rest : List Char) :
    postfixes item count e (c :: rest) = some (e, c :: rest) := by
  simp only [isSeparator, Bool.or_eq_true, decide_eq_true_eq] at hc
  obtain ((rfl | rfl) | rfl) | rfl := hc <;> cases count <;> rfl

/-- A parameter list is read as the parameters. -/
theorem enclosed_params {params : List (Param ι)}
    (hparams : ∀ n ∈ Param.names params, isIdentifier n = true) (rest : List Char) :
    enclosed '(' ')' param ((Param.render params).toList ++ rest) =
      some (params.map (Param.mapInfo fun _ => ()), rest) := by
  have htext : (Param.render params).toList ++ rest =
      '(' :: ((", ".intercalate (params.map Param.name)).toList ++ ')' :: rest) := by
    simp [Param.render, Param.names]
  rw [htext]
  refine enclosed_list skips_param rfl fun p hp => ?_
  have hreads : ∀ more, EndsWord more →
      param (p.name.toList ++ more) = some (p.mapInfo fun _ => (), more) := by
    intro more hmore
    have hp := hparams p.name (List.mem_map_of_mem hp)
    rw [param, word_identifier hp hmore]
    exact if_pos hp
  exact ⟨hreads _ rfl, fun more => hreads _ rfl⟩

/-- A block is read as its statements. -/
theorem enclosed_stmts {body : List (Stmt ι)} (hbody : ∀ s ∈ body, s.ReadsBack) {depth steps : Nat}
    (hsteps : (bracedLines depth (Stmt.renderAll (depth + 1) body)).length ≤ steps)
    (rest : List Char) :
    enclosed '\x7b' '\x7d' (stmt steps)
      ((bracedLines depth (Stmt.renderAll (depth + 1) body)).toList ++ rest) =
      some (Stmt.mapInfos (fun _ => ()) body, rest) := by
  rw [Stmt.renderAll_eq_map] at hsteps ⊢
  rw [Stmt.mapInfos_eq_map]
  refine enclosed_bracedLines (skips_stmt steps) (stmt_closing steps rest) ?_
  intro s hs more
  have hline := length_lt_bracedLines
    (List.mem_map_of_mem (f := Stmt.renderAt (depth + 1)) hs) depth
  exact hbody s hs (depth + 1) steps more (by omega)

/-- The text of parameters and a body. -/
def routineText (depth : Nat) (params : List (Param ι)) (body : List (Stmt ι)) : List Char :=
  (Param.render params).toList ++
    ' ' :: (bracedLines depth (Stmt.renderAll (depth + 1) body)).toList

/-- Parameters and body begin with a parenthesis. -/
theorem routineText_eq_cons (depth : Nat) (params : List (Param ι)) (body : List (Stmt ι)) :
    ∃ tail, routineText depth params body = '(' :: tail := by
  simp [routineText, Param.render]

/-- Parameters and body are read back if the statements of the body are. -/
theorem routine_routineText {params : List (Param ι)}
    (hparams : ∀ n ∈ Param.names params, isIdentifier n = true) {body : List (Stmt ι)}
    (hbody : ∀ s ∈ body, s.ReadsBack) {depth steps : Nat}
    (hsteps : (routineText depth params body).length ≤ steps) (rest : List Char) :
    routine (stmt steps) (routineText depth params body ++ rest) =
      some ((params.map (Param.mapInfo fun _ => ()), Stmt.mapInfos (fun _ => ()) body), rest) := by
  simp only [routineText, List.length_append, List.length_cons, String.length_toList] at hsteps
  have hblock : enclosed '\x7b' '\x7d' (stmt steps)
      (' ' :: ((bracedLines depth (Stmt.renderAll (depth + 1) body)).toList ++ rest)) = _ :=
    enclosed_stmts hbody (by omega) rest
  rw [routineText, List.append_assoc, List.cons_append, routine, enclosed_params hparams]
  show (enclosed '\x7b' '\x7d' (stmt steps) _).bind _ = _
  rw [hblock]
  rfl

/-- The text of the second branch of a conditional, which is left out if it is empty. -/
def elseText (depth : Nat) (otherwise : List (Stmt ι)) : List Char :=
  (if otherwise.isEmpty then ""
    else " else " ++ bracedLines depth (Stmt.renderAll (depth + 1) otherwise)).toList

/-- The second block of a branch is read back if its statements are. -/
theorem elseBlock_elseText {otherwise : List (Stmt ι)} (hotherwise : ∀ s ∈ otherwise, s.ReadsBack)
    {depth steps : Nat} (hsteps : (elseText depth otherwise).length ≤ steps) (rest : List Char) :
    elseBlock (stmt steps) (elseText depth otherwise ++ '\n' :: rest) =
      some (Stmt.mapInfos (fun _ => ()) otherwise, '\n' :: rest) := by
  cases otherwise with
  | nil => rfl
  | cons s ss =>
      have htext : elseText depth (s :: ss) = ' ' :: 'e' :: 'l' :: 's' :: 'e' :: ' ' ::
          (bracedLines depth (Stmt.renderAll (depth + 1) (s :: ss))).toList := by simp [elseText]
      simp only [htext, List.length_cons, String.length_toList] at hsteps
      rw [htext]
      exact enclosed_stmts hotherwise (by omega) ('\n' :: rest)

end Rendering

/-! ## Expressions -/

namespace Expr.ReadsBack

variable {e : Expr ι}

/-- An expression is read as it is where it ends. -/
theorem whole (h : e.ReadsBack) {depth steps : Nat} (hsteps : (e.renderAt depth).length < steps)
    {c : Char} (hc : isSeparator c = true ∨ c = ')') (rest : List Char) :
    expr steps ((e.renderAt depth).toList ++ c :: rest) =
      some (e.mapInfo fun _ => (), c :: rest) := by
  obtain ⟨steps, rfl⟩ : ∃ k, steps = k + 1 := ⟨steps - 1, by omega⟩
  have hends : EndsWord (c :: rest) := by
    simp only [isSeparator, Bool.or_eq_true, decide_eq_true_eq] at hc
    obtain ((rfl | rfl) | rfl) | rfl := hc <;> rfl
  exact h depth steps (c :: rest) _ (Nat.le_of_lt_succ hsteps) hends
    fun count _ => postfixes_end hc _ count _ rest

/-- An expression that reads back is read after a blank, up to a separator. -/
theorem whole_blank (h : e.ReadsBack) {depth steps : Nat}
    (hsteps : (e.renderAt depth).length < steps) {c : Char} (hc : isSeparator c = true)
    (rest : List Char) : expr steps (' ' :: ((e.renderAt depth).toList ++ c :: rest)) =
      some (e.mapInfo fun _ => (), c :: rest) := by
  have hskip : expr steps (' ' :: ((e.renderAt depth).toList ++ c :: rest)) =
      expr steps ((e.renderAt depth).toList ++ c :: rest) := skips_expr steps _ _ rfl
  exact hskip.trans (h.whole hsteps (Or.inl hc) rest)

/-- An expression that is read as a head reads back, as nothing follows it. -/
theorem of_head (h : ∀ depth steps rest, (e.renderAt depth).length ≤ steps → EndsWord rest →
    head (stmt steps) ((e.renderAt depth).toList ++ rest) = some (e.mapInfo fun _ => (), rest)) :
    e.ReadsBack := by
  intro depth steps rest r hsteps hrest hnext
  rw [expr, h depth steps rest hsteps hrest]
  exact hnext rest.length (Nat.le_refl _)

/-- The unit value reads back. -/
theorem unit (i : ι) : (Expr.unit i).ReadsBack := by
  refine of_head fun depth steps rest _ hrest => ?_
  have hword : word ("unit".toList ++ rest) = ("unit", rest) :=
    word_append (by decide) rfl hrest
  rw [renderAt, head, hword]
  rfl

/-- A name that is an identifier reads back. -/
theorem name (i : ι) {n : String} (hn : isIdentifier n = true) : (Expr.name i n).ReadsBack := by
  refine of_head fun depth steps rest _ hrest => ?_
  have htext : (renderAt depth (.name i n)).toList ++ rest = ':' :: (n.toList ++ rest) := by
    simp [renderAt]
  rw [htext]
  show (some (Expr.name () (word (n.toList ++ rest)).1, (word (n.toList ++ rest)).2)) = _
  rw [word_identifier hn hrest]
  rfl

/-- Every text reads back, as it is quoted. -/
theorem text (i : ι) (t : String) : (Expr.text i t).ReadsBack := by
  refine of_head fun depth steps rest _ hrest => ?_
  have htext : (renderAt depth (.text i t)).toList ++ rest =
      '"' :: (t.toList.flatMap Text.quotedChar ++ '"' :: rest) := by
    simp [renderAt, Text.quoted]
  rw [htext]
  show (unquote .plain (t.toList.flatMap Text.quotedChar ++ '"' :: rest)).bind _ = _
  rw [unquote_quoted]
  show some (Expr.text () (String.ofList t.toList), rest) = _
  rw [String.ofList_toList]
  rfl

/-- A variable whose name is an identifier reads back. -/
theorem «variable» (i : ι) {n : String} (hn : isIdentifier n = true) :
    (Expr.variable i n).ReadsBack := by
  refine of_head fun depth steps rest _ hrest => ?_
  rw [renderAt, head, word_identifier hn hrest]
  dsimp only
  rw [if_neg (ne_of_isIdentifier hn (by decide)), if_neg (ne_of_isIdentifier hn (by decide)),
    if_neg (ne_of_isIdentifier hn (by decide)), if_neg (ne_of_isIdentifier hn (by decide)),
    if_pos hn]
  rfl

/-- A number whose digits are a numeral reads back. -/
theorem number (i : ι) {d : String} (hd : isNumeral d = true) : (Expr.number i d).ReadsBack := by
  refine of_head fun depth steps rest _ hrest => ?_
  rw [renderAt, head, word_numeral hd hrest]
  dsimp only
  rw [if_neg (ne_of_isNumeral hd (by decide)), if_neg (ne_of_isNumeral hd (by decide)),
    if_neg (ne_of_isNumeral hd (by decide)), if_neg (ne_of_isNumeral hd (by decide)),
    not_isIdentifier_of_isNumeral hd, if_neg Bool.false_ne_true, if_pos hd]
  rfl

/-- A member access reads back if its object does. -/
theorem member (i : ι) {object : Expr ι} (hobject : object.ReadsBack) {m : String}
    (hm : isIdentifier m = true) : (Expr.member i object m).ReadsBack := by
  intro depth steps rest r hsteps hrest hnext
  have htext : (renderAt depth (.member i object m)).toList ++ rest =
      (object.renderAt depth).toList ++ '.' :: (m.toList ++ rest) := by simp [renderAt]
  rw [renderAt, String.length_append, String.length_append] at hsteps
  rw [htext]
  refine hobject depth steps _ r (by omega) rfl fun count hcount => ?_
  rw [List.length_cons, List.length_append] at hcount
  obtain ⟨count, rfl⟩ : ∃ k, count = k + 1 := ⟨count - 1, by omega⟩
  -- the reader goes on from the object, takes the member, and is where it goes on from the whole
  rw [postfixes, word_identifier hm hrest]
  exact hnext count (by omega)

/-- A call reads back if its callee and its inputs do. -/
theorem call (i : ι) {callee : Expr ι} (hcallee : callee.ReadsBack) {inputs : List (Expr ι)}
    (hinputs : ∀ e ∈ inputs, e.ReadsBack) : (Expr.call i callee inputs).ReadsBack := by
  intro depth steps rest r hsteps hrest hnext
  have htext : (renderAt depth (.call i callee inputs)).toList ++ rest =
      (callee.renderAt depth).toList ++ '(' ::
        ((", ".intercalate (inputs.map (renderAt depth))).toList ++ ')' :: rest) := by
    simp [renderAt, renderAll_eq_map]
  have hlength := congrArg List.length htext
  simp only [List.length_append, List.length_cons, String.length_toList] at hlength
  have hlist : enclosed '(' ')' (expr steps)
      ('(' :: ((", ".intercalate (inputs.map (renderAt depth))).toList ++ ')' :: rest)) =
      some (inputs.map (mapInfo fun _ => ()), rest) := by
    refine enclosed_list (skips_expr steps) (expr_closing (Or.inl rfl) steps rest) ?_
    intro e he
    have hinput := length_le_intercalate (List.mem_map_of_mem (f := renderAt depth) he)
    have hlt : (e.renderAt depth).length < steps := by omega
    exact ⟨(hinputs e he).whole hlt (Or.inr rfl) rest, (hinputs e he).whole hlt (Or.inl rfl)⟩
  rw [htext]
  refine hcallee depth steps _ r (by omega) rfl fun count hcount => ?_
  rw [List.length_cons, List.length_append, List.length_cons] at hcount
  obtain ⟨count, rfl⟩ : ∃ k, count = k + 1 := ⟨count - 1, by omega⟩
  rw [postfixes, hlist]
  rw [mapInfo, mapInfos_eq_map] at hnext
  exact hnext count (by omega)

/-- A function literal reads back if its statements do. -/
theorem functionLit (i : ι) {n : Option String} (hn : ∀ m ∈ n, isIdentifier m = true)
    {params : List (Param ι)} (hparams : ∀ m ∈ Param.names params, isIdentifier m = true)
    {body : List (Stmt ι)} (hbody : ∀ s ∈ body, s.ReadsBack) :
    (Expr.functionLit i n params body).ReadsBack := by
  refine of_head fun depth steps rest hsteps hrest => ?_
  have htext : (renderAt depth (.functionLit i n params body)).toList ++ rest =
      "function".toList ++ ' ' :: ((n.getD "").toList ++
        (routineText depth params body ++ rest)) := by
    simp [renderAt, routineText]
  have hlength := congrArg List.length htext
  simp only [List.length_append, List.length_cons, String.length_toList] at hlength
  have hle : (routineText depth params body).length ≤ steps := by omega
  have hroutine := routine_routineText hparams hbody hle rest
  obtain ⟨tail, htail⟩ := routineText_eq_cons depth params body
  rw [htail, List.cons_append] at htext hroutine
  have hkeyword : word ("function".toList ++ ' ' :: ((n.getD "").toList ++ '(' :: (tail ++ rest))) =
      ("function", ' ' :: ((n.getD "").toList ++ '(' :: (tail ++ rest))) :=
    word_append (by decide) rfl rfl
  have hname : word (' ' :: ((n.getD "").toList ++ '(' :: (tail ++ rest))) =
      (n.getD "", '(' :: (tail ++ rest)) ∧ optionalName (n.getD "") = n := by
    cases n with
    | none => exact ⟨rfl, rfl⟩
    | some m => exact ⟨word_blank_identifier (hn m rfl) rfl, optionalName_identifier (hn m rfl)⟩
  rw [htext, head, hkeyword]
  simp only [String.reduceEq, reduceIte, hname.1, hname.2, hroutine, Option.bind_eq_bind,
    Option.bind_some, Option.pure_def]
  rfl

/-- A class literal reads back if its methods do. -/
theorem classLit (i : ι) {n : Option String} (hn : ∀ m ∈ n, isIdentifier m = true)
    {methods : List (Method ι)} (hmethods : ∀ m ∈ methods, m.ReadsBack) :
    (Expr.classLit i n methods).ReadsBack := by
  refine of_head fun depth steps rest hsteps hrest => ?_
  have htext : (renderAt depth (.classLit i n methods)).toList ++ rest =
      "class".toList ++ ' ' :: (((n.map (· ++ " ")).getD "").toList ++
        ((bracedLines depth (methods.map (Method.renderAt (depth + 1)))).toList ++ rest)) := by
    simp [renderAt, Method.renderAll_eq_map]
  have hlength := congrArg List.length htext
  simp only [List.length_append, List.length_cons, String.length_toList] at hlength
  have hblock : enclosed '\x7b' '\x7d' (method (stmt steps))
      ((bracedLines depth (methods.map (Method.renderAt (depth + 1)))).toList ++ rest) =
      some (methods.map (Method.mapInfo fun _ => ()), rest) := by
    refine enclosed_bracedLines (skips_method _) rfl fun m hm more => ?_
    have hline := length_lt_bracedLines
      (List.mem_map_of_mem (f := Method.renderAt (depth + 1)) hm) depth
    exact hmethods m hm (depth + 1) steps more (by omega)
  have hkeyword : ∀ text, word ("class".toList ++ ' ' :: text) = ("class", ' ' :: text) :=
    fun text => word_append (by decide) rfl rfl
  obtain ⟨tail, htail⟩ := bracedLines_eq_cons depth (methods.map (Method.renderAt (depth + 1)))
  rw [htail, List.cons_append] at htext hblock
  rw [mapInfo, Method.mapInfos_eq_map, htext, head, hkeyword]
  cases n with
  | none =>
      show (enclosed '\x7b' '\x7d' (method (stmt steps)) ('\x7b' :: (tail ++ rest))).bind _ = _
      rw [hblock]
      rfl
  | some m =>
      have hspace : (((some m).map (· ++ " ")).getD "").toList ++ '\x7b' :: (tail ++ rest) =
          m.toList ++ ' ' :: '\x7b' :: (tail ++ rest) := by simp
      have hname : word (' ' :: (m.toList ++ ' ' :: '\x7b' :: (tail ++ rest))) =
          (m, ' ' :: '\x7b' :: (tail ++ rest)) := word_blank_identifier (hn m rfl) rfl
      have hblank : enclosed '\x7b' '\x7d' (method (stmt steps))
          (' ' :: '\x7b' :: (tail ++ rest)) = _ := hblock
      simp only [String.reduceEq, reduceIte, hspace, hname, hblank,
        optionalName_identifier (hn m rfl), Option.bind_eq_bind, Option.bind_some, Option.pure_def]

end Expr.ReadsBack

/-- A method reads back if its statements do. -/
theorem Method.ReadsBack.mk (i : ι) {n : String} (hn : isIdentifier n = true)
    {params : List (Param ι)} (hparams : ∀ m ∈ Param.names params, isIdentifier m = true)
    {body : List (Stmt ι)} (hbody : ∀ s ∈ body, s.ReadsBack) :
    (Method.mk i n params body).ReadsBack := by
  intro depth steps rest hsteps
  have htext : (renderAt depth (.mk i n params body)).toList ++ '\n' :: rest =
      n.toList ++ (routineText depth params body ++ '\n' :: rest) := by
    simp [renderAt, routineText]
  have hlength := congrArg List.length htext
  simp only [List.length_append, List.length_cons, String.length_toList] at hlength
  have hle : (routineText depth params body).length ≤ steps := by omega
  have hroutine := routine_routineText hparams hbody hle ('\n' :: rest)
  obtain ⟨tail, htail⟩ := routineText_eq_cons depth params body
  rw [htail, List.cons_append] at htext hroutine
  have hname : word (n.toList ++ '(' :: (tail ++ '\n' :: rest)) =
      (n, '(' :: (tail ++ '\n' :: rest)) := word_identifier hn rfl
  rw [htext, method, hname]
  dsimp only
  rw [if_pos hn, hroutine]
  rfl

/-! ## Statements -/

namespace Stmt.ReadsBack

/-- A statement that starts with a keyword is read by the keyword. -/
theorem of_keyword {s : Stmt ι} {w : String}
    (hw : w = "import" ∨ w = "var" ∨ w = "return" ∨ w = "if")
    (h : ∀ depth steps rest, (s.renderAt depth).length < steps →
      ∃ text, (s.renderAt depth).toList ++ '\n' :: rest = w.toList ++ ' ' :: text ∧
        (word (w.toList ++ ' ' :: text) = (w, ' ' :: text) →
          keywordStmt (Rendering.expr steps) (stmt steps) (w.toList ++ ' ' :: text) =
            some (s.mapInfo fun _ => (), '\n' :: rest))) :
    s.ReadsBack := by
  intro depth steps rest hsteps
  obtain ⟨steps, rfl⟩ : ∃ k, steps = k + 1 := ⟨steps - 1, by omega⟩
  obtain ⟨text, htext, hread⟩ := h depth steps rest (by omega)
  have hword : word (w.toList ++ ' ' :: text) = (w, ' ' :: text) := by
    obtain rfl | rfl | rfl | rfl := hw <;> exact word_append (by decide) rfl rfl
  -- the line is no expression, since it starts with the keyword
  rw [htext, stmt, anyStmt, expr_keyword hw steps hword]
  exact hread hword

/-- An import reads back, whatever its path. -/
theorem importPackage (i : ι) {n : Option String} (hn : ∀ m ∈ n, isIdentifier m = true)
    (path : String) : (Stmt.importPackage i n path).ReadsBack := by
  refine of_keyword (Or.inl rfl) fun depth steps rest _ => ?_
  refine ⟨'"' :: (path.toList.flatMap Text.quotedChar ++
    '"' :: (((n.map (" as " ++ ·)).getD "").toList ++ '\n' :: rest)), ?_, ?_⟩
  · simp [renderAt, Text.quoted]
  · intro hword
    have hname : importName (((n.map (" as " ++ ·)).getD "").toList ++ '\n' :: rest) =
        (n, '\n' :: rest) := by
      cases n with
      | none => rfl
      | some m =>
          have htext : (((some m).map (" as " ++ ·)).getD "").toList ++ '\n' :: rest =
              ' ' :: 'a' :: 's' :: ' ' :: (m.toList ++ '\n' :: rest) := by simp
          have hword : word (' ' :: (m.toList ++ '\n' :: rest)) = (m, '\n' :: rest) :=
            word_blank_identifier (hn m rfl) rfl
          rw [htext, importName, hword]
    rw [keywordStmt, hword]
    show (unquote .plain (path.toList.flatMap Text.quotedChar ++
      '"' :: (((n.map (" as " ++ ·)).getD "").toList ++ '\n' :: rest))).bind _ = _
    rw [unquote_quoted, Option.bind_some]
    dsimp only
    rw [hname, String.ofList_toList]
    rfl

/-- A declaration reads back if its value does. -/
theorem declare (i : ι) {n : String} (hn : isIdentifier n = true) {value : Expr ι}
    (hvalue : value.ReadsBack) : (Stmt.declare i n value).ReadsBack := by
  refine of_keyword (Or.inr (Or.inl rfl)) fun depth steps rest hsteps => ?_
  refine ⟨n.toList ++ ' ' :: '=' :: ' ' :: ((value.renderAt depth).toList ++ '\n' :: rest), ?_, ?_⟩
  · simp [renderAt]
  · intro hword
    rw [renderAt, String.length_append] at hsteps
    have hname : word (' ' :: (n.toList ++ ' ' :: '=' :: ' ' ::
        ((value.renderAt depth).toList ++ '\n' :: rest))) =
        (n, ' ' :: '=' :: ' ' :: ((value.renderAt depth).toList ++ '\n' :: rest)) :=
      word_blank_identifier hn rfl
    have hlt : (value.renderAt depth).length < steps := by omega
    have hexpr := hvalue.whole_blank (c := '\n') hlt rfl rest
    rw [keywordStmt, hword]
    simp only [String.reduceEq, reduceIte, hname]
    show (Rendering.expr steps (' ' :: ((value.renderAt depth).toList ++ '\n' :: rest))).bind _ = _
    rw [hexpr]
    rfl

/-- A return reads back if its value does. -/
theorem ret (i : ι) {value : Expr ι} (hvalue : value.ReadsBack) : (Stmt.ret i value).ReadsBack := by
  refine of_keyword (Or.inr (Or.inr (Or.inl rfl))) fun depth steps rest hsteps => ?_
  refine ⟨(value.renderAt depth).toList ++ '\n' :: rest, ?_, ?_⟩
  · simp [renderAt]
  · intro hword
    rw [renderAt, String.length_append] at hsteps
    have hlt : (value.renderAt depth).length < steps := by omega
    have hexpr := hvalue.whole_blank (c := '\n') hlt rfl rest
    rw [keywordStmt, hword]
    show (Rendering.expr steps (' ' :: ((value.renderAt depth).toList ++ '\n' :: rest))).bind _ = _
    rw [hexpr]
    rfl

/-- A branch reads back if its condition and the statements of both blocks do. -/
theorem branch (i : ι) {condition : Expr ι} (hcondition : condition.ReadsBack)
    {thenBlock : List (Stmt ι)} (hthen : ∀ s ∈ thenBlock, s.ReadsBack)
    {otherwise : List (Stmt ι)} (hotherwise : ∀ s ∈ otherwise, s.ReadsBack) :
    (Stmt.branch i condition thenBlock otherwise).ReadsBack := by
  refine of_keyword (Or.inr (Or.inr (Or.inr rfl))) fun depth steps rest hsteps => ?_
  have htext : (renderAt depth (.branch i condition thenBlock otherwise)).toList ++ '\n' :: rest =
      "if".toList ++ ' ' :: ((condition.renderAt depth).toList ++ ' ' ::
        ((bracedLines depth (renderAll (depth + 1) thenBlock)).toList ++
          (elseText depth otherwise ++ '\n' :: rest))) := by
    simp [renderAt, elseText]
  have hlength := congrArg List.length htext
  simp only [List.length_append, List.length_cons, String.length_toList] at hlength
  refine ⟨_, htext, fun hword => ?_⟩
  have hlt : (condition.renderAt depth).length < steps := by omega
  have hexpr := hcondition.whole_blank (c := ' ') hlt rfl
    ((bracedLines depth (renderAll (depth + 1) thenBlock)).toList ++
      (elseText depth otherwise ++ '\n' :: rest))
  have hblock : enclosed '\x7b' '\x7d' (stmt steps)
      (' ' :: ((bracedLines depth (renderAll (depth + 1) thenBlock)).toList ++
        (elseText depth otherwise ++ '\n' :: rest))) = _ :=
    enclosed_stmts hthen (by omega) _
  have helse := elseBlock_elseText hotherwise (by omega : (elseText depth otherwise).length ≤ steps)
    rest
  rw [keywordStmt, hword]
  simp only [String.reduceEq, reduceIte, hexpr, hblock, helse, Option.bind_eq_bind,
    Option.bind_some, Option.pure_def]
  rfl

/-- An assignment is read as its target and then its value. -/
theorem of_target {s : Stmt ι} {target value : Expr ι} (htarget : target.ReadsBack)
    (hvalue : value.ReadsBack)
    (htext : ∀ depth, s.renderAt depth = target.renderAt depth ++ " = " ++ value.renderAt depth)
    (hread : ∀ (item : Reader (Expr Unit)) (line : Reader (Stmt Unit))
        (text later rest : List Char),
      item text = some (target.mapInfo fun _ => (), ' ' :: '=' :: later) →
      item later = some (value.mapInfo fun _ => (), rest) →
      anyStmt item line text = some (s.mapInfo fun _ => (), rest)) :
    s.ReadsBack := by
  intro depth steps rest hsteps
  obtain ⟨steps, rfl⟩ : ∃ k, steps = k + 1 := ⟨steps - 1, by omega⟩
  have htexts : (s.renderAt depth).toList ++ '\n' :: rest = (target.renderAt depth).toList ++
      ' ' :: '=' :: ' ' :: ((value.renderAt depth).toList ++ '\n' :: rest) := by
    simp [htext depth]
  rw [htext depth, String.length_append, String.length_append] at hsteps
  have htargetLt : (target.renderAt depth).length < steps := by omega
  have hvalueLt : (value.renderAt depth).length < steps := by omega
  rw [htexts, stmt]
  exact hread _ _ _ _ _ (htarget.whole htargetLt (Or.inl rfl) _)
    (hvalue.whole_blank hvalueLt rfl rest)

/-- An assignment reads back if its value does. -/
theorem assign (i : ι) {n : String} (hn : isIdentifier n = true) {value : Expr ι}
    (hvalue : value.ReadsBack) : (Stmt.assign i n value).ReadsBack := by
  refine of_target (Expr.ReadsBack.variable i hn) hvalue (fun _ => rfl) ?_
  intro item line text later rest htarget hlater
  rw [anyStmt, htarget]
  show (item later).bind _ = _
  rw [hlater]
  rfl

/-- An assignment to a member reads back if its object and its value do. -/
theorem assignMember (i : ι) {object : Expr ι} (hobject : object.ReadsBack) {n : String}
    (hn : isIdentifier n = true) {value : Expr ι} (hvalue : value.ReadsBack) :
    (Stmt.assignMember i object n value).ReadsBack := by
  refine of_target (hobject.member i hn) hvalue (fun _ => rfl) ?_
  intro item line text later rest htarget hlater
  rw [anyStmt, htarget]
  show (item later).bind _ = _
  rw [hlater]
  rfl

/-- An expression statement reads back if its expression does. -/
theorem expr {e : Expr ι} (he : e.ReadsBack) : (Stmt.expr e).ReadsBack := by
  intro depth steps rest hsteps
  obtain ⟨steps, rfl⟩ : ∃ k, steps = k + 1 := ⟨steps - 1, by omega⟩
  rw [renderAt] at hsteps ⊢
  have hlt : (e.renderAt depth).length < steps := by omega
  -- the line ends after the expression, so it is not the target of an assignment
  rw [stmt, anyStmt, he.whole (c := '\n') hlt (Or.inl rfl) rest, mapInfo]
  cases e.mapInfo fun _ => () <;> rfl

end Stmt.ReadsBack

/-! ## Whole trees -/

/-- Names that are legible are identifiers. -/
theorem isIdentifier_of_names {ns : List String}
    (h : ∀ w ∈ ns.map Word.name, w.isLegible = true) : ∀ n ∈ ns, isIdentifier n = true :=
  fun n hn => h (.name n) (List.mem_map_of_mem hn)

/-- The same for an optional name. -/
theorem isIdentifier_of_optional {n : Option String}
    (h : ∀ w ∈ n.toList.map Word.name, w.isLegible = true) : ∀ m ∈ n, isIdentifier m = true :=
  fun m hm => isIdentifier_of_names h m (Option.mem_toList.mpr hm)

mutual

/-- A legible expression is read back. -/
theorem Expr.readsBack : (e : Expr ι) →
    (∀ w ∈ Word.collector.expr () e, w.isLegible = true) → e.ReadsBack
  | .unit i, _ => .unit i
  | .name i n, h => .name i (h (.name n) List.mem_cons_self)
  | .text i t, _ => .text i t
  | .number i d, h => .number i (h (.number d) List.mem_cons_self)
  | .variable i n, h => .variable i (h (.name n) List.mem_cons_self)
  | .member i object m, h => by
      rw [Collector.expr, List.forall_mem_append] at h
      exact (Expr.readsBack object h.2).member i (h.1 (.name m) List.mem_cons_self)
  | .call i callee inputs, h => by
      rw [Collector.expr, List.forall_mem_append, List.forall_mem_append] at h
      exact (Expr.readsBack callee h.1.2).call i (Expr.allReadBack inputs h.2)
  | .functionLit i n params body, h => by
      rw [Collector.expr_functionLit, List.forall_mem_append] at h
      have hnames : ∀ m ∈ n.toList ++ Param.names params, isIdentifier m = true :=
        isIdentifier_of_names h.1
      rw [List.forall_mem_append] at hnames
      exact .functionLit i (fun m hm => hnames.1 m (Option.mem_toList.mpr hm)) hnames.2
        (Stmt.allReadBack body h.2)
  | .classLit i n ms, h => by
      rw [Collector.expr, List.forall_mem_append] at h
      exact .classLit i (isIdentifier_of_optional h.1) (Method.allReadBack ms h.2)

/-- The same for a list of expressions. -/
theorem Expr.allReadBack : (es : List (Expr ι)) →
    (∀ w ∈ Word.collector.exprs () es, w.isLegible = true) → ∀ e ∈ es, e.ReadsBack
  | [], _ => by nofun
  | e :: es, h => by
      rw [Collector.exprs, List.forall_mem_append] at h
      exact List.forall_mem_cons.mpr ⟨Expr.readsBack e h.1, Expr.allReadBack es h.2⟩

/-- A legible statement is read back. -/
theorem Stmt.readsBack : (s : Stmt ι) →
    (∀ w ∈ Word.collector.stmt () s, w.isLegible = true) → s.ReadsBack
  | .importPackage i n path, h => by
      rw [Collector.stmt, List.forall_mem_append] at h
      exact .importPackage i (isIdentifier_of_optional h.1) path
  | .declare i n value, h => by
      rw [Collector.stmt, List.forall_mem_append, List.forall_mem_append] at h
      exact .declare i (h.1.1 (.name n) List.mem_cons_self) (Expr.readsBack value h.1.2)
  | .assign i n value, h => by
      rw [Collector.stmt, List.forall_mem_append, List.forall_mem_append] at h
      exact .assign i (h.1.1 (.name n) List.mem_cons_self) (Expr.readsBack value h.1.2)
  | .assignMember i object n value, h => by
      rw [Collector.stmt, List.forall_mem_append, List.forall_mem_append,
        List.forall_mem_append] at h
      exact .assignMember i (Expr.readsBack object h.1.1.2)
        (h.1.1.1 (.name n) List.mem_cons_self) (Expr.readsBack value h.1.2)
  | .ret i value, h => by
      rw [Collector.stmt, List.forall_mem_append, List.forall_mem_append] at h
      exact .ret i (Expr.readsBack value h.1.2)
  | .branch i condition thenBlock otherwise, h => by
      rw [Collector.stmt_branch, List.forall_mem_append, List.forall_mem_append,
        List.forall_mem_append, List.forall_mem_append] at h
      exact .branch i (Expr.readsBack condition h.1.1.1.2) (Stmt.allReadBack thenBlock h.1.1.2)
        (Stmt.allReadBack otherwise h.1.2)
  | .expr e, h => by
      rw [Collector.stmt, List.forall_mem_append, List.forall_mem_append] at h
      exact .expr (Expr.readsBack e h.1.2)

/-- The same for a list of statements. -/
theorem Stmt.allReadBack : (ss : List (Stmt ι)) →
    (∀ w ∈ Word.collector.stmts () ss, w.isLegible = true) → ∀ s ∈ ss, s.ReadsBack
  | [], _ => by nofun
  | s :: ss, h => by
      rw [Collector.stmts, List.forall_mem_append] at h
      exact List.forall_mem_cons.mpr ⟨Stmt.readsBack s h.1, Stmt.allReadBack ss h.2⟩

/-- A legible method is read back. -/
theorem Method.readsBack : (m : Method ι) →
    (∀ w ∈ Word.collector.method () m, w.isLegible = true) → m.ReadsBack
  | .mk i n params body, h => by
      rw [Collector.method_mk, List.forall_mem_append] at h
      have hnames : ∀ m ∈ n :: Param.names params, isIdentifier m = true :=
        isIdentifier_of_names h.1
      rw [List.forall_mem_cons] at hnames
      exact .mk i hnames.1 hnames.2 (Stmt.allReadBack body h.2)

/-- The same for a list of methods. -/
theorem Method.allReadBack : (ms : List (Method ι)) →
    (∀ w ∈ Word.collector.methods () ms, w.isLegible = true) → ∀ m ∈ ms, m.ReadsBack
  | [], _ => by nofun
  | m :: ms, h => by
      rw [Collector.methods, List.forall_mem_append] at h
      exact List.forall_mem_cons.mpr ⟨Method.readsBack m h.1, Method.allReadBack ms h.2⟩

end

/-- The text of a legible program is read as that program without its infos. -/
theorem Rendering.program_render {p : Program ι} (h : ∀ w ∈ p.words, w.isLegible = true) :
    program p.render = some (p.mapInfo fun _ => ()) := by
  have htext : p.render.toList = linesText "" (p.statements.map (Stmt.renderAt 0)) ++ [] := by
    simp [Program.render, linesText, Stmt.renderAll_eq_map, List.flatMap_map]
  have hlength := congrArg List.length htext
  rw [String.length_toList, List.append_nil] at hlength
  have hreads : ∀ s ∈ p.statements, ∀ rest, stmt (p.render.length + 1)
      ((s.renderAt 0).toList ++ '\n' :: rest) = some (s.mapInfo fun _ => (), '\n' :: rest) := by
    intro s hs rest
    have hline := length_lt_linesText (List.mem_map_of_mem (f := Stmt.renderAt 0) hs) ""
    exact Stmt.allReadBack p.statements h s hs 0 _ rest (by omega)
  have hblanks : ∀ c ∈ "".toList, isSeparator c = true := by simp
  have hcount := Nat.le_of_eq ((congrArg List.length htext).symm.trans String.length_toList)
  have hmany := many_linesText (skips_stmt _) hblanks (stmt_nil _) hreads hcount
  rw [program, htext, hmany, Program.mapInfo, Stmt.mapInfos_eq_map]
  rfl

/-- Two legible programs have the same text exactly if they are equal up to infos. -/
theorem render_unambiguous {P : Program ι} {Q : Program κ}
    (hP : ∀ w ∈ P.words, w.isLegible = true) (hQ : ∀ w ∈ Q.words, w.isLegible = true) :
    P.render = Q.render ↔ (P.mapInfo fun _ => ()) = Q.mapInfo fun _ => () := by
  constructor
  · intro h
    have hprogram := congrArg program h
    rw [program_render hP, program_render hQ] at hprogram
    exact Option.some.inj hprogram
  · intro h
    rw [← P.render_mapInfo fun _ => (), h, Q.render_mapInfo]

/-- Literals as callees, objects and conditions, with and without names, parameters and statements,
and texts that contain marks. -/
def literalPlaces (i : ι) : Program ι :=
  ⟨[.importPackage i (some "@lib") "a\" as b",
    .branch i (.functionLit i none [⟨i, "x"⟩, ⟨i, "y"⟩] [])
      [.expr (.call i (.functionLit i (some "f") [] [.ret i (.unit i)])
        [.number i "1", .name i "x"])]
      [],
    .assignMember i (.classLit i none [.mk i "m" [] []]) "p" (.text i "\x7d\n\x7f = \"\x7b"),
    .branch i (.classLit i (some "C") []) [] [.assign i "x" (.member i (.number i "2") "y")]]⟩

/-- Programs that differ in their infos only, with literals in all places, are rendered alike. -/
theorem render_unambiguous_literalPlaces :
    (∀ w ∈ (literalPlaces 7).words, w.isLegible = true) ∧
    (∀ w ∈ (literalPlaces "a").words, w.isLegible = true) ∧
    (literalPlaces 7).render = (literalPlaces "a").render ∧
    ((literalPlaces 7).mapInfo fun _ => ()) = (literalPlaces "a").mapInfo fun _ => () := by
  have hnumbers : ∀ w ∈ (literalPlaces 7).words, w.isLegible = true := by decide +kernel
  have htexts : ∀ w ∈ (literalPlaces "a").words, w.isLegible = true := by decide +kernel
  have hrender : (literalPlaces 7).render = (literalPlaces "a").render := by decide +kernel
  exact ⟨hnumbers, htexts, hrender, (render_unambiguous hnumbers htexts).mp hrender⟩

end Lowering
