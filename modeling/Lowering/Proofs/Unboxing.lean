import Lowering.Proofs.Evaluation
import Lowering.Proofs.Undoing

/-!
# Undoing boxes

`Unboxing.expr` and its companions walk down a tree with the names that are bound around a node,
each with whether it is boxed. The statements at the head of a block that create boxes are dropped
and tell which of its names are boxed; a call of a box method turns back into a read of, an
assignment to or a declaration of the name if the name is boxed where the call stands. Calls of
methods with the same names that a program makes itself are not confused with these: wherever a name
is boxed, the program calls methods of its value and not of its box (`Unboxing.boxCall?_mapped`).
Main statement: `boxes_erased`.
-/

namespace Lowering

variable {ι : Type}

/-- Each box method is found by its name, so no two share one. -/
theorem BoxOp.ofName?_name (op : BoxOp) : ofName? op.name = some op := by
  cases op <;> decide

namespace Unboxing

open BoxedName (mapper isBoxed)

/-- The name for which a statement creates a box: a parameter's box is assigned to the parameter,
and that of a declared variable is declared. -/
def created? : Stmt ι → Option String
  | .assign _ n (.call i callee [.variable j m]) =>
      if (Expr.call i callee [.variable j m]).hook? = some .createBox ∧ m = n then some n else none
  | .declare _ n (.call i callee [.name j m]) =>
      if (Expr.call i callee [.name j m]).hook? = some .createUndefinedBox ∧ m = n then some n
      else none
  | _ => none

/-- The names for which boxes are created at the head of a block. -/
def headNames : Block ι → List String
  | [] => []
  | s :: ss =>
      match created? s with
      | some n => n :: headNames ss
      | none => []

/-- The scope inside a block with its parameters: the names with boxes created at its head are
boxed, and all others that it binds are not. -/
def inner (scope : List (String × Bool)) (params : List (Param ι)) (b : Block ι) :
    List (String × Bool) :=
  (headNames b).map (·, true) ++ ((Param.names params ++ b.declared).map (·, false) ++ scope)

/-- The box method that an expression calls, and the name of the box. -/
def boxCall? (scope : List (String × Bool)) : Expr ι → Option (BoxOp × String)
  | .call _ (.member _ (.variable _ n) m) _ =>
      if isBoxed scope n then (BoxOp.ofName? m).map (·, n) else none
  | _ => none

/-- A call that gets the value of a box stands for a read. -/
def reading (call? : Option (BoxOp × String)) (e : Expr ι) : Expr ι :=
  match call?, e with
  | some (.get, n), .call i _ [] => .variable i n
  | _, e => e

/-- A call that stands as a statement and gives a box a value stands for an assignment or a
declaration. -/
def setting (call? : Option (BoxOp × String)) (e : Expr ι) : Stmt ι :=
  match call?, e with
  | some (.set, n), .call i _ [value] => .assign i n value
  | some (.define, n), .call i _ [value] => .declare i n value
  | _, e => .expr e

mutual

/-- Turn all uses of boxes in an expression back. -/
def expr (scope : List (String × Bool)) : Expr ι → Expr ι
  | .unit i => .unit i
  | .name i n => .name i n
  | .text i t => .text i t
  | .number i d => .number i d
  | .variable i n => .variable i n
  | .member i object m => .member i (expr scope object) m
  | .call i callee inputs =>
      reading (boxCall? scope (.call i callee inputs))
        (.call i (expr scope callee) (exprs scope inputs))
  | .functionLit i n params b =>
      .functionLit i n params ((stmts (inner scope params b) b).drop (headNames b).length)
  | .classLit i n ms => .classLit i n (methods scope ms)

/-- The same for a list of expressions. -/
def exprs (scope : List (String × Bool)) : List (Expr ι) → List (Expr ι)
  | [] => []
  | e :: es => expr scope e :: exprs scope es

/-- The same for a statement. -/
def stmt (scope : List (String × Bool)) : Stmt ι → Stmt ι
  | .importPackage i n path => .importPackage i n path
  | .declare i n value => .declare i n (expr scope value)
  | .assign i n value => .assign i n (expr scope value)
  | .assignMember i object m value => .assignMember i (expr scope object) m (expr scope value)
  | .ret i value => .ret i (expr scope value)
  | .branch i condition thenBlock elseBlock =>
      .branch i (expr scope condition)
        ((stmts (inner scope [] thenBlock) thenBlock).drop (headNames thenBlock).length)
        ((stmts (inner scope [] elseBlock) elseBlock).drop (headNames elseBlock).length)
  | .expr e => setting (boxCall? scope e) (expr scope e)

/-- The same for a list of statements in its own scope, those that create boxes included. -/
def stmts (scope : List (String × Bool)) : List (Stmt ι) → List (Stmt ι)
  | [] => []
  | s :: ss => stmt scope s :: stmts scope ss

/-- The same for a method. -/
def method (scope : List (String × Bool)) : Method ι → Method ι
  | .mk i n params b =>
      .mk i n params ((stmts (inner scope [] b) b).drop (headNames b).length)

/-- The same for a list of methods. -/
def methods (scope : List (String × Bool)) : List (Method ι) → List (Method ι)
  | [] => []
  | m :: ms => method scope m :: methods scope ms

end

/-- Turn a block with its parameters back: the statements at its head that create boxes are
dropped. -/
def body (scope : List (String × Bool)) (params : List (Param ι)) (b : Block ι) : Block ι :=
  (stmts (inner scope params b) b).drop (headNames b).length

/-- Statements are turned back one by one. -/
theorem stmts_eq_map (scope : List (String × Bool)) (ss : List (Stmt ι)) :
    stmts scope ss = ss.map (stmt scope) := by
  induction ss with
  | nil => rfl
  | cons s ss ih => rw [stmts, ih, List.map_cons]

/-! ## The head of a boxed block -/

/-- An assignment of anything but a new box creates none. -/
theorem created?_assign {value : Expr ι} (h : value.hook? ≠ some .createBox) (i : ι) (n : String) :
    created? (.assign i n value) = none := by
  unfold created?
  split
  · rename_i heq
    cases heq
    exact if_neg fun hcall => h hcall.1
  · rename_i heq
    cases heq
  · rfl

/-- A declaration of anything but a new box creates none. -/
theorem created?_declare {value : Expr ι} (h : value.hook? ≠ some .createUndefinedBox) (i : ι)
    (n : String) : created? (.declare i n value) = none := by
  unfold created?
  split
  · rename_i heq
    cases heq
  · rename_i heq
    cases heq
    exact if_neg fun hcall => h hcall.1
  · rfl

/-- Names are found up to the first statement that creates no box. -/
theorem headNames_append {heads rest : Block ι} (hheads : ∀ s ∈ heads, (created? s).isSome)
    (hrest : ∀ s ∈ rest, created? s = none) :
    headNames (heads ++ rest) = heads.filterMap created? := by
  induction heads with
  | nil =>
      cases rest with
      | nil => rfl
      | cons s ss =>
          show headNames (s :: ss) = []
          rw [headNames, hrest s List.mem_cons_self]
  | cons s ss ih =>
      obtain ⟨n, hn⟩ := Option.isSome_iff_exists.mp (hheads s List.mem_cons_self)
      rw [List.cons_append, headNames, List.filterMap_cons, hn,
        ih fun t ht => hheads t (List.mem_cons_of_mem _ ht)]

/-- The statement at the head of a block for one of its boxed names is found with this name. -/
theorem created?_head {params : List (Param ι)} {b : Block ι} {n : String}
    (h : n ∈ BoxedName.boxedNames params b) :
    ∃ s, BoxedName.head? params b n = some s ∧ created? s = some n := by
  by_cases hparams : n ∈ Param.names params
  · obtain ⟨i, hhead⟩ := BoxedName.head?_of_mem b hparams
    refine ⟨_, hhead, ?_⟩
    exact if_pos ⟨Hook.hook?_call .createBox i _, rfl⟩
  · have hdeclared := (BoxedName.mem_boxedNames.mp h).1.resolve_left hparams
    obtain ⟨i, hhead⟩ := BoxedName.head?_of_declared hparams hdeclared
    refine ⟨_, hhead, ?_⟩
    exact if_pos ⟨Hook.hook?_call .createUndefinedBox i _, rfl⟩

/-- Boxing keeps which hook an expression calls. -/
theorem hook?_mapped (scope : List (String × Bool)) (e : Expr ι) :
    (mapper.expr scope e).hook? = e.hook? := by
  rw [BoxedName.mapper_expr, ← BoxedName.mapper_keepsCallees.hook?_rebuild scope e]
  cases e with
  | «variable» i n =>
      rw [Mapper.rebuild, BoxedName.read]
      split <;> rfl
  | _ => rfl

/-- A boxed statement creates no box if the program creates none itself. -/
theorem created?_mapped (scope : List (String × Bool)) {s : Stmt ι}
    (hs : Stage.boxing.avoided.HoldsStmt s) : created? (mapper.stmt scope s) = none := by
  rw [Mapper.stmt_eq, BoxedName.mapper_onStmt]
  cases s with
  | declare i n value =>
      have hvalue : value.hook? ≠ some .createUndefinedBox := Stage.not_avoided (by decide) hs.2
      rw [Mapper.rebuildStmt, BoxedName.access]
      split
      · rfl
      · exact created?_declare (by rwa [hook?_mapped]) i n
  | assign i n value =>
      have hvalue : value.hook? ≠ some .createBox := Stage.not_avoided (by decide) hs.2
      rw [Mapper.rebuildStmt, BoxedName.access]
      split
      · rfl
      · exact created?_assign (by rwa [hook?_mapped]) i n
  | _ => rfl

section

variable (scope : List (String × Bool)) (params : List (Param ι)) {b : Block ι}

/-- The names found at the head of a boxed block are its boxed names. -/
theorem headNames_mapped (hb : Stage.boxing.avoided.HoldsStmts b) :
    headNames (mapper.body scope params b) = BoxedName.boxedNames params b := by
  rw [Form.holdsStmts_iff] at hb
  have hheads : ∀ s ∈ BoxedName.heads params b, (created? s).isSome := by
    intro s hs
    obtain ⟨n, hn, hhead⟩ := List.mem_filterMap.mp hs
    obtain ⟨t, ht, hcreated⟩ := created?_head hn
    rw [hhead, Option.some.injEq] at ht
    rw [ht, hcreated]
    rfl
  have hrest : ∀ s ∈ mapper.stmts (BoxedName.inner scope params b) b, created? s = none := by
    intro s hs
    rw [Mapper.stmts_eq_map] at hs
    obtain ⟨t, ht, rfl⟩ := List.mem_map.mp hs
    exact created?_mapped _ (hb t ht)
  rw [BoxedName.body_eq, headNames_append hheads hrest, BoxedName.heads, List.filterMap_filterMap]
  have hfound : ∀ n ∈ BoxedName.boxedNames params b,
      (BoxedName.head? params b n).bind created? = some n := by
    intro n hn
    obtain ⟨s, hhead, hcreated⟩ := created?_head hn
    rw [hhead, Option.bind_some, hcreated]
  rw [List.filterMap_congr hfound, List.filterMap_some]

/-- There are as many statements at the head of a boxed block as boxed names. -/
theorem length_heads (b : Block ι) :
    (BoxedName.heads params b).length = (BoxedName.boxedNames params b).length := by
  rw [BoxedName.heads, List.filterMap_length_eq_length]
  intro n hn
  obtain ⟨s, hhead, _⟩ := created?_head hn
  rw [hhead]
  rfl

/-- Scopes that agree around a block agree inside of it. -/
theorem isBoxed_inner_mapped {scope scope' : List (String × Bool)}
    (h : ∀ n, isBoxed scope' n = isBoxed scope n) (params : List (Param ι))
    (hb : Stage.boxing.avoided.HoldsStmts b) (n : String) :
    isBoxed (inner scope' params (mapper.body scope params b)) n =
      isBoxed (BoxedName.inner scope params b) n := by
  have hbound : n ∈ Param.names params ++ Block.declared (mapper.body scope params b) ↔
      n ∈ Param.names params ∨ n ∈ b.declared := by
    rw [List.mem_append, or_comm, BoxedName.mem_bound_body, or_comm]
  rw [inner, BoxedName.isBoxed_map_append (fun _ => true),
    BoxedName.isBoxed_map_append (fun _ => false), headNames_mapped scope params hb]
  by_cases hn : n ∈ Param.names params ∨ n ∈ b.declared
  · rw [if_pos (hbound.mpr hn), BoxedName.isBoxed_inner scope hn]
    split
    · rename_i hboxed
      exact (BoxedName.mem_boxedNames.mp hboxed).2.symm
    · rename_i hboxed
      exact (Bool.eq_false_iff.mpr fun hneeds =>
        hboxed (BoxedName.mem_boxedNames.mpr ⟨hn, hneeds⟩)).symm
  · have hboxed : n ∉ BoxedName.boxedNames params b := fun hboxed =>
      hn (BoxedName.mem_boxedNames.mp hboxed).1
    have houter := not_or.mp hn
    rw [if_neg hboxed, if_neg (mt hbound.mp hn), h,
      BoxedName.isBoxed_outer scope houter.1 houter.2]

/-- The step from the statements of a block to the block. -/
theorem body_mapped_of_stmts {scope' : List (String × Bool)}
    (hb : Stage.boxing.avoided.HoldsStmts b)
    (hstmts : stmts (inner scope' params (mapper.body scope params b))
      (mapper.stmts (BoxedName.inner scope params b) b) = b) :
    body scope' params (mapper.body scope params b) = b := by
  rw [body, headNames_mapped scope params hb, ← length_heads]
  nth_rewrite 2 [BoxedName.body_eq]
  rw [stmts_eq_map, List.map_append, List.drop_left' (List.length_map _), ← stmts_eq_map]
  exact hstmts

end

/-! ## Uses of boxes -/

section

variable {scope scope' : List (String × Bool)} (h : ∀ n, isBoxed scope' n = isBoxed scope n)

include h in
/-- The calls that a program makes itself are no calls of box methods once it is boxed. -/
theorem boxCall?_mapped (i : ι) (callee : Expr ι) (inputs : List (Expr ι)) :
    boxCall? scope' (.call i (mapper.expr scope callee) inputs) = none := by
  cases callee with
  | member j object m =>
      cases object with
      | «variable» k n =>
          show boxCall? scope'
            (.call i (.member j (BoxedName.read scope (.variable k n)) m) inputs) = none
          rw [BoxedName.read]
          split
          · rfl
          · rename_i hn
            exact if_neg (by rwa [h])
      | _ => rfl
  | «variable» k n =>
      rw [BoxedName.mapper_expr, Mapper.rebuild, BoxedName.read]
      split <;> rfl
  | _ => rfl

/-- A call of a method of a boxed name is found. -/
theorem boxCall?_call {n : String} (hn : isBoxed scope n = true) (op : BoxOp) (i : ι)
    (inputs : List (Expr ι)) : boxCall? scope (op.call i n inputs) = some (op, n) := by
  show (if isBoxed scope n then (BoxOp.ofName? op.name).map (·, n) else none) = _
  rw [if_pos hn, op.ofName?_name]
  rfl

include h in
/-- An expression that stands as a statement is not taken for one that sets a box. -/
theorem setting_mapped (e : Expr ι) :
    setting (boxCall? scope' (mapper.expr scope e)) e = .expr e := by
  cases e with
  | call i callee inputs =>
      rw [BoxedName.mapper_expr, BoxedName.mapper_keepsMembers.rebuild_call]
      show setting (boxCall? scope' (.call i (mapper.expr scope callee) _)) _ = _
      rw [boxCall?_mapped h]
      rfl
  | «variable» i n =>
      rw [BoxedName.mapper_expr, Mapper.rebuild, BoxedName.read]
      split
      · rename_i hn
        rw [boxCall?_call ((h n).trans hn)]
        rfl
      · rfl
  | _ => rfl

mutual

/-- Unboxing turns a boxed expression back. -/
theorem expr_mapped {scope scope' : List (String × Bool)}
    (h : ∀ n, isBoxed scope' n = isBoxed scope n) : (e : Expr ι) →
    Stage.boxing.avoided.BelowExpr e → expr scope' (mapper.expr scope e) = e
  | .unit _, _ | .name _ _, _ | .text _ _, _ | .number _ _, _ => rfl
  | .variable i n, _ => by
      rw [BoxedName.mapper_expr, Mapper.rebuild, BoxedName.read]
      split
      · rename_i hn
        show reading (boxCall? scope' (BoxOp.get.call i n [])) _ = _
        rw [boxCall?_call ((h n).trans hn)]
        rfl
      · rfl
  | .member i object m, hbelow => by
      rw [Form.BelowExpr] at hbelow
      show Expr.member i (expr scope' (mapper.expr scope object)) m = _
      rw [expr_mapped h object hbelow.2]
  | .call i callee inputs, hbelow => by
      rw [Form.BelowExpr] at hbelow
      rw [BoxedName.mapper_expr, BoxedName.mapper_keepsMembers.rebuild_call]
      show reading (boxCall? scope' (.call i (mapper.expr scope callee) _)) (.call i
        (expr scope' (mapper.expr scope callee)) (exprs scope' (mapper.exprs scope inputs))) = _
      rw [boxCall?_mapped h, expr_mapped h callee hbelow.2.1, exprs_mapped h inputs hbelow.2.2]
      rfl
  | .functionLit i n params b, hbelow => by
      rw [Form.BelowExpr] at hbelow
      have hinner := isBoxed_inner_mapped h params hbelow
      exact congrArg (Expr.functionLit i n params)
        (body_mapped_of_stmts scope params hbelow (stmts_mapped hinner b hbelow))
  | .classLit i n ms, hbelow => by
      rw [Form.BelowExpr] at hbelow
      exact congrArg (Expr.classLit i n) (methods_mapped h ms hbelow)

/-- The same for a list of expressions. -/
theorem exprs_mapped {scope scope' : List (String × Bool)}
    (h : ∀ n, isBoxed scope' n = isBoxed scope n) : (es : List (Expr ι)) →
    Stage.boxing.avoided.HoldsExprs es → exprs scope' (mapper.exprs scope es) = es
  | [], _ => rfl
  | e :: es, hholds => by
      rw [Form.HoldsExprs] at hholds
      rw [Mapper.exprs_cons, exprs, expr_mapped h e hholds.1.2, exprs_mapped h es hholds.2]

/-- The same for a statement. -/
theorem stmt_mapped {scope scope' : List (String × Bool)}
    (h : ∀ n, isBoxed scope' n = isBoxed scope n) : (s : Stmt ι) →
    Stage.boxing.avoided.BelowStmt s → stmt scope' (mapper.stmt scope s) = s
  | .importPackage _ _ _, _ => rfl
  | .declare i n value, hbelow => by
      rw [Form.BelowStmt] at hbelow
      have hvalue := expr_mapped h value hbelow.2
      rw [Mapper.stmt_declare, BoxedName.mapper_onStmt, BoxedName.access]
      split
      · rename_i hn
        show setting (boxCall? scope' (BoxOp.define.call i n [mapper.expr scope value])) (reading
          (boxCall? scope' (BoxOp.define.call i n [mapper.expr scope value]))
          (.call i _ [expr scope' (mapper.expr scope value)])) = _
        rw [boxCall?_call ((h n).trans hn), hvalue]
        rfl
      · rw [stmt, hvalue]
  | .assign i n value, hbelow => by
      rw [Form.BelowStmt] at hbelow
      have hvalue := expr_mapped h value hbelow.2
      rw [Mapper.stmt_assign, BoxedName.mapper_onStmt, BoxedName.access]
      split
      · rename_i hn
        show setting (boxCall? scope' (BoxOp.set.call i n [mapper.expr scope value])) (reading
          (boxCall? scope' (BoxOp.set.call i n [mapper.expr scope value]))
          (.call i _ [expr scope' (mapper.expr scope value)])) = _
        rw [boxCall?_call ((h n).trans hn), hvalue]
        rfl
      · rw [stmt, hvalue]
  | .assignMember i object m value, hbelow => by
      rw [Form.BelowStmt] at hbelow
      show Stmt.assignMember i (expr scope' (mapper.expr scope object)) m
        (expr scope' (mapper.expr scope value)) = _
      rw [expr_mapped h object hbelow.1.2, expr_mapped h value hbelow.2.2]
  | .ret i value, hbelow => by
      rw [Form.BelowStmt] at hbelow
      exact congrArg (Stmt.ret i) (expr_mapped h value hbelow.2)
  | .branch i condition thenBlock elseBlock, hbelow => by
      rw [Form.BelowStmt] at hbelow
      have hthen := body_mapped_of_stmts scope [] hbelow.2.1
        (stmts_mapped (isBoxed_inner_mapped h [] hbelow.2.1) thenBlock hbelow.2.1)
      have helse := body_mapped_of_stmts scope [] hbelow.2.2
        (stmts_mapped (isBoxed_inner_mapped h [] hbelow.2.2) elseBlock hbelow.2.2)
      show Stmt.branch i (expr scope' (mapper.expr scope condition))
        (body scope' [] (mapper.body scope [] thenBlock))
        (body scope' [] (mapper.body scope [] elseBlock)) = _
      rw [expr_mapped h condition hbelow.1.2, hthen, helse]
  | .expr e, hbelow => by
      rw [Form.BelowStmt] at hbelow
      show setting (boxCall? scope' (mapper.expr scope e)) (expr scope' (mapper.expr scope e)) = _
      rw [expr_mapped h e hbelow.2, setting_mapped h]

/-- The same for a list of statements in its own scope. -/
theorem stmts_mapped {scope scope' : List (String × Bool)}
    (h : ∀ n, isBoxed scope' n = isBoxed scope n) : (ss : List (Stmt ι)) →
    Stage.boxing.avoided.HoldsStmts ss → stmts scope' (mapper.stmts scope ss) = ss
  | [], _ => rfl
  | s :: ss, hholds => by
      rw [Form.HoldsStmts] at hholds
      rw [Mapper.stmts, stmts, stmt_mapped h s hholds.1.2, stmts_mapped h ss hholds.2]

/-- The same for a method. -/
theorem method_mapped {scope scope' : List (String × Bool)}
    (h : ∀ n, isBoxed scope' n = isBoxed scope n) : (m : Method ι) →
    Stage.boxing.avoided.HoldsMethod m → method scope' (mapper.method scope m) = m
  | .mk i n params b, hholds => by
      rw [Form.HoldsMethod] at hholds
      have hinner := isBoxed_inner_mapped h [] hholds
      exact congrArg (Method.mk i n params)
        (body_mapped_of_stmts scope [] hholds (stmts_mapped hinner b hholds))

/-- The same for a list of methods. -/
theorem methods_mapped {scope scope' : List (String × Bool)}
    (h : ∀ n, isBoxed scope' n = isBoxed scope n) : (ms : List (Method ι)) →
    Stage.boxing.avoided.HoldsMethods ms → methods scope' (mapper.methods scope ms) = ms
  | [], _ => rfl
  | m :: ms, hholds => by
      rw [Form.HoldsMethods] at hholds
      rw [Mapper.methods, methods, method_mapped h m hholds.1, methods_mapped h ms hholds.2]

end

end

/-- Unboxing turns a boxed program back. -/
theorem body_run {p : Program ι} (hp : Stage.boxing.avoided.HoldsStmts p.statements) :
    body [] [] (BoxedName.run p).statements = p.statements :=
  body_mapped_of_stmts [] [] hp (stmts_mapped (isBoxed_inner_mapped (fun _ => rfl) [] hp) _ hp)

/-- Drop the statements that create boxes and turn all uses of boxes back. -/
def erase (p : Program ι) : Program ι :=
  ⟨body [] [] p.statements⟩

end Unboxing

/-- Boxing can be undone: erasing the boxes of a boxed program gives the program that was boxed,
with its infos, if that one created no boxes itself. It may call methods with the names of box
methods on all its variables. -/
theorem boxes_erased (p : Program ι) (hp : Stage.boxing.avoided.HoldsStmts p.statements) :
    Unboxing.erase (BoxedName.run p) = p :=
  congrArg Program.mk (Unboxing.body_run hp)

/-- The methods called here have the names of box methods, on variables with boxes and without. A
parameter is declared again, and names are bound again where they need a box or need none. -/
def methodsOfBoxes : Program ℕ :=
  ⟨[.declare 1 "made" (.functionLit 2 none [⟨3, "a"⟩, ⟨4, "b"⟩]
      [.expr (.callMethod (.variable 5 "x") "set" [.variable 6 "b"]),
        .declare 7 "x" (.callMethod (.variable 8 "a") "get" []),
        .declare 9 "x" (.callMethod (.variable 10 "b") "get" []),
        .declare 11 "a" (.callMethod (.variable 12 "a") "get" [.variable 13 "x"]),
        .expr (.functionLit 14 none [⟨15, "x"⟩]
          [.expr (.callMethod (.variable 16 "x") "define" [.variable 17 "a"]),
            .assign 18 "a" (.variable 19 "x")]),
        .branch 20 (.variable 21 "x")
          [.declare 22 "b" (.functionLit 23 none [] [.ret 24 (.variable 25 "b")]),
            .assign 26 "b" (.callMethod (.variable 27 "b") "get" []),
            .declare 28 "a" (.number 29 "1"),
            .expr (.callMethod (.variable 30 "a") "set" [.variable 31 "a"])] []])]⟩

/-- Three names are boxed, and erasing their boxes leaves the methods of the same names alone. -/
theorem erased_methodsOfBoxes :
    BoxedName.boxes methodsOfBoxes = ["a", "x", "b"] ∧
    Stage.boxing.avoided.HoldsStmts methodsOfBoxes.statements ∧
    Unboxing.erase (BoxedName.run methodsOfBoxes) = methodsOfBoxes := by
  have havoided : Stage.boxing.avoided.HoldsStmts methodsOfBoxes.statements := by
    simp [methodsOfBoxes, Stage.avoided, Form.calls, Expr.hook?, Expr.callMethod, Form.HoldsStmts,
      Form.BelowStmt, Form.BelowExpr, Form.HoldsExprs]
  exact ⟨by decide, havoided, boxes_erased methodsOfBoxes havoided⟩

end Lowering
