import Lowering.Proofs.BoxedBlocks
import Lowering.Proofs.ResolvedNames

/-!
# Sealed boxes

A variable that holds a box is used in no other way than through the methods of the box. Main
statement: `boxes_sealed`. It has two halves. Along the source, it says what becomes of every node:
uses of boxed names become calls of box methods, uses of all other names stay. In the result, it
says of each box what can still refer to it: apart from the statement that creates it, only such
calls do, so that no box gets into the hands of the program.
-/

namespace Lowering

variable {ι : Type}

/-! ## Names used through a box -/

mutual

/-- The expression uses the name only to read from the box that it holds. Parts that bind the name
again do not count. -/
inductive Expr.ThroughBox (n : String) : Expr ι → Prop where
  | get (i) : Expr.ThroughBox n (BoxOp.get.call i n [])
  | unit (i) : Expr.ThroughBox n (.unit i)
  | name (i m) : Expr.ThroughBox n (.name i m)
  | text (i t) : Expr.ThroughBox n (.text i t)
  | number (i d) : Expr.ThroughBox n (.number i d)
  | variable (i m) : m ≠ n → Expr.ThroughBox n (.variable i m)
  | member (i object m) : Expr.ThroughBox n object → Expr.ThroughBox n (.member i object m)
  | call (i callee inputs) : Expr.ThroughBox n callee →
      (∀ e ∈ inputs, Expr.ThroughBox n e) → Expr.ThroughBox n (.call i callee inputs)
  | functionLit (i m params b) :
      (n ∉ Param.names params → n ∉ Block.declared b → ∀ s ∈ b, Stmt.ThroughBox n s) →
      Expr.ThroughBox n (.functionLit i m params b)
  | classLit (i m methods) :
      (∀ j l params b, Method.mk j l params b ∈ methods →
        n ∉ Block.declared b → ∀ s ∈ b, Stmt.ThroughBox n s) →
      Expr.ThroughBox n (.classLit i m methods)

/-- The statement uses the name only to read from the box that it holds or, as a whole, to put a
value into the box. -/
inductive Stmt.ThroughBox (n : String) : Stmt ι → Prop where
  | set (i value) : Expr.ThroughBox n value →
      Stmt.ThroughBox n (.expr (BoxOp.set.call i n [value]))
  | define (i value) : Expr.ThroughBox n value →
      Stmt.ThroughBox n (.expr (BoxOp.define.call i n [value]))
  | importPackage (i m path) : Stmt.ThroughBox n (.importPackage i m path)
  | declare (i m value) : m ≠ n → Expr.ThroughBox n value → Stmt.ThroughBox n (.declare i m value)
  | assign (i m value) : m ≠ n → Expr.ThroughBox n value → Stmt.ThroughBox n (.assign i m value)
  | assignMember (i object m value) : Expr.ThroughBox n object → Expr.ThroughBox n value →
      Stmt.ThroughBox n (.assignMember i object m value)
  | ret (i value) : Expr.ThroughBox n value → Stmt.ThroughBox n (.ret i value)
  | branch (i condition thenBlock elseBlock) : Expr.ThroughBox n condition →
      (n ∉ Block.declared thenBlock → ∀ s ∈ thenBlock, Stmt.ThroughBox n s) →
      (n ∉ Block.declared elseBlock → ∀ s ∈ elseBlock, Stmt.ThroughBox n s) →
      Stmt.ThroughBox n (.branch i condition thenBlock elseBlock)
  | expr (e) : Expr.ThroughBox n e → Stmt.ThroughBox n (.expr e)

end

/-- A call of a hook uses a name through a box if its inputs do. -/
theorem Hook.throughBox_call {n : String} (hook : Hook) (i : ι) {inputs : List (Expr ι)}
    (h : ∀ e ∈ inputs, e.ThroughBox n) : (hook.call i inputs).ThroughBox n :=
  .call i _ inputs (.member i _ _ (.unit i)) h

/-- So does a call of a method of another box. -/
theorem BoxOp.throughBox_call {m n : String} (hm : m ≠ n) (op : BoxOp) (i : ι)
    {inputs : List (Expr ι)} (h : ∀ e ∈ inputs, e.ThroughBox n) :
    (op.call i m inputs).ThroughBox n :=
  .call i _ inputs (.member i _ _ (.variable i m hm)) h

namespace BoxedName

/-! ## Statements that create boxes -/

/-- A statement that creates the box of one name does not use other names. -/
theorem CreatesBox.throughBox {params : List (Param ι)} {b : Block ι} {m n : String} {s : Stmt ι}
    (h : CreatesBox params b m s) (hm : m ≠ n) : s.ThroughBox n := by
  rcases h with ⟨p, _, _, rfl⟩ | ⟨_, d, _, _, rfl⟩
  · refine .assign _ m _ hm (Hook.throughBox_call _ _ ?_)
    rw [List.forall_mem_singleton]
    exact .variable _ m hm
  · refine .declare _ m _ hm (Hook.throughBox_call _ _ ?_)
    rw [List.forall_mem_singleton]
    exact .name _ m

/-- Each of the statements for some names creates the box of one of them. -/
theorem createsBox_of_mem {params : List (Param ι)} {b : Block ι} {names : List String}
    (h : ∀ n ∈ names, n ∈ Param.names params ∨ n ∈ b.declared) {s : Stmt ι}
    (hs : s ∈ names.filterMap (head? params b)) : ∃ m ∈ names, CreatesBox params b m s := by
  obtain ⟨m, hm, hhead⟩ := List.mem_filterMap.mp hs
  obtain ⟨t, ht, hcreates⟩ := head?_createsBox (h m hm)
  obtain rfl : t = s := Option.some.inj (ht.symm.trans hhead)
  exact ⟨m, hm, hcreates⟩

/-- The boxed names of a block are bound by it. -/
theorem bound_of_boxed {params : List (Param ι)} {b : Block ι} :
    ∀ n ∈ boxedNames params b, n ∈ Param.names params ∨ n ∈ b.declared :=
  fun _ hn => (mem_boxedNames.mp hn).1

/-! ## The result -/

/-- The step from the statements of a body to the body, for a name that is boxed around it. -/
theorem throughBox_body {scope : List (String × Bool)} {n : String}
    (hn : isBoxed scope n = true) {params : List (Param ι)} {b : Block ι}
    (hstmts : isBoxed (inner scope params b) n = true →
      ∀ s ∈ mapper.stmts (inner scope params b) b, s.ThroughBox n)
    (hparams : n ∉ Param.names params) (hbody : n ∉ Block.declared (mapper.body scope params b)) :
    ∀ s ∈ mapper.body scope params b, s.ThroughBox n := by
  -- the body binds the same names as before, so that `n` still means the box around it
  have hbound := mt (mem_bound_body scope params b n).mpr (not_or.mpr ⟨hbody, hparams⟩)
  obtain ⟨hb, -⟩ := not_or.mp hbound
  intro s hs
  rw [body_eq, List.mem_append] at hs
  rcases hs with hs | hs
  · obtain ⟨m, hm, hcreates⟩ := createsBox_of_mem bound_of_boxed hs
    refine hcreates.throughBox ?_
    rintro rfl
    exact hbound (bound_of_boxed m hm).symm
  · exact hstmts ((isBoxed_outer scope hparams hb).trans hn) s hs

mutual

/-- After boxing, an expression uses a name that is boxed around it only through the box. -/
theorem throughBox_expr {scope : List (String × Bool)} {n : String}
    (hn : isBoxed scope n = true) : (e : Expr ι) → (mapper.expr scope e).ThroughBox n
  | .unit i => .unit i
  | .name i m => .name i m
  | .text i t => .text i t
  | .number i d => .number i d
  | .variable i m => by
      rw [mapper_expr, Mapper.rebuild, read]
      by_cases hm : m = n
      · rw [hm, if_pos hn]
        exact .get i
      · -- another name is read as it was or through a box of its own
        split
        · exact BoxOp.throughBox_call hm .get i (List.forall_mem_nil _)
        · exact .variable i m hm
  | .member i object m => .member i _ m (throughBox_expr hn object)
  | .call i callee inputs => by
      rw [mapper_expr, mapper_keepsMembers.rebuild_call]
      exact .call i _ _ (throughBox_expr hn callee) (throughBox_exprs hn inputs)
  | .functionLit i m params b =>
      .functionLit i m params _ (throughBox_body hn fun hinner => throughBox_stmts hinner b)
  | .classLit i m methods => .classLit i m _ (throughBox_methods hn methods)

/-- The same for a list of expressions. -/
theorem throughBox_exprs {scope : List (String × Bool)} {n : String}
    (hn : isBoxed scope n = true) : (es : List (Expr ι)) →
    ∀ e ∈ mapper.exprs scope es, e.ThroughBox n
  | [] => List.forall_mem_nil _
  | e :: es => List.forall_mem_cons.mpr ⟨throughBox_expr hn e, throughBox_exprs hn es⟩

/-- The same for a statement. -/
theorem throughBox_stmt {scope : List (String × Bool)} {n : String}
    (hn : isBoxed scope n = true) : (s : Stmt ι) → (mapper.stmt scope s).ThroughBox n
  | .importPackage i m path => .importPackage i m path
  | .declare i m value => by
      have hvalue := throughBox_expr hn value
      rw [Mapper.stmt_declare, mapper_onStmt, access]
      by_cases hm : m = n
      · rw [hm, if_pos hn]
        exact .define i _ hvalue
      · split
        · exact .expr _ (BoxOp.throughBox_call hm .define i (List.forall_mem_singleton.mpr hvalue))
        · exact .declare i m _ hm hvalue
  | .assign i m value => by
      have hvalue := throughBox_expr hn value
      rw [Mapper.stmt_assign, mapper_onStmt, access]
      by_cases hm : m = n
      · rw [hm, if_pos hn]
        exact .set i _ hvalue
      · split
        · exact .expr _ (BoxOp.throughBox_call hm .set i (List.forall_mem_singleton.mpr hvalue))
        · exact .assign i m _ hm hvalue
  | .assignMember i object m value =>
      .assignMember i _ m _ (throughBox_expr hn object) (throughBox_expr hn value)
  | .ret i value => .ret i _ (throughBox_expr hn value)
  | .branch i condition thenBlock elseBlock =>
      .branch i _ _ _ (throughBox_expr hn condition)
        (throughBox_body hn (fun hinner => throughBox_stmts hinner thenBlock) List.not_mem_nil)
        (throughBox_body hn (fun hinner => throughBox_stmts hinner elseBlock) List.not_mem_nil)
  | .expr e => .expr _ (throughBox_expr hn e)

/-- The same for a list of statements in its own scope. -/
theorem throughBox_stmts {scope : List (String × Bool)} {n : String}
    (hn : isBoxed scope n = true) : (ss : List (Stmt ι)) →
    ∀ s ∈ mapper.stmts scope ss, s.ThroughBox n
  | [] => List.forall_mem_nil _
  | s :: ss => List.forall_mem_cons.mpr ⟨throughBox_stmt hn s, throughBox_stmts hn ss⟩

/-- The same for the bodies of a list of methods. -/
theorem throughBox_methods {scope : List (String × Bool)} {n : String}
    (hn : isBoxed scope n = true) : (ms : List (Method ι)) →
    ∀ j l params b, Method.mk j l params b ∈ mapper.methods scope ms →
      n ∉ Block.declared b → ∀ s ∈ b, s.ThroughBox n
  | [] => fun _ _ _ _ hm => absurd hm List.not_mem_nil
  | .mk _ _ _ b :: ms => by
      intro j l params body hm
      rw [Mapper.methods, Mapper.method_mk, List.mem_cons] at hm
      rcases hm with hm | hm
      · cases hm
        exact throughBox_body hn (fun hinner => throughBox_stmts hinner b) List.not_mem_nil
      · exact throughBox_methods hn ms j l params body hm

end

/-- A block with its parameters before and after boxing, as far as its boxes go. -/
structure Sealed (source target : List (Param ι) × Block ι) : Prop where
  params_eq : target.1 = source.1
  /-- The box of a name is created before anything but other boxes, and from then on used through
  its methods only. -/
  statements : ∀ n ∈ boxedNames source.1 source.2, ∃ before head after,
    target.2 = before ++ head :: after ∧
    (∀ s ∈ before, ∃ m, CreatesBox source.1 source.2 m s) ∧
    CreatesBox source.1 source.2 n head ∧
    ∀ s ∈ before ++ after, s.ThroughBox n

/-- The boxes of a block are sealed in its image. -/
theorem sealed_of_image {source target : List (Param ι) × Block ι}
    (h : mapper.Image source target) : Sealed source target := by
  obtain ⟨scope, rfl⟩ := h
  obtain ⟨params, b⟩ := source
  refine ⟨rfl, fun n hn => ?_⟩
  have hboxed : isBoxed (inner scope params b) n = true :=
    (isBoxed_inner scope (bound_of_boxed n hn)).trans (mem_boxedNames.mp hn).2
  obtain ⟨head, hhead, hcreates⟩ := head?_createsBox (bound_of_boxed n hn)
  obtain ⟨names, others, hnames⟩ := List.append_of_mem hn
  have hperm : (n :: (names ++ others)).Perm (boxedNames params b) := hnames ▸ List.perm_middle.symm
  -- the names are distinct, so that the other heads do not use `n`
  have hdistinct : n ∉ names ++ others :=
    (List.nodup_cons.mp (hperm.nodup_iff.mpr (Names.nodup_sorted _))).1
  have hbound : ∀ m ∈ names ++ others, m ∈ Param.names params ∨ m ∈ b.declared :=
    fun m hm => bound_of_boxed m (hperm.mem_iff.mp (List.mem_cons_of_mem _ hm))
  have hothers : ∀ s ∈ (names ++ others).filterMap (head? params b),
      (∃ m, CreatesBox params b m s) ∧ s.ThroughBox n := by
    intro s hs
    obtain ⟨m, hm, hcreates⟩ := createsBox_of_mem hbound hs
    exact ⟨⟨m, hcreates⟩, hcreates.throughBox fun hmn => hdistinct (hmn ▸ hm)⟩
  rw [List.filterMap_append, List.forall_mem_append] at hothers
  refine ⟨names.filterMap (head? params b), head,
    others.filterMap (head? params b) ++ mapper.stmts (inner scope params b) b, ?_,
    fun s hs => (hothers.1 s hs).1, hcreates, ?_⟩
  · rw [body_eq, heads, hnames, List.filterMap_append, List.filterMap_cons_some hhead,
      List.append_assoc, List.cons_append]
  · rw [List.forall_mem_append, List.forall_mem_append]
    exact ⟨fun s hs => (hothers.1 s hs).2, fun s hs => (hothers.2 s hs).2,
      throughBox_stmts hboxed b⟩

/-! ## What becomes of every node -/

/-- Among the blocks around, the innermost one that binds the name has boxed it. -/
def InBox : Enclosing ι → String → Prop
  | [], _ => False
  | (params, b) :: around, n =>
      n ∈ boxedNames params b ∨ n ∉ Param.names params ∧ n ∉ b.declared ∧ InBox around n

/-- Boxed names are read, assigned and declared through their boxes. -/
def indirection : Indirection ι where
  Used := InBox
  Declared := InBox
  get i n := BoxOp.get.call i n []
  set i n value := BoxOp.set.call i n [value]
  define i n value := BoxOp.define.call i n [value]

/-- Besides, each block creates the boxes of its boxed names first. -/
def rewriting : Rewriting ι :=
  { indirection.rewriting with
    heads := fun params b => List.Forall₂ (CreatesBox params b) (boxedNames params b) }

/-- The scope has the boxed names of the blocks around. -/
def Fits (scope : List (String × Bool)) (around : Enclosing ι) : Prop :=
  ∀ n, isBoxed scope n = true ↔ InBox around n

/-- Inside a function, its boxed names come before those of the blocks around. -/
theorem Fits.function {scope : List (String × Bool)} {around : Enclosing ι}
    (h : Fits scope around) (params : List (Param ι)) (b : Block ι) :
    Fits (inner scope params b) ((params, b) :: around) := by
  intro n
  by_cases hn : n ∈ Param.names params ∨ n ∈ b.declared
  · -- the block itself decides
    rw [isBoxed_inner scope hn, InBox, mem_boxedNames]
    tauto
  · rw [not_or] at hn
    rw [isBoxed_outer scope hn.1 hn.2, h n, InBox, mem_boxedNames]
    tauto

/-- Boxing rewrites uses as their lexical scopes require. -/
theorem mapper_follows : (mapper : Mapper (List (String × Bool)) ι).Follows rewriting
    (fun scope around _ => Fits scope around) where
  keepsMembers := mapper_keepsMembers
  fewer h _ := h
  function params b h := h.function params b
  block b h := h.function [] b
  heads _ _ := heads_createBoxes bound_of_boxed
  stmt {scope around} s h _ := by
    rw [Mapper.stmt_eq, mapper_onStmt]
    cases s with
    | declare i n value => exact Indirection.onStmt_declare i _ (h n)
    | assign i n value => exact Indirection.onStmt_assign i _ (h n)
    | _ => exact .other _ rfl
  expr {scope around} e h := by
    show indirection.OnExpr around (mapper.rebuild scope e) (read scope (mapper.rebuild scope e))
    cases e with
    | «variable» i n => exact Indirection.onExpr_variable i (h n)
    | _ => exact .other _ (by simp [Mapper.rebuild, Expr.kind])

end BoxedName

/-- Boxes are sealed, and only boxed names are boxed. A name is read, assigned and declared through
a box exactly where the innermost block that binds it has boxed it, and all other nodes stay as they
are. In the result, the variable with a box occurs only in the statement at the head of its block
that creates the box, and as the object of calls of box methods: of those without an input that get
the value, and of statements that set or define it. -/
theorem boxes_sealed (p : Program ι) :
    BoxedName.rewriting.RewritesBlock [] [] p.statements (BoxedName.run p).statements ∧
    List.Forall₂ BoxedName.Sealed p.blocks (BoxedName.run p).blocks := by
  constructor
  · refine BoxedName.mapper_follows.block_rewrites fun n => ?_
    exact iff_of_false Bool.false_ne_true id
  · exact (BoxedName.mapper_keepsBlocks.block [] p.statements).imp
      fun _ _ => BoxedName.sealed_of_image

end Lowering
