import Lowering.Proofs.FreeNames

/-!
# Scopes and boxes

What boxing does to the names of a block. The box of a name is created by exactly one statement at
the head of the block (`mem_heads`). A name that the block binds is boxed in it as the accesses of
the block require (`isBoxed_inner`), any other name as around it (`isBoxed_outer`). Although
declarations move, block and parameters bind the same names as before (`mem_bound_body`), so that
boxing keeps all free names (`free_boxed_stmts`).
-/

namespace Lowering

variable {ι : Type}

namespace BoxedName

/-- Inside a block, its declared names are boxed as its accesses require. -/
@[simp] theorem mapper_ofBlock (scope : List (String × Bool)) (b : Block ι) :
    mapper.ofBlock scope b = extend b.declared b scope := rfl

/-- Inside a function, its parameters are boxed as the accesses of its body require. -/
@[simp] theorem mapper_ofFunction (scope : List (String × Bool)) (params : List (Param ι))
    (b : Block ι) : mapper.ofFunction scope params b = extend (Param.names params) b scope := rfl

/-- Blocks begin with the statements that create their boxes. -/
@[simp] theorem mapper_heads (params : List (Param ι)) (b : Block ι) :
    mapper.heads params b = heads params b := rfl

/-- Statements are mapped by the rule for declarations and assignments. -/
@[simp] theorem mapper_onStmt (scope : List (String × Bool)) (s : Stmt ι) :
    mapper.onStmt scope s = access scope s := rfl

/-- Every expression is mapped by the rule for reads. -/
theorem mapper_expr (scope : List (String × Bool)) (e : Expr ι) :
    mapper.expr scope e = read scope (mapper.rebuild scope e) := rfl

/-- Boxing does not change member accesses by itself. -/
theorem mapper_keepsMembers : (mapper : Mapper (List (String × Bool)) ι).KeepsMembers :=
  fun _ _ _ _ _ => rfl

/-- A block is mapped like the body of a function without parameters. -/
theorem block_eq_body (scope : List (String × Bool)) (b : Block ι) :
    mapper.block scope b = mapper.body scope [] b := rfl

/-! ## Which names are boxed -/

/-- The scope inside a block with its parameters. -/
def inner (scope : List (String × Bool)) (params : List (Param ι)) (b : Block ι) :
    List (String × Bool) :=
  extend b.declared b (extend (Param.names params) b scope)

/-- A body becomes the heads of its boxes and its own statements, mapped in the inner scope. -/
theorem body_eq (scope : List (String × Bool)) (params : List (Param ι)) (b : Block ι) :
    mapper.body scope params b = heads params b ++ mapper.stmts (inner scope params b) b := rfl

/-- The boxed names of a block are those it binds and has to box. -/
theorem mem_boxedNames {params : List (Param ι)} {b : Block ι} {n : String} :
    n ∈ boxedNames params b ↔
      (n ∈ Param.names params ∨ n ∈ b.declared) ∧ Access.needsBox n b.accesses = true := by
  simp only [boxedNames, Names.mem_sorted, List.mem_filter, List.mem_append]

/-- Looking up a name behind names that are bound in front of a scope. -/
theorem isBoxed_map_append (boxed : String → Bool) (names : List String)
    (scope : List (String × Bool)) (n : String) :
    isBoxed (names.map (fun m => (m, boxed m)) ++ scope) n =
      if n ∈ names then boxed n else isBoxed scope n := by
  induction names with
  | nil => rfl
  | cons m ms ih =>
      simp only [isBoxed, List.map_cons, List.cons_append, List.mem_cons] at ih ⊢
      by_cases h : n = m
      · subst h
        simp
      · have hb : (n == m) = false := by simpa using h
        rw [List.lookup_cons, hb]
        simp only [h, false_or]
        exact ih

/-- Looking up a name in an extended scope. -/
theorem isBoxed_extend (names : List String) (b : Block ι) (scope : List (String × Bool))
    (n : String) :
    isBoxed (extend names b scope) n =
      if n ∈ names then Access.needsBox n b.accesses else isBoxed scope n :=
  isBoxed_map_append (Access.needsBox · b.accesses) names scope n

/-- A name that a block or its parameters bind is boxed if the accesses of the block require it. -/
theorem isBoxed_inner {params : List (Param ι)} {b : Block ι} {n : String}
    (scope : List (String × Bool)) (h : n ∈ Param.names params ∨ n ∈ b.declared) :
    isBoxed (inner scope params b) n = Access.needsBox n b.accesses := by
  rw [inner, isBoxed_extend, isBoxed_extend]
  rcases h with h | h
  · simp [h]
  · simp [h]

/-- Any other name is boxed in the block if it is boxed around it. -/
theorem isBoxed_outer {params : List (Param ι)} {b : Block ι} {n : String}
    (scope : List (String × Bool)) (hparams : n ∉ Param.names params) (hb : n ∉ b.declared) :
    isBoxed (inner scope params b) n = isBoxed scope n := by
  rw [inner, isBoxed_extend, isBoxed_extend, if_neg hb, if_neg hparams]

/-! ## The statements at the head of a block -/

/-- A parameter's box is created by an assignment. -/
theorem head?_of_mem {params : List (Param ι)} {n : String} (b : Block ι)
    (h : n ∈ Param.names params) :
    ∃ i, head? params b n = some (.assign i n (Hook.createBox.call i [.variable i n])) := by
  obtain ⟨q, hq, hname⟩ := List.mem_map.mp h
  cases hfind : params.find? (·.name = n) with
  | some p =>
      refine ⟨p.info, ?_⟩
      simp only [head?, hfind]
  | none =>
      have hnone := List.find?_eq_none.mp hfind q hq
      exact absurd (by simpa using hname) hnone

/-- The box of a variable that is no parameter is created by a declaration. -/
theorem head?_of_declared {params : List (Param ι)} {b : Block ι} {n : String}
    (hparams : n ∉ Param.names params) (hb : n ∈ b.declared) :
    ∃ i, head? params b n = some (.declare i n (Hook.createUndefinedBox.call i [.name i n])) := by
  have hfind : params.find? (·.name = n) = none := by
    rw [List.find?_eq_none]
    intro p hp hname
    exact hparams (List.mem_map.mpr ⟨p, hp, by simpa using hname⟩)
  obtain ⟨s, hs, hdeclared⟩ := Block.mem_declared.mp hb
  cases hstmt : b.find? (·.declared? = some n) with
  | some t =>
      refine ⟨t.info, ?_⟩
      simp only [head?, hfind, hstmt, Option.map_some]
  | none =>
      have hnone := List.find?_eq_none.mp hstmt s hs
      exact absurd (by simpa using hdeclared) hnone

/-- Every statement at the head of a block creates the box of one of its boxed names. -/
theorem mem_heads {params : List (Param ι)} {b : Block ι} {s : Stmt ι}
    (h : s ∈ heads params b) :
    ∃ i n, n ∈ boxedNames params b ∧
      (n ∈ Param.names params ∧ s = .assign i n (Hook.createBox.call i [.variable i n]) ∨
        n ∉ Param.names params ∧ n ∈ b.declared ∧
          s = .declare i n (Hook.createUndefinedBox.call i [.name i n])) := by
  obtain ⟨n, hn, hs⟩ := List.mem_filterMap.mp h
  by_cases hparams : n ∈ Param.names params
  · obtain ⟨i, hi⟩ := head?_of_mem b hparams
    rw [hi] at hs
    exact ⟨i, n, hn, Or.inl ⟨hparams, (Option.some.inj hs).symm⟩⟩
  · have hb : n ∈ b.declared := (mem_boxedNames.mp hn).1.resolve_left hparams
    obtain ⟨i, hi⟩ := head?_of_declared hparams hb
    rw [hi] at hs
    exact ⟨i, n, hn, Or.inr ⟨hparams, hb, (Option.some.inj hs).symm⟩⟩

/-- The heads declare the boxed names that are no parameters. -/
theorem mem_declared_heads {params : List (Param ι)} {b : Block ι} {n : String} :
    n ∈ Block.declared (heads params b) ↔ n ∈ boxedNames params b ∧ n ∉ Param.names params := by
  rw [Block.mem_declared]
  constructor
  · rintro ⟨s, hs, hn⟩
    obtain ⟨i, m, hm, ⟨_, rfl⟩ | ⟨hparams, _, rfl⟩⟩ := mem_heads hs
    · exact absurd hn (by simp [Stmt.declared?])
    · cases hn
      exact ⟨hm, hparams⟩
  · rintro ⟨hn, hparams⟩
    obtain ⟨i, hi⟩ := head?_of_declared hparams ((mem_boxedNames.mp hn).1.resolve_left hparams)
    exact ⟨_, List.mem_filterMap.mpr ⟨n, hn, hi⟩, rfl⟩

/-! ## Bound names -/

/-- A declaration stays one exactly if its name is not boxed. -/
theorem declared?_stmt (scope : List (String × Bool)) (s : Stmt ι) (n : String) :
    (mapper.stmt scope s).declared? = some n ↔
      s.declared? = some n ∧ isBoxed scope n = false := by
  cases s with
  | declare i m value =>
      rw [Mapper.stmt_declare, mapper_onStmt, access]
      cases hm : isBoxed scope m with
      | true =>
          simp only [if_true, Stmt.declared?, Option.some.injEq, false_iff, reduceCtorEq]
          rintro ⟨rfl, hn⟩
          exact absurd (hm.symm.trans hn) (by simp)
      | false =>
          simp only [Bool.false_eq_true, if_false, Stmt.declared?, Option.some.injEq, iff_self_and]
          rintro rfl
          exact hm
  | assign i m value =>
      rw [Mapper.stmt_assign, mapper_onStmt, access]
      split <;> simp [Stmt.declared?]
  | importPackage | assignMember | ret | branch | expr =>
      simp [Mapper.stmt, access, Stmt.declared?]

/-- With its parameters, a body binds the same names before and after boxing. -/
theorem mem_bound_body (scope : List (String × Bool)) (params : List (Param ι)) (b : Block ι)
    (n : String) :
    n ∈ Block.declared (mapper.body scope params b) ∨ n ∈ Param.names params ↔
      n ∈ b.declared ∨ n ∈ Param.names params := by
  have hstmts : n ∈ Block.declared (mapper.stmts (inner scope params b) b) ↔
      n ∈ b.declared ∧ isBoxed (inner scope params b) n = false := by
    rw [Block.mem_declared, Mapper.stmts_eq_map, Block.mem_declared]
    constructor
    · rintro ⟨_, ht, hn⟩
      obtain ⟨s, hs, rfl⟩ := List.mem_map.mp ht
      obtain ⟨hdeclared, hboxed⟩ := (declared?_stmt _ s n).mp hn
      exact ⟨⟨s, hs, hdeclared⟩, hboxed⟩
    · rintro ⟨⟨s, hs, hdeclared⟩, hboxed⟩
      exact ⟨_, List.mem_map_of_mem hs, (declared?_stmt _ s n).mpr ⟨hdeclared, hboxed⟩⟩
  rw [body_eq, Block.declared_append, List.mem_append, mem_declared_heads, hstmts]
  by_cases hparams : n ∈ Param.names params
  · simp [hparams]
  · simp only [hparams, not_false_eq_true, and_true, or_false]
    constructor
    · rintro (h | h)
      · exact (mem_boxedNames.mp h).1.resolve_left hparams
      · exact h.1
    · intro h
      -- a declared name is boxed by a head or keeps its declaration
      cases hbox : isBoxed (inner scope params b) n with
      | true =>
          rw [isBoxed_inner scope (Or.inr h)] at hbox
          exact Or.inl (mem_boxedNames.mpr ⟨Or.inr h, hbox⟩)
      | false => exact Or.inr ⟨h, rfl⟩

/-- Below the names that a block binds, the statements at its head use no name. -/
theorem free_heads {params : List (Param ι)} {b : Block ι} {bound : List String}
    (h : ∀ n, n ∈ b.declared ∨ n ∈ Param.names params → n ∈ bound) :
    freeNameCollector.stmts bound (heads params b) = [] := by
  rw [Collector.stmts_eq_flatMap, List.flatMap_eq_nil_iff]
  intro s hs
  obtain ⟨i, n, hn, hcases⟩ := mem_heads hs
  have hbound : n ∈ bound := h n (mem_boxedNames.mp hn).1.symm
  rcases hcases with ⟨_, rfl⟩ | ⟨_, _, rfl⟩
  · simp [Collector.stmt, Collector.exprs, Collector.expr, hbound]
  · simp [Collector.stmt, Collector.exprs, Collector.expr]

/-- Inside a boxed body, what it and its parameters bind is bound. -/
theorem mem_bound_of_binds (scope : List (String × Bool)) (params : List (Param ι)) (b : Block ι)
    (bound : List String) (n : String) (h : n ∈ b.declared ∨ n ∈ Param.names params) :
    n ∈ Block.declared (mapper.body scope params b) ++ (Param.names params ++ bound) := by
  have hbound := (mem_bound_body scope params b n).mpr h
  rw [← List.append_assoc]
  exact List.mem_append_left _ (List.mem_append.mpr hbound)

/-- The free names of a boxed body are those of its statements: the heads add none. -/
theorem free_body (scope : List (String × Bool)) (params : List (Param ι)) (b : Block ι)
    (bound : List String) :
    freeNameCollector.stmts
        (Block.declared (mapper.body scope params b) ++ (Param.names params ++ bound))
        (mapper.body scope params b) =
      freeNameCollector.stmts
        (Block.declared (mapper.body scope params b) ++ (Param.names params ++ bound))
        (mapper.stmts (inner scope params b) b) := by
  conv_lhs => rw [body_eq, Collector.stmts_append]
  rw [← body_eq, free_heads (mem_bound_of_binds scope params b bound), List.nil_append]

/-- The names bound inside a body are the same before and after boxing if those around it are. -/
theorem mem_bound_inside (scope : List (String × Bool)) (params : List (Param ι)) (b : Block ι)
    {bound bound' : List String} (h : ∀ n, n ∈ bound' ↔ n ∈ bound) (n : String) :
    n ∈ Block.declared (mapper.body scope params b) ++ (Param.names params ++ bound') ↔
      n ∈ b.declared ++ (Param.names params ++ bound) := by
  rw [← List.append_assoc, ← List.append_assoc, List.mem_append, List.mem_append,
    List.mem_append, List.mem_append, mem_bound_body, h]

/-- `free_body` for a block without parameters. -/
theorem free_block (scope : List (String × Bool)) (b : Block ι) (bound : List String) :
    freeNameCollector.stmts (Block.declared (mapper.block scope b) ++ bound)
        (mapper.block scope b) =
      freeNameCollector.stmts (Block.declared (mapper.block scope b) ++ bound)
        (mapper.stmts (inner scope [] b) b) :=
  free_body scope [] b bound

/-- `mem_bound_inside` for a block without parameters. -/
theorem mem_bound_inside_block (scope : List (String × Bool)) (b : Block ι)
    {bound bound' : List String} (h : ∀ n, n ∈ bound' ↔ n ∈ bound) (n : String) :
    n ∈ Block.declared (mapper.block scope b) ++ bound' ↔ n ∈ b.declared ++ bound :=
  mem_bound_inside scope [] b h n

/-- Boxing keeps the free names of code, in order and with repeats. A statement stands in a block
that binds what it declares. -/
theorem relates_free : (mapper : Mapper (List (String × Bool)) ι).Relates freeNameCollector
    freeNameCollector
    (fun bound _ bound' n => (∀ m, m ∈ bound' ↔ m ∈ bound) ∧ ∀ m, n.declared? = some m → m ∈ bound)
    (fun before after => after = before) where
  nil := rfl
  append hfirst hsecond := by rw [hfirst, hsecond]
  child := fun ⟨h, _⟩ hblock _ hc => ⟨h, by simp [Node.declared?_child hblock hc]⟩
  function := by
    rintro bound scope bound' i n params b ⟨h, -⟩ hstmts
    have hbody := hstmts _ fun st hst => ⟨mem_bound_inside scope params b h,
      fun m hm => List.mem_append_left _ (Block.mem_declared.mpr ⟨st, hst, hm⟩)⟩
    rw [mapper_expr, Mapper.rebuild_functionLit]
    simp only [read, Collector.expr, free_onExpr, free_onBlock, free_ofFunction, free_ofBlock,
      List.nil_append, free_body]
    exact hbody
  block := by
    rintro bound scope bound' b ⟨h, -⟩ hstmts
    have hblock := hstmts _ fun st hst => ⟨mem_bound_inside_block scope b h,
      fun m hm => List.mem_append_left _ (Block.mem_declared.mpr ⟨st, hst, hm⟩)⟩
    simp only [Collector.body, free_onBlock, free_ofBlock, List.nil_append, free_block]
    exact hblock
  expr := by
    rintro bound scope bound' e ⟨h, -⟩ hkind hbelow
    cases e with
    | «variable» i n =>
        rw [mapper_expr, Mapper.rebuild, read]
        split <;> simp [Collector.expr, Collector.exprs, h]
    | functionLit => exact absurd rfl hkind
    | _ =>
        rw [Collector.expr_eq_below, Collector.expr_eq_below]
        exact hbelow
  callee _ := rfl
  stmt := by
    rintro bound scope bound' st ⟨h, hdeclared⟩ hbelow
    cases st with
    | declare i n value =>
        have hn : n ∈ bound' := (h n).mpr (hdeclared n rfl)
        rw [Mapper.rebuildStmt, Collector.below_declare, Collector.below_declare] at hbelow
        rw [Mapper.stmt_declare, mapper_onStmt, access]
        split <;> simp [Collector.stmt, Collector.exprs, hbelow, hn]
    | assign i n value =>
        rw [Mapper.rebuildStmt, Collector.below_assign, Collector.below_assign] at hbelow
        rw [Mapper.stmt_assign, mapper_onStmt, access]
        split <;> simp [Collector.stmt, Collector.exprs, hbelow, h]
    | _ =>
        rw [Collector.stmt_eq_below, Collector.stmt_eq_below, free_afterStmt, free_afterStmt,
          List.append_nil, List.append_nil]
        exact hbelow
  method _ := rfl

end BoxedName

section

open BoxedName (mapper inner)

/-- Boxing keeps the free names of statements that declare only bound names. -/
theorem free_boxed_stmts (scope : List (String × Bool)) {bound bound' : List String}
    (h : ∀ n, n ∈ bound' ↔ n ∈ bound) (ss : List (Stmt ι))
    (hdeclared : ∀ n ∈ Block.declared ss, n ∈ bound) :
    freeNameCollector.stmts bound' (mapper.stmts scope ss) = freeNameCollector.stmts bound ss :=
  BoxedName.relates_free.stmts_of_fits ss fun st hst =>
    ⟨h, fun n hn => hdeclared n (Block.mem_declared.mpr ⟨st, hst, hn⟩)⟩

/-- Boxing keeps the free names of a function. -/
theorem freeNames_boxed (scope : List (String × Bool)) (params : List (Param ι)) (b : Block ι) :
    freeNames params (mapper.body scope params b) = freeNames params b := by
  have hheads := BoxedName.free_body scope params b []
  have hnone : ∀ n : String, n ∈ [] ↔ n ∈ [] := fun _ => Iff.rfl
  have hstmts := free_boxed_stmts (inner scope params b)
    (BoxedName.mem_bound_inside scope params b hnone) b (fun n hn => List.mem_append_left _ hn)
  rw [List.append_nil] at hheads hstmts
  simp [freeNames, Collector.block, hheads, hstmts]

/-- Boxing keeps the free names of a block. -/
theorem free_boxed_block (scope : List (String × Bool)) {bound bound' : List String}
    (h : ∀ n, n ∈ bound' ↔ n ∈ bound) (b : Block ι) :
    freeNameCollector.block bound' (mapper.block scope b) = freeNameCollector.block bound b :=
  BoxedName.relates_free.block_of_fits ⟨h, by simp [Node.declared?]⟩

end

end Lowering
