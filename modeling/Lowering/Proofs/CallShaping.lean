import Lowering.Proofs.BoxedAccesses
import Lowering.Proofs.Commuting

/-!
# Stages that only shape calls

The stages of member access and of function calls give calls another shape. They neither touch names
nor change the order in which names are used, so a block looks the same as before to the stages that
resolve names (`Block.SameNames`). Those in turn leave the shaped nodes alone. So each of the two
can run before or after each of the three stages of names, and the two can change places. Main
statement: `shaping_commutes`.
-/

namespace Lowering

variable {σ ι α : Type}

/-! ## What the stages of names look at -/

/-- Two blocks look the same to stages that resolve names: they declare the same names, with the
same infos where a name is declared first, and use names in the same order. -/
structure Block.SameNames (b c : Block ι) : Prop where
  declared : b.declared = c.declared
  infos : ∀ n, (b.find? (·.declared? = some n)).map Stmt.info =
    (c.find? (·.declared? = some n)).map Stmt.info
  accesses : b.accesses = c.accesses
  free : ∀ bound, freeNameCollector.stmts bound b = freeNameCollector.stmts bound c

/-- Calls, member accesses and assignments to members contribute nothing of their own. -/
structure Collector.SkipsCalls (C : Collector σ ι α) : Prop where
  unit : ∀ scope i, C.onExpr scope (.unit i) = []
  name : ∀ scope i n, C.onExpr scope (.name i n) = []
  member : ∀ scope i object m, C.onExpr scope (.member i object m) = []
  call : ∀ scope i callee inputs, C.onExpr scope (.call i callee inputs) = []
  exprStmt : ∀ scope e, C.onStmt scope (.expr e) = [] ∧ C.afterStmt scope (.expr e) = []
  assignMember : ∀ scope i object m value, C.onStmt scope (.assignMember i object m value) = [] ∧
    C.afterStmt scope (.assignMember i object m value) = []

/-- A call of a hook contributes what its inputs contribute. -/
theorem Collector.SkipsCalls.expr_hook_call {C : Collector σ ι α} (h : C.SkipsCalls) (scope : σ)
    (hook : Hook) (i : ι) (inputs : List (Expr ι)) :
    C.expr scope (hook.call i inputs) = C.exprs scope inputs := by
  simp [Hook.call, Expr.callMethod, Collector.expr, h.call, h.member, h.unit]

/-- Calls access no names by themselves. -/
theorem Access.collector_skipsCalls : (collector : Collector Viewpoint ι Access).SkipsCalls where
  unit _ _ := rfl
  name _ _ _ := rfl
  member _ _ _ _ := rfl
  call _ _ _ _ := rfl
  exprStmt _ _ := ⟨rfl, rfl⟩
  assignMember _ _ _ _ _ := ⟨rfl, rfl⟩

/-- Calls use no names by themselves. -/
theorem freeNameCollector_skipsCalls :
    (freeNameCollector : Collector (List String) ι String).SkipsCalls where
  unit _ _ := rfl
  name _ _ _ := rfl
  member _ _ _ _ := rfl
  call _ _ _ _ := rfl
  exprStmt _ _ := ⟨rfl, rfl⟩
  assignMember _ _ _ _ _ := ⟨rfl, rfl⟩

/-! ## Shaping mappers -/

/-- The rules of the mapper give calls another shape: they keep what is found by a collector to
which calls contribute nothing, and leave alone names, functions and what else binds or uses
names. -/
structure Mapper.ShapesCalls (M : Mapper Unit ι) : Prop extends PassesCalls M where
  noHeads : ∀ params b, M.heads params b = []
  leavesVariables : M.Leaves .variable
  leavesFunctions : M.Leaves .functionLit
  onStmt : ∀ s : Stmt ι, s.setsVariable = true → M.onStmt () s = s
  info : ∀ s, (M.stmt () s).info = s.info
  declared : ∀ s, (M.stmt () s).declared? = s.declared?
  collectStmt : ∀ {τ α : Type} {C : Collector τ ι α}, C.SkipsCalls → ∀ scope s,
    C.stmt scope (M.onStmt () s) = C.stmt scope s
  collectExpr : ∀ {τ α : Type} {C : Collector τ ι α}, C.SkipsCalls → ∀ scope e,
    C.expr scope (M.expr () e) = C.expr scope (M.rebuild () e)

namespace Mapper.ShapesCalls

variable {M : Mapper Unit ι}

/-- Variables stay as they are. -/
theorem expr_variable (h : M.ShapesCalls) (i : ι) (n : String) :
    M.expr () (.variable i n) = .variable i n :=
  h.leavesVariables () (.variable i n) rfl

/-- A function is changed in its body only. -/
theorem expr_functionLit (h : M.ShapesCalls) (i : ι) (n : Option String) (params : List (Param ι))
    (b : Block ι) :
    M.expr () (.functionLit i n params b) = .functionLit i n params (M.stmts () b) := by
  rw [h.leavesFunctions () _ rfl, rebuild_functionLit, body, h.noHeads, List.nil_append]

/-- A statement that sets a variable is changed in its parts only. -/
theorem stmt_eq_rebuildStmt (h : M.ShapesCalls) {s : Stmt ι} (hs : s.setsVariable = true) :
    M.stmt () s = M.rebuildStmt () s := by
  rw [Mapper.stmt_eq, h.onStmt _ ((M.setsVariable_rebuildStmt () s).trans hs)]

/-- A block declares the same names as before. -/
theorem declared_stmts (h : M.ShapesCalls) (b : Block ι) :
    Block.declared (M.stmts () b) = Block.declared b :=
  Mapper.declared_stmts () b fun s _ => h.declared s

/-- All accesses to names are kept, in their order. -/
theorem carries_accesses (h : M.ShapesCalls) : M.Carries Access.collector Access.collector
    (fun v _ w => w = v) (fun before after => after = before) where
  nil := rfl
  append hfirst hsecond := by rw [hfirst, hsecond]
  ofFunction hv params b := by rw [hv]; rfl
  ofBlock hv params b := by
    rw [hv, h.noHeads, List.nil_append, Access.collector_ofBlock, h.declared_stmts]
    rfl
  heads _ params b := by rw [h.noHeads]; rfl
  onBlock _ _ _ := rfl
  onStmt _ _ := rfl
  afterStmt hv s := by rw [hv]; cases s <;> rfl
  onExpr hv e := by rw [hv]; cases e <;> rfl
  onMethod _ _ := rfl
  stmt _ s hbelow := by rw [Mapper.stmt_eq, h.collectStmt Access.collector_skipsCalls, hbelow]
  expr _ e hbelow := by rw [h.collectExpr Access.collector_skipsCalls, hbelow]

/-- All free names are kept, in their order. -/
theorem carries_free (h : M.ShapesCalls) : M.Carries freeNameCollector freeNameCollector
    (fun bound _ bound' => bound' = bound) (fun before after => after = before) where
  nil := rfl
  append hfirst hsecond := by rw [hfirst, hsecond]
  ofFunction hbound params b := by rw [hbound]; rfl
  ofBlock hbound params b := by
    rw [hbound, h.noHeads, List.nil_append, free_ofBlock, h.declared_stmts]
    rfl
  heads _ params b := by rw [h.noHeads]; rfl
  onBlock _ _ _ := rfl
  onStmt hbound s := by rw [hbound]; cases s <;> rfl
  afterStmt _ _ := rfl
  onExpr hbound e := by rw [hbound]; cases e <;> rfl
  onMethod _ _ := rfl
  stmt _ s hbelow := by rw [Mapper.stmt_eq, h.collectStmt freeNameCollector_skipsCalls, hbelow]
  expr _ e hbelow := by rw [h.collectExpr freeNameCollector_skipsCalls, hbelow]

/-- A block with shaped calls looks the same to stages that resolve names. -/
theorem sameNames (h : M.ShapesCalls) (b : Block ι) : Block.SameNames (M.stmts () b) b where
  declared := h.declared_stmts b
  infos n := by
    rw [M.stmts_eq_map, List.find?_map, Option.map_map]
    simp only [Function.comp_def, h.declared, h.info]
  accesses := h.carries_accesses.stmts rfl b
  free _ := h.carries_free.stmts rfl b

end Mapper.ShapesCalls

/-! ## Mappers that resolve names -/

/-- The rules of the mapper apply to variables, functions and statements that set variables, and
look at no more of a block than how it uses names. There they commute with all that shapes calls. -/
structure Mapper.ResolvesNames (N : Mapper σ ι) : Prop extends PassesCalls N where
  leaves : ∀ kind, kind ≠ .variable → kind ≠ .functionLit → N.Leaves kind
  onStmt : ∀ scope (s : Stmt ι), s.setsVariable = false → N.onStmt scope s = s
  ofFunction : ∀ scope params {b c : Block ι}, Block.SameNames b c →
    N.ofFunction scope params b = N.ofFunction scope params c
  ofBlock : ∀ scope {b c : Block ι}, Block.SameNames b c → N.ofBlock scope b = N.ofBlock scope c
  heads : ∀ params {b c : Block ι}, Block.SameNames b c → N.heads params b = N.heads params c
  fixesHeads : ∀ {M : Mapper Unit ι}, M.ShapesCalls → ∀ params b,
    M.stmts () (N.heads params b) = N.heads params b
  commutesVariable : ∀ {M : Mapper Unit ι}, M.ShapesCalls → ∀ i n, M.CommutesAt N (.variable i n)
  commutesFunction : ∀ {M : Mapper Unit ι}, M.ShapesCalls → ∀ i n params b,
    M.CommutesAt N (.functionLit i n params b)
  commutesStmt : ∀ {M : Mapper Unit ι}, M.ShapesCalls → ∀ s : Stmt ι, s.setsVariable = true →
    M.CommutesAtStmt N s

namespace GlobalName

/-- Resolving global names leaves method calls and expression statements alone. -/
theorem mapper_passesCalls : (mapper : Mapper (List String) ι).PassesCalls where
  callees := mapper_keepsCallees
  unit _ _ := rfl
  name _ _ _ := rfl
  methodCall _ _ _ _ _ _ := rfl
  exprStmt _ _ := rfl

/-- A variable can be resolved before or after calls are shaped. -/
theorem commutesAt_variable {M : Mapper Unit ι} (hM : M.ShapesCalls) (i : ι) (n : String) :
    M.CommutesAt mapper (.variable i n) := by
  intro bound _
  rw [hM.expr_variable]
  show mapper.expr bound (.variable i n) = M.expr () (read bound (.variable i n))
  rw [mapper_expr, Mapper.rebuild, read]
  split
  · rw [hM.expr_variable]
  · rw [hM.expr_hook_call, Mapper.exprs_cons, hM.name]
    rfl

/-- A statement that sets a variable can be resolved before or after calls are shaped. -/
theorem commutesAtStmt {M : Mapper Unit ι} (hM : M.ShapesCalls) (s : Stmt ι)
    (hs : s.setsVariable = true) : M.CommutesAtStmt mapper s := by
  intro bound hbelow
  rw [hM.stmt_eq_rebuildStmt hs, mapper.stmt_eq, hbelow, mapper.stmt_eq, mapper_onStmt,
    mapper_onStmt]
  cases s with
  | declare i n value | assign i n value =>
      simp only [Mapper.rebuildStmt, access]
      split
      · rw [hM.stmt_eq_rebuildStmt rfl, Mapper.rebuildStmt]
      · rw [hM.stmt_expr, hM.expr_hook_call, Mapper.exprs_cons, Mapper.exprs_cons, hM.name]
        rfl
  | _ => cases hs

/-- The stage of global names is one that resolves names. -/
theorem mapper_resolvesNames : (mapper : Mapper (List String) ι).ResolvesNames where
  toPassesCalls := mapper_passesCalls
  leaves kind hvariable _ bound e he := by
    cases e with
    | «variable» => exact absurd he.symm hvariable
    | _ => rfl
  onStmt bound s hs := by
    cases s with
    | declare | assign => cases hs
    | _ => rfl
  ofFunction _ _ _ _ _ := rfl
  ofBlock bound _ _ h := congrArg (· ++ bound) h.declared
  heads _ _ _ _ := rfl
  fixesHeads _ _ _ := rfl
  commutesVariable := commutesAt_variable
  commutesFunction hM i n params b := .of_leaves hM.leavesFunctions (fun _ e he => by
    cases e with
    | functionLit => rfl
    | _ => cases he)
  commutesStmt := commutesAtStmt

end GlobalName

namespace BoxedName

/-- Boxing leaves method calls and expression statements alone. -/
theorem mapper_passesCalls : (mapper : Mapper (List (String × Bool)) ι).PassesCalls where
  callees := mapper_keepsCallees
  unit _ _ := rfl
  name _ _ _ := rfl
  methodCall _ _ _ _ _ _ := rfl
  exprStmt _ _ := rfl

/-- Which names are boxed depends only on how a block uses names. -/
theorem boxedNames_congr (params : List (Param ι)) {b c : Block ι} (h : Block.SameNames b c) :
    boxedNames params b = boxedNames params c := by
  simp only [boxedNames, h.declared, h.accesses]

/-- The head of a name is made from the info of its first parameter or declaration. -/
theorem head?_congr (params : List (Param ι)) {b c : Block ι} (h : Block.SameNames b c)
    (n : String) : head? params b n = head? params c n := by
  have hmap (d : Block ι) : (d.find? (·.declared? = some n)).map (fun s : Stmt ι =>
        Stmt.declare s.info n (Hook.createUndefinedBox.call s.info [.name s.info n])) =
      ((d.find? (·.declared? = some n)).map Stmt.info).map fun i =>
        Stmt.declare i n (Hook.createUndefinedBox.call i [.name i n]) := by
    rw [Option.map_map]
    rfl
  rw [head?, head?, hmap, hmap, h.infos]

/-- So do the statements that create the boxes. -/
theorem heads_congr (params : List (Param ι)) {b c : Block ι} (h : Block.SameNames b c) :
    heads params b = heads params c := by
  rw [heads, heads, boxedNames_congr params h]
  exact List.filterMap_congr fun n _ => head?_congr params h n

/-- And so does the scope inside of the block. -/
theorem extend_congr (names : List String) {b c : Block ι} (h : Block.SameNames b c)
    (scope : List (String × Bool)) : extend names b scope = extend names c scope := by
  rw [extend, h.accesses, extend]

/-- The statements that create boxes hold nothing but calls of hooks, names and variables. -/
theorem shaped_heads {M : Mapper Unit ι} (hM : M.ShapesCalls) (params : List (Param ι))
    (b : Block ι) : M.stmts () (heads params b) = heads params b := by
  have hshaped : ∀ s ∈ heads params b, M.stmt () s = s := by
    intro s hs
    obtain ⟨i, n, -, ⟨-, rfl⟩ | ⟨-, -, rfl⟩⟩ := mem_heads hs
    · rw [hM.stmt_eq_rebuildStmt rfl, Mapper.rebuildStmt, hM.expr_hook_call, Mapper.exprs_cons,
        hM.expr_variable]
      rfl
    · rw [hM.stmt_eq_rebuildStmt rfl, Mapper.rebuildStmt, hM.expr_hook_call, Mapper.exprs_cons,
        hM.name]
      rfl
  rw [M.stmts_eq_map]
  exact (List.map_congr_left hshaped).trans (List.map_id _)

/-- A variable can be boxed before or after calls are shaped. -/
theorem commutesAt_variable {M : Mapper Unit ι} (hM : M.ShapesCalls) (i : ι) (n : String) :
    M.CommutesAt mapper (.variable i n) := by
  intro scope _
  rw [hM.expr_variable]
  show mapper.expr scope (.variable i n) = M.expr () (read scope (.variable i n))
  rw [mapper_expr, Mapper.rebuild, read]
  split
  · rw [hM.expr_box_call (hM.expr_variable i n)]
    rfl
  · rw [hM.expr_variable]

/-- A statement that sets a variable can be boxed before or after calls are shaped. -/
theorem commutesAtStmt {M : Mapper Unit ι} (hM : M.ShapesCalls) (s : Stmt ι)
    (hs : s.setsVariable = true) : M.CommutesAtStmt mapper s := by
  intro scope hbelow
  rw [hM.stmt_eq_rebuildStmt hs, mapper.stmt_eq, hbelow, mapper.stmt_eq, mapper_onStmt,
    mapper_onStmt]
  cases s with
  | declare i n value | assign i n value =>
      simp only [Mapper.rebuildStmt, access]
      split
      · rw [hM.stmt_expr, hM.expr_box_call (hM.expr_variable i n), Mapper.exprs_cons]
        rfl
      · rw [hM.stmt_eq_rebuildStmt rfl, Mapper.rebuildStmt]
  | _ => cases hs

/-- Boxing is a stage that resolves names. -/
theorem mapper_resolvesNames : (mapper : Mapper (List (String × Bool)) ι).ResolvesNames where
  toPassesCalls := mapper_passesCalls
  leaves kind hvariable _ scope e he := by
    cases e with
    | «variable» => exact absurd he.symm hvariable
    | _ => rfl
  onStmt scope s hs := by
    cases s with
    | declare | assign => cases hs
    | _ => rfl
  ofFunction scope params _ _ h := extend_congr (Param.names params) h scope
  ofBlock scope b c h := by
    rw [mapper_ofBlock, mapper_ofBlock, h.declared, extend_congr _ h]
  heads params _ _ h := heads_congr params h
  fixesHeads := shaped_heads
  commutesVariable := commutesAt_variable
  commutesFunction hM i n params b := .of_leaves hM.leavesFunctions (fun _ e he => by
    cases e with
    | functionLit => rfl
    | _ => cases he)
  commutesStmt := commutesAtStmt

end BoxedName

namespace Closure

/-- Closure conversion leaves method calls and expression statements alone. -/
theorem mapper_passesCalls : (mapper : Mapper (List String) ι).PassesCalls where
  callees := mapper_keepsCallees
  unit _ _ := rfl
  name _ _ _ := rfl
  methodCall _ _ _ _ _ _ := rfl
  exprStmt _ _ := rfl

/-- What a function captures depends only on how its body uses names. -/
theorem captures_congr (available : List String) (params : List (Param ι)) {b c : Block ι}
    (h : Block.SameNames b c) : captures available params b = captures available params c := by
  simp only [captures, freeNames, Collector.block, free_ofBlock, free_onBlock, h.declared, h.free]

/-- Reads of captures stay. -/
theorem shaped_variables {M : Mapper Unit ι} (hM : M.ShapesCalls) (i : ι) (names : List String) :
    M.exprs () (names.map (Expr.variable i ·)) = names.map (Expr.variable i ·) :=
  M.exprs_variables (hM.expr_variable i) names

/-- Calls in the body of a function can be shaped before or after it is bundled. -/
theorem shaped_bundle {M : Mapper Unit ι} (hM : M.ShapesCalls) (captured : List String) (i : ι)
    (n : Option String) (params : List (Param ι)) (b : Block ι) :
    M.expr () (bundle captured (.functionLit i n params b)) =
      bundle captured (.functionLit i n params (M.stmts () b)) := by
  rw [bundle, bundle]
  split
  · exact hM.expr_functionLit i n params b
  · rw [hM.expr_hook_call, Mapper.exprs_cons, hM.expr_functionLit, shaped_variables hM]

/-- A function can be converted before or after calls are shaped. -/
theorem commutesAt_functionLit {M : Mapper Unit ι} (hM : M.ShapesCalls) (i : ι)
    (n : Option String) (params : List (Param ι)) (b : Block ι) :
    M.CommutesAt mapper (.functionLit i n params b) := by
  intro available hbelow
  have hrebuilt : M.rebuild () (.functionLit i n params b) =
      .functionLit i n params (M.stmts () b) :=
    (hM.leavesFunctions () _ rfl).symm.trans (hM.expr_functionLit i n params b)
  have hcaptures : captures available params (M.stmts () b) = captures available params b :=
    captures_congr available params (hM.sameNames b)
  calc
    mapper.expr available (M.expr () (.functionLit i n params b))
        = bundle (captures available params (M.stmts () b))
            (mapper.rebuild available (M.rebuild () (.functionLit i n params b))) := by
          rw [hM.expr_functionLit, hrebuilt]
          rfl
    _ = bundle (captures available params b)
          (M.rebuild () (mapper.rebuild available (.functionLit i n params b))) := by
          rw [hcaptures, hbelow]
    _ = M.expr () (mapper.expr available (.functionLit i n params b)) := by
          rw [expr_functionLit, shaped_bundle hM, Mapper.rebuild_functionLit,
            Mapper.rebuild_functionLit, Mapper.body, hM.noHeads, List.nil_append]

/-- Closure conversion is a stage that resolves names. -/
theorem mapper_resolvesNames : (mapper : Mapper (List String) ι).ResolvesNames where
  toPassesCalls := mapper_passesCalls
  leaves kind _ hfunction available e he := by
    cases e with
    | functionLit => exact absurd he.symm hfunction
    | _ => rfl
  onStmt _ _ _ := rfl
  ofFunction available params _ _ h :=
    congrArg (· ++ Param.names params) (captures_congr available params h)
  ofBlock available _ _ h := congrArg (· ++ available) h.declared
  heads _ _ _ _ := rfl
  fixesHeads _ _ _ := rfl
  commutesVariable hM i n := .of_leaves hM.leavesVariables (fun _ e he => by
    cases e with
    | «variable» => rfl
    | _ => cases he)
  commutesFunction := commutesAt_functionLit
  commutesStmt hM s hs := by
    intro available hbelow
    rw [hM.stmt_eq_rebuildStmt hs, mapper.stmt_eq, mapper_onStmt, hbelow, mapper.stmt_eq,
      mapper_onStmt, hM.stmt_eq_rebuildStmt ((mapper.setsVariable_rebuildStmt _ s).trans hs)]

end Closure

/-! ## Member access -/

namespace Property

/-- Lowering member access leaves method calls and expression statements alone. -/
theorem mapper_passesCalls : (mapper : Mapper Unit ι).PassesCalls where
  callees := mapper_keepsCallees
  unit _ _ := rfl
  name _ _ _ := rfl
  methodCall _ _ _ _ _ _ := rfl
  exprStmt _ _ := rfl

/-- Only member accesses are changed among the expressions. -/
theorem mapper_leaves {kind : ExprKind} (h : kind ≠ .member) :
    (mapper : Mapper Unit ι).Leaves kind := by
  intro _ e he
  cases e with
  | member => exact absurd he.symm h
  | _ => rfl

/-- A member access becomes a call that gets the property. -/
theorem expr_member (i : ι) (object : Expr ι) (m : String) :
    mapper.expr () (.member i object m) =
      Hook.propertyGet.call i [mapper.expr () object, .name i m] := rfl

/-- An assignment to a member becomes a call that sets the property. -/
theorem stmt_assignMember (i : ι) (object : Expr ι) (m : String) (value : Expr ι) :
    mapper.stmt () (.assignMember i object m value) =
      .expr (Hook.propertySet.call i
        [mapper.expr () object, .name i m, mapper.expr () value]) := rfl

/-- The stage of member access only shapes calls. -/
theorem mapper_shapesCalls : (mapper : Mapper Unit ι).ShapesCalls where
  toPassesCalls := mapper_passesCalls
  noHeads _ _ := rfl
  leavesVariables := mapper_leaves nofun
  leavesFunctions := mapper_leaves nofun
  onStmt s hs := by
    cases s with
    | declare | assign => rfl
    | _ => cases hs
  info s := by
    cases s with
    | expr e => cases e <;> rfl
    | _ => rfl
  declared s := by cases s <;> rfl
  collectStmt hC scope s := by
    show _ = Collector.stmt _ scope s
    cases s with
    | assignMember i object m value =>
        show Collector.stmt _ scope (.expr (Hook.propertySet.call i [object, .name i m, value])) = _
        simp [Collector.stmt, hC.expr_hook_call, Collector.exprs, Collector.expr, hC.name,
          hC.exprStmt, hC.assignMember]
    | _ => rfl
  collectExpr hC scope e := by
    cases e with
    | member i object m =>
        rw [expr_member, Mapper.rebuild_member]
        simp [hC.expr_hook_call, Collector.exprs, Collector.expr, hC.name, hC.member]
    | _ => rfl

/-- A mapper that leaves member accesses and calls alone can come before or after. -/
theorem commutesAt_member {N : Mapper σ ι} (hN : N.PassesCalls) (hleaves : N.Leaves .member)
    (i : ι) (object : Expr ι) (m : String) : mapper.CommutesAt N (.member i object m) := by
  intro scope hbelow
  rw [Mapper.rebuild_member, Mapper.rebuild_member, Mapper.rebuild_member, Mapper.rebuild_member,
    Expr.member.injEq] at hbelow
  rw [expr_member, hN.expr_hook_call, Mapper.exprs_cons, Mapper.exprs_cons, hN.name, hbelow.2.1,
    hleaves scope (.member i object m) rfl, Mapper.rebuild_member, expr_member]
  rfl

/-- The same for assignments to members. -/
theorem commutesAtStmt_assignMember {N : Mapper σ ι} (hN : N.PassesCalls)
    (honStmt : ∀ scope i object m value,
      N.onStmt scope (.assignMember i object m value) = .assignMember i object m value)
    (i : ι) (object : Expr ι) (m : String) (value : Expr ι) :
    mapper.CommutesAtStmt N (.assignMember i object m value) := by
  intro scope hbelow
  simp only [Mapper.rebuildStmt, Stmt.assignMember.injEq, true_and] at hbelow
  rw [stmt_assignMember, hN.stmt_expr, hN.expr_hook_call, Mapper.exprs_cons, Mapper.exprs_cons,
    Mapper.exprs_cons, hN.name, hbelow.1, hbelow.2, Mapper.stmt_assignMember, honStmt,
    stmt_assignMember]
  rfl

end Property

/-! ## Function calls -/

namespace Application

/-- Lowering function calls leaves method calls and expression statements alone. -/
theorem mapper_passesCalls : (mapper : Mapper Unit ι).PassesCalls where
  callees := mapper_keepsCallees
  unit _ _ := rfl
  name _ _ _ := rfl
  methodCall _ _ _ _ _ _ := rfl
  exprStmt _ _ := rfl

/-- Only calls are changed among the expressions. -/
theorem mapper_leaves {kind : ExprKind} (h : kind ≠ .call) :
    (mapper : Mapper Unit ι).Leaves kind := by
  intro _ e he
  cases e with
  | call => exact absurd he.symm h
  | _ => rfl

/-- The stage of function calls only shapes calls. -/
theorem mapper_shapesCalls : (mapper : Mapper Unit ι).ShapesCalls where
  toPassesCalls := mapper_passesCalls
  noHeads _ _ := rfl
  leavesVariables := mapper_leaves nofun
  leavesFunctions := mapper_leaves nofun
  onStmt _ _ := rfl
  info s := by
    cases s with
    | expr e =>
        cases e with
        | call i callee inputs =>
            show (application (mapper.rebuild () (.call i callee inputs))).info = i
            rw [mapper_keepsMembers.rebuild_call, application]
            split <;> rfl
        | _ => rfl
    | _ => rfl
  declared s := by cases s <;> rfl
  collectStmt _ _ _ := rfl
  collectExpr hC scope e := collect_expr (hC.call scope) (hC.expr_hook_call scope) e

/-- A call of a function value gets the function as its first input. -/
theorem expr_call_of_not_member (i : ι) {callee : Expr ι} (h : callee.isMember = false)
    (inputs : List (Expr ι)) :
    mapper.expr () (.call i callee inputs) =
      Hook.callFunction.call i (mapper.expr () callee :: mapper.exprs () inputs) := by
  have hmapped := mapper_keepsCallees.member () callee h
  rw [mapper_expr, Mapper.rebuild_call_of_not_member _ _ _ h, application,
    if_neg (Bool.eq_false_iff.mp hmapped)]

/-- A mapper that leaves calls alone can come before or after. -/
theorem commutesAt_call {N : Mapper σ ι} (hN : N.PassesCalls) (hleaves : N.Leaves .call) (i : ι)
    (callee : Expr ι) (inputs : List (Expr ι)) : mapper.CommutesAt N (.call i callee inputs) := by
  intro scope hbelow
  cases hmember : callee.isMember with
  | true =>
      have hsecond := (N.isMember_rebuild scope callee).trans hmember
      have hmethod (c : Expr ι) (hc : c.isMember = true) (es : List (Expr ι)) :
          mapper.expr () (.call i c es) = mapper.rebuild () (.call i c es) := by
        cases c with
        | member => rfl
        | _ => cases hc
      rw [hmethod callee hmember, hleaves scope _ (mapper.kind_rebuild () _), hbelow,
        hleaves scope _ rfl, Mapper.rebuild_call_of_member _ _ _ hmember, hmethod _ hsecond]
  | false =>
      have hfirst := mapper_keepsCallees.member () callee hmember
      have hsecond := hN.callees.member scope callee hmember
      rw [Mapper.rebuild_call_of_not_member _ _ _ hmember,
        Mapper.rebuild_call_of_not_member _ _ _ hfirst,
        Mapper.rebuild_call_of_not_member _ _ _ hmember,
        Mapper.rebuild_call_of_not_member _ _ _ hsecond, Expr.call.injEq] at hbelow
      rw [expr_call_of_not_member i hmember, hN.expr_hook_call, Mapper.exprs_cons, hbelow.2.1,
        hbelow.2.2, hleaves scope (.call i callee inputs) rfl,
        Mapper.rebuild_call_of_not_member _ _ _ hmember, expr_call_of_not_member i hsecond]

end Application

/-! ## Either order -/

/-- A mapper that shapes calls commutes with one that resolves names if the rules for all other
nodes do. -/
theorem Mapper.ShapesCalls.commutes {M : Mapper Unit ι} {N : Mapper σ ι} (hM : M.ShapesCalls)
    (hN : N.ResolvesNames) (hstmt : ∀ s : Stmt ι, s.setsVariable = false → M.CommutesAtStmt N s)
    (hexpr : ∀ e : Expr ι, e.kind ≠ .variable → e.kind ≠ .functionLit → M.CommutesAt N e) :
    M.Commutes N where
  noHeads := hM.noHeads
  calleesFirst := hM.callees
  calleesSecond := hN.callees
  ofFunction scope params b := hN.ofFunction scope params (hM.sameNames b)
  ofBlock scope b := hN.ofBlock scope (hM.sameNames b)
  heads params b := hN.heads params (hM.sameNames b)
  fixesHeads := hN.fixesHeads hM
  stmt s := by
    cases hs : s.setsVariable with
    | true => exact hN.commutesStmt hM s hs
    | false => exact hstmt s hs
  expr e := by
    cases e with
    | «variable» i n => exact hN.commutesVariable hM i n
    | functionLit i n params b => exact hN.commutesFunction hM i n params b
    | _ => exact hexpr _ nofun nofun

/-- At a statement that neither rule applies to, the mappers commute. -/
theorem Mapper.ResolvesNames.commutesAtStmt {M : Mapper Unit ι} {N : Mapper σ ι}
    (hN : N.ResolvesNames) {s : Stmt ι} (hs : s.setsVariable = false)
    (hfirst : M.stmt () s = M.rebuildStmt () s)
    (hsecond : ∀ scope,
      M.stmt () (N.rebuildStmt scope s) = M.rebuildStmt () (N.rebuildStmt scope s)) :
    M.CommutesAtStmt N s := by
  intro scope hbelow
  have hleft : N.stmt scope (M.rebuildStmt () s) = N.rebuildStmt scope (M.rebuildStmt () s) := by
    rw [Mapper.stmt_eq, hN.onStmt]
    rw [setsVariable_rebuildStmt, setsVariable_rebuildStmt, hs]
  have hright : N.stmt scope s = N.rebuildStmt scope s := by
    rw [Mapper.stmt_eq, hN.onStmt]
    rw [setsVariable_rebuildStmt, hs]
  rw [hfirst, hleft, hbelow, hright, hsecond]

/-- Member access can be lowered before or after names are resolved. -/
theorem Property.commutes {N : Mapper σ ι} (hN : N.ResolvesNames) : mapper.Commutes N := by
  refine mapper_shapesCalls.commutes hN (fun s hs => ?_) (fun e hvariable hfunction => ?_)
  · cases s with
    | declare | assign => cases hs
    | assignMember i object m value =>
        exact commutesAtStmt_assignMember hN.toPassesCalls
          (fun scope _ _ _ _ => hN.onStmt scope _ rfl) i object m value
    | _ => exact hN.commutesAtStmt rfl rfl fun _ => rfl
  · have hleaves := hN.leaves e.kind hvariable hfunction
    cases e with
    | member i object m => exact commutesAt_member hN.toPassesCalls hleaves i object m
    | _ => exact .of_leaves (mapper_leaves nofun) hleaves

/-- Function calls can be lowered before or after names are resolved. -/
theorem Application.commutes {N : Mapper σ ι} (hN : N.ResolvesNames) : mapper.Commutes N := by
  refine mapper_shapesCalls.commutes hN (fun s hs => ?_) (fun e hvariable hfunction => ?_)
  · exact hN.commutesAtStmt hs (Mapper.stmt_eq ..) fun _ => Mapper.stmt_eq ..
  · have hleaves := hN.leaves e.kind hvariable hfunction
    cases e with
    | call i callee inputs => exact commutesAt_call hN.toPassesCalls hleaves i callee inputs
    | _ => exact .of_leaves (mapper_leaves nofun) hleaves

/-- Function calls can be lowered before or after member access. -/
theorem Application.commutes_property : (mapper : Mapper Unit ι).Commutes Property.mapper where
  noHeads _ _ := rfl
  calleesFirst := mapper_keepsCallees
  calleesSecond := Property.mapper_keepsCallees
  ofFunction _ _ _ := rfl
  ofBlock _ _ := rfl
  heads _ _ := rfl
  fixesHeads _ _ := rfl
  stmt s := by
    cases s with
    | assignMember i object m value =>
        exact (Property.commutesAtStmt_assignMember mapper_passesCalls (fun _ _ _ _ _ => rfl)
          i object m value).symm
    | _ => exact fun _ hbelow => hbelow
  expr e := by
    cases e with
    | call i callee inputs =>
        exact commutesAt_call Property.mapper_passesCalls (Property.mapper_leaves nofun)
          i callee inputs
    | member i object m =>
        exact (Property.commutesAt_member mapper_passesCalls (mapper_leaves nofun)
          i object m).symm
    | _ => exact .of_leaves (mapper_leaves nofun) (Property.mapper_leaves nofun)

/-- The stages that shape calls commute with the stages that resolve names: each of them gives the
same program whether it runs just before or just after one of those, and they commute with each
other. -/
theorem shaping_commutes (p : Program ι) :
    Property.run (GlobalName.run p) = GlobalName.run (Property.run p) ∧
      Property.run (BoxedName.run p) = BoxedName.run (Property.run p) ∧
      Property.run (Closure.run p) = Closure.run (Property.run p) ∧
      Application.run (GlobalName.run p) = GlobalName.run (Application.run p) ∧
      Application.run (BoxedName.run p) = BoxedName.run (Application.run p) ∧
      Application.run (Closure.run p) = Closure.run (Application.run p) ∧
      Property.run (Application.run p) = Application.run (Property.run p) := by
  refine ⟨?_, ?_, ?_, ?_, ?_, ?_, ?_⟩ <;> apply congrArg Program.mk
  · exact ((Property.commutes GlobalName.mapper_resolvesNames).stmts [] p.statements).symm
  · exact ((Property.commutes BoxedName.mapper_resolvesNames).block [] p.statements).symm
  · exact ((Property.commutes Closure.mapper_resolvesNames).block [] p.statements).symm
  · exact ((Application.commutes GlobalName.mapper_resolvesNames).stmts [] p.statements).symm
  · exact ((Application.commutes BoxedName.mapper_resolvesNames).block [] p.statements).symm
  · exact ((Application.commutes Closure.mapper_resolvesNames).block [] p.statements).symm
  · exact Application.commutes_property.block () p.statements

end Lowering
