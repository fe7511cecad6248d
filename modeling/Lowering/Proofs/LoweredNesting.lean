import Lowering.Proofs.CoreForm
import Lowering.Proofs.Headroom
import Lowering.Proofs.Json.RoundTrip
import Lowering.Proofs.Statementwise

/-!
# Lowered programs can be read back

Lowering makes trees deeper, and a text that opens too many brackets at once is refused. Each stage
has a headroom: how much deeper a node can become by the stage and those after it. So the brackets
that are open at once become at most about four times as many. Main statement: `lowered_reads_back`.
-/

namespace Lowering

open Json

variable {ι : Type}

/-! ## Headroom of the stages -/

/-- A call of a function value becomes a call of a hook. -/
def Application.headroom : Headroom where
  call := ⟨1, 6⟩

/-- A function literal also gets bundled with its captures. -/
def Closure.headroom : Headroom where
  __ := Application.headroom
  functionLit := ⟨4, 8⟩

/-- A variable also gets used through its box or through the runtime. -/
def BoxedName.headroom : Headroom where
  __ := Closure.headroom
  read := ⟨6, 0⟩
  set := ⟨2, 8⟩
  block := 10

/-- A property also gets used through the runtime. -/
def Property.headroom : Headroom where
  __ := BoxedName.headroom
  member := ⟨1, 6⟩
  assignMember := ⟨2, 7⟩

/-- A class literal also becomes a call of its constructor. -/
def Constructor.headroom : Headroom where
  __ := Property.headroom
  classLit := ⟨21, 0⟩

/-- An import or a named literal also becomes a declaration. -/
def Declaration.headroom : Headroom where
  __ := Constructor.headroom
  importPackage := ⟨9, 0⟩
  namedLiteral := ⟨4, 0⟩

/-! ## What the stages spend -/

/-- Lowering function calls stays within its headroom and leaves none. -/
theorem Application.mapper_spends :
    (Application.mapper : Mapper Unit ι).Spends headroom .none where
  unnamed := mapper_keepsUnnamed
  block_le := Nat.le_refl _
  heads _ _ := Nat.le_refl _
  onExpr _ _ rebuilt := by
    cases rebuilt with
    | call i callee inputs =>
        show Headroom.none.depth (application (.call i callee inputs)) ≤
          if callee.isMember then _ else max 6 (_ + 1)
        rw [application]
        split
        · exact Nat.le_of_eq (Headroom.depth_none _)
        · rw [Headroom.depth_hook_call, Headroom.exprs_cons, Headroom.below_call,
            Headroom.depthCallee_none, Headroom.depth_none]
          omega
    | _ => exact Nat.le_refl _
  onStmt _ _ := Nat.le_refl _

/-- A function bundled with its captures stays within the headroom of the function literal. -/
theorem Closure.depth_bundle (captured : List String) (rebuilt : Expr ι) :
    Application.headroom.depth (bundle captured rebuilt) ≤
      headroom.expr rebuilt (Application.headroom.below rebuilt) := by
  cases rebuilt with
  | functionLit i n params b =>
      have hdepth : ∀ params : List (Param ι),
          Application.headroom.depth (.functionLit i n params b) =
            Application.headroom.below (.functionLit i n params b) := fun _ => Growth.of_empty _
      rw [bundle]
      split
      · rw [hdepth]
        exact Growth.le_of _ _
      · have hvariables : Application.headroom.exprs
            (captured.map (.variable i ·) : List (Expr ι)) ≤ 2 := by
          rw [Headroom.exprs_le_iff]
          intro e he
          obtain ⟨m, _, rfl⟩ := List.mem_map.mp he
          exact Nat.lt_succ_self 1
        have hparams := Param.depth_le_one (captured.map (⟨i, ·⟩) ++ params)
        rw [Headroom.depth_hook_call, Headroom.exprs_cons, hdepth, Headroom.below_functionLit,
          Headroom.below_functionLit]
        show _ ≤ max 8 (_ + 4)
        omega
  | _ => exact Nat.le_refl _

/-- Without captures there is nothing to bundle. -/
theorem Closure.bundle_nil (rebuilt : Expr ι) : bundle [] rebuilt = rebuilt := by
  cases rebuilt <;> rfl

/-- Closure conversion leaves the headroom of lowering function calls. -/
theorem Closure.mapper_spends :
    (Closure.mapper : Mapper (List String) ι).Spends headroom Application.headroom where
  unnamed := mapper_keepsUnnamed
  block_le := Nat.le_refl _
  heads _ _ := Nat.le_refl _
  onExpr scope e rebuilt := by
    have hkept := depth_bundle [] rebuilt
    rw [bundle_nil] at hkept
    cases e with
    | functionLit i n params b => exact depth_bundle _ rebuilt
    | _ => exact hkept
  onStmt _ _ := Nat.le_refl _

/-- The statements that create boxes nest no deeper than a block allows. -/
theorem BoxedName.stmts_heads_le (params : List (Param ι)) (b : Block ι) :
    Closure.headroom.stmts (heads params b) ≤ headroom.block := by
  rw [Headroom.stmts_le_iff]
  intro s hs
  obtain ⟨n, _, hhead⟩ := List.mem_filterMap.mp hs
  rw [head?] at hhead
  split at hhead
  · obtain rfl := Option.some.inj hhead
    exact Nat.lt_succ_self 9
  · obtain ⟨t, _, rfl⟩ := Option.map_eq_some_iff.mp hhead
    exact Nat.lt_succ_self 9

/-- To set a box makes a statement as deep as to set a variable may become. -/
theorem BoxedName.depthStmt_boxOp_call (op : BoxOp) (i : ι) (n : String) (value : Expr ι) :
    Closure.headroom.depthStmt (.expr (op.call i n [value])) =
      headroom.set.of (Closure.headroom.depth value + 3) := by
  show max 4 (max (Closure.headroom.depth value + 1) 0) + 3 + 1 =
    max 8 (Closure.headroom.depth value + 3 + 2)
  omega

/-- Boxing leaves the headroom of closure conversion. -/
theorem BoxedName.mapper_spends :
    (BoxedName.mapper : Mapper (List (String × Bool)) ι).Spends headroom Closure.headroom where
  unnamed := mapper_keepsUnnamed
  block_le := Nat.zero_le _
  heads := stmts_heads_le
  onExpr scope _ rebuilt := by
    cases rebuilt with
    | «variable» i n =>
        show Closure.headroom.depth (read scope (.variable i n)) ≤ 7
        rw [read]
        split
        · exact Nat.le_refl 7
        · exact Nat.le_add_right 1 6
    | _ => exact Nat.le_refl _
  onStmt scope s := by
    cases s with
    | declare i n value =>
        show Closure.headroom.depthStmt (access scope (.declare i n value)) ≤ _
        rw [access]
        split
        · exact Nat.le_of_eq (depthStmt_boxOp_call .define i n value)
        · exact Growth.le_of _ _
    | assign i n value =>
        show Closure.headroom.depthStmt (access scope (.assign i n value)) ≤ _
        rw [access]
        split
        · exact Nat.le_of_eq (depthStmt_boxOp_call .set i n value)
        · exact Growth.le_of _ _
    | _ => exact Nat.le_refl _

/-- Resolving global names leaves the headroom of boxing, which it shares. -/
theorem GlobalName.mapper_spends : (GlobalName.mapper : Mapper (List String) ι).Spends
    BoxedName.headroom BoxedName.headroom where
  unnamed := mapper_keepsUnnamed
  block_le := Nat.le_refl _
  heads _ _ := Nat.zero_le _
  onExpr scope _ rebuilt := by
    cases rebuilt with
    | «variable» i n =>
        show BoxedName.headroom.depth (read scope (.variable i n)) ≤ 7
        rw [read]
        split
        · exact Nat.le_refl 7
        · exact Nat.le_succ 6
    | _ => exact Nat.le_refl _
  onStmt scope s := by
    -- a call that gets a name and a value is no deeper than one that sets a box to the value
    have hcall : ∀ hook i n (value : Expr ι), BoxedName.headroom.depthStmt
        (.expr (Hook.call hook i [.name i n, value])) ≤
          BoxedName.headroom.set.of (BoxedName.headroom.depth value + 3) := by
      intro hook i n value
      show max 3 (max 2 (max (BoxedName.headroom.depth value + 1) 0)) + 3 + 1 ≤
        max 8 (BoxedName.headroom.depth value + 3 + 2)
      omega
    cases s with
    | declare i n value =>
        show BoxedName.headroom.depthStmt (access scope (.declare i n value)) ≤ _
        rw [access]
        split
        · exact Nat.le_refl _
        · exact hcall _ i n value
    | assign i n value =>
        show BoxedName.headroom.depthStmt (access scope (.assign i n value)) ≤ _
        rw [access]
        split
        · exact Nat.le_refl _
        · exact hcall _ i n value
    | _ => exact Nat.le_refl _

/-- Lowering member access leaves the headroom of the stages of names. -/
theorem Property.mapper_spends :
    (Property.mapper : Mapper Unit ι).Spends headroom BoxedName.headroom where
  unnamed := mapper_keepsUnnamed
  block_le := Nat.le_refl _
  heads _ _ := Nat.zero_le _
  onExpr _ _ rebuilt := by
    cases rebuilt with
    | member i object m =>
        show max 3 (max (BoxedName.headroom.depth object + 1) (max 2 0)) + 3 ≤
          max 6 (BoxedName.headroom.depth object + 3 + 1)
        omega
    | _ => exact Nat.le_refl _
  onStmt _ s := by
    cases s with
    | assignMember i object n value =>
        show max 3 (max (BoxedName.headroom.depth object + 1)
            (max 2 (max (BoxedName.headroom.depth value + 1) 0))) + 3 + 1 ≤
          max 7 (max (BoxedName.headroom.depth object) (BoxedName.headroom.depth value) + 3 + 2)
        omega
    | _ => exact Nat.le_refl _

/-- The assignment of a method nests deeper than the method by so much. -/
theorem Constructor.depthStmt_assignMethod (i : ι) (m : Method ι) :
    Property.headroom.depthStmt (assignMethod i m) = Property.headroom.method m + 12 := by
  cases m with
  | mk j n params b =>
      have hblock : 10 ≤ Property.headroom.depthBlock b := Nat.le_max_left 10 _
      have hparams := Param.depth_le_one params
      have hfunction : Property.headroom.depth (methodFunction (.mk j n params b)) =
          Property.headroom.depthBlock b + 7 := by
        show max 8 (max 1 (Property.headroom.depthBlock b) + 3 + 4) = _
        omega
      show max 7 (max 7 (Property.headroom.depth (Hook.createMethod.call j
        [methodFunction (.mk j n params b)])) + 3 + 2) = _
      rw [Headroom.depth_hook_call, Headroom.exprs_cons, hfunction, Headroom.method_mk]
      show max 7 (max 7 (max 3 (max (Property.headroom.depthBlock b + 7 + 1) 0) + 3) + 3 + 2) = _
      omega

/-- The assignments of all methods nest deeper than the methods by so much. -/
theorem Constructor.stmts_assignMethods (i : ι) (methods : List (Method ι)) :
    Property.headroom.stmts (methods.map (assignMethod i)) ≤
      Property.headroom.methods methods + 13 := by
  rw [Headroom.stmts_le_iff]
  intro s hs
  obtain ⟨m, hm, rfl⟩ := List.mem_map.mp hs
  have hle := Headroom.method_le_methods (H := Property.headroom) hm
  rw [depthStmt_assignMethod]
  omega

/-- The stage of classes leaves the headroom of lowering member access. -/
theorem Constructor.mapper_spends :
    (Constructor.mapper : Mapper Unit ι).Spends headroom Property.headroom where
  unnamed := mapper_keepsUnnamed
  block_le := Nat.le_refl _
  heads _ _ := Nat.zero_le _
  onExpr _ _ rebuilt := by
    cases rebuilt with
    | classLit i n methods =>
        have hassign := stmts_assignMethods i methods
        have hbody : Property.headroom.stmts (constructorBody i methods) =
            max 12 (max (Property.headroom.stmts (methods.map (assignMethod i))) 10) := by
          rw [constructorBody, Headroom.stmts_cons, Headroom.stmts_append]
          rfl
        have hconstructor : Property.headroom.depthCallee
            (.functionLit i none [] (constructorBody i methods)) =
              max 8 (max 10 (Property.headroom.stmts (constructorBody i methods)) + 3 + 4) := by
          show max 8 (max 0 (max 10 _) + 3 + 4) = _
          rw [Nat.zero_max]
        have hcall : Property.headroom.depth
            (.call i (.functionLit i none [] (constructorBody i methods)) []) =
              max 6 (Property.headroom.below
                (.call i (.functionLit i none [] (constructorBody i methods)) []) + 1) := rfl
        show Property.headroom.depth (construction (.classLit i n methods)) ≤
          max 0 (Property.headroom.methods methods + 3 + 21)
        rw [construction, hcall, Headroom.below_call, hconstructor, hbody, Headroom.exprs]
        omega
    | _ => exact Nat.le_refl _
  onStmt _ _ := Nat.le_refl _

/-- The stage of declarators leaves the headroom of the stage of classes. -/
theorem Declaration.mapper_spends :
    (Declaration.mapper : Mapper Unit ι).Spends headroom Constructor.headroom where
  unnamed _ _ _ h := h
  block_le := Nat.le_refl _
  heads _ _ := Nat.zero_le _
  onExpr _ _ _ := Nat.le_refl _
  onStmt _ s := by
    -- a literal nests deep enough for the least depth of a declaration not to matter
    have hdeclare : ∀ i n (e : Expr ι), 3 ≤ Constructor.headroom.depth e →
        Constructor.headroom.depthStmt (.declare i n e) ≤
          headroom.namedLiteral.of (Constructor.headroom.belowStmt (.expr e)) := by
      intro i n e he
      show max 8 (Constructor.headroom.depth e + 3 + 2) ≤
        max 0 (Constructor.headroom.depth e + 1 + 4)
      omega
    have hliteral : ∀ (e : Expr ι) depth, Constructor.headroom.below e = depth + 3 →
        3 ≤ Constructor.headroom.depth e := by
      intro e depth he
      have hdepth := Headroom.below_le_depth (H := Constructor.headroom) e
      omega
    cases s with
    | importPackage i n path => exact Nat.le_refl 11
    | expr e =>
        cases e with
        | functionLit i n params b =>
            cases n with
            | none => exact Nat.le_refl _
            | some n => exact hdeclare i n (.functionLit i none params b) (hliteral _ _ rfl)
        | classLit i n methods =>
            cases n with
            | none => exact Nat.le_refl _
            | some n => exact hdeclare i n (.classLit i none methods) (hliteral _ _ rfl)
        | _ => exact Nat.le_refl _
    | _ => exact Nat.le_refl _

/-- Lowering a statement leaves it within the headroom of the first stage. -/
theorem Stmt.depth_runStages (s : Stmt ι) :
    Headroom.none.depthStmt (s.runStages Stage.functionCalls.upTo) ≤
      Declaration.headroom.depthStmt s := by
  have hdeclared := Declaration.mapper_spends.depthStmt () s
  have hconstructed := Constructor.mapper_spends.depthStmt () (Stage.declarators.onStmt s)
  have haccessed := Property.mapper_spends.depthStmt ()
    (s.runStages [.declarators, .classes])
  have hresolved := GlobalName.mapper_spends.depthStmt []
    (s.runStages [.declarators, .classes, .memberAccess])
  have hboxed := BoxedName.mapper_spends.depthStmt []
    (s.runStages [.declarators, .classes, .memberAccess, .globals])
  have hbundled := Closure.mapper_spends.depthStmt []
    (s.runStages [.declarators, .classes, .memberAccess, .globals, .boxing])
  have happlied := Application.mapper_spends.depthStmt ()
    (s.runStages [.declarators, .classes, .memberAccess, .globals, .boxing, .closures])
  calc
    _ ≤ _ := happlied
    _ ≤ _ := hbundled
    _ ≤ _ := hboxed
    _ ≤ _ := hresolved
    _ ≤ _ := haccessed
    _ ≤ _ := hconstructed
    _ ≤ _ := hdeclared

/-! ## How far trees grow -/

namespace Declaration

mutual

/-- All headroom taken together makes a tree at most four times as deep and a little more. -/
theorem depth_le : (e : Expr ι) → headroom.depth e ≤ 4 * Headroom.none.below e + 12
  | .unit _ | .name _ _ | .text _ _ | .number _ _ => Nat.le_add_left _ _
  | .variable _ _ => Nat.le_add_left 7 9
  | .member _ object _ => by
      have hobject := depth_le object
      rw [← Headroom.depth_none object] at hobject
      show max 6 (headroom.depth object + 3 + 1) ≤ 4 * (Headroom.none.depth object + 3) + 12
      omega
  | .call i callee inputs => by
      have hcallee := Nat.le_trans (Headroom.depthCallee_le callee) (depth_le callee)
      have hinputs := exprs_le inputs
      have hcall : headroom.depth (.call i callee inputs) ≤
          max 6 (headroom.below (.call i callee inputs) + 1) := by
        show (if _ then _ else max 6 (_ + 1)) ≤ _
        split
        · exact Nat.le_trans (Nat.le_succ _) (Nat.le_max_right 6 _)
        · exact Nat.le_refl _
      rw [Headroom.below_call] at hcall
      rw [Headroom.below_call, Headroom.depthCallee_none]
      omega
  | .functionLit i n params b => by
      have hb := stmts_le b
      have hparams := Param.depth_le_one params
      show max 8 (max (Param.depth params) (max 10 (headroom.stmts b)) + 3 + 4) ≤
        4 * (max (Param.depth params) (max 0 (Headroom.none.stmts b)) + 3) + 12
      omega
  | .classLit i n ms => by
      have hms := methods_le ms
      show max 0 (headroom.methods ms + 3 + 21) ≤ 4 * (Headroom.none.methods ms + 3) + 12
      omega

/-- The same for a list of expressions. -/
theorem exprs_le : (es : List (Expr ι)) → headroom.exprs es ≤ 4 * Headroom.none.exprs es + 9
  | [] => Nat.zero_le _
  | e :: es => by
      have he := depth_le e
      have hes := exprs_le es
      rw [Headroom.exprs_cons, Headroom.exprs_cons, Headroom.depth_none]
      omega

/-- The same for a statement. -/
theorem depthStmt_le : (s : Stmt ι) → headroom.depthStmt s ≤ 4 * Headroom.none.belowStmt s + 13
  | .importPackage _ _ _ => Nat.le_add_left 11 10
  | .declare _ _ value | .assign _ _ value => by
      have hvalue := depth_le value
      rw [← Headroom.depth_none value] at hvalue
      show max 8 (headroom.depth value + 3 + 2) ≤ 4 * (Headroom.none.depth value + 3) + 13
      omega
  | .assignMember _ object _ value => by
      have hobject := depth_le object
      have hvalue := depth_le value
      rw [← Headroom.depth_none] at hobject hvalue
      show max 7 (max (headroom.depth object) (headroom.depth value) + 3 + 2) ≤
        4 * (max (Headroom.none.depth object) (Headroom.none.depth value) + 3) + 13
      omega
  | .ret _ value => by
      have hvalue := depth_le value
      rw [← Headroom.depth_none value] at hvalue
      show headroom.depth value + 2 ≤ 4 * (Headroom.none.depth value + 2) + 13
      omega
  | .branch i condition thenBlock elseBlock => by
      have hcondition := depth_le condition
      have hthen := stmts_le thenBlock
      have helse := stmts_le elseBlock
      rw [← Headroom.depth_none condition] at hcondition
      show max (headroom.depth condition)
          (max 10 (max (headroom.stmts thenBlock) (headroom.stmts elseBlock))) + 3 ≤
        4 * (max (Headroom.none.depth condition) (max 0
          (max (Headroom.none.stmts thenBlock) (Headroom.none.stmts elseBlock))) + 3) + 13
      omega
  | .expr e => by
      have he := depth_le e
      rw [← Headroom.depth_none e] at he
      show (if e.isNamedLiteral then max 0 (headroom.depth e + 1 + 4) else headroom.depth e + 1) ≤
        4 * (Headroom.none.depth e + 1) + 13
      split <;> omega

/-- The same for a list of statements. -/
theorem stmts_le : (ss : List (Stmt ι)) → headroom.stmts ss ≤ 4 * Headroom.none.stmts ss + 10
  | [] => Nat.zero_le _
  | s :: ss => by
      have hs := depthStmt_le s
      have hss := stmts_le ss
      rw [Headroom.stmts_cons, Headroom.stmts_cons, Headroom.depthStmt_none]
      omega

/-- The same for a list of methods, which pay for the growth by their own depth. -/
theorem methods_le (ms : List (Method ι)) :
    headroom.methods ms ≤ 4 * Headroom.none.methods ms := by
  cases ms with
  | nil => exact Nat.le_refl _
  | cons m ms =>
      cases m with
      | mk i n params b =>
          have hb := stmts_le b
          have hms := methods_le ms
          have hparams := Param.depth_le_one params
          show max (max (Param.depth params) (max 10 (headroom.stmts b)) + 4)
              (headroom.methods ms) ≤
            4 * max (max (Param.depth params) (max 0 (Headroom.none.stmts b)) + 4)
              (Headroom.none.methods ms)
          omega

end

end Declaration

/-! ## Depth and nesting -/

/-- A node is one object around its item. -/
theorem Json.nesting_nodeDatum (item : Item) (i : UInt32) (d : Datum) :
    (nodeDatum item i d).nesting = d.nesting + 1 := by
  show max 0 (max d.nesting 0) + 1 = d.nesting + 1
  omega

/-- An optional text nests nothing. -/
theorem Json.nesting_optionalText (n : Option String) : (optionalText n).nesting = 0 := by
  cases n <;> rfl

/-- The data of parameters nest as deep as the parameters are counted to. -/
theorem Param.nesting_toData (params : List (Param UInt32)) :
    Datum.nestingAll (Param.toData params) = Param.depth params := by
  induction params with
  | nil => rfl
  | cons p params ih =>
      have hrest := Param.depth_le_one params
      show max ((nodeDatum .name p.info (.text p.name)).nesting)
        (Datum.nestingAll (Param.toData params)) = 1
      rw [ih, nesting_nodeDatum]
      show max (0 + 1) _ = 1
      omega

mutual

/-- The item of an expression nests as deep as the expression is. -/
theorem Expr.nesting_item : (e : Expr UInt32) → e.item.nesting = Headroom.none.below e
  | .unit _ | .name _ _ | .text _ _ | .number _ _ | .variable _ _ => rfl
  | .member _ object _ => by
      have hobject := Expr.nesting_item object
      rw [← Headroom.depth_none] at hobject
      show max (nodeDatum _ object.info object.item).nesting (max 0 0) + 1 + 1 =
        Headroom.none.depth object + 3
      rw [nesting_nodeDatum]
      omega
  | .call _ callee inputs => by
      have hcallee := Expr.nesting_item callee
      have hinputs := Expr.nesting_toData inputs
      rw [Headroom.below_call, Headroom.depthCallee_none]
      show max (nodeDatum _ callee.info callee.item).nesting
        (max (Datum.nestingAll (Expr.toData inputs) + 1) 0) + 1 + 1 = _
      rw [nesting_nodeDatum]
      omega
  | .functionLit _ n params body => by
      have hparams := Param.nesting_toData params
      have hbody := Stmt.nesting_toData body
      have hn := nesting_optionalText n
      show max (optionalText n).nesting (max (Datum.nestingAll (Param.toData params) + 1)
        (max (Datum.nestingAll (Stmt.toData body) + 1) 0)) + 1 + 1 =
          max (Param.depth params) (max 0 (Headroom.none.stmts body)) + 3
      omega
  | .classLit _ n methods => by
      have hmethods := Method.nesting_toData methods
      have hn := nesting_optionalText n
      show max (optionalText n).nesting
        (max (Datum.nestingAll (Method.toData methods) + 1) 0) + 1 + 1 =
          Headroom.none.methods methods + 3
      omega

/-- The same for a list of expressions. -/
theorem Expr.nesting_toData : (es : List (Expr UInt32)) →
    Datum.nestingAll (Expr.toData es) = Headroom.none.exprs es
  | [] => rfl
  | e :: es => by
      have he := Expr.nesting_item e
      have hes := Expr.nesting_toData es
      rw [Expr.toData, Datum.nestingAll, nesting_nodeDatum, Headroom.exprs_cons,
        Headroom.depth_none, he, hes]

/-- The same for a statement. -/
theorem Stmt.nesting_item : (s : Stmt UInt32) → s.item.nesting = Headroom.none.belowStmt s
  | .importPackage _ n _ => by
      have hn := nesting_optionalText n
      show max (optionalText n).nesting (max 0 0) + 1 + 1 = 2
      omega
  | .declare _ _ value => by
      have hvalue := Expr.nesting_item value
      rw [← Headroom.depth_none] at hvalue
      show max 0 (max (nodeDatum _ value.info value.item).nesting 0) + 1 + 1 =
        Headroom.none.depth value + 3
      rw [nesting_nodeDatum]
      omega
  | .assign _ _ value => by
      have hvalue := Expr.nesting_item value
      rw [← Headroom.depth_none] at hvalue
      show max 0 (max 0 (max (nodeDatum _ value.info value.item).nesting 0)) + 1 + 1 =
        Headroom.none.depth value + 3
      rw [nesting_nodeDatum]
      omega
  | .assignMember _ object _ value => by
      have hobject := Expr.nesting_item object
      have hvalue := Expr.nesting_item value
      rw [← Headroom.depth_none] at hobject hvalue
      show max (nodeDatum _ object.info object.item).nesting
          (max 0 (max (nodeDatum _ value.info value.item).nesting 0)) + 1 + 1 =
        max (Headroom.none.depth object) (Headroom.none.depth value) + 3
      rw [nesting_nodeDatum, nesting_nodeDatum]
      omega
  | .ret _ value => by
      have hvalue := Expr.nesting_item value
      rw [← Headroom.depth_none] at hvalue
      show (nodeDatum _ value.info value.item).nesting + 1 = Headroom.none.depth value + 2
      rw [nesting_nodeDatum]
      omega
  | .branch _ condition thenBlock elseBlock => by
      have hcondition := Expr.nesting_item condition
      have hthen := Stmt.nesting_toData thenBlock
      have helse := Stmt.nesting_toData elseBlock
      rw [← Headroom.depth_none] at hcondition
      show max (nodeDatum _ condition.info condition.item).nesting
          (max (Datum.nestingAll (Stmt.toData thenBlock) + 1)
            (max (Datum.nestingAll (Stmt.toData elseBlock) + 1) 0)) + 1 + 1 =
        max (Headroom.none.depth condition)
          (max 0 (max (Headroom.none.stmts thenBlock) (Headroom.none.stmts elseBlock))) + 3
      rw [nesting_nodeDatum]
      omega
  | .expr e => by
      have he := Expr.nesting_item e
      rw [← Headroom.depth_none] at he
      exact congrArg (· + 1) he

/-- The same for a list of statements. -/
theorem Stmt.nesting_toData : (ss : List (Stmt UInt32)) →
    Datum.nestingAll (Stmt.toData ss) = Headroom.none.stmts ss
  | [] => rfl
  | s :: ss => by
      have hs := Stmt.nesting_item s
      have hss := Stmt.nesting_toData ss
      rw [Stmt.toData, Datum.nestingAll, nesting_nodeDatum, Headroom.stmts_cons,
        Headroom.depthStmt_none, hs, hss]

/-- The same for a list of methods. -/
theorem Method.nesting_toData : (ms : List (Method UInt32)) →
    Datum.nestingAll (Method.toData ms) = Headroom.none.methods ms
  | [] => rfl
  | .mk i n params body :: ms => by
      have hparams := Param.nesting_toData params
      have hbody := Stmt.nesting_toData body
      have hms := Method.nesting_toData ms
      rw [Method.toData, Datum.nestingAll, nesting_nodeDatum, hms]
      show max (max 0 (max (Datum.nestingAll (Param.toData params) + 1)
          (max (Datum.nestingAll (Stmt.toData body) + 1) 0)) + 1 + 1 + 1)
            (Headroom.none.methods ms) =
        max (max (Param.depth params) (max 0 (Headroom.none.stmts body)) + 4)
          (Headroom.none.methods ms)
      omega

end

/-- The text of a program opens as many brackets as its statements nest deep, and two more. -/
theorem Program.openBrackets_encode (layout : Layout) (p : Program UInt32) :
    openBrackets (p.encode layout) = Headroom.none.stmts p.statements + 2 := by
  rw [Program.encode, openBrackets_toText (p.toDatum_fits infosFit_offset), ← Stmt.nesting_toData]
  show max (Datum.nestingAll (Stmt.toData p.statements) + 1) 0 + 1 = _
  omega

/-- Lowering makes the brackets that are open at once at most about four times as many. -/
theorem Program.openBrackets_lower_le (layout : Layout) (p : Program UInt32) :
    openBrackets (p.lower.encode layout) ≤ 4 * (openBrackets (p.encode layout) + 1) := by
  have hgrown : Headroom.none.stmts p.lower.statements ≤
      4 * Headroom.none.stmts p.statements + 10 := by
    refine Nat.le_trans ?_ (Declaration.stmts_le p.statements)
    rw [Headroom.stmts_le_iff]
    intro lowered hlowered
    rw [Program.lower, p.statements_lowerUpTo, List.mem_map] at hlowered
    obtain ⟨s, hs, rfl⟩ := hlowered
    have hdepth := Headroom.stmts_le_iff.mp (Nat.le_refl (Declaration.headroom.stmts p.statements))
    exact Nat.lt_of_le_of_lt s.depth_runStages (hdepth s hs)
  rw [Program.openBrackets_encode, Program.openBrackets_encode]
  omega

/-- The compact text of a lowered program is read back as that program if it has at most 127
brackets open at once, and is refused as malformed otherwise. It has at most about four times as
many open at once as the text of the program before, so it is read back if that has at most 30. -/
theorem lowered_reads_back (p : Program UInt32) :
    Program.decode (p.lower.encode .compact) =
        (if openBrackets (p.lower.encode .compact) ≤ 127 then .ok p.lower
          else .error .malformed) ∧
      openBrackets (p.lower.encode .compact) ≤ 4 * (openBrackets (p.encode .compact) + 1) ∧
      (openBrackets (p.encode .compact) ≤ 30 →
        Program.decode (p.lower.encode .compact) = .ok p.lower) := by
  have hdecode := Program.decode_encode_of_infosFit infosFit_offset .compact p.lower
  have hgrown := p.openBrackets_lower_le .compact
  refine ⟨hdecode, hgrown, fun hfew => ?_⟩
  rw [hdecode]
  apply if_pos
  rw [nestingLimit]
  omega

/-- A property of a property of a property, and so on, of the unit value. -/
def memberChain : Nat → Expr UInt32
  | 0 => .unit 0
  | length + 1 => .member 0 (memberChain length) "next"

/-- A chain of eight member accesses is shallow enough to be read back when lowered. -/
theorem lowered_memberChain_reads_back :
    openBrackets ((⟨[.expr (memberChain 8)]⟩ : Program UInt32).encode .compact) ≤ 30 ∧
      Program.decode ((⟨[.expr (memberChain 8)]⟩ : Program UInt32).lower.encode .compact) =
        .ok (⟨[.expr (memberChain 8)]⟩ : Program UInt32).lower := by
  have hfew : openBrackets ((⟨[.expr (memberChain 8)]⟩ : Program UInt32).encode .compact) ≤ 30 := by
    rw [Program.openBrackets_encode]
    decide
  exact ⟨hfew, (lowered_reads_back _).2.2 hfew⟩

/-- A program that can be read, but not after it has been lowered. -/
theorem lowered_memberChain_refused :
    Program.decode ((⟨[.expr (memberChain 31)]⟩ : Program UInt32).encode .compact) =
        .ok (⟨[.expr (memberChain 31)]⟩ : Program UInt32) ∧
      (Program.decode ((⟨[.expr (memberChain 31)]⟩ : Program UInt32).lower.encode .compact) :
        Except Fault (Program UInt32)) = .error .malformed := by
  constructor
  · rw [Program.decode_encode_of_infosFit infosFit_offset, Program.openBrackets_encode]
    exact if_pos (by decide +kernel)
  · rw [Program.decode_encode_of_infosFit infosFit_offset, Program.openBrackets_encode]
    exact if_neg (by decide +kernel)

end Lowering
