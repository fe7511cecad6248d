import Lowering.Log
import Lowering.Proofs.MappedInfos

/-!
# Lowering does not look at infos

Infos are copied to the nodes that a stage makes, and nothing is decided by them. So a program with
mapped infos runs through stages as the program itself, with the same log, and what comes out is the
result for the program with its infos mapped. Main statement: `runStages_mapInfo`.
-/

namespace Lowering

variable {ι κ : Type} (g : ι → κ)

/-! ## Calls of the runtime -/

/-- Replacing the infos of a call of a hook replaces those of its inputs and its own. -/
theorem Hook.mapInfo_call (hook : Hook) (i : ι) (inputs : List (Expr ι)) :
    (hook.call i inputs).mapInfo g = hook.call (g i) (Expr.mapInfos g inputs) := rfl

/-! ## Stages without scopes -/

namespace Declaration

/-- The rule for declarators passes infos on. -/
theorem declaration_mapInfo (s : Stmt ι) :
    declaration (s.mapInfo g) = (declaration s).mapInfo g := by
  cases s with
  | expr e =>
      cases e with
      | functionLit i n params body => cases n <;> rfl
      | classLit i n methods => cases n <;> rfl
      | _ => rfl
  | _ => rfl

/-- The stage of declarators passes infos on. -/
theorem mapper_natural : Mapper.Natural g (mapper : Mapper Unit ι) mapper where
  ofFunction _ _ _ := rfl
  ofBlock _ _ := rfl
  heads _ _ := rfl
  onStmt _ s := declaration_mapInfo g s
  onExpr _ _ _ := rfl

end Declaration

namespace Constructor

/-- The assignment of a method has infos of the class and the method. -/
theorem assignMethod_mapInfo (i : ι) (m : Method ι) :
    assignMethod (g i) (m.mapInfo g) = (assignMethod i m).mapInfo g := by
  cases m
  rfl

/-- So have the assignments of all methods. -/
theorem assignMethods_mapInfo (i : ι) (methods : List (Method ι)) :
    (Method.mapInfos g methods).map (assignMethod (g i)) =
      Stmt.mapInfos g (methods.map (assignMethod i)) := by
  induction methods with
  | nil => rfl
  | cons m ms ih =>
      rw [Method.mapInfos, List.map_cons, List.map_cons, Stmt.mapInfos, ih, assignMethod_mapInfo]

/-- So has the whole body of a constructor. -/
theorem constructorBody_mapInfo (i : ι) (methods : List (Method ι)) :
    constructorBody (g i) (Method.mapInfos g methods) =
      Stmt.mapInfos g (constructorBody i methods) := by
  rw [constructorBody, constructorBody, Stmt.mapInfos, Stmt.mapInfos_append,
    assignMethods_mapInfo]
  rfl

/-- The rule for class literals passes infos on. -/
theorem construction_mapInfo (e : Expr ι) :
    construction (e.mapInfo g) = (construction e).mapInfo g := by
  cases e with
  | classLit i n methods =>
      rw [Expr.mapInfo, construction, construction, constructorBody_mapInfo]
      rfl
  | _ => rfl

/-- The stage of classes passes infos on. -/
theorem mapper_natural : Mapper.Natural g (mapper : Mapper Unit ι) mapper where
  ofFunction _ _ _ := rfl
  ofBlock _ _ := rfl
  heads _ _ := rfl
  onStmt _ _ := rfl
  onExpr _ _ rebuilt := construction_mapInfo g rebuilt

end Constructor

namespace Property

/-- The stage of member access passes infos on. -/
theorem mapper_natural : Mapper.Natural g (mapper : Mapper Unit ι) mapper where
  ofFunction _ _ _ := rfl
  ofBlock _ _ := rfl
  heads _ _ := rfl
  onStmt _ s := by cases s <;> rfl
  onExpr _ _ rebuilt := by cases rebuilt <;> rfl

end Property

namespace Application

/-- The rule for calls passes infos on. -/
theorem application_mapInfo (e : Expr ι) :
    application (e.mapInfo g) = (application e).mapInfo g := by
  cases e with
  | call i callee inputs =>
      rw [Expr.mapInfo, application, application, Expr.isMember_mapInfo]
      split
      · rfl
      · rw [Hook.mapInfo_call]
        rfl
  | _ => rfl

/-- The stage of function calls passes infos on. -/
theorem mapper_natural : Mapper.Natural g (mapper : Mapper Unit ι) mapper where
  ofFunction _ _ _ := rfl
  ofBlock _ _ := rfl
  heads _ _ := rfl
  onStmt _ _ := rfl
  onExpr _ _ rebuilt := application_mapInfo g rebuilt

end Application

/-! ## Global names -/

namespace GlobalName

/-- The rule for declarations of and assignments to global names passes infos on. -/
theorem access_mapInfo (bound : List String) (s : Stmt ι) :
    access bound (s.mapInfo g) = (access bound s).mapInfo g := by
  cases s with
  | declare i n value =>
      rw [Stmt.mapInfo, access, access]
      split <;> rfl
  | assign i n value =>
      rw [Stmt.mapInfo, access, access]
      split <;> rfl
  | _ => rfl

/-- The rule for reads of global names passes infos on. -/
theorem read_mapInfo (bound : List String) (e : Expr ι) :
    read bound (e.mapInfo g) = (read bound e).mapInfo g := by
  cases e with
  | «variable» i n =>
      rw [Expr.mapInfo, read, read]
      split <;> rfl
  | _ => rfl

/-- The stage of global names passes infos on. -/
theorem mapper_natural : Mapper.Natural g (mapper : Mapper (List String) ι) mapper where
  ofFunction bound params _ := congrArg (· ++ bound) (Param.names_mapInfo g params)
  ofBlock bound b := congrArg (· ++ bound) (Block.declared_mapInfos g b)
  heads _ _ := rfl
  onStmt := access_mapInfo g
  onExpr bound _ rebuilt := read_mapInfo g bound rebuilt

end GlobalName

/-! ## Boxed names -/

/-- Accesses do not depend on infos. -/
theorem Access.collector_natural :
    Collector.Natural g (Access.collector : Collector Viewpoint ι Access) Access.collector where
  ofFunction v params _ := by
    show Viewpoint.mk (Param.names (params.map (Param.mapInfo g)) ++ v.rebound) true = _
    rw [Param.names_mapInfo]
    rfl
  ofBlock v b := by
    show Viewpoint.mk (Block.declared (Stmt.mapInfos g b) ++ v.rebound) v.inside = _
    rw [Block.declared_mapInfos]
    rfl
  onBlock _ _ _ := rfl
  onStmt _ _ := rfl
  afterStmt _ s := by cases s <;> rfl
  onExpr _ e := by cases e <;> rfl
  onMethod _ _ := rfl

/-- So the accesses of a block stay the same under all infos. -/
@[simp] theorem Block.accesses_mapInfos (b : Block ι) :
    Block.accesses (Stmt.mapInfos g b) = Block.accesses b :=
  (Access.collector_natural g).stmts _ b

namespace BoxedName

/-- Which names are boxed does not depend on infos. -/
theorem boxedNames_mapInfo (params : List (Param ι)) (b : Block ι) :
    boxedNames (params.map (Param.mapInfo g)) (Stmt.mapInfos g b) = boxedNames params b := by
  simp only [boxedNames, Param.names_mapInfo, Block.declared_mapInfos, Block.accesses_mapInfos]

/-- The first parameter or declaration of a name is the same one, with its info mapped. -/
theorem head?_mapInfo (params : List (Param ι)) (b : Block ι) (n : String) :
    head? (params.map (Param.mapInfo g)) (Stmt.mapInfos g b) n =
      (head? params b n).map (Stmt.mapInfo g) := by
  have hparam : (params.map (Param.mapInfo g)).find? (·.name = n) =
      (params.find? (·.name = n)).map (Param.mapInfo g) := List.find?_map ..
  have hdeclared : (Stmt.mapInfos g b).find? (·.declared? = some n) =
      (b.find? (·.declared? = some n)).map (Stmt.mapInfo g) := by
    rw [Stmt.mapInfos_eq_map, List.find?_map]
    simp only [Function.comp_def, Stmt.declared?_mapInfo]
  rw [head?, hparam, hdeclared, head?]
  cases params.find? (·.name = n) with
  | some p => rfl
  | none =>
      cases b.find? (·.declared? = some n) with
      | some s =>
          simp only [Option.map_none, Option.map_some, Stmt.info_mapInfo]
          rfl
      | none => rfl

/-- The statements that create boxes have infos of what binds the names. -/
theorem heads_mapInfo (params : List (Param ι)) (b : Block ι) :
    heads (params.map (Param.mapInfo g)) (Stmt.mapInfos g b) =
      Stmt.mapInfos g (heads params b) := by
  rw [heads, boxedNames_mapInfo, heads, Stmt.mapInfos_eq_map g (List.filterMap _ _),
    List.map_filterMap]
  exact List.filterMap_congr fun n _ => head?_mapInfo g params b n

/-- The rule for declarations of and assignments to boxed names passes infos on. -/
theorem access_mapInfo (scope : List (String × Bool)) (s : Stmt ι) :
    access scope (s.mapInfo g) = (access scope s).mapInfo g := by
  cases s with
  | declare i n value =>
      rw [Stmt.mapInfo, access, access]
      split <;> rfl
  | assign i n value =>
      rw [Stmt.mapInfo, access, access]
      split <;> rfl
  | _ => rfl

/-- The rule for reads of boxed names passes infos on. -/
theorem read_mapInfo (scope : List (String × Bool)) (e : Expr ι) :
    read scope (e.mapInfo g) = (read scope e).mapInfo g := by
  cases e with
  | «variable» i n =>
      rw [Expr.mapInfo, read, read]
      split <;> rfl
  | _ => rfl

/-- The scope inside of a block does not depend on infos. -/
theorem extend_mapInfo (names : List String) (b : Block ι) (scope : List (String × Bool)) :
    extend names (Stmt.mapInfos g b) scope = extend names b scope := by
  rw [extend, Block.accesses_mapInfos, extend]

/-- Boxing passes infos on. -/
theorem mapper_natural : Mapper.Natural g (mapper : Mapper (List (String × Bool)) ι) mapper where
  ofFunction scope params b := by
    show extend (Param.names (params.map (Param.mapInfo g))) (Stmt.mapInfos g b) scope = _
    rw [Param.names_mapInfo, extend_mapInfo]
    rfl
  ofBlock scope b := by
    show extend (Block.declared (Stmt.mapInfos g b)) (Stmt.mapInfos g b) scope = _
    rw [Block.declared_mapInfos, extend_mapInfo]
    rfl
  heads := heads_mapInfo g
  onStmt := access_mapInfo g
  onExpr scope _ rebuilt := read_mapInfo g scope rebuilt

/-- The list of all boxed names does not depend on infos. -/
theorem boxCollector_natural :
    Collector.Natural g (boxCollector : Collector Unit ι String) boxCollector where
  ofFunction _ _ _ := rfl
  ofBlock _ _ := rfl
  onBlock _ := boxedNames_mapInfo g
  onStmt _ _ := rfl
  afterStmt _ _ := rfl
  onExpr _ _ := rfl
  onMethod _ _ := rfl

end BoxedName

/-! ## Closures -/

/-- Free names do not depend on infos. -/
theorem freeNameCollector_natural :
    Collector.Natural g (freeNameCollector : Collector (List String) ι String)
      freeNameCollector where
  ofFunction bound params _ := congrArg (· ++ bound) (Param.names_mapInfo g params)
  ofBlock bound b := congrArg (· ++ bound) (Block.declared_mapInfos g b)
  onBlock _ _ _ := rfl
  onStmt _ s := by cases s <;> rfl
  afterStmt _ _ := rfl
  onExpr _ e := by cases e <;> rfl
  onMethod _ _ := rfl

/-- What a function captures does not depend on infos. -/
theorem captures_mapInfo (available : List String) (params : List (Param ι)) (b : Block ι) :
    captures available (params.map (Param.mapInfo g)) (Stmt.mapInfos g b) =
      captures available params b := by
  rw [captures, freeNames, Param.names_mapInfo, (freeNameCollector_natural g).block, captures,
    freeNames]

namespace Closure

/-- The captures that a bundle adds get the mapped info of the function. -/
theorem bundle_mapInfo (captured : List String) (e : Expr ι) :
    bundle captured (e.mapInfo g) = (bundle captured e).mapInfo g := by
  cases e with
  | functionLit i n params b =>
      rw [Expr.mapInfo, bundle, bundle]
      split
      · rfl
      · rw [Hook.mapInfo_call, Expr.mapInfos, Expr.mapInfo, Expr.mapInfos_eq_map]
        simp only [List.map_append, List.map_map]
        rfl
  | _ => rfl

/-- The rule for function literals passes infos on. -/
theorem closure_mapInfo (available : List String) (e rebuilt : Expr ι) :
    closure available (e.mapInfo g) (rebuilt.mapInfo g) =
      (closure available e rebuilt).mapInfo g := by
  cases e with
  | functionLit i n params b =>
      rw [Expr.mapInfo, closure, captures_mapInfo, bundle_mapInfo, closure]
  | _ => rfl

/-- What can be captured does not depend on infos. -/
theorem scoping_natural : Scoping.Natural g (scoping : Scoping (List String) ι) scoping where
  ofFunction available params b := by
    show captures available (params.map (Param.mapInfo g)) (Stmt.mapInfos g b) ++
      Param.names (params.map (Param.mapInfo g)) = _
    rw [captures_mapInfo, Param.names_mapInfo]
    rfl
  ofBlock available b := congrArg (· ++ available) (Block.declared_mapInfos g b)

/-- Closure conversion passes infos on. -/
theorem mapper_natural : Mapper.Natural g (mapper : Mapper (List String) ι) mapper where
  toNatural := scoping_natural g
  heads _ _ := rfl
  onStmt _ _ := rfl
  onExpr := closure_mapInfo g

/-- The list of all captures does not depend on infos. -/
theorem captureCollector_natural :
    Collector.Natural g (captureCollector : Collector (List String) ι (List String))
      captureCollector where
  toNatural := scoping_natural g
  onBlock _ _ _ := rfl
  onStmt _ _ := rfl
  afterStmt _ _ := rfl
  onExpr available e := by
    cases e with
    | functionLit i n params b =>
        show (if (captures available (params.map (Param.mapInfo g)) (Stmt.mapInfos g b)).isEmpty
          then [] else [captures available (params.map (Param.mapInfo g)) (Stmt.mapInfos g b)]) = _
        rw [captures_mapInfo]
        rfl
    | _ => rfl
  onMethod _ _ := rfl

end Closure

/-! ## Stages and their log -/

namespace Stage

/-- A stage does the same to a program whatever its infos are. -/
theorem run_mapInfo (stage : Stage) (p : Program ι) :
    stage.run (p.mapInfo g) = (stage.run p).mapInfo g := by
  apply congrArg Program.mk
  cases stage with
  | declarators => exact (Declaration.mapper_natural g).block () p.statements
  | classes => exact (Constructor.mapper_natural g).block () p.statements
  | memberAccess => exact (Property.mapper_natural g).block () p.statements
  | globals => exact (GlobalName.mapper_natural g).stmts [] p.statements
  | boxing => exact (BoxedName.mapper_natural g).block [] p.statements
  | closures => exact (Closure.mapper_natural g).block [] p.statements
  | functionCalls => exact (Application.mapper_natural g).block () p.statements

/-- A stage tells the same about a program whatever its infos are. -/
theorem log_mapInfo (stage : Stage) (p : Program ι) : stage.log (p.mapInfo g) = stage.log p := by
  cases stage with
  | boxing =>
      have hboxes : BoxedName.boxes (p.mapInfo g) = BoxedName.boxes p :=
        (BoxedName.boxCollector_natural g).block () p.statements
      rw [log, hboxes, log]
  | closures =>
      have hcaptured : Closure.captured (p.mapInfo g) = Closure.captured p :=
        (Closure.captureCollector_natural g).block [] p.statements
      rw [log, hcaptured, log]
  | _ => rfl

end Stage

namespace Program

/-- Stages are run one after the other. -/
theorem runStages_cons (stage : Stage) (rest : List Stage) (p : Program ι) :
    p.runStages (stage :: rest) = (stage.run p).runStages rest := rfl

/-- Infos can be replaced before or after any stages. -/
theorem mapInfo_runStages (stages : List Stage) (p : Program ι) :
    (p.mapInfo g).runStages stages = (p.runStages stages).mapInfo g := by
  induction stages generalizing p with
  | nil => rfl
  | cons stage rest ih => rw [runStages_cons, stage.run_mapInfo, ih, runStages_cons]

/-- What the stages log does not depend on infos. -/
theorem logStages_mapInfo (stages : List Stage) (p : Program ι) :
    logStages stages (p.mapInfo g) = logStages stages p := by
  induction stages generalizing p with
  | nil => rfl
  | cons stage rest ih =>
      rw [logStages, stage.log_mapInfo, stage.run_mapInfo, ih, logStages]

end Program

/-- Infos never influence lowering: stages run in any order on a program with mapped infos give what
they give for the program, with its infos mapped; it reads the same as text, and so do the log
records of the two runs. -/
theorem runStages_mapInfo (stages : List Stage) (p : Program ι) :
    (p.mapInfo g).runStages stages = (p.runStages stages).mapInfo g ∧
      ((p.mapInfo g).runStages stages).render = (p.runStages stages).render ∧
      Program.logStages stages (p.mapInfo g) = Program.logStages stages p := by
  have hrun := p.mapInfo_runStages g stages
  refine ⟨hrun, ?_, p.logStages_mapInfo g stages⟩
  rw [hrun, Program.render_mapInfo]

end Lowering
