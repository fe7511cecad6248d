import Lowering.Proofs.Composition

/-!
# Undoing the stages

Five stages are undone by mappers that turn calls of their hooks back into what these stand for, on
programs that do not call these hooks themselves. Undoing the conversion of classes gives back a
program without the names of its classes, which the conversion drops.
-/

namespace Lowering

variable {σ ι : Type}

/-- The rules of `N` leave nodes of the form `F` alone. If a rule of `M` does not leave a node
alone, then `N` turns the result back into the node, as far as its children allow. -/
structure Mapper.UndoneBy (M : Mapper σ ι) (N : Mapper Unit ι) (F : Form ι) : Prop where
  heads : ∀ params b, M.heads params b = [] ∧ N.heads params b = []
  callees : M.KeepsCallees
  keepsStmt : ∀ s, F.HoldsStmt s → N.onStmt () s = s
  keepsExpr : ∀ original e, F.HoldsExpr e → N.onExpr () original e = e
  stmt : ∀ scope s, M.stmt scope s = M.rebuildStmt scope s ∨
    N.stmt () (M.stmt scope s) = N.rebuildStmt () (M.rebuildStmt scope s)
  expr : ∀ scope e, M.expr scope e = M.rebuild scope e ∨
    N.expr () (M.expr scope e) = N.rebuild () (M.rebuild scope e)

namespace Mapper.UndoneBy

variable {M : Mapper σ ι} {N : Mapper Unit ι} {F : Form ι}

/-- So the two compose to the mapper without rules. -/
theorem composes (h : M.UndoneBy N F) : M.Composes N identity (fun _ _ _ => True) F where
  heads params b := ⟨(h.heads params b).1, (h.heads params b).2, rfl⟩
  callees := h.callees
  ofFunction _ _ _ := trivial
  ofBlock _ _ := trivial
  stmt {scope _ _} _ s hs hrebuilt := by
    have hself : identity.rebuildStmt () s = s := identity_fixes.rebuildStmt () s (Form.any_stmt s)
    rw [hself] at hrebuilt
    have hundone : N.stmt () (M.stmt scope s) = s := by
      rcases h.stmt scope s with hkept | hchanged
      · rw [hkept, stmt_eq, hrebuilt, h.keepsStmt s hs]
      · exact hchanged.trans hrebuilt
    rw [hundone, stmt_eq, hself]
    rfl
  expr {scope _ _} _ e he hrebuilt := by
    have hself : identity.rebuild () e = e := identity_fixes.rebuild () e (Form.any_expr e)
    rw [hself] at hrebuilt
    have hundone : N.expr () (M.expr scope e) = e := by
      rcases h.expr scope e with hkept | hchanged
      · rw [hkept, Mapper.expr, hrebuilt, h.keepsExpr _ e he]
      · exact hchanged.trans hrebuilt
    rw [hundone]
    exact hself.symm

/-- Code of the form is undone to itself. -/
theorem stmts_eq (h : M.UndoneBy N F) (scope : σ) {ss : List (Stmt ι)} (hss : F.HoldsStmts ss) :
    N.stmts () (M.stmts scope ss) = ss :=
  h.composes.stmts_eq_self trivial hss

/-- So is a block of the form. -/
theorem block_eq (h : M.UndoneBy N F) (scope : σ) {b : Block ι} (hb : F.HoldsStmts b) :
    N.block () (M.block scope b) = b := by
  rw [Mapper.block, Mapper.block, (h.heads [] b).1, (h.heads [] _).2, List.nil_append,
    List.nil_append]
  exact h.stmts_eq _ hb

end Mapper.UndoneBy

/-- Nothing calls the hooks of the stage. -/
def Stage.avoided (stage : Stage) : Form ι :=
  .calls (· ∉ stage.emits)

/-- An expression that calls a hook of the stage is not of the form. -/
theorem Stage.not_avoided {stage : Stage} {hook : Hook} {e : Expr ι} (hook_mem : hook ∈ stage.emits)
    (h : stage.avoided.HoldsExpr e) : e.hook? ≠ some hook :=
  fun hcall => h.1 hook hcall hook_mem

/-! ## Calls of function values -/

namespace Application

/-- A call of the runtime with a function value stands for a call of the function value. -/
def unapply (e : Expr ι) : Expr ι :=
  match e.hook?, e with
  | some .callFunction, .call i _ (callee :: inputs) => .call i callee inputs
  | _, e => e

/-- Turn all calls of the runtime with function values back. -/
def undoing : Mapper Unit ι where
  onExpr _ _ e := unapply e

/-- Calls of the hook for function calls stand for calls of their first input. -/
theorem undoneBy : (mapper : Mapper Unit ι).UndoneBy undoing Stage.functionCalls.avoided where
  heads _ _ := ⟨rfl, rfl⟩
  callees := mapper_keepsCallees
  keepsStmt _ _ := rfl
  keepsExpr _ e he := by
    show unapply e = e
    unfold unapply
    split
    · exact absurd ‹_› (Stage.not_avoided (by decide) he)
    · rfl
  stmt _ s := Or.inl (Mapper.stmt_eq _ _ s)
  expr scope e := by
    cases e with
    | call i callee inputs =>
        rw [mapper_expr]
        cases hmember : callee.isMember with
        | true =>
            rw [mapper.rebuild_call_of_member scope i hmember, application,
              if_pos ((mapper.isMember_rebuild scope callee).trans hmember)]
            exact Or.inl rfl
        | false =>
            have hmapped := mapper_keepsCallees.member scope callee hmember
            rw [mapper.rebuild_call_of_not_member scope i hmember, application,
              if_neg (Bool.eq_false_iff.mp hmapped),
              undoing.rebuild_call_of_not_member () i hmapped]
            exact Or.inr rfl
    | _ => exact Or.inl rfl

end Application

/-! ## Closures -/

namespace Closure

/-- A closure stands for its function without as many parameters as it has captures. -/
def unbundle (e : Expr ι) : Expr ι :=
  match e.hook?, e with
  | some .createClosure, .call _ _ (.functionLit i n params body :: captured) =>
      .functionLit i n (params.drop captured.length) body
  | _, e => e

/-- Turn all closures back into function literals. -/
def undoing : Mapper Unit ι where
  onExpr _ _ e := unbundle e

/-- Reads of captures are left alone. -/
theorem undoing_variables (i : ι) (names : List String) :
    undoing.exprs () (names.map (Expr.variable i ·)) = names.map (Expr.variable i ·) :=
  undoing.exprs_variables (fun _ => rfl) names

/-- A bundled function is unbundled to the function. -/
theorem unbundle_call (i : ι) (n : Option String) (captured : List String) (params : List (Param ι))
    (body : Block ι) :
    unbundle (Hook.createClosure.call i
        (.functionLit i n (captured.map (⟨i, ·⟩) ++ params) body ::
          captured.map (Expr.variable i ·))) =
      .functionLit i n params body := by
  show Expr.functionLit i n ((captured.map (Param.mk i ·) ++ params).drop
    (captured.map (Expr.variable i ·)).length) body = _
  rw [List.length_map, List.drop_left' (List.length_map _)]

/-- Calls of the hook for closures stand for their function, without the captures. -/
theorem undoneBy : (mapper : Mapper (List String) ι).UndoneBy undoing Stage.closures.avoided where
  heads _ _ := ⟨rfl, rfl⟩
  callees := mapper_keepsCallees
  keepsStmt _ _ := rfl
  keepsExpr _ e he := by
    show unbundle e = e
    unfold unbundle
    split
    · exact absurd ‹_› (Stage.not_avoided (by decide) he)
    · rfl
  stmt _ s := Or.inl (Mapper.stmt_eq _ _ s)
  expr available e := by
    cases e with
    | functionLit i n params b =>
        rw [expr_functionLit, bundle]
        split
        · exact Or.inl rfl
        · refine Or.inr ?_
          show unbundle (Hook.createClosure.call i
            (.functionLit i n _ (undoing.stmts () (mapper.body available params b)) ::
              undoing.exprs () ((captures available params b).map (Expr.variable i ·)))) = _
          rw [undoing_variables, unbundle_call]
          rfl
    | _ => exact Or.inl rfl

end Closure

/-! ## Global names -/

namespace GlobalName

/-- A call of the runtime for the value of a global variable stands for a read of it. -/
def unread (e : Expr ι) : Expr ι :=
  match e.hook?, e with
  | some .globalGet, .call i _ [.name _ n] => .variable i n
  | _, e => e

/-- A call of the runtime that sets a global variable stands for an assignment or a declaration. -/
def setting (e : Expr ι) : Stmt ι :=
  match e.hook?, e with
  | some .globalSet, .call i _ [.name _ n, value] => .assign i n value
  | some .globalDefine, .call i _ [.name _ n, value] => .declare i n value
  | _, e => .expr e

/-- The rule for expressions that stand as statements. -/
def unset : Stmt ι → Stmt ι
  | .expr e => setting e
  | s => s

/-- Turn all uses of global names back. -/
def undoing : Mapper Unit ι where
  onStmt _ s := unset s
  onExpr _ _ e := unread e

/-- Calls of the hooks for global names stand for uses of the names. -/
theorem undoneBy : (mapper : Mapper (List String) ι).UndoneBy undoing Stage.globals.avoided where
  heads _ _ := ⟨rfl, rfl⟩
  callees := mapper_keepsCallees
  keepsStmt s hs := by
    show unset s = s
    cases s with
    | expr e =>
        show setting e = .expr e
        unfold setting
        split
        · exact absurd ‹_› (Stage.not_avoided (by decide) hs.2)
        · exact absurd ‹_› (Stage.not_avoided (by decide) hs.2)
        · rfl
    | _ => rfl
  keepsExpr _ e he := by
    show unread e = e
    unfold unread
    split
    · exact absurd ‹_› (Stage.not_avoided (by decide) he)
    · rfl
  stmt bound s := by
    cases s with
    | declare i n value | assign i n value =>
        rw [Mapper.stmt_eq, Mapper.rebuildStmt, mapper_onStmt, access]
        split
        · exact Or.inl rfl
        · exact Or.inr rfl
    | _ => exact Or.inl rfl
  expr bound e := by
    cases e with
    | «variable» i n =>
        rw [mapper_expr, Mapper.rebuild, read]
        split
        · exact Or.inl rfl
        · exact Or.inr rfl
    | _ => exact Or.inl rfl

end GlobalName

/-! ## Member access -/

namespace Property

/-- A call of the runtime for the value of a property stands for a read of it. -/
def unaccess (e : Expr ι) : Expr ι :=
  match e.hook?, e with
  | some .propertyGet, .call i _ [object, .name _ n] => .member i object n
  | _, e => e

/-- A call of the runtime that sets a property stands for an assignment to it. -/
def setting (e : Expr ι) : Stmt ι :=
  match e.hook?, e with
  | some .propertySet, .call i _ [object, .name _ n, value] => .assignMember i object n value
  | _, e => .expr e

/-- The rule for expressions that stand as statements. -/
def unassign : Stmt ι → Stmt ι
  | .expr e => setting e
  | s => s

/-- Turn all reads of and assignments to properties back. -/
def undoing : Mapper Unit ι where
  onStmt _ s := unassign s
  onExpr _ _ e := unaccess e

/-- Calls of the hooks for properties stand for member accesses. -/
theorem undoneBy : (mapper : Mapper Unit ι).UndoneBy undoing Stage.memberAccess.avoided where
  heads _ _ := ⟨rfl, rfl⟩
  callees := mapper_keepsCallees
  keepsStmt s hs := by
    show unassign s = s
    cases s with
    | expr e =>
        show setting e = .expr e
        unfold setting
        split
        · exact absurd ‹_› (Stage.not_avoided (by decide) hs.2)
        · rfl
    | _ => rfl
  keepsExpr _ e he := by
    show unaccess e = e
    unfold unaccess
    split
    · exact absurd ‹_› (Stage.not_avoided (by decide) he)
    · rfl
  stmt scope s := by
    cases s with
    | assignMember => exact Or.inr rfl
    | _ => exact Or.inl rfl
  expr scope e := by
    cases e with
    | member => exact Or.inr rfl
    | _ => exact Or.inl rfl

end Property

/-! ## Classes -/

namespace Constructor

/-- Class literals without their names. -/
def unnamed : Expr ι → Expr ι
  | .classLit i _ ms => .classLit i none ms
  | e => e

/-- Drop the names of all class literals. -/
def unnaming : Mapper Unit ι where
  onExpr _ _ e := unnamed e

/-- Dropping the names of classes keeps the kind of every expression. -/
theorem unnaming_keepsCallees : (unnaming : Mapper Unit ι).KeepsCallees where
  unit _ e := by cases e <;> rfl
  member _ e h := by
    cases e with
    | member => cases h
    | _ => rfl

/-- It adds no calls. -/
theorem unnaming_establishes_calls (allowed : Hook → Prop) :
    (unnaming : Mapper Unit ι).Establishes (.calls allowed) (.calls allowed) := by
  refine unnaming_keepsCallees.establishes (fun _ _ => trivial) (fun _ _ hbelow => hbelow)
    (fun _ e hholds => ?_)
  cases e with
  | classLit => exact ⟨Form.calls_of_hook?_eq_none rfl, hholds.2⟩
  | _ => exact hholds

/-- What follows the creation of the class in the constructor that an expression calls. -/
def constructed? : Expr ι → Option (Block ι)
  | .call _ (.functionLit _ _ _ (.declare _ _ value :: rest)) _ =>
      if value.hook? = some .createClass then some rest else none
  | _ => none

/-- The method that a statement assigns to the class variable. -/
def assigned? : Stmt ι → Option (Method ι)
  | .assignMember i _ n (.call _ _ [.functionLit _ _ (_ :: params) body]) =>
      some (.mk i n params body)
  | _ => none

/-- The call of a constructor stands for a class literal. -/
def unconstruct (e : Expr ι) : Expr ι :=
  match constructed? e with
  | some rest => .classLit e.info none (rest.filterMap assigned?)
  | none => e

/-- Turn all calls of constructors back. -/
def undoing : Mapper Unit ι where
  onExpr _ _ e := unconstruct e

/-- Where no classes are created, no expression calls a constructor. -/
theorem constructed?_eq_none {e : Expr ι} (he : Stage.classes.avoided.HoldsExpr e) :
    constructed? e = none := by
  unfold constructed?
  split
  · rename_i value rest inputs
    have hvalue : Stage.classes.avoided.HoldsExpr value := he.2.2.1.1.2
    exact if_neg (Stage.not_avoided (by decide) hvalue)
  · rfl

/-- Where no classes are created, there is no constructor to turn back. -/
theorem unconstruct_of_avoided {e : Expr ι} (he : Stage.classes.avoided.HoldsExpr e) :
    unconstruct e = e := by
  rw [unconstruct, constructed?_eq_none he]

/-- The methods of a class are those that its constructor assigns. -/
theorem assigned?_assignMethods (i : ι) (ms : List (Method ι)) :
    (ms.map (assignMethod i)).filterMap assigned? = ms := by
  rw [List.filterMap_map]
  have hmethod : ∀ m : Method ι, (assigned? ∘ assignMethod i) m = some m := fun m => by
    cases m
    rfl
  rw [funext hmethod, List.filterMap_some]

/-- A class literal is constructed and turned back. -/
theorem unconstruct_construction (i : ι) (n : Option String) (ms : List (Method ι)) :
    unconstruct (construction (.classLit i n ms)) = .classLit i none ms := by
  show Expr.classLit i none ((ms.map (assignMethod i) ++
    [Stmt.ret i (.variable i constructedName)]).filterMap assigned?) = _
  rw [List.filterMap_append, assigned?_assignMethods]
  exact congrArg _ (List.append_nil ms)

/-- Inside a constructor, the methods are turned back. -/
theorem undoing_assignMethods (i : ι) : (ms : List (Method ι)) →
    undoing.stmts () (ms.map (assignMethod i)) = (undoing.methods () ms).map (assignMethod i)
  | [] => rfl
  | .mk j n params body :: ms => by
      rw [List.map_cons, Mapper.stmts, undoing_assignMethods i ms]
      rfl

/-- What is inside of a constructor is turned back as in the class literal. -/
theorem undoing_construction (i : ι) (n : Option String) (ms : List (Method ι)) :
    undoing.rebuild () (construction (.classLit i n ms)) =
      construction (.classLit i n (undoing.methods () ms)) := by
  have hbody : undoing.stmts () (constructorBody i ms) =
      constructorBody i (undoing.methods () ms) := by
    rw [constructorBody, Mapper.stmts, Mapper.stmts_eq_map, List.map_append, ← Mapper.stmts_eq_map,
      undoing_assignMethods]
    rfl
  show Expr.call i (.functionLit i none [] (undoing.stmts () (constructorBody i ms))) [] = _
  rw [hbody]
  rfl

/-- Dropping the names of classes creates no classes. -/
theorem avoided_unnaming {e : Expr ι} (he : Stage.classes.avoided.HoldsExpr e) :
    Stage.classes.avoided.HoldsExpr (unnaming.rebuild () e) := by
  refine ⟨fun hook hhook => he.1 hook ?_, (unnaming_establishes_calls _).below () e he.2⟩
  rwa [← unnaming_keepsCallees.hook?_rebuild () e]

/-- Constructing classes and turning them back drops their names and does nothing else. -/
theorem undoing_composes :
    (mapper : Mapper Unit ι).Composes undoing unnaming (fun _ _ _ => True)
      Stage.classes.avoided where
  heads _ _ := ⟨rfl, rfl, rfl⟩
  callees := mapper_keepsCallees
  ofFunction _ _ _ := trivial
  ofBlock _ _ := trivial
  stmt _ s _ hrebuilt := by
    rw [Mapper.stmt_eq, Mapper.stmt_eq, Mapper.stmt_eq]
    exact hrebuilt
  expr _ e he hrebuilt := by
    cases e with
    | classLit i n ms =>
        injection hrebuilt with _ _ hmethods
        show unconstruct (undoing.rebuild () (construction
          (.classLit i n (mapper.methods () ms)))) = .classLit i none (unnaming.methods () ms)
        rw [undoing_construction, unconstruct_construction, hmethods]
    | _ =>
        refine Eq.trans ?_ (unconstruct_of_avoided (avoided_unnaming he))
        exact congrArg unconstruct hrebuilt

end Constructor

end Lowering
