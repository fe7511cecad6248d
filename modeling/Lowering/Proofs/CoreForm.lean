import Lowering.Proofs.ClosedFunctions
import Lowering.Proofs.Form

/-!
# The core form of lowered programs

Four stages each remove some kinds of nodes for good: the later stages build statements, calls,
members and functions of their own, but none of those kinds. Each stage is shown to turn trees of
the form that the earlier ones leave into trees of the form that it leaves itself. Main statement:
`lower_core`.
-/

namespace Lowering

variable {σ ι : Type}

/-- A function or class literal that has a name. -/
def Expr.isNamedLiteral : Expr ι → Bool
  | .functionLit _ (some _) _ _ | .classLit _ (some _) _ => true
  | _ => false

/-- Declarations are written as such: there are no imports, and no named literals that stand as
statements. -/
def Declaration.form : Form ι where
  stmt
    | .importPackage _ _ _ => False
    | .expr e => e.isNamedLiteral = false
    | _ => True

/-- On top of that, there are no class literals. -/
def Constructor.form : Form ι where
  stmt := Declaration.form.stmt
  expr
    | .classLit _ _ _ => False
    | _ => True

/-- On top of that, a member is accessed only to select the method of a call. -/
def Property.form : Form ι where
  stmt
    | .assignMember _ _ _ _ => False
    | s => Constructor.form.stmt s
  expr
    | .member _ _ _ => False
    | e => Constructor.form.expr e

/-- On top of that, only methods are called. -/
def Form.core : Form ι where
  stmt := Property.form.stmt
  expr
    | .call _ callee _ => callee.isMember = true
    | e => Property.form.expr e

/-- A program in core form: all its nodes are of the core form, and its top-level block declares and
assigns no variable directly. -/
structure Program.IsCore (p : Program ι) : Prop where
  form : Form.core.HoldsStmts p.statements
  topLevel : ∀ s ∈ p.statements, s.setsVariable = false

/-- Mapping the children of a literal keeps its name. -/
theorem Mapper.isNamedLiteral_rebuild (M : Mapper σ ι) (scope : σ) (e : Expr ι) :
    (M.rebuild scope e).isNamedLiteral = e.isNamedLiteral := by
  cases e with
  | functionLit i n params body => cases n <;> rfl
  | classLit i n ms => cases n <;> rfl
  | _ => rfl

/-- The rule for expressions makes no named literals. -/
def Mapper.KeepsUnnamed (M : Mapper σ ι) : Prop :=
  ∀ scope e rebuilt, rebuilt.isNamedLiteral = false →
    (M.onExpr scope e rebuilt).isNamedLiteral = false

/-- So an expression that is no named literal is not mapped to one. -/
theorem Mapper.KeepsUnnamed.expr {M : Mapper σ ι} (h : M.KeepsUnnamed) (scope : σ) {e : Expr ι}
    (he : e.isNamedLiteral = false) : (M.expr scope e).isNamedLiteral = false :=
  h scope e _ ((M.isNamedLiteral_rebuild scope e).trans he)

/-! ## What each stage establishes -/

/-- Imports and named literals that stand as statements become declarations. -/
theorem Declaration.mapper_establishes : (mapper : Mapper Unit ι).Establishes .any form where
  heads _ _ := trivial
  stmt scope s _ hbelow := by
    rw [Mapper.stmt_eq]
    change form.HoldsStmt (declaration (mapper.rebuildStmt scope s))
    revert hbelow
    generalize mapper.rebuildStmt scope s = rebuilt
    intro hbelow
    cases rebuilt with
    | importPackage =>
        exact ⟨trivial, Form.holdsExpr_hook_call trivial trivial ⟨⟨trivial, trivial⟩, trivial⟩⟩
    | expr e =>
        cases e with
        | functionLit i n params body =>
            cases n with
            | none => exact ⟨rfl, hbelow⟩
            | some n => exact ⟨trivial, trivial, hbelow.2⟩
        | classLit i n ms =>
            cases n with
            | none => exact ⟨rfl, hbelow⟩
            | some n => exact ⟨trivial, trivial, hbelow.2⟩
        | _ => exact ⟨rfl, hbelow⟩
    | _ => exact ⟨trivial, hbelow⟩
  expr _ _ _ hbelow := ⟨trivial, hbelow⟩

/-- Assignments of methods have the form if the methods have it. -/
theorem Constructor.holds_assignMethods (i : ι) : (ms : List (Method ι)) →
    form.HoldsMethods ms → form.HoldsStmts (ms.map (assignMethod i))
  | [], _ => trivial
  | .mk j n params body :: ms, hms => by
      rw [Form.HoldsMethods, Form.HoldsMethod] at hms
      have hfunction : form.HoldsExprs [methodFunction (.mk j n params body)] :=
        ⟨⟨trivial, hms.1⟩, trivial⟩
      exact ⟨⟨trivial, ⟨trivial, trivial⟩, Form.holdsExpr_hook_call trivial trivial hfunction⟩,
        holds_assignMethods i ms hms.2⟩

/-- The body of a constructor has the form if the methods have it. -/
theorem Constructor.holds_constructorBody (i : ι) (ms : List (Method ι))
    (hms : form.HoldsMethods ms) : form.HoldsStmts (constructorBody i ms) := by
  have hcreate : form.HoldsExpr (Hook.createClass.call i []) :=
    Form.holdsExpr_hook_call trivial trivial trivial
  have hreturn : form.HoldsStmts [.ret i (.variable i constructedName)] :=
    ⟨⟨trivial, trivial, trivial⟩, trivial⟩
  exact ⟨⟨trivial, hcreate⟩, (holds_assignMethods i ms hms).append hreturn⟩

/-- Constructors are unnamed function literals. -/
theorem Constructor.mapper_keepsUnnamed : (mapper : Mapper Unit ι).KeepsUnnamed := by
  intro _ _ rebuilt h
  cases rebuilt with
  | classLit => rfl
  | _ => exact h

/-- Class literals become calls of constructors. -/
theorem Constructor.mapper_establishes :
    (mapper : Mapper Unit ι).Establishes Declaration.form form where
  heads _ _ := trivial
  stmt scope s hs hbelow := by
    rw [Mapper.stmt_eq]
    cases s with
    | expr e => exact ⟨mapper_keepsUnnamed.expr scope hs, hbelow⟩
    | _ => exact ⟨hs, hbelow⟩
  expr scope e _ hbelow := by
    change form.HoldsExpr (construction (mapper.rebuild scope e))
    cases e with
    | classLit i n ms =>
        exact ⟨trivial, Or.inr trivial, holds_constructorBody i _ hbelow, trivial⟩
    | _ => exact ⟨trivial, hbelow⟩

/-- Lowering member access makes no literals. -/
theorem Property.mapper_keepsUnnamed : (mapper : Mapper Unit ι).KeepsUnnamed := by
  intro _ _ rebuilt h
  cases rebuilt with
  | member => rfl
  | _ => exact h

/-- Accesses to members become calls of the runtime. -/
theorem Property.mapper_establishes :
    (mapper : Mapper Unit ι).Establishes Constructor.form form where
  heads _ _ := trivial
  stmt scope s hs hbelow := by
    rw [Mapper.stmt_eq]
    cases s with
    | assignMember i object n value =>
        have hinputs : form.HoldsExprs
            [mapper.expr scope object, .name i n, mapper.expr scope value] :=
          ⟨hbelow.1, ⟨trivial, trivial⟩, hbelow.2, trivial⟩
        exact ⟨rfl, Form.holdsExpr_hook_call trivial trivial hinputs⟩
    | expr e => exact ⟨mapper_keepsUnnamed.expr scope hs, hbelow⟩
    | _ => exact ⟨hs, hbelow⟩
  expr scope e he hbelow := by
    change form.HoldsExpr (access (mapper.rebuild scope e))
    cases e with
    | member i object n =>
        exact Form.holdsExpr_hook_call trivial trivial ⟨hbelow, ⟨trivial, trivial⟩, trivial⟩
    | _ => exact ⟨he, hbelow⟩

/-- Resolving global names makes no literals. -/
theorem GlobalName.mapper_keepsUnnamed : (mapper : Mapper (List String) ι).KeepsUnnamed := by
  intro _ _ rebuilt h
  cases rebuilt with
  | «variable» i n =>
      change (read _ (.variable i n)).isNamedLiteral = false
      rw [read]
      split <;> rfl
  | _ => exact h

/-- Uses of global names become calls of the runtime. -/
theorem GlobalName.mapper_establishes :
    (mapper : Mapper (List String) ι).Establishes Property.form Property.form where
  heads _ _ := trivial
  stmt scope s hs hbelow := by
    rw [Mapper.stmt_eq, mapper_onStmt]
    cases s with
    | declare i n value | assign i n value =>
        rw [Mapper.rebuildStmt, access]
        split
        · exact ⟨hs, hbelow⟩
        · exact ⟨rfl, Form.holdsExpr_hook_call trivial trivial
            ⟨⟨trivial, trivial⟩, hbelow, trivial⟩⟩
    | expr e => exact ⟨mapper_keepsUnnamed.expr scope hs, hbelow⟩
    | _ => exact ⟨hs, hbelow⟩
  expr scope e he hbelow := by
    rw [mapper_expr]
    cases e with
    | «variable» i n =>
        rw [Mapper.rebuild, read]
        split
        · exact ⟨trivial, trivial⟩
        · exact Form.holdsExpr_hook_call trivial trivial ⟨⟨trivial, trivial⟩, trivial⟩
    | _ => exact ⟨he, hbelow⟩

/-- Boxing makes no literals. -/
theorem BoxedName.mapper_keepsUnnamed :
    (mapper : Mapper (List (String × Bool)) ι).KeepsUnnamed := by
  intro _ _ rebuilt h
  cases rebuilt with
  | «variable» i n =>
      change (read _ (.variable i n)).isNamedLiteral = false
      rw [read]
      split <;> rfl
  | _ => exact h

/-- The statements that create boxes are of the form. -/
theorem BoxedName.holds_heads (params : List (Param ι)) (b : Block ι) :
    Property.form.HoldsStmts (heads params b) := by
  rw [Form.holdsStmts_iff]
  intro s hs
  obtain ⟨n, _, hhead⟩ := List.mem_filterMap.mp hs
  rw [head?] at hhead
  split at hhead
  · cases hhead
    exact ⟨trivial, Form.holdsExpr_hook_call trivial trivial ⟨⟨trivial, trivial⟩, trivial⟩⟩
  · obtain ⟨t, _, rfl⟩ := Option.map_eq_some_iff.mp hhead
    exact ⟨trivial, Form.holdsExpr_hook_call trivial trivial ⟨⟨trivial, trivial⟩, trivial⟩⟩

/-- Uses of boxed names become calls of box methods. -/
theorem BoxedName.mapper_establishes :
    (mapper : Mapper (List (String × Bool)) ι).Establishes Property.form Property.form where
  heads := holds_heads
  stmt scope s hs hbelow := by
    rw [Mapper.stmt_eq, mapper_onStmt]
    cases s with
    | declare i n value | assign i n value =>
        rw [Mapper.rebuildStmt, access]
        split
        · exact ⟨rfl, Form.holdsExpr_box_call trivial trivial ⟨hbelow, trivial⟩⟩
        · exact ⟨hs, hbelow⟩
    | expr e => exact ⟨mapper_keepsUnnamed.expr scope hs, hbelow⟩
    | _ => exact ⟨hs, hbelow⟩
  expr scope e he hbelow := by
    rw [mapper_expr]
    cases e with
    | «variable» i n =>
        rw [Mapper.rebuild, read]
        split
        · exact Form.holdsExpr_box_call trivial trivial trivial
        · exact ⟨trivial, trivial⟩
    | _ => exact ⟨he, hbelow⟩

/-- Closure conversion puts literals into calls and gives them no names. -/
theorem Closure.mapper_keepsUnnamed : (mapper : Mapper (List String) ι).KeepsUnnamed := by
  intro available e rebuilt h
  change (closure available e rebuilt).isNamedLiteral = false
  cases e with
  | functionLit i n params body =>
      rw [closure]
      cases rebuilt with
      | functionLit =>
          rw [bundle]
          split
          · exact h
          · rfl
      | _ => exact h
  | _ => exact h

/-- Bundling keeps the form: captures are read as variables. -/
theorem Closure.holds_bundle (captured : List String) (i : ι) (n : Option String)
    (params : List (Param ι)) (body : Block ι) (hbody : Property.form.HoldsStmts body) :
    Property.form.HoldsExpr (bundle captured (.functionLit i n params body)) := by
  rw [bundle]
  split
  · exact ⟨trivial, hbody⟩
  · have hreads : Property.form.HoldsExprs (captured.map (Expr.variable i ·)) := by
      rw [Form.holdsExprs_iff]
      intro e he
      obtain ⟨m, _, rfl⟩ := List.mem_map.mp he
      exact ⟨trivial, trivial⟩
    exact Form.holdsExpr_hook_call trivial trivial ⟨⟨trivial, hbody⟩, hreads⟩

/-- Function literals with captures become calls of the runtime. -/
theorem Closure.mapper_establishes :
    (mapper : Mapper (List String) ι).Establishes Property.form Property.form where
  heads _ _ := trivial
  stmt scope s hs hbelow := by
    rw [Mapper.stmt_eq, mapper_onStmt]
    cases s with
    | expr e => exact ⟨mapper_keepsUnnamed.expr scope hs, hbelow⟩
    | _ => exact ⟨hs, hbelow⟩
  expr scope e he hbelow := by
    rw [mapper_expr]
    cases e with
    | functionLit i n params body => exact holds_bundle _ i n params _ hbelow
    | _ => exact ⟨he, hbelow⟩

/-- Lowering function calls makes no literals. -/
theorem Application.mapper_keepsUnnamed : (mapper : Mapper Unit ι).KeepsUnnamed := by
  intro _ _ rebuilt h
  cases rebuilt with
  | call i callee inputs =>
      change (application (.call i callee inputs)).isNamedLiteral = false
      rw [application]
      split <;> rfl
  | _ => exact h

/-- A call is of the core form after the rule for calls if its parts are. -/
theorem Application.holds_application (i : ι) (callee : Expr ι) (inputs : List (Expr ι))
    (hbelow : Form.core.BelowExpr (.call i callee inputs)) :
    Form.core.HoldsExpr (application (.call i callee inputs)) := by
  rw [application]
  by_cases hmember : callee.isMember = true
  · rw [if_pos hmember]
    exact ⟨hmember, hbelow⟩
  · rw [if_neg hmember]
    rw [Form.BelowExpr] at hbelow
    have hcallee : Form.core.HoldsExpr callee :=
      ⟨hbelow.1.resolve_left hmember, hbelow.2.1⟩
    exact Form.holdsExpr_hook_call rfl trivial ⟨hcallee, hbelow.2.2⟩

/-- Calls of function values become calls of the runtime. -/
theorem Application.mapper_establishes :
    (mapper : Mapper Unit ι).Establishes Property.form .core where
  heads _ _ := trivial
  stmt scope s hs hbelow := by
    rw [Mapper.stmt_eq, mapper_onStmt]
    cases s with
    | expr e => exact ⟨mapper_keepsUnnamed.expr scope hs, hbelow⟩
    | _ => exact ⟨hs, hbelow⟩
  expr scope e he hbelow := by
    rw [mapper_expr]
    cases e with
    | call i callee inputs => exact holds_application i _ _ hbelow
    | _ => exact ⟨he, hbelow⟩

/-! ## The whole pipeline -/

/-- A lowered program is in core form: at every depth it has no imports, no class literals, no
assignments to and reads of members, no calls but of methods, and no named function literals that
stand as statements; and its top-level block sets no variable directly. -/
theorem lower_core (p : Program ι) : p.lower.IsCore where
  form := by
    have hdeclarations := Declaration.mapper_establishes.block () _ (Form.any_stmts p.statements)
    have hconstructors := Constructor.mapper_establishes.block () _ hdeclarations
    have hproperties := Property.mapper_establishes.block () _ hconstructors
    have hglobals := GlobalName.mapper_establishes.stmts [] _ hproperties
    have hboxes := BoxedName.mapper_establishes.block [] _ hglobals
    have hclosures := Closure.mapper_establishes.block [] _ hboxes
    exact Application.mapper_establishes.block () _ hclosures
  topLevel := by
    have hglobals := GlobalName.not_setsVariable_run (p.lowerUpTo .memberAccess)
    have hboxes := BoxedName.not_setsVariable_run _ hglobals
    have hclosures := Closure.mapper.not_setsVariable_stmts
      (Block.declared (p.lowerUpTo .boxing).statements ++ []) (fun _ _ => rfl) hboxes
    exact Application.mapper.not_setsVariable_stmts () (fun _ _ => rfl) hclosures

end Lowering
