import Lowering.Proofs.ClosedFunctions

/-!
# Literals

The text and number literals of a program, in evaluation order and with their infos, tell whether
source code is lost, duplicated or reordered. A stage moves expressions between statements, callees,
inputs and functions, and makes nodes of its own, but none of these is a literal: each rule keeps
the literals of the node it applies to, so every stage keeps those of the whole program. Main
statement: `literals_runStages`.
-/

namespace Lowering

variable {σ ι : Type}

/-- A literal with its info. -/
inductive Literal (ι : Type) where
  | text (info : ι) (text : String)
  | number (info : ι) (digits : String)
deriving DecidableEq

namespace Literal

/-- Text and number literals contribute themselves. An import contributes its path as a text. -/
def collector : Collector Unit ι (Literal ι) where
  onStmt
    | _, .importPackage i _ path => [.text i path]
    | _, _ => []
  onExpr
    | _, .text i t => [.text i t]
    | _, .number i d => [.number i d]
    | _, _ => []

section Rules

variable (u : Unit)

/-- Blocks are no literals. -/
@[simp] theorem collector_onBlock (params : List (Param ι)) (b : Block ι) :
    collector.onBlock u params b = [] := rfl

/-- An import holds its path. -/
@[simp] theorem collector_onStmt (s : Stmt ι) :
    collector.onStmt u s =
      match s with
      | .importPackage i _ path => [.text i path]
      | _ => [] := by
  cases s <;> rfl

/-- Nothing comes after the literals in the parts of a statement. -/
@[simp] theorem collector_afterStmt (s : Stmt ι) : collector.afterStmt u s = [] := rfl

/-- Texts and numbers are literals. -/
@[simp] theorem collector_onExpr (e : Expr ι) :
    collector.onExpr u e =
      match e with
      | .text i t => [.text i t]
      | .number i d => [.number i d]
      | _ => [] := by
  cases e <;> rfl

/-- Methods are no literals. -/
@[simp] theorem collector_onMethod (m : Method ι) : collector.onMethod u m = [] := rfl

/-- A call of a hook has the literals of its inputs. -/
@[simp] theorem collector_hook_call (hook : Hook) (i : ι) (inputs : List (Expr ι)) :
    collector.expr u (hook.call i inputs) = collector.exprs u inputs := by
  simp [Hook.call, Expr.callMethod, Collector.expr]

/-- So has a call of a box method. -/
@[simp] theorem collector_box_call (op : BoxOp) (i : ι) (n : String) (inputs : List (Expr ι)) :
    collector.expr u (op.call i n inputs) = collector.exprs u inputs := by
  simp [BoxOp.call, Expr.callMethod, Collector.expr]

/-- Reads of variables as inputs have no literals. -/
@[simp] theorem collector_variables (i : ι) (names : List String) :
    collector.exprs u (names.map (Expr.variable i ·)) = [] := by
  induction names with
  | nil => rfl
  | cons n ns ih => simp [Collector.exprs, Collector.expr, ih]

end Rules

end Literal

/-- The literals of a program, in evaluation order. -/
def Program.literals (p : Program ι) : List (Literal ι) :=
  Literal.collector.block () p.statements

open Literal (collector)

/-! ## Mapped trees -/

/-- A mapped tree has the literals of the tree. -/
abbrev Mapper.KeepsLiterals (M : Mapper σ ι) : Prop :=
  M.Carries collector collector (fun _ _ _ => True) (fun before after => after = before)

/-- It is so if the heads have no literals and each rule keeps the literals of its node. -/
theorem Mapper.keepsLiterals_of_rules {M : Mapper σ ι}
    (hheads : ∀ params b, collector.stmts () (M.heads params b) = [])
    (hstmt : ∀ scope s, collector.stmt () (M.onStmt scope s) = collector.stmt () s)
    (hexpr : ∀ scope e,
      collector.expr () (M.expr scope e) = collector.expr () (M.rebuild scope e)) :
    M.KeepsLiterals :=
  carries_of_rules (fun _ _ => rfl) (fun _ => rfl) (fun _ => rfl) hheads
    (fun _ s => by cases s <;> rfl) (fun _ e => by cases e <;> rfl) hstmt hexpr

/-! ## The stages -/

/-- A declared import has its path as a text, and named literals keep their code. -/
theorem Declaration.mapper_keepsLiterals : (mapper : Mapper Unit ι).KeepsLiterals := by
  refine Mapper.keepsLiterals_of_rules (fun _ _ => rfl) (fun _ s => ?_) (fun _ _ => rfl)
  show collector.stmt () (declaration s) = collector.stmt () s
  cases s with
  | importPackage i n path => simp [declaration, Collector.stmt, Collector.exprs, Collector.expr]
  | expr e =>
      cases e with
      | functionLit i n params body => cases n <;> rfl
      | classLit i n methods => cases n <;> rfl
      | _ => rfl
  | _ => rfl

namespace Constructor

/-- The assignments of methods to a class have the literals of the methods. -/
theorem literals_assignMethods (u : Unit) (i : ι) (methods : List (Method ι)) :
    collector.stmts u (methods.map (assignMethod i)) = collector.methods u methods := by
  induction methods with
  | nil => rfl
  | cons m ms ih =>
      cases m with
      | mk j n params body =>
          have hbody : collector.stmt u (assignMethod i (.mk j n params body)) =
              collector.method u (.mk j n params body) := by
            simp [assignMethod, methodFunction, Collector.stmt, Collector.exprs, Collector.expr,
              Collector.method]
          rw [List.map_cons, Collector.stmts, Collector.methods, ih, hbody]

/-- The call of a constructor has the literals of the class. -/
theorem literals_construction (e : Expr ι) :
    collector.expr () (construction e) = collector.expr () e := by
  cases e with
  | classLit i n methods =>
      simp [construction, constructorBody, Collector.expr, Collector.exprs, Collector.stmts,
        Collector.stmt, Collector.stmts_append, literals_assignMethods]
  | _ => rfl

/-- The stage of classes keeps all literals. -/
theorem mapper_keepsLiterals : (mapper : Mapper Unit ι).KeepsLiterals :=
  Mapper.keepsLiterals_of_rules (fun _ _ => rfl) (fun _ _ => rfl)
    (fun scope e => literals_construction (mapper.rebuild scope e))

end Constructor

/-- The name of a property is no literal, and an object still comes before the assigned value. -/
theorem Property.mapper_keepsLiterals : (mapper : Mapper Unit ι).KeepsLiterals := by
  refine Mapper.keepsLiterals_of_rules (fun _ _ => rfl) (fun _ s => ?_) (fun scope e => ?_)
  · show collector.stmt () (assignment s) = collector.stmt () s
    cases s with
    | assignMember i object n value =>
        simp [assignment, Collector.stmt, Collector.exprs, Collector.expr]
    | _ => rfl
  · show collector.expr () (access (mapper.rebuild scope e)) = _
    cases e with
    | member i object n =>
        rw [Mapper.rebuild_member]
        simp [access, Collector.exprs, Collector.expr]
    | _ => rfl

/-- Resolving global names keeps all literals. -/
theorem GlobalName.mapper_keepsLiterals : (mapper : Mapper (List String) ι).KeepsLiterals := by
  refine Mapper.keepsLiterals_of_rules (fun _ _ => rfl) (fun bound s => ?_) (fun bound e => ?_)
  · rw [mapper_onStmt]
    cases s with
    | declare i n value | assign i n value =>
        rw [access]
        split
        · rfl
        · simp [Collector.stmt, Collector.exprs, Collector.expr]
    | _ => rfl
  · rw [mapper_expr]
    cases e with
    | «variable» i n =>
        rw [Mapper.rebuild, read]
        split
        · rfl
        · simp [Collector.exprs, Collector.expr]
    | _ => rfl

/-- The statements that create boxes have no literals. -/
theorem BoxedName.literals_heads (params : List (Param ι)) (b : Block ι) :
    collector.stmts () (heads params b) = [] := by
  rw [Collector.stmts_eq_flatMap, List.flatMap_eq_nil_iff]
  intro s hs
  obtain ⟨i, n, -, ⟨-, rfl⟩ | ⟨-, -, rfl⟩⟩ := mem_heads hs
  · simp [Collector.stmt, Collector.exprs, Collector.expr]
  · simp [Collector.stmt, Collector.exprs, Collector.expr]

/-- Boxing keeps all literals. -/
theorem BoxedName.mapper_keepsLiterals :
    (mapper : Mapper (List (String × Bool)) ι).KeepsLiterals := by
  refine Mapper.keepsLiterals_of_rules literals_heads (fun scope s => ?_) (fun scope e => ?_)
  · rw [mapper_onStmt]
    cases s with
    | declare i n value | assign i n value =>
        rw [access]
        split
        · simp [Collector.stmt, Collector.exprs]
        · rfl
    | _ => rfl
  · rw [mapper_expr]
    cases e with
    | «variable» i n =>
        rw [Mapper.rebuild, read]
        split
        · simp [Collector.exprs, Collector.expr]
        · rfl
    | _ => rfl

/-- The captures of a function are variables, as parameters and as inputs. -/
theorem Closure.mapper_keepsLiterals : (mapper : Mapper (List String) ι).KeepsLiterals := by
  refine Mapper.keepsLiterals_of_rules (fun _ _ => rfl) (fun _ _ => rfl) (fun available e => ?_)
  cases e with
  | functionLit i n params b =>
      rw [expr_functionLit, bundle]
      split
      · rfl
      · rw [Literal.collector_hook_call, Collector.exprs, Literal.collector_variables,
          List.append_nil]
        rfl
  | _ => rfl

/-- A callee that becomes an input still comes before the other inputs. -/
theorem Application.mapper_keepsLiterals : (mapper : Mapper Unit ι).KeepsLiterals :=
  Mapper.keepsLiterals_of_rules (fun _ _ => rfl) (fun _ _ => rfl)
    (fun _ e => collect_expr (fun _ _ _ => rfl) (Literal.collector_hook_call ()) e)

/-- Each stage, run alone, keeps the literals of a program. -/
theorem Stage.literals_run (stage : Stage) (p : Program ι) :
    (stage.run p).literals = p.literals := by
  cases stage with
  | declarators => exact Declaration.mapper_keepsLiterals.block trivial p.statements
  | classes => exact Constructor.mapper_keepsLiterals.block trivial p.statements
  | memberAccess => exact Property.mapper_keepsLiterals.block trivial p.statements
  | globals => exact GlobalName.mapper_keepsLiterals.stmts trivial p.statements
  | boxing => exact BoxedName.mapper_keepsLiterals.block trivial p.statements
  | closures => exact Closure.mapper_keepsLiterals.block trivial p.statements
  | functionCalls => exact Application.mapper_keepsLiterals.block trivial p.statements

/-- No source expression is lost, duplicated or reordered: stages run in any order keep the literals
of a program, in evaluation order and with their infos. -/
theorem literals_runStages (stages : List Stage) (p : Program ι) :
    (p.runStages stages).literals = p.literals := by
  induction stages generalizing p with
  | nil => rfl
  | cons stage rest ih =>
      calc
        (p.runStages (stage :: rest)).literals = ((stage.run p).runStages rest).literals := rfl
        _ = (stage.run p).literals := ih (stage.run p)
        _ = p.literals := stage.literals_run p

end Lowering
