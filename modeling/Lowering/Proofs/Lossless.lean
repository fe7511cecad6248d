import Lowering.Proofs.Unboxing

/-!
# Lowering loses no program

Each stage from the conversion of classes on can be undone, provided that nothing calls the hooks of
the stage before it runs. A program that calls no hooks itself meets this at every stage, since the
stages call different hooks (`Stage.not_mem_emits`). So such a program with its declarations
resolved can be restored from what it is lowered to, but for the names of its classes
(`Program.HookFree.restored_lower`). Main statement: `resolved_eq_of_lower_eq`.
-/

namespace Lowering

variable {ι : Type}

/-- No two stages call the same hook. -/
theorem Stage.not_mem_emits {stage next : Stage} (h : stage < next) :
    ∀ hook ∈ stage.emits, hook ∉ next.emits := by
  revert h
  cases stage <;> cases next <;> decide

namespace Program

/-- The program without the names of its class literals. -/
def withoutClassNames (p : Program ι) : Program ι :=
  ⟨Constructor.unnaming.block () p.statements⟩

/-- Undo all stages but the first one, the last one first. -/
def restored (p : Program ι) : Program ι :=
  let applied := Application.undoing.block () p.statements
  let unbundled := Closure.undoing.block () applied
  let unboxed := Unboxing.body [] [] unbundled
  let bound := GlobalName.undoing.block () unboxed
  let accessed := Property.undoing.block () bound
  ⟨Constructor.undoing.block () accessed⟩

/-- Before a stage runs, nothing calls its hooks. -/
theorem HookFree.avoided_lowerUpTo {p : Program ι} (hp : p.HookFree) (last next : Stage)
    (h : last < next) : next.avoided.HoldsStmts (p.lowerUpTo last).statements :=
  hp.calls_lowerUpTo fun _ hstage =>
    Stage.not_mem_emits ((Stage.mem_upTo.mp hstage).trans_lt h)

/-- What a program without calls of hooks is lowered to determines the program with its declarations
resolved, but for the names of its classes. -/
theorem HookFree.restored_lower {p : Program ι} (hp : p.HookFree) :
    p.lower.restored = (Declaration.run p).withoutClassNames := by
  have happlied : Application.undoing.block () p.lower.statements =
      (p.lowerUpTo .closures).statements :=
    Application.undoneBy.block_eq () (hp.avoided_lowerUpTo .closures .functionCalls (by decide))
  have hunbundled : Closure.undoing.block () (p.lowerUpTo .closures).statements =
      (p.lowerUpTo .boxing).statements :=
    Closure.undoneBy.block_eq [] (hp.avoided_lowerUpTo .boxing .closures (by decide))
  have hunboxed : Unboxing.body [] [] (p.lowerUpTo .boxing).statements =
      (p.lowerUpTo .globals).statements :=
    Unboxing.body_run (hp.avoided_lowerUpTo .globals .boxing (by decide))
  have hbound : GlobalName.undoing.block () (p.lowerUpTo .globals).statements =
      (p.lowerUpTo .memberAccess).statements :=
    GlobalName.undoneBy.stmts_eq [] (hp.avoided_lowerUpTo .memberAccess .globals (by decide))
  have haccessed : Property.undoing.block () (p.lowerUpTo .memberAccess).statements =
      (p.lowerUpTo .classes).statements :=
    Property.undoneBy.block_eq () (hp.avoided_lowerUpTo .classes .memberAccess (by decide))
  have hconstructed : Constructor.undoing.block () (p.lowerUpTo .classes).statements =
      (Declaration.run p).withoutClassNames.statements :=
    Constructor.undoing_composes.stmts trivial _
      (hp.avoided_lowerUpTo .declarators .classes (by decide))
  rw [restored, happlied, hunbundled, hunboxed, hbound, haccessed, hconstructed]

end Program

/-- If two programs that call no hooks themselves are lowered to the same program, then they are the
same program once their declarations are resolved and the names of their classes are dropped. -/
theorem resolved_eq_of_lower_eq {p q : Program ι} (hp : p.HookFree) (hq : q.HookFree)
    (h : p.lower = q.lower) :
    (Declaration.run p).withoutClassNames = (Declaration.run q).withoutClassNames := by
  rw [← hp.restored_lower, ← hq.restored_lower, h]

/-- The body of a function with a parameter `start`. It returns a function that changes a variable
of the outer one, by a method that is called as the methods of boxes are. -/
def counterBody : Block ℕ :=
  [.declare 2 "n" (.variable 3 "start"),
    .ret 4 (.functionLit 5 none []
      [.assign 6 "n" (.call 7 (.member 8 (.variable 9 "n") "get") []), .ret 10 (.variable 11 "n")])]

/-- A program that declares the function `counter` in one way or the other, and a class whose method
calls the function. -/
def counterProgram (counter : Stmt ℕ) (className : Option String) : Program ℕ :=
  ⟨[counter,
    .declare 12 "made" (.classLit 13 className
      [.mk 14 "make" []
        [.ret 15 (.call 16 (.variable 17 "counter")
          [.member 18 (.variable 19 "this") "start"])]])]⟩

/-- It does not matter for what such a program is lowered to whether the function is named or
assigned to a variable, and whether the class is named. -/
theorem resolved_counterProgram_eq :
    let params : List (Param ℕ) := [⟨20, "start"⟩]
    let named := counterProgram (.expr (.functionLit 1 (some "counter") params counterBody))
      (some "Counter")
    let unnamed := counterProgram (.declare 1 "counter" (.functionLit 1 none params counterBody))
      none
    named.HookFree ∧ unnamed.HookFree ∧ named.lower = unnamed.lower ∧
      (Declaration.run named).withoutClassNames = (Declaration.run unnamed).withoutClassNames := by
  intro params named unnamed
  have hnamed : named.HookFree := by
    simp [named, counterProgram, counterBody, Program.HookFree, Form.calls, Expr.hook?,
      Form.HoldsStmts, Form.BelowStmt, Form.BelowExpr, Form.HoldsExprs, Form.HoldsMethods,
      Form.HoldsMethod]
  have hunnamed : unnamed.HookFree := by
    simp [unnamed, counterProgram, counterBody, Program.HookFree, Form.calls, Expr.hook?,
      Form.HoldsStmts, Form.BelowStmt, Form.BelowExpr, Form.HoldsExprs, Form.HoldsMethods,
      Form.HoldsMethod]
  have hlower : named.lower = unnamed.lower := rfl
  exact ⟨hnamed, hunnamed, hlower, resolved_eq_of_lower_eq hnamed hunnamed hlower⟩

end Lowering
