import Lowering.Proofs.Rewriting
import Lowering.Proofs.TopLevel
import Lowering.Proofs.Undoing
import Lowering.Tree.Kind

/-!
# Names resolved by lexical scope

Two stages let uses of some names go through calls: of global names through the runtime, and of
boxed names through their boxes. An `Indirection` says which names these are, by the blocks around a
use, and which calls. Main statement: `globals_resolved_lexically`, for the global names. It says
what becomes of every node, and that nothing is lost: the calls can be turned back.
-/

namespace Lowering

variable {ι : Type}

/-- Names whose uses go through calls. -/
structure Indirection (ι : Type) where
  /-- The name is read and assigned through calls, inside the given blocks. -/
  Used : Enclosing ι → String → Prop
  /-- The name is declared through a call, inside the given blocks. -/
  Declared : Enclosing ι → String → Prop
  /-- The call for the value of a name. -/
  get : ι → String → Expr ι
  /-- The call that assigns a value to a name. -/
  set : ι → String → Expr ι → Expr ι
  /-- The call that gives a name the value of its declaration. -/
  define : ι → String → Expr ι → Expr ι

namespace Indirection

/-- What becomes of a statement, given with its children rewritten. -/
inductive OnStmt (D : Indirection ι) (around : Enclosing ι) : Stmt ι → Stmt ι → Prop where
  | define (i n value) : D.Declared around n →
      OnStmt D around (.declare i n value) (.expr (D.define i n value))
  | declare (i n value) : ¬ D.Declared around n →
      OnStmt D around (.declare i n value) (.declare i n value)
  | set (i n value) : D.Used around n →
      OnStmt D around (.assign i n value) (.expr (D.set i n value))
  | assign (i n value) : ¬ D.Used around n →
      OnStmt D around (.assign i n value) (.assign i n value)
  | other (s) : s.setsVariable = false → OnStmt D around s s

/-- What becomes of an expression, given with its children rewritten. -/
inductive OnExpr (D : Indirection ι) (around : Enclosing ι) : Expr ι → Expr ι → Prop where
  | get (i n) : D.Used around n → OnExpr D around (.variable i n) (D.get i n)
  | read (i n) : ¬ D.Used around n → OnExpr D around (.variable i n) (.variable i n)
  | other (e) : e.kind ≠ .variable → OnExpr D around e e

/-- Every use of such a name becomes a call, and all other nodes stay. -/
def rewriting (D : Indirection ι) : Rewriting ι where
  stmt := D.OnStmt
  expr around _ rebuilt result := D.OnExpr around rebuilt result

variable {D : Indirection ι} {around : Enclosing ι}

/-- A statement is rewritten in one way only. -/
theorem OnStmt.unique {s t t' : Stmt ι} (h : D.OnStmt around s t) (h' : D.OnStmt around s t') :
    t' = t := by
  cases h with
  | define i n value hn =>
      cases h' with
      | define => rfl
      | declare _ _ _ hn' => exact absurd hn hn'
      | other _ hsets => cases hsets
  | declare i n value hn =>
      cases h' with
      | define _ _ _ hn' => exact absurd hn' hn
      | declare => rfl
      | other => rfl
  | set i n value hn =>
      cases h' with
      | set => rfl
      | assign _ _ _ hn' => exact absurd hn hn'
      | other _ hsets => cases hsets
  | assign i n value hn =>
      cases h' with
      | set _ _ _ hn' => exact absurd hn' hn
      | assign => rfl
      | other => rfl
  | other _ hsets =>
      cases h' with
      | other => rfl
      | _ => cases hsets

/-- An expression is rewritten in one way only. -/
theorem OnExpr.unique {e t t' : Expr ι} (h : D.OnExpr around e t) (h' : D.OnExpr around e t') :
    t' = t := by
  cases h with
  | get i n hn =>
      cases h' with
      | get => rfl
      | read _ _ hn' => exact absurd hn hn'
      | other _ hkind => exact absurd rfl hkind
  | read i n hn =>
      cases h' with
      | get _ _ hn' => exact absurd hn' hn
      | read => rfl
      | other => rfl
  | other _ hkind =>
      cases h' with
      | other => rfl
      | _ => exact absurd rfl hkind

/-- So code is rewritten in one way only. -/
theorem rewriting_determined (D : Indirection ι) : D.rewriting.Determined where
  heads h h' := h'.trans h.symm
  stmt h h' := h.unique h'
  expr h h' := h.unique h'

/-! ### Rules that test a name -/

section Tests

variable {c : Prop} [Decidable c] {n : String} (i : ι) (value : Expr ι)

/-- A test for the names to define decides about a declaration. -/
theorem onStmt_declare (h : c ↔ D.Declared around n) :
    D.OnStmt around (.declare i n value)
      (if c then .expr (D.define i n value) else .declare i n value) := by
  split
  · exact .define i n value (h.mp ‹c›)
  · exact .declare i n value (mt h.mpr ‹¬ c›)

/-- A test for the names to use indirectly decides about an assignment. -/
theorem onStmt_assign (h : c ↔ D.Used around n) :
    D.OnStmt around (.assign i n value)
      (if c then .expr (D.set i n value) else .assign i n value) := by
  split
  · exact .set i n value (h.mp ‹c›)
  · exact .assign i n value (mt h.mpr ‹¬ c›)

/-- The same test decides about a read. -/
theorem onExpr_variable (h : c ↔ D.Used around n) :
    D.OnExpr around (.variable i n) (if c then D.get i n else .variable i n) := by
  split
  · exact .get i n (h.mp ‹c›)
  · exact .read i n (mt h.mpr ‹¬ c›)

end Tests

end Indirection

/-! ## Global names -/

namespace GlobalName

/-- A name is global where no function around it has it as a parameter and no block around it
declares it, the program itself apart. What the program declares directly is global. -/
def indirection : Indirection ι where
  Used around n := ¬ around.Binds n
  Declared around _ := around = []
  get i n := Hook.globalGet.call i [.name i n]
  set i n value := Hook.globalSet.call i [.name i n, value]
  define i n value := Hook.globalDefine.call i [.name i n, value]

/-- The scope is the list of the names that the blocks around bind. -/
def Fits (bound : List String) (around : Enclosing ι) : Prop :=
  ∀ n, n ∈ bound ↔ around.Binds n

/-- Inside a function, its parameters and what its body declares are bound besides. -/
theorem Fits.function {bound : List String} {around : Enclosing ι} (h : Fits bound around)
    (params : List (Param ι)) (b : Block ι) :
    Fits (b.declared ++ (Param.names params ++ bound)) ((params, b) :: around) := by
  intro n
  rw [List.mem_append, List.mem_append, h n, Enclosing.binds_cons, or_assoc, or_left_comm]

/-- The stage of global names rewrites uses as their lexical scopes require. -/
theorem mapper_follows : (mapper : Mapper (List String) ι).Follows indirection.rewriting
    (fun bound around _ => Fits bound around) where
  keepsMembers := mapper_keepsMembers
  fewer h _ := h
  function params b h := h.function params b
  block b h := h.function [] b
  heads _ _ := rfl
  stmt {bound around} s h hcontains := by
    rw [Mapper.stmt_eq, mapper_onStmt]
    cases s with
    | declare i n value =>
        rw [Mapper.rebuildStmt, access, ← ite_not]
        refine Indirection.onStmt_declare i _ ((not_congr (h n)).trans ?_)
        cases around with
        | nil => exact iff_of_true (Enclosing.not_binds_nil n) rfl
        | cons frame outer =>
            -- the innermost block binds what is declared in it
            have hdeclared : n ∈ Block.declared frame.2 :=
              Block.mem_declared.mpr ⟨_, hcontains, rfl⟩
            exact iff_of_false (not_not.mpr (Enclosing.binds_cons.mpr (.inl (.inr hdeclared))))
              (List.cons_ne_nil _ _)
    | assign i n value =>
        rw [Mapper.rebuildStmt, access, ← ite_not]
        exact Indirection.onStmt_assign i _ (not_congr (h n))
    | _ => exact .other _ rfl
  expr {bound around} e h := by
    show indirection.OnExpr around (mapper.rebuild bound e) (read bound (mapper.rebuild bound e))
    cases e with
    | «variable» i n =>
        rw [Mapper.rebuild, read, ← ite_not]
        exact Indirection.onExpr_variable i (not_congr (h n))
    | _ => exact .other _ (by simp [Mapper.rebuild, Expr.kind])

/-- Turn all uses of global names back. -/
def unresolve (p : Program ι) : Program ι :=
  ⟨undoing.stmts () p.statements⟩

end GlobalName

/-- Global names are resolved exactly by lexical scope: a name is read or assigned through the
runtime where nothing but the program itself binds it, a variable is declared through the runtime
where it stands directly in the program, and all else stays as it is. If the program makes none of
these calls itself, it can be got back by turning them back. -/
theorem globals_resolved_lexically (p : Program ι) :
    (∀ q, GlobalName.run p = q ↔
      GlobalName.indirection.rewriting.RewritesStmts [] p.statements q.statements) ∧
    (Stage.globals.avoided.HoldsStmts p.statements →
      GlobalName.unresolve (GlobalName.run p) = p) := by
  -- the statements of the program count as standing in no block, so that they declare globals
  have hrun : GlobalName.indirection.rewriting.RewritesStmts [] p.statements
      (GlobalName.run p).statements :=
    GlobalName.mapper_follows.stmts p.statements
      (fun n => iff_of_false List.not_mem_nil (Enclosing.not_binds_nil n)) fun _ _ => trivial
  refine ⟨fun q => ⟨fun hq => hq ▸ hrun, fun hq => ?_⟩, fun hp => ?_⟩
  · exact congrArg Program.mk ((Indirection.rewriting_determined _).stmts _ hq hrun)
  · exact congrArg Program.mk (GlobalName.undoneBy.stmts_eq [] hp)

/-- The name `x` is global but in one branch, which declares it after a use. -/
def shadowingProgram : Program ℕ :=
  ⟨[.declare 1 "x" (.number 2 "1"),
    .expr (.functionLit 3 (some "f") [⟨4, "y"⟩]
      [.assign 5 "y" (.variable 6 "x"),
        .branch 7 (.variable 8 "y")
          [.assign 9 "x" (.variable 10 "y"), .declare 11 "x" (.variable 12 "x")]
          [.assign 13 "x" (.variable 14 "y")],
        .ret 15 (.functionLit 16 none [] [.ret 17 (.variable 18 "x")])])]⟩

/-- All uses of `x` are resolved but those in the branch that declares it. -/
theorem shadowingProgram_resolved :
    let resolved : Program ℕ :=
      ⟨[.expr (Hook.globalDefine.call 1 [.name 1 "x", .number 2 "1"]),
        .expr (.functionLit 3 (some "f") [⟨4, "y"⟩]
          [.assign 5 "y" (Hook.globalGet.call 6 [.name 6 "x"]),
            .branch 7 (.variable 8 "y")
              [.assign 9 "x" (.variable 10 "y"), .declare 11 "x" (.variable 12 "x")]
              [.expr (Hook.globalSet.call 13 [.name 13 "x", .variable 14 "y"])],
            .ret 15 (.functionLit 16 none []
              [.ret 17 (Hook.globalGet.call 18 [.name 18 "x"])])])]⟩
    GlobalName.indirection.rewriting.RewritesStmts [] shadowingProgram.statements
      resolved.statements ∧
    Stage.globals.avoided.HoldsStmts shadowingProgram.statements ∧
    GlobalName.unresolve resolved = shadowingProgram := by
  intro resolved
  have hrun : GlobalName.run shadowingProgram = resolved := rfl
  have havoided : Stage.globals.avoided.HoldsStmts shadowingProgram.statements := by
    simp [shadowingProgram, Stage.avoided, Form.calls, Expr.hook?, Form.HoldsStmts, Form.BelowStmt,
      Form.BelowExpr]
  obtain ⟨hresolved, hback⟩ := globals_resolved_lexically shadowingProgram
  exact ⟨(hresolved resolved).mp hrun, havoided, hrun ▸ hback havoided⟩

end Lowering
