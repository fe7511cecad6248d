import Lowering.Proofs.ClosedFunctions
import Lowering.Proofs.StageOrder

/-!
# Lowering statement by statement

The top-level statements of a program are lowered one by one. Boxing and closure conversion look at
whole blocks, so they have this only at a top level that sets no variable: there the block needs no
boxes and binds no names. The resolution of global names leaves such a top level, and the stages
after it keep it so. Main statement: `lowerUpTo_append`.
-/

namespace Lowering

variable {ι : Type}

/-- No statement of the top-level block declares or assigns a variable. -/
def Program.SetsNothing (p : Program ι) : Prop :=
  ∀ s ∈ p.statements, s.setsVariable = false

/-- What a stage does to a single statement outside all scopes. -/
def Stage.onStmt : Stage → Stmt ι → Stmt ι
  | .declarators => Declaration.mapper.stmt ()
  | .classes => Constructor.mapper.stmt ()
  | .memberAccess => Property.mapper.stmt ()
  | .globals => GlobalName.mapper.stmt []
  | .boxing => BoxedName.mapper.stmt []
  | .closures => Closure.mapper.stmt []
  | .functionCalls => Application.mapper.stmt ()

/-- Run stages one after the other on a single statement outside all scopes. -/
def Stmt.runStages (stages : List Stage) (s : Stmt ι) : Stmt ι :=
  stages.foldl (fun t stage => stage.onStmt t) s

/-- Stages in a row are run one after the other. -/
theorem Stmt.runStages_append (first second : List Stage) (s : Stmt ι) :
    s.runStages (first ++ second) = (s.runStages first).runStages second :=
  List.foldl_append

/-! ## One stage -/

namespace Stage

/-- Up to the resolution of global names, a stage maps the top-level statements one by one. -/
theorem statements_run_early {stage : Stage} (h : stage ≤ globals) (p : Program ι) :
    (stage.run p).statements = p.statements.map stage.onStmt := by
  cases stage with
  | declarators | classes | memberAccess | globals => exact Mapper.stmts_eq_map ..
  | boxing | closures | functionCalls => exact absurd h (by decide)

/-- At a top level that sets nothing, every stage does. -/
theorem statements_run (stage : Stage) {p : Program ι} (hp : p.SetsNothing) :
    (stage.run p).statements = p.statements.map stage.onStmt := by
  have hdeclared := Block.declared_eq_nil hp
  cases stage with
  | declarators | classes | memberAccess | globals => exact statements_run_early (by decide) p
  | boxing =>
      have hheads : BoxedName.heads [] p.statements = [] := by
        simp [BoxedName.heads, BoxedName.boxedNames, hdeclared, Param.names, Names.sorted]
      show BoxedName.heads [] p.statements ++ BoxedName.mapper.stmts
        (BoxedName.extend (Block.declared p.statements) p.statements []) p.statements = _
      rw [hheads, hdeclared, List.nil_append]
      exact Mapper.stmts_eq_map ..
  | closures =>
      show Closure.mapper.stmts (Block.declared p.statements ++ []) p.statements = _
      rw [hdeclared]
      exact Mapper.stmts_eq_map ..
  | functionCalls => exact Mapper.stmts_eq_map ..

/-- From the resolution of global names on, a top level that sets nothing is kept. -/
theorem setsNothing_run {stage : Stage} (h : globals ≤ stage) {p : Program ι}
    (hp : p.SetsNothing) : (stage.run p).SetsNothing := by
  cases stage with
  | globals => exact GlobalName.not_setsVariable_run p
  | boxing => exact BoxedName.not_setsVariable_run p hp
  | closures => exact Closure.mapper.not_setsVariable_stmts _ (fun _ _ => rfl) hp
  | functionCalls => exact Application.mapper.not_setsVariable_stmts _ (fun _ _ => rfl) hp
  | declarators | classes | memberAccess => exact absurd h (by decide)

end Stage

/-! ## A run of stages -/

namespace Program

/-- Stages up to the resolution of global names map the top-level statements one by one. -/
theorem statements_runStages_early {stages : List Stage}
    (h : ∀ stage ∈ stages, stage ≤ Stage.globals) (p : Program ι) :
    (p.runStages stages).statements = p.statements.map (Stmt.runStages stages) := by
  induction stages generalizing p with
  | nil => exact (List.map_id _).symm
  | cons stage rest ih =>
      have hrest := ih (fun t ht => h t (List.mem_cons_of_mem _ ht)) (stage.run p)
      have hstage := Stage.statements_run_early (h stage List.mem_cons_self) p
      show ((stage.run p).runStages rest).statements = _
      rw [hrest, hstage, List.map_map]
      rfl

/-- At a top level that sets nothing, so do the stages from there on. -/
theorem statements_runStages {stages : List Stage}
    (h : ∀ stage ∈ stages, Stage.globals ≤ stage) {p : Program ι}
    (hp : p.SetsNothing) :
    (p.runStages stages).statements = p.statements.map (Stmt.runStages stages) := by
  induction stages generalizing p with
  | nil => exact (List.map_id _).symm
  | cons stage rest ih =>
      have hkept := Stage.setsNothing_run (h stage List.mem_cons_self) hp
      have hrest := ih (fun t ht => h t (List.mem_cons_of_mem _ ht)) hkept
      show ((stage.run p).runStages rest).statements = _
      rw [hrest, stage.statements_run hp, List.map_map]
      rfl

/-- Stages from there on keep a top level that sets nothing. -/
theorem SetsNothing.runStages {stages : List Stage} (h : ∀ stage ∈ stages, Stage.globals ≤ stage)
    {p : Program ι} (hp : p.SetsNothing) : (p.runStages stages).SetsNothing := by
  induction stages generalizing p with
  | nil => exact hp
  | cons stage rest ih =>
      have hkept := Stage.setsNothing_run (h stage List.mem_cons_self) hp
      exact ih (fun t ht => h t (List.mem_cons_of_mem _ ht)) hkept

/-- From the resolution of global names on, the top level sets nothing. -/
theorem setsNothing_lowerUpTo {last : Stage} (h : Stage.globals ≤ last) (p : Program ι) :
    (p.lowerUpTo last).SetsNothing := by
  have hglobals : (p.lowerUpTo .globals).SetsNothing := GlobalName.not_setsVariable_run _
  rw [p.lowerUpTo_of_le h]
  exact hglobals.runStages fun _ hstage => (Stage.lt_of_mem_filter hstage).le

/-- A program is lowered by lowering each of its top-level statements. -/
theorem statements_lowerUpTo (p : Program ι) (last : Stage) :
    (p.lowerUpTo last).statements = p.statements.map (Stmt.runStages last.upTo) := by
  rcases le_total last Stage.globals with hlast | hlast
  · apply statements_runStages_early
    intro stage hstage
    exact (Stage.mem_upTo.mp hstage).trans hlast
  · -- the stages split at the resolution of global names, after which nothing is set
    have hearly : (p.runStages Stage.globals.upTo).statements = _ :=
      p.statements_runStages_early (by decide)
    have hnothing : (p.lowerUpTo .globals).SetsNothing := GlobalName.not_setsVariable_run _
    have hlate : ∀ stage ∈ last.upTo.filter (Stage.globals < ·), Stage.globals ≤ stage :=
      fun _ hstage => (Stage.lt_of_mem_filter hstage).le
    calc
      (p.lowerUpTo last).statements
          = ((p.lowerUpTo .globals).runStages
              (last.upTo.filter (Stage.globals < ·))).statements := by
            rw [p.lowerUpTo_of_le hlast]
      _ = (p.lowerUpTo .globals).statements.map
            (Stmt.runStages (last.upTo.filter (Stage.globals < ·))) :=
            statements_runStages hlate hnothing
      _ = p.statements.map (Stmt.runStages
            (Stage.globals.upTo ++ last.upTo.filter (Stage.globals < ·))) := by
            rw [lowerUpTo, hearly, List.map_map]
            exact List.map_congr_left fun s _ => (Stmt.runStages_append ..).symm
      _ = p.statements.map (Stmt.runStages last.upTo) := by
            rw [← Stage.upTo_eq_append hlast]

end Program

/-- Top-level statements lower independently: a program of two parts lowers to the statements of the
first part lowered alone, followed by those of the second part lowered alone. -/
theorem lowerUpTo_append (last : Stage) (first second : Block ι) :
    ((⟨first ++ second⟩ : Program ι).lowerUpTo last).statements =
      ((⟨first⟩ : Program ι).lowerUpTo last).statements ++
        ((⟨second⟩ : Program ι).lowerUpTo last).statements := by
  simp only [Program.statements_lowerUpTo, List.map_append]

end Lowering
