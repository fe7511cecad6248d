import Lowering.Proofs.DeclaredFirst
import Lowering.Proofs.IdleStages

/-!
# Lowering what is lowered already

A run of the pipeline leaves nothing to do for any stage up to the one it ends with: the forms of
the early stages last (`Stage.holds_lowerUpTo`), all names stay bound (`Program.free_lowerUpTo`),
and no block comes to need a box, since after closure conversion no function uses a name from around
it (`NameUse.entails_blocks`). So runs can be interrupted and taken up again anywhere. Main
statement: `lowerUpTo_reentry`.
-/

namespace Lowering

variable {ι : Type}

/-! ## Forms last -/

namespace Stage

/-- The form of a program that has been lowered up to a stage. -/
def form : Stage → Form ι
  | declarators => Declaration.form
  | classes => Constructor.form
  | memberAccess | globals | boxing | closures => Property.form
  | functionCalls => .core

/-- A program that has been lowered up to a stage has the form of the stage. -/
theorem holds_lowerUpTo (last : Stage) (p : Program ι) :
    last.form.HoldsStmts (p.lowerUpTo last).statements := by
  have hdeclarations := Declaration.mapper_establishes.block () _ (Form.any_stmts p.statements)
  have hconstructors := Constructor.mapper_establishes.block () _ hdeclarations
  have hproperties := Property.mapper_establishes.block () _ hconstructors
  have hglobals := GlobalName.mapper_establishes.stmts [] _ hproperties
  have hboxes := BoxedName.mapper_establishes.block [] _ hglobals
  have hclosures := Closure.mapper_establishes.block [] _ hboxes
  cases last with
  | declarators => exact hdeclarations
  | classes => exact hconstructors
  | memberAccess => exact hproperties
  | globals => exact hglobals
  | boxing => exact hboxes
  | closures => exact hclosures
  | functionCalls => exact Application.mapper_establishes.block () _ hclosures

/-- The form of a later stage is narrower for statements. -/
theorem form_stmt_of_le {stage last : Stage} (h : stage ≤ last) {s : Stmt ι}
    (hs : last.form.stmt s) : stage.form.stmt s := by
  cases s <;> cases stage <;> cases last <;> first | exact hs | trivial

/-- The form of a later stage is narrower for expressions. -/
theorem form_expr_of_le {stage last : Stage} (h : stage ≤ last) {e : Expr ι}
    (he : last.form.expr e) : stage.form.expr e := by
  cases e <;> cases stage <;> cases last <;> first | exact he | trivial

/-- A mapper that leaves alone nodes of the form of a stage leaves alone what has been lowered so
far or further. -/
theorem block_lowerUpTo {stage last : Stage} (h : stage ≤ last) {M : Mapper Unit ι}
    (hM : M.Fixes stage.form) (p : Program ι) :
    M.block () (p.lowerUpTo last).statements = (p.lowerUpTo last).statements :=
  (hM.mono (fun _ => form_stmt_of_le h) (fun _ => form_expr_of_le h)).block ()
    (last.holds_lowerUpTo p)

end Stage

/-! ## Functions stay closed -/

/-- Closure conversion closes the functions of a program without free names. -/
theorem Closure.functionsClosed_run {p : Program ι} (hp : p.SetsNothing)
    (hfree : freeNameCollector.stmts [] p.statements = []) : (run p).FunctionsClosed := by
  have hbound : ∀ n ∈ freeNameCollector.stmts [] p.statements, n ∈ [] := by
    rw [hfree]
    exact fun n hn => hn
  show ∀ use ∈ NameUse.collector.stmts [] (mapper.stmts (Block.declared p.statements ++ [])
    p.statements), use.name ∈ use.bound
  rw [Block.declared_eq_nil hp]
  exact closed_stmts [] p.statements hbound

namespace Program

/-- From closure conversion on, functions are closed. -/
theorem functionsClosed_lowerUpTo {last : Stage} (h : .closures ≤ last) (p : Program ι) :
    (p.lowerUpTo last).FunctionsClosed := by
  have hboxing : (p.lowerUpTo .boxing).SetsNothing := p.setsNothing_lowerUpTo (by decide)
  have hclosures : (p.lowerUpTo .closures).FunctionsClosed :=
    Closure.functionsClosed_run hboxing p.free_lowerUpTo_boxing
  cases last with
  | closures => exact hclosures
  | functionCalls =>
      intro use huse
      exact hclosures use (by rwa [nameUses, ← uses_applied_stmts])
  | _ => exact absurd h (by decide)

/-- From the resolution of global names on, no name is free. -/
theorem free_lowerUpTo {last : Stage} (h : .globals ≤ last) (p : Program ι) :
    freeNameCollector.stmts [] (p.lowerUpTo last).statements = [] := by
  cases last with
  | globals => exact free_resolved_stmts [] _
  | boxing => exact p.free_lowerUpTo_boxing
  | closures | functionCalls => exact (p.functionsClosed_lowerUpTo (by decide)).free_eq
  | _ => exact absurd h (by decide)

end Program

/-! ## No more boxes -/

/-- Code whose functions are closed uses no name inside of a function, seen from a block around the
function. -/
theorem NameUse.entails_accesses : NameUse.collector.Entails (fun use => use.name ∈ use.bound)
    (Access.collector : Collector _ ι _) (fun a => ∀ n, a.usesInside n = false)
    (fun bound v => v.inside = true → ∀ n ∈ bound, n ∈ v.rebound) where
  ofFunction _ params b _ _ n hn := List.mem_append_left _ hn
  ofBlock h params b _ hinside n hn :=
    (List.mem_append.mp hn).elim (List.mem_append_left _)
      fun hn => List.mem_append_right _ (h hinside n hn)
  onBlock _ _ _ _ _ ha := absurd ha List.not_mem_nil
  onStmt := by
    intro bound v h s huses
    refine ⟨fun a ha => absurd ha List.not_mem_nil, fun a ha n => ?_⟩
    cases s with
    | declare i m value =>
        have ha : m ∉ v.rebound ∧ a = .declare m := by simpa using ha
        rw [ha.2, Access.usesInside]
    | assign i m value =>
        have ha : m ∉ v.rebound ∧ a = .write m v.inside := by simpa using ha
        have hm : m ∈ bound := huses ⟨m, bound⟩ (by simp [Collector.stmt])
        have hinside : v.inside = false := Bool.eq_false_iff.mpr fun hv => ha.1 (h hv m hm)
        rw [ha.2, hinside, Access.usesInside, Bool.and_false]
    | _ => simp at ha
  onExpr := by
    intro bound v h e huses a ha n
    cases e with
    | «variable» i m =>
        have ha : m ∉ v.rebound ∧ a = .read m v.inside := by simpa using ha
        have hm : m ∈ bound := huses ⟨m, bound⟩ (by simp [Collector.expr])
        have hinside : v.inside = false := Bool.eq_false_iff.mpr fun hv => ha.1 (h hv m hm)
        rw [ha.2, hinside, Access.usesInside, Bool.and_false]
    | _ => simp at ha
  onMethod _ _ _ _ ha := absurd ha List.not_mem_nil

/-- So no block accesses a name from inside a function. -/
theorem NameUse.entails_blocks : NameUse.collector.Entails (fun use => use.name ∈ use.bound)
    (Block.collector : Collector _ ι _) (fun x => ∀ a ∈ x.2.accesses, ∀ n, a.usesInside n = false)
    (fun _ _ => True) where
  ofFunction _ _ _ _ := trivial
  ofBlock _ _ _ _ := trivial
  onBlock := by
    intro bound _ _ params b huses x hx
    obtain rfl := List.mem_singleton.mp hx
    have hhere : Viewpoint.here.inside = true →
        ∀ n ∈ b.declared ++ bound, n ∈ Viewpoint.here.rebound :=
      fun hinside => absurd hinside Bool.false_ne_true
    exact entails_accesses.stmts hhere b (List.forall_mem_append.mp huses).2
  onStmt _ _ _ := ⟨fun _ hx => absurd hx List.not_mem_nil, fun _ hx => absurd hx List.not_mem_nil⟩
  onExpr _ _ _ _ hx := absurd hx List.not_mem_nil
  onMethod _ _ _ _ hx := absurd hx List.not_mem_nil

/-- If the functions of a program are closed, a block that declares its names before it reads them
needs no boxes. -/
theorem Program.FunctionsClosed.needsNoBox {p : Program ι} (h : p.FunctionsClosed)
    (hp : p.SetsNothing) {x : List (Param ι) × Block ι} (hx : x ∈ p.blocks)
    (hfirst : ∀ n ∈ x.2.declared,
      Access.comesBefore (Access.reads n) (Access.declares n) x.2.accesses = false) :
    BoxedName.NeedsNoBox x := by
  intro n _
  have hinside : x.2.accesses.any (Access.usesInside n) = false := by
    rw [List.any_eq_false]
    intro a ha
    rw [NameUse.entails_blocks.block trivial p.statements (h.block hp) x hx a ha n]
    exact Bool.false_ne_true
  rw [Access.needsBox_of_not_inside hinside]
  by_cases hn : n ∈ x.2.declared
  · exact hfirst n hn
  · refine Access.comesBefore_of_any_second _ (Bool.eq_false_iff.mpr fun hdeclares => hn ?_)
    exact ((Access.declares_stmts n .here x.2).mp hdeclares).1

/-- From boxing on, no block needs a box. -/
theorem Program.needsNoBox_lowerUpTo {last : Stage} (h : .boxing ≤ last) (p : Program ι) :
    ∀ x ∈ (p.lowerUpTo last).blocks, BoxedName.NeedsNoBox x := by
  intro x hx
  cases last with
  | boxing => exact fun n hn => BoxedName.needsBox_of_mem_blocks hx hn
  | closures =>
      exact (p.functionsClosed_lowerUpTo (by decide)).needsNoBox
        (p.setsNothing_lowerUpTo (by decide)) hx fun n hn => comesBefore_closures hx hn
  | functionCalls =>
      exact (p.functionsClosed_lowerUpTo (by decide)).needsNoBox
        (p.setsNothing_lowerUpTo (by decide)) hx fun n hn => comesBefore_lower hx hn
  | _ => exact absurd h (by decide)

/-! ## Runs on lowered programs -/

/-- A stage has nothing to do in a program that has been lowered up to it or further. -/
theorem Stage.run_lowerUpTo {stage last : Stage} (h : stage ≤ last) (p : Program ι) :
    stage.run (p.lowerUpTo last) = p.lowerUpTo last := by
  cases stage with
  | declarators => exact congrArg Program.mk (block_lowerUpTo h Declaration.mapper_fixes p)
  | classes => exact congrArg Program.mk (block_lowerUpTo h Constructor.mapper_fixes p)
  | memberAccess => exact congrArg Program.mk (block_lowerUpTo h Property.mapper_fixes p)
  | globals => exact GlobalName.run_eq_self (p.setsNothing_lowerUpTo h) (p.free_lowerUpTo h)
  | boxing => exact BoxedName.run_eq_self (p.needsNoBox_lowerUpTo h)
  | closures =>
      exact Closure.run_eq_self (p.setsNothing_lowerUpTo (le_trans (by decide) h))
        (p.functionsClosed_lowerUpTo h)
  | functionCalls => exact congrArg Program.mk (block_lowerUpTo h Application.mapper_fixes p)

namespace Program

/-- Stages that have nothing to do one by one have nothing to do in a row. -/
theorem runStages_eq_self {stages : List Stage} {p : Program ι}
    (h : ∀ stage ∈ stages, stage.run p = p) : p.runStages stages = p := by
  induction stages with
  | nil => rfl
  | cons stage rest ih =>
      show (stage.run p).runStages rest = p
      rw [h stage List.mem_cons_self]
      exact ih fun t ht => h t (List.mem_cons_of_mem _ ht)

/-- A run up to an earlier stage changes nothing. -/
theorem lowerUpTo_of_ge {first second : Stage} (h : second ≤ first) (p : Program ι) :
    (p.lowerUpTo first).lowerUpTo second = p.lowerUpTo first :=
  runStages_eq_self fun _ hstage => Stage.run_lowerUpTo ((Stage.mem_upTo.mp hstage).trans h) p

/-- A run up to a later stage completes the run before it. -/
theorem lowerUpTo_lowerUpTo_of_le {first second : Stage} (h : first ≤ second) (p : Program ι) :
    (p.lowerUpTo first).lowerUpTo second = p.lowerUpTo second := by
  rw [lowerUpTo_of_le h, lowerUpTo_of_ge le_rfl, ← lowerUpTo_of_le h]

end Program

/-- A run of the pipeline on the result of another one gives what the run up to the later of the two
stages gives. So lowering twice is lowering once, and lowering completes any run. -/
theorem lowerUpTo_reentry (p : Program ι) (first second : Stage) :
    (p.lowerUpTo first).lowerUpTo second = p.lowerUpTo (max first second) ∧
      p.lower.lower = p.lower ∧ (p.lowerUpTo first).lower = p.lower := by
  have hlast : first ≤ .functionCalls := by cases first <;> decide
  refine ⟨?_, p.lowerUpTo_of_ge le_rfl, p.lowerUpTo_lowerUpTo_of_le hlast⟩
  rcases le_total first second with h | h
  · rw [max_eq_right h, p.lowerUpTo_lowerUpTo_of_le h]
  · rw [max_eq_left h, p.lowerUpTo_of_ge h]

end Lowering
