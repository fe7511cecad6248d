import Lowering.Proofs.BlockEvents
import Lowering.Proofs.Blocks
import Lowering.Proofs.BoxedAccesses

/-!
# Capture by value is safe

After boxing, no function can see a variable with a stale value. `SafelyCaptured n` says of the
events of a block that no nested function assigns to `n`, and that `n` gets no value once a nested
function has used it. `boxing_captures_safely` states this for every block of a program lowered up
to boxing and every name that the block or its parameters bind.

A name that needs no box is safely captured (`safelyCaptured_of_needsBox`), and the names that a
boxed block binds need no box any more (`BoxedName.needsBox_body`).
-/

namespace Lowering

variable {ι : Type}

/-- Among the events of a block, functions nested in the block can be given the value of `n` instead
of the variable. -/
structure SafelyCaptured (n : String) (accesses : List Access) : Prop where
  /-- No nested function assigns to the name. -/
  not_assigned : ∀ a ∈ accesses, a.writesInside n = false
  /-- After a nested function that uses the name, it is neither assigned nor declared. -/
  not_set_later : ∀ before use after, accesses = before ++ use :: after →
    use.usesInside n = true → ∀ a ∈ after, a.sets n = false

/-- Every block of the program captures the names that it binds safely. -/
def Program.CapturesSafely (p : Program ι) : Prop :=
  ∀ params b, (params, b) ∈ p.blocks → ∀ n ∈ Param.names params ++ b.declared,
    SafelyCaptured n b.nameEvents

/-! ## Safe accesses -/

/-- A name that needs no box is safely captured. -/
theorem safelyCaptured_of_needsBox {n : String} {accesses : List Access}
    (h : Access.needsBox n accesses = false) : SafelyCaptured n accesses := by
  have hwrites := Access.writesInside_of_needsBox h
  have hassigned : ∀ a ∈ accesses, a.writesInside n = false := fun a ha => by
    simpa using List.any_eq_false.mp hwrites a ha
  refine ⟨hassigned, ?_⟩
  intro before use after heq huse a ha
  have hread := Access.readsInside_of_usesInside huse (hassigned use (by simp [heq]))
  -- as nothing is assigned inside, the use is a read, after which the name is not set again
  have hsplit : Access.needsBox n ((before ++ [use]) ++ after) = false := by
    simpa [heq] using h
  have hsets := Access.sets_of_readsInside hsplit (by simp [hread])
  simpa using List.any_eq_false.mp hsets a ha

/-- In a boxed body with its parameters, every name that they bind is safely captured. -/
theorem BoxedName.body_captures_safely (scope : List (String × Bool)) (params : List (Param ι))
    (b : Block ι) {n : String}
    (hn : n ∈ Param.names params ++ Block.declared (mapper.body scope params b)) :
    SafelyCaptured n (Block.accesses (mapper.body scope params b)) :=
  safelyCaptured_of_needsBox (needsBox_body scope params b hn)

/-! ## The blocks of a boxed program -/

namespace BoxedName

/-- The block comes from boxing a block with the same parameters. -/
def IsBody (entry : List (Param ι) × Block ι) : Prop :=
  ∃ scope b, entry.2 = mapper.body scope entry.1 b

/-- The statements at the head of a block contain no block. -/
theorem blocks_heads (params : List (Param ι)) (b : Block ι) :
    Block.collector.stmts () (heads params b) = [] := by
  rw [Collector.stmts_eq_flatMap, List.flatMap_eq_nil_iff]
  intro s hs
  obtain ⟨i, n, _, ⟨_, rfl⟩ | ⟨_, _, rfl⟩⟩ := mem_heads hs
  · simp [Collector.stmt, Collector.exprs, Collector.expr]
  · simp [Collector.stmt, Collector.exprs, Collector.expr]

/-- The blocks of boxed code are the images of those of the code. -/
theorem mapper_keepsBlocks : (mapper : Mapper (List (String × Bool)) ι).KeepsBlocks where
  ofFunction _ _ := rfl
  heads := blocks_heads
  stmt scope s := by
    rw [Mapper.stmt_eq, mapper_onStmt]
    cases s with
    | declare i n value | assign i n value =>
        simp only [Mapper.rebuildStmt, access]
        split
        · simp [Collector.stmt, Collector.exprs]
        · rfl
    | _ => rfl
  expr scope e := by
    rw [mapper_expr]
    cases e with
    | «variable» i n =>
        simp only [Mapper.rebuild, read]
        split
        · simp [Collector.expr, Collector.exprs]
        · rfl
    | _ => rfl

/-- The blocks of a boxed body are itself and those of its statements. -/
theorem isBody_of_mem_body (scope : List (String × Bool)) (params : List (Param ι)) (b : Block ι)
    (h : ∀ entry ∈ Block.collector.stmts () (mapper.stmts (inner scope params b) b), IsBody entry) :
    ∀ entry ∈ (params, mapper.body scope params b) ::
      Block.collector.stmts () (mapper.body scope params b), IsBody entry := by
  intro entry hentry
  rw [body_eq, Collector.stmts_append, blocks_heads, List.nil_append, ← body_eq,
    List.mem_cons] at hentry
  rcases hentry with rfl | hentry
  · exact ⟨scope, b, rfl⟩
  · exact h entry hentry

/-- Every block of boxed statements comes from boxing a block. -/
theorem isBody_stmts (scope : List (String × Bool)) (ss : List (Stmt ι)) :
    ∀ entry ∈ Block.collector.stmts () (mapper.stmts scope ss), IsBody entry := by
  intro entry hentry
  obtain ⟨source, _, inside, rfl⟩ :=
    Mapper.Image.of_mem (mapper_keepsBlocks.stmts scope ss) hentry
  exact ⟨inside, source.2, rfl⟩

end BoxedName

/-- In a program lowered up to boxing, every block captures safely each name that it or its
parameters bind: if a nested function uses the name, no nested function assigns to it, and it is
neither assigned nor declared after that function. -/
theorem boxing_captures_safely (p : Program ι) : (p.lowerUpTo .boxing).CapturesSafely := by
  intro params b hblock n hn
  have hbody : ∀ entry ∈ (p.lowerUpTo .boxing).blocks, BoxedName.IsBody entry :=
    BoxedName.isBody_of_mem_body [] [] _ (BoxedName.isBody_stmts _ _)
  obtain ⟨scope, original, hb⟩ := hbody _ hblock
  change b = BoxedName.mapper.body scope params original at hb
  subst hb
  rw [← Block.accesses_eq_nameEvents]
  exact BoxedName.body_captures_safely scope params original hn

end Lowering
