import Lowering.Proofs.LoweredBlocks

/-!
# Names are declared before they are read

In a lowered program no block reads a name that it declares before or in the declaration. The reads
that closure conversion adds where a function is created count as well: they come before a
declaration only if the function itself stood there, and in a boxed block no function that uses a
name stands before its declaration. Main statement: `lower_declares_first`.
-/

namespace Lowering

variable {ι : Type}

/-- Among the events of a block, no read of `n` comes before a declaration of `n`, in its value
included. -/
def DeclaredFirst (n : String) (accesses : List Access) : Prop :=
  ∀ before after, accesses = before ++ .declare n :: after → ∀ a ∈ before, a.reads n = false

/-- Every block of the program declares its names before it reads them. -/
def Program.DeclaresFirst (p : Program ι) : Prop :=
  ∀ params b, (params, b) ∈ p.blocks → ∀ n ∈ b.declared, DeclaredFirst n b.nameEvents

/-- The order of reads and declarations as `Access.needsBox` asks for it. -/
theorem declaredFirst_of_comesBefore {n : String} {accesses : List Access}
    (h : Access.comesBefore (Access.reads n) (Access.declares n) accesses = false) :
    DeclaredFirst n accesses := by
  intro before after heq a ha
  rw [Bool.eq_false_iff]
  intro hread
  obtain ⟨first, second, rfl⟩ := List.append_of_mem ha
  have hbefore : Access.comesBefore (Access.reads n) (Access.declares n) accesses = true := by
    refine Access.comesBefore_iff.mpr ⟨first, a, second ++ .declare n :: after, ?_, hread, ?_⟩
    · simp [heq]
    · simp [Access.declares]
  exact Bool.false_ne_true (h.symm.trans hbefore)

/-! ## Lowered blocks -/

/-- Every block of a boxed program needs no further boxes for the names that it and its parameters
bind. -/
theorem BoxedName.needsBox_of_mem_blocks {p : Program ι} {x : List (Param ι) × Block ι}
    (hx : x ∈ (run p).blocks) {n : String} (hn : n ∈ Param.names x.1 ++ x.2.declared) :
    Access.needsBox n x.2.accesses = false := by
  have hbody : ∀ entry ∈ (run p).blocks, IsBody entry :=
    isBody_of_mem_body [] [] _ (isBody_stmts _ _)
  obtain ⟨scope, b, hb⟩ := hbody x hx
  rw [hb] at hn ⊢
  exact needsBox_body scope x.1 b hn

/-- After closure conversion, a boxed block does not read a name before it declares it. -/
theorem Closure.comesBefore_stmts {n : String} {b : Block ι} (available : List String)
    (h : Access.needsBox n b.accesses = false) :
    Access.comesBefore (Access.reads n) (Access.declares n)
      (Block.accesses (mapper.stmts available b)) = false := by
  have hconverted : Access.ReadAsDemanded n b.accesses
      (Block.accesses (mapper.stmts available b)) :=
    (carries_reads n).stmts ⟨rfl, fun _ hm => hm⟩ b
  rw [Bool.eq_false_iff]
  intro hbefore
  exact Bool.false_ne_true ((Access.comesBefore_demands h).symm.trans (hconverted.before hbefore))

/-- After closure conversion of a boxed program, no block reads a name before it declares it. -/
theorem Program.comesBefore_closures {p : Program ι} {x : List (Param ι) × Block ι}
    (hx : x ∈ (p.lowerUpTo .closures).blocks) {n : String} (hn : n ∈ x.2.declared) :
    Access.comesBefore (Access.reads n) (Access.declares n) x.2.accesses = false := by
  obtain ⟨boxed, hboxed, available, hbody⟩ := Closure.mem_blocks_run hx
  rw [hbody] at hn ⊢
  rw [Closure.declared_stmts] at hn
  have hneeds := BoxedName.needsBox_of_mem_blocks hboxed (List.mem_append_right _ hn)
  exact Closure.comesBefore_stmts available hneeds

/-- Nor does any block of a lowered program. -/
theorem Program.comesBefore_lower {p : Program ι} {x : List (Param ι) × Block ι}
    (hx : x ∈ p.lower.blocks) {n : String} (hn : n ∈ x.2.declared) :
    Access.comesBefore (Access.reads n) (Access.declares n) x.2.accesses = false := by
  obtain ⟨converted, hconverted, hbody⟩ := Application.mem_blocks_run hx
  rw [hbody] at hn ⊢
  rw [Application.declared_stmts] at hn
  rw [Application.accesses_stmts]
  exact comesBefore_closures hconverted hn

/-- In a lowered program, for every block and every name that it declares, no read of the name,
reads for the sake of closures included, comes before or in the value of a declaration of it. -/
theorem lower_declares_first (p : Program ι) : p.lower.DeclaresFirst := by
  intro params b hblock n hn
  rw [← Block.accesses_eq_nameEvents]
  exact declaredFirst_of_comesBefore (Program.comesBefore_lower hblock hn)

end Lowering
