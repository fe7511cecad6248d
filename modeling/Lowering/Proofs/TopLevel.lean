import Lowering.Proofs.BoxedScope

/-!
# The top level of a program

What the top-level block declares is global, so once global names are resolved that block sets no
variable directly, and the later stages leave it so.
-/

namespace Lowering

variable {σ ι : Type}

/-- The statement declares or assigns a variable. -/
def Stmt.setsVariable : Stmt ι → Bool
  | .declare _ _ _ | .assign _ _ _ => true
  | _ => false

/-- A block that sets no variable directly declares none. -/
theorem Block.declared_eq_nil {b : Block ι} (hb : ∀ s ∈ b, s.setsVariable = false) :
    b.declared = [] := by
  rw [Block.declared, List.filterMap_eq_nil_iff]
  intro s hs
  have hsets := hb s hs
  cases s with
  | declare => cases hsets
  | _ => rfl

/-- Mapping the children of a statement keeps whether it sets a variable. -/
theorem Mapper.setsVariable_rebuildStmt (M : Mapper σ ι) (scope : σ) (s : Stmt ι) :
    (M.rebuildStmt scope s).setsVariable = s.setsVariable := by
  cases s <;> rfl

/-- A mapper whose rule leaves alone all statements that set no variable makes no others of them. -/
theorem Mapper.not_setsVariable_stmts (M : Mapper σ ι) (scope : σ) {b : Block ι}
    (honStmt : ∀ s : Stmt ι, s.setsVariable = false → M.onStmt scope s = s)
    (hb : ∀ s ∈ b, s.setsVariable = false) :
    ∀ s ∈ M.stmts scope b, s.setsVariable = false := by
  intro s hs
  rw [M.stmts_eq_map] at hs
  obtain ⟨t, ht, rfl⟩ := List.mem_map.mp hs
  have hrebuilt : (M.rebuildStmt scope t).setsVariable = false :=
    (M.setsVariable_rebuildStmt scope t).trans (hb t ht)
  rw [M.stmt_eq, honStmt _ hrebuilt]
  exact hrebuilt

/-- At the top level every variable is global, and so is set through the runtime. -/
theorem GlobalName.not_setsVariable_run (p : Program ι) :
    ∀ s ∈ (run p).statements, s.setsVariable = false := by
  intro s hs
  rw [run, Mapper.stmts_eq_map] at hs
  obtain ⟨t, _, rfl⟩ := List.mem_map.mp hs
  cases t with
  | declare | assign => simp [Mapper.stmt, access, Stmt.setsVariable]
  | importPackage | assignMember | ret | branch | expr => rfl

/-- Boxing has nothing to do at a top level that sets no variable. -/
theorem BoxedName.not_setsVariable_run (p : Program ι)
    (hp : ∀ s ∈ p.statements, s.setsVariable = false) :
    ∀ s ∈ (run p).statements, s.setsVariable = false := by
  have hheads : heads [] p.statements = [] := by
    simp [heads, boxedNames, Block.declared_eq_nil hp, Param.names, Names.sorted]
  rw [run, Mapper.block, mapper_heads, hheads, List.nil_append]
  refine Mapper.not_setsVariable_stmts _ _ (fun s hs => ?_) hp
  cases s with
  | declare | assign => cases hs
  | _ => rfl

end Lowering
