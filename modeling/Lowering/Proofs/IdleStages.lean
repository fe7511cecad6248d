import Lowering.Proofs.CaptureByValue
import Lowering.Proofs.CoreForm
import Lowering.Proofs.Fixing
import Lowering.Proofs.Statementwise

/-!
# Stages with nothing to do

For each stage a condition under which it leaves a program alone. Four stages ask for the form that
they establish. Of the others, the resolution of global names has nothing to do if all names are
bound (`GlobalName.run_eq_self`), boxing if no block needs a box for a name that it binds
(`BoxedName.run_eq_self`), and closure conversion if the functions are closed
(`Closure.run_eq_self`).
-/

namespace Lowering

variable {ι : Type}

/-! ## Stages that remove a kind of node -/

/-- Code without imports and named literals as statements is left alone. -/
theorem Declaration.mapper_fixes : (mapper : Mapper Unit ι).Fixes form where
  heads _ _ := rfl
  stmt _ s hs := by
    cases s with
    | importPackage => cases hs
    | expr e =>
        cases e with
        | functionLit i n params body =>
            cases n with
            | none => rfl
            | some n => cases hs
        | classLit i n ms =>
            cases n with
            | none => rfl
            | some n => cases hs
        | _ => rfl
    | _ => rfl
  expr _ _ _ := rfl

/-- Code without class literals is left alone. -/
theorem Constructor.mapper_fixes : (mapper : Mapper Unit ι).Fixes form where
  heads _ _ := rfl
  stmt _ _ _ := rfl
  expr _ e he := by
    cases e with
    | classLit => cases he
    | _ => rfl

/-- Code without member accesses is left alone, but for the callees of method calls. -/
theorem Property.mapper_fixes : (mapper : Mapper Unit ι).Fixes form where
  heads _ _ := rfl
  stmt _ s hs := by
    cases s with
    | assignMember => cases hs
    | _ => rfl
  expr _ e he := by
    cases e with
    | member => cases he
    | _ => rfl

/-- Code that calls nothing but methods is left alone. -/
theorem Application.mapper_fixes : (mapper : Mapper Unit ι).Fixes .core where
  heads _ _ := rfl
  stmt _ _ _ := rfl
  expr _ e he := by
    cases e with
    | call i callee inputs => exact if_pos he
    | _ => rfl

/-! ## Resolution of global names -/

namespace GlobalName

/-- Declarations of bound names, and statements that set nothing, stay. -/
theorem access_of_mem {bound : List String} {s : Stmt ι}
    (hdeclare : ∀ n, s.declared? = some n → n ∈ bound)
    (hassign : ∀ n ∈ freeNameCollector.onStmt bound s, n ∈ bound) : access bound s = s := by
  cases s with
  | declare i n value => exact if_pos (hdeclare n rfl)
  | assign i n value =>
      by_contra hne
      have hn : n ∉ bound := fun hn => hne (if_pos hn)
      exact hn (hassign n (by simp [hn]))
  | _ => rfl

/-- Where nothing is free, the rules have nothing to do. -/
theorem free_entails_fixing : freeNameCollector.Entails (fun _ => False)
    (mapper : Mapper (List String) ι).fixing (fun q => q) (fun bound scope => scope = bound) where
  ofFunction h params b _ := by rw [h]; rfl
  ofBlock h params b _ := by rw [h]; rfl
  onBlock := by
    rintro bound _ rfl params b hfree q hq
    obtain rfl := List.mem_singleton.mp hq
    refine ⟨rfl, fun s hs => access_of_mem (fun n hn => ?_) (fun n hn => ?_)⟩
    · exact List.mem_append_left _ (Block.mem_declared.mpr ⟨s, hs, hn⟩)
    · refine (hfree n (List.mem_append_right _ ?_)).elim
      rw [Collector.stmts_eq_flatMap, List.mem_flatMap]
      refine ⟨s, hs, ?_⟩
      cases s with
      | assign => exact List.mem_append_left _ (List.mem_append_left _ hn)
      | _ => simp at hn
  onStmt _ _ _ := ⟨fun _ hq => absurd hq List.not_mem_nil, fun _ hq => absurd hq List.not_mem_nil⟩
  onExpr := by
    rintro _ bound rfl e hfree q hq
    obtain rfl := List.mem_singleton.mp hq
    cases e with
    | «variable» i n =>
        by_contra hne
        have hn : n ∉ bound := fun hn => hne (if_pos hn)
        exact hfree n (by simp [Collector.expr, hn])
    | _ => rfl
  onMethod _ _ _ _ hq := absurd hq List.not_mem_nil

/-- The stage leaves alone a program whose names are all bound and whose top level sets nothing. -/
theorem run_eq_self {p : Program ι} (hp : p.SetsNothing)
    (hfree : freeNameCollector.stmts [] p.statements = []) : run p = p := by
  have hnone : ∀ n ∈ freeNameCollector.stmts [] p.statements, False := by
    rw [hfree]
    exact fun n hn => absurd hn List.not_mem_nil
  have htop : ∀ s ∈ p.statements, mapper.onStmt [] s = s := by
    intro s hs
    have hsets := hp s hs
    cases s with
    | declare | assign => cases hsets
    | _ => rfl
  exact congrArg Program.mk
    (mapper_keepsMembers.stmts_eq [] _ htop (free_entails_fixing.stmts rfl _ hnone))

end GlobalName

/-! ## Boxing -/

namespace BoxedName

/-- A block with its parameters, none of whose names needs a box. -/
def NeedsNoBox (x : List (Param ι) × Block ι) : Prop :=
  ∀ n ∈ Param.names x.1 ++ x.2.declared, Access.needsBox n x.2.accesses = false

/-- A block that needs no boxes gets no heads. -/
theorem NeedsNoBox.heads_eq {params : List (Param ι)} {b : Block ι}
    (h : NeedsNoBox (params, b)) : heads params b = [] := by
  have hnone : boxedNames params b = [] := by
    refine List.eq_nil_iff_forall_not_mem.mpr fun n hn => ?_
    obtain ⟨hbound, hneeds⟩ := mem_boxedNames.mp hn
    exact Bool.false_ne_true ((h n (List.mem_append.mpr hbound)).symm.trans hneeds)
  rw [heads, hnone, List.filterMap_nil]

/-- Names that need no box keep a scope without boxes. -/
theorem isBoxed_extend_eq_false {names : List String} {b : Block ι} {scope : List (String × Bool)}
    (hnames : ∀ n ∈ names, Access.needsBox n b.accesses = false)
    (hscope : ∀ n, isBoxed scope n = false) (n : String) :
    isBoxed (extend names b scope) n = false := by
  rw [isBoxed_extend]
  split
  · exact hnames n ‹_›
  · exact hscope n

/-- Where no block needs boxes, the rules have nothing to do. -/
theorem blocks_entail_fixing : Block.collector.Entails NeedsNoBox
    (mapper : Mapper (List (String × Bool)) ι).fixing (fun q => q)
    (fun _ scope => ∀ n, isBoxed scope n = false) where
  ofFunction hscope params b hblocks := by
    have hblock : NeedsNoBox (params, b) := hblocks _ List.mem_cons_self
    exact isBoxed_extend_eq_false (fun n hn => hblock n (List.mem_append_left _ hn)) hscope
  ofBlock hscope params b hblocks := by
    have hblock : NeedsNoBox (params, b) := hblocks _ List.mem_cons_self
    exact isBoxed_extend_eq_false (fun n hn => hblock n (List.mem_append_right _ hn)) hscope
  onBlock hscope params b hblocks q hq := by
    have hblock : NeedsNoBox (params, b) := hblocks _ List.mem_cons_self
    have hinner := isBoxed_extend_eq_false
      (fun n hn => hblock n (List.mem_append_right _ hn)) hscope
    obtain rfl := List.mem_singleton.mp hq
    refine ⟨hblock.heads_eq, fun s _ => ?_⟩
    cases s with
    | declare | assign => simp [access, hinner]
    | _ => rfl
  onStmt _ _ _ := ⟨fun _ hq => absurd hq List.not_mem_nil, fun _ hq => absurd hq List.not_mem_nil⟩
  onExpr := by
    intro _ scope hscope e _ q hq
    obtain rfl := List.mem_singleton.mp hq
    cases e with
    | «variable» i n =>
        show read scope (.variable i n) = .variable i n
        rw [read, hscope, if_neg Bool.false_ne_true]
    | _ => rfl
  onMethod _ _ _ _ hq := absurd hq List.not_mem_nil

/-- The stage leaves alone a program none of whose blocks needs a box. -/
theorem run_eq_self {p : Program ι} (h : ∀ x ∈ p.blocks, NeedsNoBox x) : run p = p :=
  congrArg Program.mk (mapper_keepsMembers.block_eq []
    (blocks_entail_fixing.block (fun _ => rfl) p.statements h))

end BoxedName

/-! ## Closure conversion -/

/-- In code whose functions are closed no name is free. -/
theorem NameUse.entails_free : NameUse.collector.Entails (fun use => use.name ∈ use.bound)
    (freeNameCollector : Collector _ ι _) (fun _ => False)
    (fun bound bound' => ∀ n ∈ bound, n ∈ bound') where
  ofFunction _ params b _ n hn := List.mem_append_left _ hn
  ofBlock h params b _ n hn :=
    (List.mem_append.mp hn).elim (List.mem_append_left _) fun hn => List.mem_append_right _ (h n hn)
  onBlock _ _ _ _ _ hn := absurd hn List.not_mem_nil
  onStmt := by
    intro bound bound' h s huses
    refine ⟨fun n hn => ?_, fun n hn => absurd hn List.not_mem_nil⟩
    cases s with
    | assign i m value =>
        have hm : m ∈ bound := huses ⟨m, bound⟩ (by simp [Collector.stmt])
        simp [h m hm] at hn
    | _ => simp at hn
  onExpr := by
    intro bound bound' h e huses n hn
    cases e with
    | «variable» i m =>
        have hm : m ∈ bound := huses ⟨m, bound⟩ (by simp [Collector.expr])
        simp [h m hm] at hn
    | _ => simp at hn
  onMethod _ _ _ _ hn := absurd hn List.not_mem_nil

namespace Program.FunctionsClosed

variable {p : Program ι}

/-- A program whose functions are closed has no free names. -/
theorem free_eq (h : p.FunctionsClosed) : freeNameCollector.stmts [] p.statements = [] :=
  List.eq_nil_iff_forall_not_mem.mpr (NameUse.entails_free.stmts (fun _ hn => hn) p.statements h)

/-- A top-level block that sets nothing binds nothing for its own statements. -/
theorem block (h : p.FunctionsClosed) (hp : p.SetsNothing) :
    ∀ use ∈ NameUse.collector.block [] p.statements, use.name ∈ use.bound := by
  show ∀ use ∈ NameUse.collector.stmts (Block.declared p.statements ++ []) p.statements, _
  rw [Block.declared_eq_nil hp]
  exact h

end Program.FunctionsClosed

namespace Closure

/-- A closed function captures nothing. -/
theorem captures_eq_nil {params : List (Param ι)} {b : Block ι} (available : List String)
    (h : ∀ use ∈ NameUse.collector.body (Param.names params) params b, use.name ∈ use.bound) :
    captures available params b = [] := by
  refine List.eq_nil_iff_forall_not_mem.mpr fun n hn => ?_
  exact NameUse.entails_free.block (fun _ hm => hm) b h n (mem_captures.mp hn).1

/-- Where the functions are closed, the rules have nothing to do. -/
theorem uses_entail_fixing : NameUse.collector.Entails (fun use => use.name ∈ use.bound)
    (mapper : Mapper (List String) ι).fixing (fun q => q) (fun _ _ => True) where
  ofFunction _ _ _ _ := trivial
  ofBlock _ _ _ _ := trivial
  onBlock _ params b _ q hq := by
    obtain rfl := List.mem_singleton.mp hq
    exact ⟨rfl, fun _ _ => rfl⟩
  onStmt _ _ _ := ⟨fun _ hq => absurd hq List.not_mem_nil, fun _ hq => absurd hq List.not_mem_nil⟩
  onExpr := by
    intro _ available _ e huses q hq
    obtain rfl := List.mem_singleton.mp hq
    cases e with
    | functionLit i n params b =>
        rw [Collector.expr_functionLit, List.forall_mem_append] at huses
        show bundle (captures available params b) (.functionLit i n params b) = _
        rw [captures_eq_nil _ huses.2]
        rfl
    | _ => rfl
  onMethod _ _ _ _ hq := absurd hq List.not_mem_nil

/-- The stage leaves alone a program whose functions are closed and whose top level sets nothing. -/
theorem run_eq_self {p : Program ι} (hp : p.SetsNothing) (h : p.FunctionsClosed) : run p = p :=
  congrArg Program.mk (mapper_keepsMembers.block_eq []
    (uses_entail_fixing.block trivial p.statements (h.block hp)))

end Closure

end Lowering
