import Lowering.Proofs.CallShaping
import Lowering.Proofs.Reentry

/-!
# Global names stay exempt

A name that nothing below the top level binds is global everywhere, and stays so: no later stage
takes it for a variable. After the resolution of global names all names that blocks bind were bound
below the top level before, and the stages after it bind no others (`Program.BindsWithin`): boxes
are made for names that a block binds, and captures are made of names that are bound around a
function. What a lowered program uses, it binds. Nor is any call that accesses a global variable
made, dropped or moved by these stages (`Mapper.KeepsGlobalCalls`). Main statement:
`globals_stay_exempt`.
-/

namespace Lowering

variable {σ ι : Type}

/-! ## The names that blocks bind -/

/-- The names that a block and its parameters bind. -/
def Block.boundNames (x : List (Param ι) × Block ι) : List String :=
  Param.names x.1 ++ x.2.declared

namespace Program

/-- The names of parameters and of variables declared below the top level. -/
def localNames (p : Program ι) : List String :=
  (Block.collector.stmts () p.statements).flatMap Block.boundNames

/-- All names that blocks below the top level bind are among the given ones, and the top level
declares none. -/
structure BindsWithin (p : Program ι) (names : List String) : Prop where
  topLevel : p.SetsNothing
  within : ∀ x ∈ Block.collector.stmts () p.statements, Block.boundNames x ⊆ names

/-- So it is for all blocks. -/
theorem BindsWithin.blocks {p : Program ι} {names : List String} (h : p.BindsWithin names) :
    ∀ x ∈ p.blocks, Block.boundNames x ⊆ names := by
  intro x hx
  rcases List.mem_cons.mp hx with rfl | hx
  · have hnone : Block.boundNames ([], p.statements) = [] := Block.declared_eq_nil h.topLevel
    rw [hnone]
    exact List.nil_subset names
  · exact h.within x hx

end Program

/-- A mapper that maps blocks one by one, and lets each bind only what it did before, binds nothing
new. -/
theorem Mapper.KeepsBlocks.boundNames_stmts {M : Mapper σ ι} (h : M.KeepsBlocks)
    (hbound : ∀ {x y}, M.Image x y → Block.boundNames y ⊆ Block.boundNames x) {names : List String}
    {scope : σ} {ss : List (Stmt ι)}
    (hss : ∀ x ∈ Block.collector.stmts () ss, Block.boundNames x ⊆ names) :
    ∀ y ∈ Block.collector.stmts () (M.stmts scope ss), Block.boundNames y ⊆ names := by
  intro y hy
  obtain ⟨x, hx, himage⟩ := Mapper.Image.of_mem (h.stmts scope ss) hy
  exact List.Subset.trans (hbound himage) (hss x hx)

/-- Calls are no blocks. -/
theorem Block.collector_skipsCalls :
    (collector : Collector Unit ι (List (Param ι) × Block ι)).SkipsCalls where
  unit _ _ := rfl
  name _ _ _ := rfl
  member _ _ _ _ := rfl
  call _ _ _ _ := rfl
  exprStmt _ _ := ⟨rfl, rfl⟩
  assignMember _ _ _ _ _ := ⟨rfl, rfl⟩

namespace Mapper.ShapesCalls

variable {M : Mapper Unit ι}

/-- Shaping calls neither makes nor drops blocks. -/
theorem keepsBlocks (h : M.ShapesCalls) : M.KeepsBlocks where
  ofFunction _ _ := rfl
  heads params b := by rw [h.noHeads]; rfl
  stmt _ s := by rw [Mapper.stmt_eq, h.collectStmt Block.collector_skipsCalls]
  expr _ e := h.collectExpr Block.collector_skipsCalls () e

/-- Nor does it change what they bind. -/
theorem boundNames_image (h : M.ShapesCalls) {x y : List (Param ι) × Block ι} (hy : M.Image x y) :
    Block.boundNames y ⊆ Block.boundNames x := by
  obtain ⟨scope, rfl⟩ := hy
  rw [Block.boundNames, Block.boundNames, Mapper.body, h.noHeads, List.nil_append,
    h.declared_stmts]
  exact List.Subset.refl _

end Mapper.ShapesCalls

namespace GlobalName

/-- The blocks of resolved code are the images of those of the code. -/
theorem mapper_keepsBlocks : (mapper : Mapper (List String) ι).KeepsBlocks where
  ofFunction _ _ := rfl
  heads _ _ := rfl
  stmt bound s := by
    rw [Mapper.stmt_eq, mapper_onStmt]
    cases s with
    | declare i n value | assign i n value =>
        simp only [Mapper.rebuildStmt, access]
        split
        · rfl
        · simp [Collector.stmt, Collector.exprs, Collector.expr]
    | _ => rfl
  expr bound e := by
    rw [mapper_expr]
    cases e with
    | «variable» i n =>
        simp only [Mapper.rebuild, read]
        split
        · rfl
        · simp [Collector.expr, Collector.exprs]
    | _ => rfl

/-- Resolving global names lets a block bind nothing new. -/
theorem boundNames_image {x y : List (Param ι) × Block ι} (hy : mapper.Image x y) :
    Block.boundNames y ⊆ Block.boundNames x := by
  obtain ⟨bound, rfl⟩ := hy
  rw [Block.boundNames, Block.boundNames, Mapper.body, mapper_heads, List.nil_append,
    mapper_ofBlock, declared_stmts]
  exact List.Subset.refl _

/-- What is bound after the resolution of global names was bound below the top level before. -/
theorem bindsWithin_run {p : Program ι} {names : List String}
    (hp : ∀ x ∈ Block.collector.stmts () p.statements, Block.boundNames x ⊆ names) :
    (run p).BindsWithin names where
  topLevel := not_setsVariable_run p
  within := mapper_keepsBlocks.boundNames_stmts boundNames_image hp

end GlobalName

namespace BoxedName

/-- Boxing lets a block bind nothing new. -/
theorem boundNames_image {x y : List (Param ι) × Block ι} (hy : mapper.Image x y) :
    Block.boundNames y ⊆ Block.boundNames x := by
  obtain ⟨scope, rfl⟩ := hy
  intro n hn
  have hbound := (mem_bound_body scope x.1 x.2 n).mp (List.mem_append.mp hn).symm
  exact List.mem_append.mpr hbound.symm

/-- So boxing binds nothing new in a whole program. -/
theorem bindsWithin_run {p : Program ι} {names : List String} (hp : p.BindsWithin names) :
    (run p).BindsWithin names where
  topLevel := not_setsVariable_run p hp.topLevel
  within y hy := by
    have hblock : y ∈ (run p).blocks := List.mem_cons_of_mem _ hy
    obtain ⟨x, hx, himage⟩ := Mapper.Image.of_mem (mapper_keepsBlocks.block [] p.statements) hblock
    exact List.Subset.trans (boundNames_image himage) (hp.blocks x hx)

/-- Only names that some block binds are boxed. -/
theorem mem_boxes {p : Program ι} {names : List String} (hp : p.BindsWithin names) {n : String}
    (hn : n ∈ boxes p) : n ∈ names := by
  have hboxes : Block.collector.Entails (fun x => Block.boundNames x ⊆ names)
      (boxCollector : Collector Unit ι String) (· ∈ names) (fun _ _ => True) :=
    { ofFunction := fun _ _ _ _ => trivial
      ofBlock := fun _ _ _ _ => trivial
      onBlock := fun _ params b hblocks m hm =>
        hblocks (params, b) List.mem_cons_self
          (List.mem_append.mpr (mem_boxedNames.mp hm).1)
      onStmt := fun _ _ _ =>
        ⟨fun _ hm => absurd hm List.not_mem_nil, fun _ hm => absurd hm List.not_mem_nil⟩
      onExpr := fun _ _ _ _ hm => absurd hm List.not_mem_nil
      onMethod := fun _ _ _ _ hm => absurd hm List.not_mem_nil }
  exact hboxes.block trivial p.statements hp.blocks n hn

end BoxedName

namespace Closure

/-- What a function can capture is bound around it, and so are its captures. -/
theorem subset_ofFunction {available names : List String} (h : available ⊆ names)
    {params : List (Param ι)} {b : Block ι} (hblock : Block.boundNames (params, b) ⊆ names) :
    captures available params b ++ Param.names params ⊆ names := by
  intro n hn
  rcases List.mem_append.mp hn with hn | hn
  · exact h (mem_captures.mp hn).2
  · exact hblock (List.mem_append_left _ hn)

/-- What a block declares adds nothing new to what can be captured. -/
theorem subset_ofBlock {available names : List String} (h : available ⊆ names)
    {params : List (Param ι)} {b : Block ι} (hblock : Block.boundNames (params, b) ⊆ names) :
    b.declared ++ available ⊆ names :=
  List.append_subset.mpr ⟨fun _ hn => hblock (List.mem_append_right _ hn), h⟩

/-- A bundled function binds its captures too. -/
theorem boundNames_bundle {captured names : List String} (hcaptured : captured ⊆ names) (i : ι)
    (n : Option String) (params : List (Param ι)) (b : Block ι)
    (h : ∀ y ∈ Block.collector.expr () (.functionLit i n params b), Block.boundNames y ⊆ names) :
    ∀ y ∈ Block.collector.expr () (bundle captured (.functionLit i n params b)),
      Block.boundNames y ⊆ names := by
  rw [bundle]
  split
  · exact h
  · rw [Block.collector_hook_call, Collector.exprs, blocks_variables, List.append_nil]
    have hfunction : Block.boundNames (params, b) ⊆ names := h _ List.mem_cons_self
    intro y hy
    rcases List.mem_cons.mp hy with rfl | hy
    · rw [Block.boundNames, names_captured, List.append_assoc]
      exact List.append_subset.mpr ⟨hcaptured, hfunction⟩
    · exact h y (List.mem_cons_of_mem _ hy)

/-- Conversion adds captures to what functions bind, and these are bound around them. -/
theorem transfers_blocks (names : List String) : (mapper : Mapper (List String) ι).Transfers
    Block.collector (Block.boundNames · ⊆ names) Block.collector
    (fun _ available _ => available ⊆ names)
    (fun _ ys => ∀ y ∈ ys, Block.boundNames y ⊆ names) where
  nil _ hy := absurd hy List.not_mem_nil
  append hfirst hsecond := List.forall_mem_append.mpr ⟨hfirst, hsecond⟩
  inFunction h params b hblocks := by
    have hblock := hblocks (params, b) List.mem_cons_self
    exact subset_ofBlock (subset_ofFunction h hblock) hblock
  inBlock h b hblocks := subset_ofBlock h (hblocks ([], b) List.mem_cons_self)
  onFunction _ params b hblocks y hy := by
    obtain rfl := List.mem_singleton.mp hy
    rw [Block.boundNames, mapper_body, declared_stmts]
    exact hblocks (params, b) List.mem_cons_self
  onBlock _ b hblocks y hy := by
    obtain rfl := List.mem_singleton.mp hy
    rw [Block.boundNames, mapper_block, declared_stmts]
    exact hblocks ([], b) List.mem_cons_self
  onStmt _ _ _ _ hy := absurd hy List.not_mem_nil
  afterStmt _ _ _ _ hy := absurd hy List.not_mem_nil
  onExpr _ _ _ _ hy := absurd hy List.not_mem_nil
  onMethod _ _ _ _ hy := absurd hy List.not_mem_nil
  stmt _ s _ hbelow := by
    rw [Mapper.stmt_eq]
    exact hbelow
  expr h e _ hbelow := by
    cases e with
    | functionLit i n params b =>
        exact boundNames_bundle (fun m hm => h (mem_captures.mp hm).2) i n params _ hbelow
    | _ => exact hbelow

/-- Closure conversion binds nothing new: captures are bound around their functions already. -/
theorem bindsWithin_run {p : Program ι} {names : List String} (hp : p.BindsWithin names) :
    (run p).BindsWithin names where
  topLevel := Stage.setsNothing_run (by decide : .globals ≤ Stage.closures) hp.topLevel
  within := by
    have hdeclared : Block.declared p.statements ++ [] ⊆ names := by
      rw [Block.declared_eq_nil hp.topLevel]
      exact List.nil_subset names
    exact (transfers_blocks names).stmts hdeclared p.statements hp.within

/-- Only names that some block binds are captured. -/
theorem mem_captured {p : Program ι} {names : List String} (hp : p.BindsWithin names)
    {captured : List String} (hcaptured : captured ∈ Closure.captured p) : captured ⊆ names := by
  have hcaptures : Block.collector.Entails (Block.boundNames · ⊆ names)
      (captureCollector : Collector (List String) ι (List String)) (· ⊆ names)
      (fun _ available => available ⊆ names) :=
    { ofFunction := fun h params b hblocks =>
        subset_ofFunction h (hblocks (params, b) List.mem_cons_self)
      ofBlock := fun h params b hblocks =>
        subset_ofBlock h (hblocks (params, b) List.mem_cons_self)
      onBlock := fun _ _ _ _ _ hm => absurd hm List.not_mem_nil
      onStmt := fun _ _ _ =>
        ⟨fun _ hm => absurd hm List.not_mem_nil, fun _ hm => absurd hm List.not_mem_nil⟩
      onExpr := by
        intro _ available h e _ found hfound
        obtain ⟨_, _, _, _, _, rfl⟩ := eq_captures_of_mem hfound
        exact fun m hm => h (mem_captures.mp hm).2
      onMethod := fun _ _ _ _ hm => absurd hm List.not_mem_nil }
  exact hcaptures.block (List.nil_subset names) p.statements hp.blocks captured hcaptured

end Closure

/-- Lowering function calls binds nothing new. -/
theorem Application.bindsWithin_run {p : Program ι} {names : List String}
    (hp : p.BindsWithin names) : (run p).BindsWithin names where
  topLevel := Stage.setsNothing_run (by decide : .globals ≤ Stage.functionCalls) hp.topLevel
  within := mapper_shapesCalls.keepsBlocks.boundNames_stmts mapper_shapesCalls.boundNames_image
    hp.within

/-- Names are bound around their uses by some block. -/
theorem NameUse.bound_subset {p : Program ι} {names : List String} (hp : p.BindsWithin names) :
    ∀ use ∈ p.nameUses, use.bound ⊆ names := by
  have huses : Block.collector.Entails (Block.boundNames · ⊆ names)
      (collector : Collector (List String) ι NameUse) (·.bound ⊆ names)
      (fun _ bound => bound ⊆ names) :=
    { ofFunction := fun _ params b hblocks _ hn =>
        hblocks (params, b) List.mem_cons_self (List.mem_append_left _ hn)
      ofBlock := fun h params b hblocks =>
        Closure.subset_ofBlock h (hblocks (params, b) List.mem_cons_self)
      onBlock := fun _ _ _ _ _ hu => absurd hu List.not_mem_nil
      onStmt := by
        refine fun {_ bound} h s _ => ⟨fun use huse => ?_, fun _ hu => absurd hu List.not_mem_nil⟩
        cases s with
        | assign i m value =>
            obtain rfl := List.mem_singleton.mp huse
            exact h
        | _ => exact absurd huse List.not_mem_nil
      onExpr := by
        intro _ bound h e _ use huse
        cases e with
        | «variable» i m =>
            obtain rfl := List.mem_singleton.mp huse
            exact h
        | _ => exact absurd huse List.not_mem_nil
      onMethod := fun _ _ _ _ hu => absurd hu List.not_mem_nil }
  exact huses.stmts (List.nil_subset names) p.statements hp.within

/-! ## Calls that access global variables -/

/-- The name that an expression is. -/
def Expr.name? : Expr ι → Option String
  | .name _ n => some n
  | _ => none

/-- A call that accesses a global variable, with the name that it is given first. -/
structure GlobalCall (ι : Type) where
  hook : Hook
  info : ι
  name? : Option String
deriving DecidableEq

namespace GlobalCall

/-- The access to a global variable that an expression makes, whoever wrote it. -/
def ofExpr? (e : Expr ι) : Option (GlobalCall ι) :=
  match e, e.hook? with
  | .call i _ inputs, some hook =>
      if hook ∈ Stage.globals.emits then some ⟨hook, i, inputs.head?.bind Expr.name?⟩ else none
  | _, _ => none

/-- Each call that accesses a global variable contributes itself. -/
def collector : Collector Unit ι (GlobalCall ι) where
  onExpr _ e := (ofExpr? e).toList

end GlobalCall

/-- The calls of a program that access global variables, an outer one before those in its inputs. -/
def Program.globalCalls (p : Program ι) : List (GlobalCall ι) :=
  GlobalCall.collector.block () p.statements

namespace GlobalCall

/-- An expression that calls no hook accesses no global variable. -/
theorem ofExpr?_eq_none {e : Expr ι} (h : e.hook? = none) : ofExpr? e = none := by
  unfold ofExpr?
  rw [h]
  cases e <;> rfl

/-- A call of any other hook contributes what its inputs contribute. -/
theorem collector_hook_call {hook : Hook} (h : hook ∉ Stage.globals.emits) (i : ι)
    (inputs : List (Expr ι)) :
    collector.expr () (hook.call i inputs) = collector.exprs () inputs := by
  have hnone : ofExpr? (hook.call i inputs) = none := by
    unfold ofExpr?
    rw [Hook.hook?_call]
    exact if_neg h
  show (ofExpr? (hook.call i inputs)).toList ++ _ ++ collector.exprs () inputs = _
  rw [hnone]
  rfl

/-- A call of a box method accesses no global variable by itself. -/
theorem collector_box_call (op : BoxOp) (i : ι) (n : String) (inputs : List (Expr ι)) :
    collector.expr () (op.call i n inputs) = collector.exprs () inputs := rfl

/-- Reads of variables access no global variables. -/
theorem collector_variables (i : ι) (names : List String) :
    collector.exprs () (names.map (Expr.variable i ·)) = [] := by
  induction names with
  | nil => rfl
  | cons n ns ih => exact ih

end GlobalCall

open GlobalCall (collector)

/-- Where callees and names are kept, a call stays the access it is while its parts are mapped. -/
theorem Mapper.KeepsCallees.ofExpr?_rebuild {M : Mapper σ ι} (h : M.KeepsCallees)
    (hnames : ∀ scope e, (M.expr scope e).name? = e.name?) (scope : σ) (e : Expr ι) :
    GlobalCall.ofExpr? (M.rebuild scope e) = GlobalCall.ofExpr? e := by
  have hhook := h.hook?_rebuild scope e
  cases e with
  | call i callee inputs =>
      have hname : (M.exprs scope inputs).head?.bind Expr.name? = inputs.head?.bind Expr.name? := by
        cases inputs with
        | nil => rfl
        | cons input rest => exact hnames scope input
      rw [Mapper.rebuild] at hhook ⊢
      unfold GlobalCall.ofExpr?
      rw [hhook]
      cases (Expr.call i callee inputs).hook? with
      | none => rfl
      | some hook => simp only [hname]
  | _ => rfl

/-- A mapped tree has the calls of the tree that access global variables. -/
abbrev Mapper.KeepsGlobalCalls (M : Mapper σ ι) : Prop :=
  M.Carries collector collector (fun _ _ _ => True) (fun before after => after = before)

/-- It is so if the mapper keeps callees and names, and its rules and heads make no such calls. -/
theorem Mapper.keepsGlobalCalls_of_rules {M : Mapper σ ι} (hcallees : M.KeepsCallees)
    (hnames : ∀ scope e, (M.expr scope e).name? = e.name?)
    (hheads : ∀ params b, collector.stmts () (M.heads params b) = [])
    (hstmt : ∀ scope s, collector.stmt () (M.onStmt scope s) = collector.stmt () s)
    (hexpr : ∀ scope e,
      collector.expr () (M.expr scope e) = collector.expr () (M.rebuild scope e)) :
    M.KeepsGlobalCalls :=
  carries_of_rules (fun _ _ => rfl) (fun _ => rfl) (fun _ => rfl) hheads (fun _ _ => rfl)
    (fun scope e => congrArg Option.toList (hcallees.ofExpr?_rebuild hnames scope e)) hstmt hexpr

/-- The statements that create boxes access no global variables. -/
theorem BoxedName.globalCalls_heads (params : List (Param ι)) (b : Block ι) :
    collector.stmts () (heads params b) = [] := by
  rw [Collector.stmts_eq_flatMap, List.flatMap_eq_nil_iff]
  intro s hs
  obtain ⟨i, n, -, ⟨-, rfl⟩ | ⟨-, -, rfl⟩⟩ := mem_heads hs
  · exact congrArg (· ++ []) (GlobalCall.collector_hook_call (by decide) i _)
  · exact congrArg (· ++ []) (GlobalCall.collector_hook_call (by decide) i _)

/-- Boxing keeps the accesses to global variables. -/
theorem BoxedName.mapper_keepsGlobalCalls :
    (mapper : Mapper (List (String × Bool)) ι).KeepsGlobalCalls := by
  refine Mapper.keepsGlobalCalls_of_rules mapper_keepsCallees (fun scope e => ?_)
    globalCalls_heads (fun scope s => ?_) (fun scope e => ?_)
  · rw [mapper_expr]
    cases e with
    | «variable» i n =>
        rw [Mapper.rebuild, read]
        split <;> rfl
    | _ => rfl
  · rw [mapper_onStmt]
    cases s with
    | declare i n value | assign i n value =>
        rw [access]
        split
        · simp only [Collector.stmt, GlobalCall.collector_box_call, Collector.exprs,
            List.append_nil]
          rfl
        · rfl
    | _ => rfl
  · rw [mapper_expr]
    cases e with
    | «variable» i n =>
        rw [Mapper.rebuild, read]
        split <;> rfl
    | _ => rfl

/-- Closure conversion keeps the accesses to global variables. -/
theorem Closure.mapper_keepsGlobalCalls : (mapper : Mapper (List String) ι).KeepsGlobalCalls := by
  refine Mapper.keepsGlobalCalls_of_rules mapper_keepsCallees (fun available e => ?_)
    (fun _ _ => rfl) (fun _ _ => rfl) (fun available e => ?_)
  · cases e with
    | functionLit i n params b =>
        rw [expr_functionLit, bundle]
        split <;> rfl
    | _ => rfl
  · cases e with
    | functionLit i n params b =>
        rw [expr_functionLit, bundle]
        split
        · rfl
        · rw [GlobalCall.collector_hook_call (by decide), Collector.exprs,
            GlobalCall.collector_variables, List.append_nil]
          rfl
    | _ => rfl

/-- Lowering function calls keeps the accesses to global variables. -/
theorem Application.mapper_keepsGlobalCalls : (mapper : Mapper Unit ι).KeepsGlobalCalls := by
  refine Mapper.keepsGlobalCalls_of_rules mapper_keepsCallees (fun _ e => ?_) (fun _ _ => rfl)
    (fun _ _ => rfl) (fun _ e => ?_)
  · rw [mapper_expr]
    cases e with
    | call i callee inputs =>
        rw [mapper_keepsMembers.rebuild_call, application]
        split <;> rfl
    | _ => rfl
  · rw [mapper_expr]
    cases e with
    | call i callee inputs =>
        rw [mapper_keepsMembers.rebuild_call, application]
        split
        · rfl
        · rename_i hmember
          have hnone : GlobalCall.ofExpr?
              (.call i (mapper.expr () callee) (mapper.exprs () inputs)) = none :=
            GlobalCall.ofExpr?_eq_none (Expr.hook?_call_of_not_member i
              (Bool.eq_false_iff.mpr hmember) _)
          rw [GlobalCall.collector_hook_call (by decide), Collector.exprs, Collector.expr]
          show _ = (GlobalCall.ofExpr? _).toList ++ _ ++ _
          rw [hnone]
          rfl
    | _ => rfl

/-- The stages after the resolution of global names keep all accesses to global variables. -/
theorem Program.globalCalls_lower (p : Program ι) :
    p.lower.globalCalls = (p.lowerUpTo .globals).globalCalls :=
  calc
    p.lower.globalCalls = (p.lowerUpTo .closures).globalCalls :=
      Application.mapper_keepsGlobalCalls.block trivial _
    _ = (p.lowerUpTo .boxing).globalCalls := Closure.mapper_keepsGlobalCalls.block trivial _
    _ = (p.lowerUpTo .globals).globalCalls := BoxedName.mapper_keepsGlobalCalls.block trivial _

/-! ## Global names in lowered programs -/

/-- Lowering the program leaves no variable of the given name. -/
structure Program.LowersWithout (p : Program ι) (n : String) : Prop where
  /-- It is neither read nor assigned. -/
  unused : ∀ use ∈ p.lower.nameUses, use.name ≠ n
  /-- It is neither declared nor a parameter. -/
  unbound : ∀ x ∈ p.lower.blocks, n ∉ Block.boundNames x
  /-- It is not boxed on the way. -/
  unboxed : n ∉ BoxedName.boxes (p.lowerUpTo .globals)
  /-- No function captures it. -/
  uncaptured : ∀ captured ∈ Closure.captured (p.lowerUpTo .boxing), n ∉ captured

/-- Global names stay exempt: a name that nothing below the top level binds once classes are
constructed is no variable of the lowered program, and all accesses to global variables are those
that their resolution has made or found, in the same order. -/
theorem globals_stay_exempt (p : Program ι) :
    (∀ n ∉ (p.lowerUpTo .classes).localNames, p.LowersWithout n) ∧
    p.lower.globalCalls = (p.lowerUpTo .globals).globalCalls := by
  refine ⟨fun n hn => ?_, p.globalCalls_lower⟩
  have haccessed : ∀ x ∈ Block.collector.stmts () (p.lowerUpTo .memberAccess).statements,
      Block.boundNames x ⊆ (p.lowerUpTo .classes).localNames :=
    Property.mapper_shapesCalls.keepsBlocks.boundNames_stmts
      Property.mapper_shapesCalls.boundNames_image fun x hx _ hm =>
        List.mem_flatMap.mpr ⟨x, hx, hm⟩
  have hresolved : (p.lowerUpTo .globals).BindsWithin _ := GlobalName.bindsWithin_run haccessed
  have hboxed : (p.lowerUpTo .boxing).BindsWithin _ := BoxedName.bindsWithin_run hresolved
  have hlower : p.lower.BindsWithin _ :=
    Application.bindsWithin_run (Closure.bindsWithin_run hboxed)
  have hclosed : p.lower.FunctionsClosed :=
    p.functionsClosed_lowerUpTo (by decide : .closures ≤ Stage.functionCalls)
  exact {
    unused := fun use huse hname => hn (hname ▸ NameUse.bound_subset hlower use huse
      (hclosed use huse))
    unbound := fun x hx hbound => hn (hlower.blocks x hx hbound)
    unboxed := fun hbox => hn (BoxedName.mem_boxes hresolved hbox)
    uncaptured := fun captured hcaptured hmem => hn (Closure.mem_captured hboxed hcaptured hmem) }

/-- A global variable that is used in functions and in a method, next to a local one that is boxed
and captured. -/
def sharedCount : Program ℕ :=
  ⟨[.declare 1 "count" (.number 2 "0"),
    .expr (.functionLit 3 (some "step") [⟨4, "by"⟩]
      [.declare 5 "total" (.variable 6 "by"),
        .ret 7 (.functionLit 8 none []
          [.assign 9 "total" (.variable 10 "count"), .assign 11 "count" (.variable 12 "total")])]),
    .expr (.classLit 13 (some "Made") [.mk 14 "current" [] [.ret 15 (.variable 16 "count")]])]⟩

/-- Here only the local variable is boxed and captured, and the six accesses to global ones stay. -/
theorem exempt_sharedCount :
    BoxedName.boxes (sharedCount.lowerUpTo .globals) = ["total"] ∧
    Closure.captured (sharedCount.lowerUpTo .boxing) = [["total"]] ∧
    "count" ∉ (sharedCount.lowerUpTo .classes).localNames ∧ sharedCount.LowersWithout "count" ∧
    (sharedCount.lowerUpTo .globals).globalCalls =
      [⟨.globalDefine, 1, some "count"⟩, ⟨.globalDefine, 3, some "step"⟩,
        ⟨.globalGet, 10, some "count"⟩, ⟨.globalSet, 11, some "count"⟩,
        ⟨.globalDefine, 13, some "Made"⟩, ⟨.globalGet, 16, some "count"⟩] ∧
    sharedCount.lower.globalCalls = (sharedCount.lowerUpTo .globals).globalCalls := by
  have hglobal : "count" ∉ (sharedCount.lowerUpTo .classes).localNames := by decide
  exact ⟨by decide +kernel, by decide +kernel, hglobal,
    (globals_stay_exempt sharedCount).1 "count" hglobal,
    by decide +kernel, (globals_stay_exempt sharedCount).2⟩

end Lowering
