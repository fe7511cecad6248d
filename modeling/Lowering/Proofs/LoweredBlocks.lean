import Lowering.Proofs.CaptureByValue
import Lowering.Proofs.ClosedFunctions

/-!
# The blocks of a lowered program

Every block of a lowered program comes from a block of the boxed program, by closure conversion
(`Closure.mem_blocks_run`) and by making calls of function values explicit
(`Application.mem_blocks_run`). Closure conversion adds reads where functions are created, but only
of names that the function used (`Closure.carries_reads`); the last stage keeps all accesses
(`Application.accesses_stmts`).
-/

namespace Lowering

variable {σ ι : Type}

/-! ## Blocks of mapped trees -/

/-- If the heads of a mapper contain no blocks and its rules make none, then every block of a mapped
tree comes from mapping a block of the tree. -/
theorem Mapper.carries_blocks (M : Mapper σ ι)
    (hheads : ∀ params b, Block.collector.stmts () (M.heads params b) = [])
    (hstmt : ∀ u st, ∀ y ∈ Block.collector.stmt () (M.stmt u st),
      ∃ x ∈ Block.collector.stmt () (M.rebuildStmt u st), x.2 = y.2)
    (hexpr : ∀ u e, ∀ y ∈ Block.collector.expr () (M.expr u e),
      ∃ x ∈ Block.collector.expr () (M.rebuild u e), x.2 = y.2) :
    M.Carries Block.collector Block.collector (fun _ _ _ => True) fun xs ys =>
      ∀ y ∈ ys, ∃ x ∈ xs, ∃ u, y.2 = M.heads x.1 x.2 ++ M.stmts u x.2 where
  nil _ hy := absurd hy List.not_mem_nil
  append hfirst hsecond y hy := by
    rcases List.mem_append.mp hy with hy | hy
    · obtain ⟨x, hx, hbody⟩ := hfirst y hy
      exact ⟨x, List.mem_append_left _ hx, hbody⟩
    · obtain ⟨x, hx, hbody⟩ := hsecond y hy
      exact ⟨x, List.mem_append_right _ hx, hbody⟩
  ofFunction _ _ _ := trivial
  ofBlock _ _ _ := trivial
  heads _ params b y hy := by
    rw [hheads] at hy
    exact absurd hy List.not_mem_nil
  onBlock _ params b y hy := by
    obtain rfl := List.mem_singleton.mp hy
    exact ⟨(params, b), List.mem_singleton_self _, _, rfl⟩
  onStmt _ _ _ hy := absurd hy List.not_mem_nil
  afterStmt _ _ _ hy := absurd hy List.not_mem_nil
  onExpr _ _ _ hy := absurd hy List.not_mem_nil
  onMethod _ _ _ hy := absurd hy List.not_mem_nil
  stmt _ st h y hy := by
    obtain ⟨x, hx, hxy⟩ := hstmt _ st y hy
    rw [← hxy]
    exact h x hx
  expr _ e h y hy := by
    obtain ⟨x, hx, hxy⟩ := hexpr _ e y hy
    rw [← hxy]
    exact h x hx

namespace Closure

/-- Reads of captures contain no blocks. -/
theorem blocks_variables (i : ι) (names : List String) :
    Block.collector.exprs () (names.map (Expr.variable i ·)) = [] := by
  induction names with
  | nil => rfl
  | cons n ns ih => simp [Collector.exprs, Collector.expr, ih]

/-- The blocks of a bundled function are those of the function. -/
theorem blocks_bundle {captured : List String} {i : ι} {n : Option String}
    {params : List (Param ι)} {b : Block ι} {y : List (Param ι) × Block ι}
    (hy : y ∈ Block.collector.expr () (bundle captured (.functionLit i n params b))) :
    ∃ x ∈ Block.collector.expr () (.functionLit i n params b), x.2 = y.2 := by
  by_cases hnone : captured.isEmpty
  · rw [bundle, if_pos hnone] at hy
    exact ⟨y, hy, rfl⟩
  · rw [bundle, if_neg hnone, Block.collector_hook_call, Collector.exprs, blocks_variables,
      List.append_nil, Collector.expr_functionLit] at hy
    rw [Collector.expr_functionLit]
    -- only the parameters of the function itself differ
    rcases List.mem_cons.mp hy with rfl | hy
    · exact ⟨(params, b), List.mem_cons_self, rfl⟩
    · exact ⟨y, List.mem_cons_of_mem _ hy, rfl⟩

/-- The blocks of converted code are converted blocks of the code. -/
theorem carries_blocks : (mapper : Mapper (List String) ι).Carries Block.collector Block.collector
    (fun _ _ _ => True) fun xs ys =>
      ∀ y ∈ ys, ∃ x ∈ xs, ∃ available, y.2 = mapper.stmts available x.2 := by
  refine mapper.carries_blocks (fun _ _ => rfl) (fun u st y hy => ?_) (fun u e y hy => ?_)
  · rw [Mapper.stmt_eq] at hy
    exact ⟨y, hy, rfl⟩
  · rw [mapper_expr] at hy
    cases e with
    | functionLit i n params b => exact blocks_bundle hy
    | _ => exact ⟨y, hy, rfl⟩

end Closure

namespace Application

/-- The blocks of code with lowered calls are those of the code with lowered calls. -/
theorem carries_blocks : (mapper : Mapper Unit ι).Carries Block.collector Block.collector
    (fun _ _ _ => True) fun xs ys => ∀ y ∈ ys, ∃ x ∈ xs, ∃ u, y.2 = mapper.stmts u x.2 := by
  refine mapper.carries_blocks (fun _ _ => rfl) (fun u st y hy => ?_) (fun u e y hy => ?_)
  · rw [Mapper.stmt_eq] at hy
    exact ⟨y, hy, rfl⟩
  · rw [collect_expr (fun _ _ _ => rfl) Block.collector_hook_call] at hy
    exact ⟨y, hy, rfl⟩

end Application

/-- Every block of a program after closure conversion comes from a block before it. -/
theorem Closure.mem_blocks_run {p : Program ι} {y : List (Param ι) × Block ι}
    (hy : y ∈ (run p).blocks) : ∃ x ∈ p.blocks, ∃ available, y.2 = mapper.stmts available x.2 :=
  carries_blocks.block trivial p.statements y hy

/-- Every block of a program with explicit calls comes from a block of the program. -/
theorem Application.mem_blocks_run {p : Program ι} {y : List (Param ι) × Block ι}
    (hy : y ∈ (run p).blocks) : ∃ x ∈ p.blocks, y.2 = mapper.stmts () x.2 := by
  obtain ⟨x, hx, _, hbody⟩ := carries_blocks.block trivial p.statements y hy
  exact ⟨x, hx, hbody⟩

/-! ## Accesses -/

namespace Access

/-- The access makes a function literal around it, or the code itself, read `n` once closures are
converted: it reads `n`, or assigns to it in a nested function. -/
def demands (n : String) (a : Access) : Bool :=
  a.reads n || a.usesInside n

variable {n : String}

/-- In code that needs no box for a name, only its reads are demanded. -/
theorem comesBefore_demands {accesses : List Access} (h : needsBox n accesses = false) :
    comesBefore (demands n) (declares n) accesses = false := by
  have hwrites := writesInside_of_needsBox h
  rw [Bool.eq_false_iff]
  intro hbefore
  obtain ⟨before, a, after, rfl, ha, hafter⟩ := comesBefore_iff.mp hbefore
  have hread : a.reads n = true := by
    rcases Bool.or_eq_true_iff.mp ha with hread | huse
    · exact hread
    · have hnot := List.any_eq_false.mp hwrites a (by simp)
      exact reads_of_readsInside (readsInside_of_usesInside huse (Bool.eq_false_iff.mpr hnot))
  have hreads : comesBefore (reads n) (declares n) (before ++ a :: after) = true :=
    comesBefore_iff.mpr ⟨before, a, after, rfl, hread, hafter⟩
  simp [needsBox, hreads] at h

/-- A name used in a nested function is so from all around, unless it is bound again. -/
theorem usesInside_view {v : Viewpoint} {e : Expr ι} (hn : n ∉ v.rebound)
    (h : (collector.expr .here e).any (usesInside n) = true) :
    (collector.expr v e).any (usesInside n) = true := by
  obtain ⟨a, ha, huse⟩ := List.any_eq_true.mp h
  have hseen : v.mark a ∈ seen n v (collector.expr .here e) := by
    rw [seen, if_neg hn]
    exact List.mem_map_of_mem (List.mem_filter.mpr ⟨ha, by simp [name_of_usesInside huse]⟩)
  rw [← ofName_expr] at hseen
  refine List.any_eq_true.mpr ⟨_, (List.mem_filter.mp hseen).1, ?_⟩
  unfold Viewpoint.mark
  split
  · cases a <;> simp_all [moveInside, usesInside]
  · exact huse

/-- A read is one from everywhere. -/
@[simp] theorem reads_mark (v : Viewpoint) (a : Access) : (v.mark a).reads n = a.reads n := by
  unfold Viewpoint.mark
  split
  · cases a <;> rfl
  · rfl

/-- A name is read by a list of statements, seen from around it, if it is read there and not bound
again. -/
theorem reads_stmts_iff (v : Viewpoint) (ss : List (Stmt ι)) :
    (collector.stmts v ss).any (reads n) = true ↔
      n ∉ v.rebound ∧ (collector.stmts .here ss).any (reads n) = true := by
  rw [← any_ofName (fun _ => name_of_reads), ofName_stmts, seen]
  split
  · rename_i hn
    simp [hn]
  · rename_i hn
    rw [List.any_map, Function.comp_def]
    simp only [reads_mark]
    rw [any_ofName (fun _ => name_of_reads)]
    simp [hn]

/-- A function literal reads what its body reads and does not bind. -/
theorem reads_functionLit_iff (v : Viewpoint) (i : ι) (m : Option String) (params : List (Param ι))
    (b : Block ι) :
    (collector.expr v (.functionLit i m params b)).any (reads n) = true ↔
      (n ∉ b.declared ∧ n ∉ Param.names params ∧ n ∉ v.rebound) ∧
        b.accesses.any (reads n) = true := by
  have hcode : collector.expr v (.functionLit i m params b) =
      collector.stmts ⟨b.declared ++ (Param.names params ++ v.rebound), true⟩ b := by
    simp [Collector.expr]
  rw [hcode, reads_stmts_iff, List.mem_append, List.mem_append, not_or, not_or]
  rfl

/-- How accesses to `n` are converted: what is read was demanded before, also as seen from a
declaration of `n`. -/
structure ReadAsDemanded (n : String) (accesses converted : List Access) : Prop where
  reads : converted.any (reads n) = true → accesses.any (demands n) = true
  declares : converted.any (declares n) = true → accesses.any (declares n) = true
  before : comesBefore (Access.reads n) (Access.declares n) converted = true →
    comesBefore (demands n) (Access.declares n) accesses = true

namespace ReadAsDemanded

/-- No accesses are demanded by none. -/
theorem nil (accesses : List Access) : ReadAsDemanded n accesses [] where
  reads h := by simp at h
  declares h := by simp at h
  before h := by simp [comesBefore] at h

/-- Single accesses are kept. -/
theorem singleton (a : Access) : ReadAsDemanded n [a] [a] where
  reads h := by simpa [demands] using Or.inl h
  declares h := h
  before h := by simp [comesBefore] at h

/-- Accesses in a row are as demanded if each part is. -/
theorem append {first second first' second' : List Access} (hfirst : ReadAsDemanded n first first')
    (hsecond : ReadAsDemanded n second second') :
    ReadAsDemanded n (first ++ second) (first' ++ second') where
  reads h := by
    rw [List.any_append, Bool.or_eq_true] at h ⊢
    exact h.imp hfirst.reads hsecond.reads
  declares h := by
    rw [List.any_append, Bool.or_eq_true] at h ⊢
    exact h.imp hfirst.declares hsecond.declares
  before h := by
    simp only [comesBefore_append, Bool.or_eq_true, Bool.and_eq_true] at h ⊢
    rcases h with (h | ⟨hreads, hdeclares⟩) | h
    · exact Or.inl (Or.inl (hfirst.before h))
    · exact Or.inl (Or.inr ⟨hfirst.reads hreads, hsecond.declares hdeclares⟩)
    · exact Or.inr (hsecond.before h)

/-- A node's own access is kept or, where its name is bound again, left out. -/
theorem own {v w : Viewpoint} {m : String} (h : m ∈ v.rebound → m ∈ w.rebound) (a : Access) :
    ReadAsDemanded n (if m ∈ v.rebound then [] else [a]) (if m ∈ w.rebound then [] else [a]) := by
  by_cases hw : m ∈ w.rebound
  · rw [if_pos hw]
    exact .nil _
  · rw [if_neg hw, if_neg (fun hv => hw (h hv))]
    exact .singleton a

/-- An expression declares nothing, so for it only the reads count. -/
theorem of_reads {accesses : List Access} {v : Viewpoint} {e : Expr ι}
    (h : (collector.expr v e).any (Access.reads n) = true → accesses.any (demands n) = true) :
    ReadAsDemanded n accesses (collector.expr v e) where
  reads := h
  declares hdeclares := by
    rw [declares_expr] at hdeclares
    exact absurd hdeclares Bool.false_ne_true
  before hbefore := by
    rw [comesBefore_of_any_second _ (declares_expr n v e)] at hbefore
    exact absurd hbefore Bool.false_ne_true

end ReadAsDemanded

end Access

namespace Closure

variable {n : String}

/-- Reads of variables as inputs. -/
theorem accesses_variables (v : Viewpoint) (i : ι) (names : List String) :
    (Access.collector.exprs v (names.map (Expr.variable i ·))).any (Access.reads n) = true →
      n ∈ names ∧ n ∉ v.rebound := by
  induction names with
  | nil => simp [Collector.exprs]
  | cons m ms ih =>
      intro h
      rw [List.map_cons, Collector.exprs, List.any_append, Bool.or_eq_true] at h
      rcases h with h | h
      · by_cases hm : m ∈ v.rebound
        · simp [Collector.expr, hm] at h
        · obtain rfl : m = n := by simpa [Collector.expr, hm, Access.reads] using h
          exact ⟨List.mem_cons_self, hm⟩
      · exact (ih h).imp_left (List.mem_cons_of_mem _)

/-- A bundled function reads what the function read or captures. -/
theorem reads_bundle {v : Viewpoint} {captured : List String} {i : ι} {m : Option String}
    {params : List (Param ι)} {b : Block ι}
    (h : (Access.collector.expr v (bundle captured (.functionLit i m params b))).any
      (Access.reads n) = true) :
    (Access.collector.expr v (.functionLit i m params b)).any (Access.reads n) = true ∨
      n ∈ captured ∧ n ∉ v.rebound := by
  rw [bundle] at h
  split at h
  · exact Or.inl h
  · rw [Access.collector_hook_call, Collector.exprs, List.any_append, Bool.or_eq_true] at h
    rcases h with h | h
    · left
      rw [Access.reads_functionLit_iff, names_captured, List.mem_append, not_or] at h
      rw [Access.reads_functionLit_iff]
      exact ⟨⟨h.1.1, h.1.2.1.2, h.1.2.2⟩, h.2⟩
    · exact Or.inr (accesses_variables v i captured h)

/-- Closure conversion makes code read only what it demanded. -/
theorem carries_reads (n : String) : (mapper : Mapper (List String) ι).Carries Access.collector
    Access.collector (fun v _ w => v.inside = w.inside ∧ ∀ m ∈ v.rebound, m ∈ w.rebound)
    (Access.ReadAsDemanded n) where
  nil := .nil _
  append := .append
  ofFunction h params b := by
    refine ⟨rfl, fun m hm => ?_⟩
    rcases List.mem_append.mp hm with hm | hm
    · exact List.mem_append_left _ hm
    · exact List.mem_append_right _ (h.2 m hm)
  ofBlock h params b := by
    rw [mapper_heads, List.nil_append, Access.collector_ofBlock, Access.collector_ofBlock,
      declared_stmts]
    refine ⟨h.1, fun m hm => ?_⟩
    rcases List.mem_append.mp hm with hm | hm
    · exact List.mem_append_left _ hm
    · exact List.mem_append_right _ (h.2 m hm)
  heads _ _ _ := .nil _
  onBlock _ _ _ := .nil _
  onStmt _ _ := .nil _
  afterStmt h st := by
    cases st with
    | declare i m value => exact .own (h.2 m) (.declare m)
    | assign i m value =>
        simp only [Access.collector_afterStmt, Mapper.rebuildStmt, h.1]
        exact .own (h.2 m) (.write m _)
    | _ => exact .nil _
  onExpr h e := by
    cases e with
    | «variable» i m =>
        simp only [Access.collector_onExpr, Mapper.rebuild, h.1]
        exact .own (h.2 m) (.read m _)
    | _ => exact .nil _
  onMethod _ _ := .nil _
  stmt _ st h := by
    rw [Mapper.stmt_eq]
    exact h
  expr hR e h := by
    rw [mapper_expr]
    cases e with
    | functionLit i m params b =>
        refine .of_reads fun hreads => ?_
        rcases reads_bundle hreads with hreads | ⟨hcaptured, hn⟩
        · exact h.reads hreads
        · -- the function uses what it captures, so the place where it stands demanded it
          have hfree := (mem_captures.mp hcaptured).1
          have hinside := Access.usesInside_view (fun hm => hn (hR.2 _ hm))
            (Access.usesInside_functionLit i m hfree)
          obtain ⟨a, ha, huse⟩ := List.any_eq_true.mp hinside
          exact List.any_eq_true.mpr ⟨a, ha, by simp [Access.demands, huse]⟩
    | _ => exact h

end Closure

namespace Application

/-- Making the calls of function values explicit keeps all accesses. -/
theorem carries_accesses : (mapper : Mapper Unit ι).Carries Access.collector Access.collector
    (fun v _ w => w = v) (fun xs ys => ys = xs) where
  nil := rfl
  append h h' := by rw [h, h']
  ofFunction h params b := by rw [h]; rfl
  ofBlock h params b := by
    rw [h, mapper_heads, List.nil_append, Access.collector_ofBlock, declared_stmts]
    rfl
  heads _ _ _ := rfl
  onBlock _ _ _ := rfl
  onStmt _ _ := rfl
  afterStmt h st := by
    rw [h]
    cases st <;> rfl
  onExpr h e := by
    rw [h]
    cases e <;> rfl
  onMethod _ _ := rfl
  stmt _ st h := by
    rw [Mapper.stmt_eq]
    exact h
  expr _ e h := by
    rw [← h]
    exact collect_expr (fun _ _ _ => rfl) (Access.collector_hook_call _) e

/-- Lowering function calls keeps all accesses of a block. -/
theorem accesses_stmts (b : Block ι) : Block.accesses (mapper.stmts () b) = b.accesses :=
  carries_accesses.stmts rfl b

end Application

end Lowering
