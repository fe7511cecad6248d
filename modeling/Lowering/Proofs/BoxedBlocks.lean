import Lowering.Proofs.BlockEvents
import Lowering.Proofs.CaptureByValue

/-!
# The blocks of a boxed program, one by one

Boxing keeps the blocks of a program in their order and changes each of them in one way: statements
that create boxes come first, in increasing order of their names, then what has become of each
statement. Main statement: `boxing_block_by_block`, which also says which names are boxed, by the
events of the block before boxing.
-/

namespace Lowering

variable {ι : Type}

namespace BoxedName

/-- The statement creates the box of a name: from a parameter of that name, which the box then
holds, or else from a declaration of it. -/
def CreatesBox (params : List (Param ι)) (b : Block ι) (n : String) (s : Stmt ι) : Prop :=
  (∃ p ∈ params, p.name = n ∧
    s = .assign p.info n (Hook.createBox.call p.info [.variable p.info n])) ∨
  (n ∉ Param.names params ∧ ∃ d ∈ b, d.declared? = some n ∧
    s = .declare d.info n (Hook.createUndefinedBox.call d.info [.name d.info n]))

/-- A block with its parameters before and after boxing. -/
structure Boxed (source target : List (Param ι) × Block ι) : Prop where
  params_eq : target.1 = source.1
  /-- The names that are boxed come in increasing order and are those that the block binds and has a
  reason to box. A statement for each of them creates its box. What has become of the statements of
  the block follows, where uses of the names that it binds go through boxes accordingly. -/
  statements : ∃ (names : List String) (heads : Block ι) (scope : List (String × Bool)),
    names.Pairwise (· < ·) ∧
    (∀ n, n ∈ names ↔
      (n ∈ Param.names source.1 ∨ n ∈ source.2.declared) ∧ BoxReason n source.2.nameEvents) ∧
    List.Forall₂ (CreatesBox source.1 source.2) names heads ∧
    (∀ n, n ∈ Param.names source.1 ∨ n ∈ source.2.declared →
      (isBoxed scope n = true ↔ n ∈ names)) ∧
    target.2 = heads ++ source.2.map (mapper.stmt scope)

/-- A block boxes the names that it or its parameters bind and that its events give a reason to
box. -/
theorem mem_boxedNames_iff {params : List (Param ι)} {b : Block ι} {n : String} :
    n ∈ boxedNames params b ↔
      (n ∈ Param.names params ∨ n ∈ b.declared) ∧ BoxReason n b.nameEvents := by
  rw [mem_boxedNames, Access.needsBox_iff, b.accesses_eq_nameEvents]

/-- The box of each name that a block binds is created by some statement. -/
theorem head?_createsBox {params : List (Param ι)} {b : Block ι} {n : String}
    (h : n ∈ Param.names params ∨ n ∈ b.declared) :
    ∃ s, head? params b n = some s ∧ CreatesBox params b n s := by
  cases hparam : params.find? (·.name = n) with
  | some p =>
      have hp := List.mem_of_find?_eq_some hparam
      have hname : p.name = n := by simpa using List.find?_some hparam
      exact ⟨_, by simp only [head?, hparam], .inl ⟨p, hp, hname, rfl⟩⟩
  | none =>
      have hparams : n ∉ Param.names params := by
        intro hn
        obtain ⟨p, hp, hname⟩ := List.mem_map.mp hn
        exact List.find?_eq_none.mp hparam p hp (by simpa using hname)
      obtain ⟨d, hd, hdeclared⟩ := Block.mem_declared.mp (h.resolve_left hparams)
      cases hfirst : b.find? (·.declared? = some n) with
      | none => exact absurd (by simpa using hdeclared) (List.find?_eq_none.mp hfirst d hd)
      | some s =>
          have hs := List.mem_of_find?_eq_some hfirst
          have hsn : s.declared? = some n := by simpa using List.find?_some hfirst
          exact ⟨_, by simp only [head?, hparam, hfirst, Option.map_some],
            .inr ⟨hparams, s, hs, hsn, rfl⟩⟩

/-- There is one statement for each name at the head of a block. -/
theorem heads_createBoxes {params : List (Param ι)} {b : Block ι} {names : List String}
    (h : ∀ n ∈ names, n ∈ Param.names params ∨ n ∈ b.declared) :
    List.Forall₂ (CreatesBox params b) names (names.filterMap (head? params b)) := by
  induction names with
  | nil => exact .nil
  | cons n names ih =>
      rw [List.forall_mem_cons] at h
      obtain ⟨s, hs, hcreates⟩ := head?_createsBox h.1
      rw [List.filterMap_cons_some hs]
      exact .cons hcreates (ih h.2)

/-- The image of a block is the block with its boxes. -/
theorem boxed_of_image {source target : List (Param ι) × Block ι}
    (h : mapper.Image source target) : Boxed source target := by
  obtain ⟨scope, rfl⟩ := h
  obtain ⟨params, b⟩ := source
  refine ⟨rfl, boxedNames params b, heads params b, inner scope params b,
    Names.pairwise_sorted _, fun _ => mem_boxedNames_iff,
    heads_createBoxes fun n hn => (mem_boxedNames.mp hn).1, ?_, ?_⟩
  · intro n hn
    rw [isBoxed_inner scope hn, mem_boxedNames]
    exact ⟨fun hneeds => ⟨hn, hneeds⟩, fun hboxed => hboxed.2⟩
  · rw [body_eq, Mapper.stmts_eq_map]

end BoxedName

/-- Boxing goes through a program block by block and boxes exactly the names that it has a reason to
box: those that are declared after a read, or that a nested function assigns to, or that are
assigned after a nested function has read them. -/
theorem boxing_block_by_block (p : Program ι) :
    List.Forall₂ BoxedName.Boxed p.blocks (BoxedName.run p).blocks :=
  (BoxedName.mapper_keepsBlocks.block [] p.statements).imp fun _ _ => BoxedName.boxed_of_image

end Lowering
