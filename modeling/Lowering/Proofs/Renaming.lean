import Lowering.Proofs.Composition
import Lowering.Proofs.Reporting
import Lowering.Proofs.Rewriting
import Lowering.Tree.Walk

/-!
# Renaming the variables that are read

`Block.rename` has one rule, for the reads of variables, and `Block.reads` lists what it applies to.
Main statement: `rename_at_every_depth`. The listed reads are those of all nodes of the block, in
their order. Each of them is renamed, and nothing else is changed. Renaming twice is renaming by the
composed function.
-/

namespace Lowering

variable {ι : Type}

/-! ## What is read -/

/-- The info and the name of a node that reads a variable. -/
def Node.read? : Node ι → Option (ι × String)
  | .expr (.variable i n) => some (i, n)
  | _ => none

/-- The event of meeting a node. -/
def Node.event : Node ι → Event ι
  | .expr e => .expr e.info e.kind
  | .stmt s => .stmt s.info s.kind
  | .method (.mk i n _ _) => .method i n
  | .function _ b | .block b => .block b.length

/-- The info of a variable, if the event is to meet one. -/
def Event.variable? : Event ι → Option ι
  | .expr i .variable => some i
  | _ => none

/-- A node that reads a variable is met as one, and no other node is. -/
theorem Node.variable?_event (n : Node ι) : n.event.variable? = n.read?.map Prod.fst := by
  cases n with
  | expr e => cases e <;> rfl
  | method m =>
      obtain ⟨i, n, params, b⟩ := m
      rfl
  | _ => rfl

namespace Block

variable (b : Block ι)

/-- The variables read in a block are those that its nodes read, in their order. -/
theorem reads_eq_preorder : b.reads = (Node.block b).preorder.filterMap Node.read? := by
  rw [List.filterMap_eq_flatMap_toList]
  refine (readCollector.node_eq_preorder (fun _ => rfl) (.block b)).trans ?_
  refine List.flatMap_congr fun n _ => ?_
  cases n with
  | expr e => cases e <;> rfl
  | _ => rfl

/-- The events of a walk are those of meeting the nodes, in their order. -/
theorem events_eq_preorder : b.events = (Node.block b).preorder.map Node.event := by
  rw [List.map_eq_flatMap]
  refine (Event.collector.node_eq_preorder (fun _ => rfl) (.block b)).trans ?_
  refine List.flatMap_congr fun n _ => ?_
  cases n with
  | method m =>
      obtain ⟨i, n, params, b⟩ := m
      rfl
  | _ => rfl

/-- The infos of the variables read in a block are those of the variables that a walk meets. -/
theorem infos_reads : b.reads.map Prod.fst = b.events.filterMap Event.variable? := by
  rw [reads_eq_preorder, events_eq_preorder, List.map_filterMap, List.filterMap_map]
  exact List.filterMap_congr fun n _ => (n.variable?_event).symm

end Block

/-! ## What becomes of a node -/

/-- A read of a variable gets a new name and keeps its info, and all other expressions stay. The
expressions are given with their children renamed. -/
inductive Expr.RenamesRead (f : String → String) : Expr ι → Expr ι → Prop where
  | read (i n) : RenamesRead f (.variable i n) (.variable i (f n))
  | other (e) : e.kind ≠ .variable → RenamesRead f e e

/-- An expression is renamed in one way only. -/
theorem Expr.RenamesRead.unique {f : String → String} {e t t' : Expr ι} (h : e.RenamesRead f t)
    (h' : e.RenamesRead f t') : t' = t := by
  cases h with
  | read i n =>
      cases h' with
      | read => rfl
      | other _ hkind => exact absurd rfl hkind
  | other _ hkind =>
      cases h' with
      | read => exact absurd rfl hkind
      | other => rfl

/-- Reads of variables are renamed. Statements, methods, parameters and all infos stay as they
are. -/
def readRenaming (f : String → String) : Rewriting ι where
  expr _ _ rebuilt result := rebuilt.RenamesRead f result

/-- So code is renamed in one way only. -/
theorem readRenaming_determined (f : String → String) :
    (readRenaming f : Rewriting ι).Determined where
  heads h h' := h'.trans h.symm
  stmt h h' := h'.trans h.symm
  expr h h' := h.unique h'

/-! ## The rule for reads -/

namespace Block

variable (f g h : String → String)

/-- Statements are renamed in their parts only. -/
theorem renamer_stmt (s : Stmt ι) : (renamer f).stmt () s = (renamer f).rebuildStmt () s :=
  Mapper.stmt_eq _ () s

/-- A read of a variable gets the new name. -/
theorem renamer_variable (i : ι) (n : String) :
    (renamer f).expr () (.variable i n) = .variable i (f n) := rfl

/-- The rule for expressions renames reads and leaves all else alone. -/
theorem renamer_renamesRead (e : Expr ι) :
    ((renamer f).rebuild () e).RenamesRead f ((renamer f).expr () e) := by
  cases e with
  | «variable» i n => exact .read i n
  | _ => exact .other _ (by simp [Mapper.rebuild, Expr.kind])

/-- The traversal skips the selected method of a call, which the rule would not change. -/
theorem renamer_follows :
    (renamer f : Mapper Unit ι).Follows (readRenaming f) (fun _ _ _ => True) where
  keepsMembers _ _ _ _ _ := rfl
  fewer _ _ := trivial
  function _ _ _ := trivial
  block _ _ := trivial
  heads _ _ := rfl
  stmt s _ _ := renamer_stmt f s
  expr e _ := renamer_renamesRead f e

/-- Renaming keeps the kind of every expression, so that of callees too. -/
theorem renamer_keepsCallees : (renamer f : Mapper Unit ι).KeepsCallees where
  unit _ e := by cases e <;> rfl
  member _ e hmember := by
    cases e with
    | member => cases hmember
    | _ => rfl

/-- At each node whose name allows it, renaming by `f` and then by `g` is renaming by `h`. -/
theorem renamer_composes :
    (renamer f : Mapper Unit ι).Composes (renamer g) (renamer h) (fun _ _ _ => True)
      { expr := fun e => ∀ i n, e = .variable i n → g (f n) = h n } where
  heads _ _ := ⟨rfl, rfl, rfl⟩
  callees := renamer_keepsCallees f
  ofFunction _ _ _ := trivial
  ofBlock _ _ := trivial
  stmt _ s _ hbelow := by rw [renamer_stmt, renamer_stmt, renamer_stmt, hbelow]
  expr _ e hform hbelow := by
    cases e with
    | «variable» i n => rw [renamer_variable, renamer_variable, renamer_variable, hform.1 i n rfl]
    | _ => exact hbelow

/-- The reads of a renamed tree are the reads of the tree, each under its new name. -/
theorem renamer_reports :
    (renamer f : Mapper Unit ι).Reports .any readCollector readCollector (fun _ _ => True)
      (fun before after => (before.1, f before.2) = after) where
  ofFunction _ _ _ := trivial
  ofBlock _ _ := trivial
  heads _ _ := rfl
  onBlock _ _ _ _ := .nil
  onStmt _ _ := .nil
  afterStmt _ _ := .nil
  onMethod _ _ := .nil
  callee _ _ _ _ := .nil
  stmt _ s := by rw [renamer_stmt]
  expr _ e _ hbelow := by
    cases e with
    | «variable» i n => exact .cons rfl .nil
    | _ =>
        rw [Collector.expr_eq_below, Collector.expr_eq_below]
        exact hbelow

/-- The reads of a renamed block are those of the block, each under its new name. -/
theorem reads_rename (b : Block ι) :
    (b.rename f).reads = b.reads.map fun x => (x.1, f x.2) := by
  have hreads : List.Forall₂ (fun before after => (before.1, f before.2) = after) b.reads
      (b.rename f).reads :=
    (renamer_reports f).block trivial (Form.any_stmts b)
  rw [← List.forall₂_map_left_iff, List.forall₂_eq_eq_eq] at hreads
  exact hreads.symm

variable {f g h}

/-- Two renamings are a third one if they are so for the names that are read. -/
theorem rename_rename_eq {b : Block ι} (hreads : ∀ x ∈ b.reads, g (f x.2) = h x.2) :
    (b.rename f).rename g = b.rename h := by
  refine (renamer_composes f g h).block trivial
    (Form.holds_of_preorder (n := .block b) fun m hm => ?_)
  cases m with
  | expr e =>
      rintro i n rfl
      refine hreads (i, n) ?_
      rw [reads_eq_preorder]
      exact List.mem_filterMap.mpr ⟨_, hm, rfl⟩
  | _ => trivial

/-- Renamings give the same block exactly if they agree on the names that are read. -/
theorem rename_eq_rename_iff {b : Block ι} :
    b.rename f = b.rename g ↔ ∀ x ∈ b.reads, f x.2 = g x.2 := by
  constructor
  · intro hrename x hx
    have hreads := congrArg reads hrename
    rw [reads_rename, reads_rename, List.map_inj_left] at hreads
    exact congrArg Prod.snd (hreads x hx)
  · intro hreads
    -- both are what renaming by `f` and then by nothing gives
    calc b.rename f = (b.rename f).rename id := (rename_rename_eq fun _ _ => rfl).symm
      _ = b.rename g := rename_rename_eq hreads

variable (f)

/-- The result of renaming is the one block in which reads have been renamed and nothing else. -/
theorem rename_eq_iff (b c : Block ι) :
    b.rename f = c ↔ (readRenaming f).RewritesBlock [] [] b c := by
  have hrename : (readRenaming f).RewritesBlock [] [] b (b.rename f) :=
    (renamer_follows f).block_rewrites trivial
  exact ⟨fun h => h ▸ hrename, fun h => (readRenaming_determined f).block h hrename⟩

end Block

/-- A rule for the reads of variables is applied at every depth. What is listed are the reads of all
nodes of the block, in their order, so with the infos of the variables that a walk meets. The reads
of the result are these, in order and with their infos, each under its new name. The result depends
on the names that are read and on no others. Two renamings are one. And the result is the one block
in which reads have been renamed while all other nodes and all that they carry are as they were. -/
theorem rename_at_every_depth (f g : String → String) (b : Block ι) :
    b.reads = (Node.block b).preorder.filterMap Node.read? ∧
    b.reads.map Prod.fst = b.events.filterMap Event.variable? ∧
    (b.rename f).reads = b.reads.map (fun x => (x.1, f x.2)) ∧
    (b.rename f = b.rename g ↔ ∀ x ∈ b.reads, f x.2 = g x.2) ∧
    (b.rename f).rename g = b.rename (g ∘ f) ∧
    ∀ c, b.rename f = c ↔ (readRenaming f).RewritesBlock [] [] b c :=
  ⟨b.reads_eq_preorder, b.infos_reads, b.reads_rename f, Block.rename_eq_rename_iff,
    Block.rename_rename_eq fun _ _ => rfl, b.rename_eq_iff f⟩

end Lowering
