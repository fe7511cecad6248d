import Mathlib.Data.List.TakeWhile
import Lowering.Proofs.Blocks

/-!
# The names of imported packages

An import without a name declares a variable that is named after the path. Main statement:
`import_declares_last_segment`. The name is the one non-empty part of the path between slashes with
nothing but slashes after it, and the whole path if there is no such part; wherever the import
stands, the declaration stands there after the stage.
-/

namespace Lowering

variable {ι : Type}

/-! ## The last segment of a path -/

/-- The text is a part of the path between slashes that is not empty, and only slashes follow
it. -/
structure IsLastSegment (path segment : String) : Prop where
  ne_empty : segment ≠ ""
  slash_notMem : '/' ∉ segment.toList
  split : ∃ before slashes : String, path = before ++ segment ++ slashes ∧
    (∀ c ∈ slashes.toList, c = '/') ∧ (before = "" ∨ ∃ rest, before = rest ++ "/")

namespace Declaration

/-- A path of slashes alone is the name of its package. -/
theorem importedName_of_slashes {path : String} (h : ∀ c ∈ path.toList, c = '/') :
    importedName path = path := by
  have hdrop : path.toList.reverse.dropWhile (· = '/') = [] := by
    rw [List.dropWhile_eq_nil_iff]
    intro c hc
    exact decide_eq_true (h c (List.mem_reverse.mp hc))
  rw [importedName, hdrop]

/-- What is left of a path without the slashes at its end, read backwards, begins with its last
segment. -/
theorem importedName_of_dropWhile {path : String} {rest : List Char}
    (hdrop : path.toList.reverse.dropWhile (· = '/') = rest) (hrest : rest ≠ []) :
    importedName path = String.ofList (rest.takeWhile (· ≠ '/')).reverse := by
  cases rest with
  | nil => exact absurd rfl hrest
  | cons c cs => rw [importedName, hdrop]

end Declaration

namespace IsLastSegment

/-- A path with a character that is no slash has a last segment. -/
theorem exists_of_mem {path : String} {c : Char} (hc : c ∈ path.toList) (hslash : c ≠ '/') :
    ∃ segment, IsLastSegment path segment := by
  -- read backwards, the path is slashes, then the segment, then what is before it
  have hpath : path.toList.reverse.takeWhile (· = '/') ++ path.toList.reverse.dropWhile (· = '/') =
      path.toList.reverse := List.takeWhile_append_dropWhile
  have hslashes : ∀ x ∈ path.toList.reverse.takeWhile (· = '/'), x = '/' := fun _ hx => by
    simpa using List.mem_takeWhile_imp hx
  have hhead := List.head?_dropWhile_not (· = '/') path.toList.reverse
  cases hrest : path.toList.reverse.dropWhile (· = '/') with
  | nil =>
      have hall := List.dropWhile_eq_nil_iff.mp hrest c (List.mem_reverse.mpr hc)
      exact absurd (of_decide_eq_true hall) hslash
  | cons d ds =>
      rw [hrest] at hpath hhead
      generalize path.toList.reverse.takeWhile (· = '/') = slashes at hpath hslashes
      have hd : d ≠ '/' := of_decide_eq_false hhead
      have hsegment : ∀ x ∈ ds.takeWhile (· ≠ '/'), x ≠ '/' := fun _ hx => by
        simpa using List.mem_takeWhile_imp hx
      have hbefore := List.head?_dropWhile_not (· ≠ '/') ds
      refine ⟨String.ofList (d :: ds.takeWhile (· ≠ '/')).reverse, ?_, ?_,
        String.ofList (ds.dropWhile (· ≠ '/')).reverse, String.ofList slashes.reverse, ?_, ?_, ?_⟩
      · simp [← String.toList_inj]
      · rw [String.toList_ofList, List.mem_reverse, List.mem_cons]
        rintro (rfl | hmem)
        · exact hd rfl
        · exact hsegment _ hmem rfl
      · rw [← String.toList_inj, ← List.reverse_inj, ← hpath]
        simp [List.takeWhile_append_dropWhile]
      · simpa using hslashes
      · cases hds : ds.dropWhile (· ≠ '/') with
        | nil => exact .inl rfl
        | cons x xs =>
            rw [hds] at hbefore
            obtain rfl : x = '/' := not_not.mp (of_decide_eq_false hbefore)
            refine .inr ⟨String.ofList xs.reverse, ?_⟩
            rw [List.reverse_cons, String.ofList_append]

/-- The last segment is the name of the package, so a path has no other. -/
theorem importedName_eq {path segment : String} (h : IsLastSegment path segment) :
    Declaration.importedName path = segment := by
  obtain ⟨before, slashes, rfl, hslashes, hbefore⟩ := h.split
  -- read backwards, the segment begins with a character that is no slash
  obtain ⟨c, cs, hcs⟩ : ∃ c cs, segment.toList.reverse = c :: cs :=
    List.exists_cons_of_ne_nil (by simpa using h.ne_empty)
  have hsegment : ∀ d ∈ c :: cs, d ≠ '/' := by
    intro d hd hslash
    rw [← hcs, List.mem_reverse, hslash] at hd
    exact h.slash_notMem hd
  have hdrop : (before ++ segment ++ slashes).toList.reverse.dropWhile (· = '/') =
      c :: cs ++ before.toList.reverse := by
    rw [String.toList_append, String.toList_append, List.reverse_append, List.reverse_append, hcs,
      List.dropWhile_append_of_pos (by simpa using hslashes), List.cons_append,
      List.dropWhile_cons_of_neg (by simpa using hsegment c List.mem_cons_self)]
  -- and a slash or nothing comes after it
  have htake : (before.toList.reverse).takeWhile (· ≠ '/') = [] := by
    rcases hbefore with rfl | ⟨rest, rfl⟩
    · rfl
    · rw [String.toList_append, List.reverse_append]
      rfl
  rw [Declaration.importedName_of_dropWhile hdrop (List.cons_ne_nil _ _),
    List.takeWhile_append_of_pos (by simpa using hsegment), htake, List.append_nil, ← hcs,
    List.reverse_reverse, String.ofList_toList]

end IsLastSegment

/-- The name of a package is the last segment of its path, if the path has one. -/
theorem isLastSegment_iff {path : String} (h : ∃ c ∈ path.toList, c ≠ '/') (segment : String) :
    IsLastSegment path segment ↔ segment = Declaration.importedName path := by
  obtain ⟨c, hc, hslash⟩ := h
  obtain ⟨last, hlast⟩ := IsLastSegment.exists_of_mem hc hslash
  constructor
  · exact fun hsegment => hsegment.importedName_eq.symm
  · rintro rfl
    rwa [hlast.importedName_eq]

/-! ## Imports at every depth -/

namespace Declaration

/-- A statement that declares has the same blocks in it as its declaration. -/
theorem blocks_declaration (s : Stmt ι) :
    Block.collector.stmt () (declaration s) = Block.collector.stmt () s := by
  cases s with
  | expr e =>
      cases e with
      | functionLit i n params b => cases n <;> rfl
      | classLit i n ms => cases n <;> rfl
      | _ => rfl
  | _ => rfl

/-- The blocks with declared imports are the images of those of the code. -/
theorem mapper_keepsBlocks : (mapper : Mapper Unit ι).KeepsBlocks where
  ofFunction _ _ := rfl
  heads _ _ := rfl
  stmt _ s := by
    rw [Mapper.stmt_eq]
    exact blocks_declaration _
  expr _ _ := rfl

/-- The blocks of the result are the blocks of the program with each statement mapped in its
place. -/
theorem blocks_run (p : Program ι) :
    (run p).blocks = p.blocks.map fun x => (x.1, x.2.map (mapper.stmt ())) := by
  have hblocks : List.Forall₂ (fun x y => (x.1, x.2.map (mapper.stmt ())) = y) p.blocks
      (run p).blocks := by
    refine (mapper_keepsBlocks.block () p.statements).imp ?_
    rintro x _ ⟨_, rfl⟩
    exact congrArg (Prod.mk x.1) (Mapper.stmts_eq_map mapper () x.2).symm
  rw [← List.forall₂_map_left_iff, List.forall₂_eq_eq_eq] at hblocks
  exact hblocks.symm

/-- An import that stands in a block of the program is a declaration in the same place of the same
block of the result. -/
theorem import_run {p : Program ι} {j k : ℕ} {params : List (Param ι)} {b : Block ι} {i : ι}
    {n : Option String} {path : String} (hblock : p.blocks[j]? = some (params, b))
    (himport : b[k]? = some (.importPackage i n path)) :
    ∃ b', (run p).blocks[j]? = some (params, b') ∧
      b'[k]? = some (.declare i (n.getD (importedName path))
        (Hook.importPackage.call i [.text i path])) := by
  refine ⟨b.map (mapper.stmt ()), ?_, ?_⟩
  · rw [blocks_run, List.getElem?_map, hblock]
    rfl
  · rw [List.getElem?_map, himport]
    rfl

end Declaration

/-- A path that does not consist of slashes has one last segment, which is the name of the package;
a path of slashes alone is itself the name. Where an import without a name stands, at whatever
depth, the stage leaves the declaration of that name by the runtime's import of the whole path. -/
theorem import_declares_last_segment (path : String) :
    ((∃ c ∈ path.toList, c ≠ '/') →
      ∀ segment, IsLastSegment path segment ↔ segment = Declaration.importedName path) ∧
    ((∀ c ∈ path.toList, c = '/') → Declaration.importedName path = path) ∧
    ∀ (p : Program ι) (j k : ℕ) (params : List (Param ι)) (b : Block ι) (i : ι),
      p.blocks[j]? = some (params, b) → b[k]? = some (.importPackage i none path) →
      ∃ b', (Declaration.run p).blocks[j]? = some (params, b') ∧
        b'[k]? = some (.declare i (Declaration.importedName path)
          (Hook.importPackage.call i [.text i path])) :=
  ⟨isLastSegment_iff, Declaration.importedName_of_slashes,
    fun _ _ _ _ _ _ hblock himport => Declaration.import_run hblock himport⟩

/-- Imports without names at the top, and in a method of a class in a branch of a function. -/
def nestedImports : Program ℕ :=
  ⟨[.importPackage 1 none "//",
    .expr (.functionLit 2 (some "f") [⟨3, "x"⟩]
      [.branch 4 (.variable 5 "x") []
        [.expr (.classLit 6 none [.mk 7 "m" []
          [.ret 8 (.unit 9), .importPackage 10 none "/lib//util/strings//"]])]])]⟩

/-- An import deep in a program declares the last segment of its path, and one of slashes alone its
path. -/
theorem nestedImports_declare :
    IsLastSegment "/lib//util/strings//" "strings" ∧
    Declaration.importedName "//" = "//" ∧
    (∃ b, (Declaration.run nestedImports).blocks[0]? = some ([], b) ∧
      b[0]? = some (.declare 1 "//" (Hook.importPackage.call 1 [.text 1 "//"]))) ∧
    ∃ b, (Declaration.run nestedImports).blocks[4]? = some ([], b) ∧
      b[1]? = some (.declare 10 "strings"
        (Hook.importPackage.call 10 [.text 10 "/lib//util/strings//"])) := by
  obtain ⟨hsegment, _, hmethod⟩ := @import_declares_last_segment ℕ "/lib//util/strings//"
  obtain ⟨_, hslashes, htop⟩ := @import_declares_last_segment ℕ "//"
  have hname : Declaration.importedName "/lib//util/strings//" = "strings" := by decide
  have hwhole : Declaration.importedName "//" = "//" := hslashes (by simp)
  refine ⟨(hsegment ⟨'l', by simp⟩ _).mpr hname.symm, hwhole, ?_, ?_⟩
  · rw [hwhole] at htop
    exact htop nestedImports 0 0 [] _ 1 rfl rfl
  · rw [hname] at hmethod
    exact hmethod nestedImports 4 1 [] _ 10 rfl rfl

end Lowering
