/-!
# Sets of names

A set of names is the list of its members in strictly increasing order, by code point.
-/

namespace Lowering.Names

/-- Add a name to a set. -/
def insert (n : String) : List String → List String
  | [] => [n]
  | m :: ms => if n < m then n :: m :: ms else if n = m then m :: ms else m :: insert n ms

/-- The set of the names in a list. -/
def sorted (names : List String) : List String :=
  names.foldr insert []

/-- A set with a name added holds that name and those it held before. -/
theorem mem_insert {n m : String} {names : List String} :
    m ∈ insert n names ↔ m = n ∨ m ∈ names := by
  induction names with
  | nil => simp [insert]
  | cons k ks ih =>
      unfold insert
      split
      · simp
      · split
        · simp_all
        · simp [ih, or_left_comm]

/-- The set of the names in a list holds exactly these names. -/
theorem mem_sorted {m : String} {names : List String} : m ∈ sorted names ↔ m ∈ names := by
  induction names with
  | nil => simp [sorted]
  | cons n ns ih =>
      have h : sorted (n :: ns) = insert n (sorted ns) := rfl
      rw [h, mem_insert, ih, List.mem_cons]

/-- Adding a name keeps a set in strictly increasing order. -/
theorem pairwise_insert {n : String} {names : List String} (h : names.Pairwise (· < ·)) :
    (insert n names).Pairwise (· < ·) := by
  induction names with
  | nil => simp [insert]
  | cons m ms ih =>
      rw [List.pairwise_cons] at h
      unfold insert
      split
      · rename_i hlt
        refine List.pairwise_cons.mpr ⟨?_, List.pairwise_cons.mpr h⟩
        intro k hk
        rcases List.mem_cons.mp hk with rfl | hk
        · exact hlt
        · exact String.lt_trans hlt (h.1 k hk)
      · split
        · exact List.pairwise_cons.mpr h
        · rename_i hnot hne
          refine List.pairwise_cons.mpr ⟨?_, ih h.2⟩
          intro k hk
          rcases mem_insert.mp hk with rfl | hk
          · exact Decidable.by_contra fun hmk =>
              hne (String.le_antisymm (String.not_lt.mp hmk) (String.not_lt.mp hnot))
          · exact h.1 k hk

/-- The names of a set are in strictly increasing order. -/
theorem pairwise_sorted (names : List String) : (sorted names).Pairwise (· < ·) := by
  induction names with
  | nil => exact .nil
  | cons n ns ih => exact pairwise_insert ih

/-- A set of names has no repeats. -/
theorem nodup_sorted (names : List String) : (sorted names).Nodup := by
  refine (pairwise_sorted names).imp ?_
  rintro n _ hlt rfl
  exact String.lt_irrefl n hlt

end Lowering.Names
