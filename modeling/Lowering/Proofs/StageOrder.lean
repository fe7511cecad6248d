import Mathlib.Order.Lattice
import Lowering.Pipeline

/-!
# The order of the stages

Stages are ordered by when they run. The stages up to a later one are those up to an earlier one and
some more (`Stage.upTo_eq_append`), so a run up to a later stage goes on from a run up to an earlier
one.
-/

namespace Lowering

variable {ι : Type}

namespace Stage

/-- No two stages have the same place. -/
theorem index_injective : Function.Injective index := by
  intro first second h
  cases first <;> cases second <;> first | rfl | cases h

/-- Stages are ordered by their place. -/
instance : LinearOrder Stage := LinearOrder.lift' index index_injective

/-- The stages up to a given one are exactly those that do not come after it. -/
theorem mem_upTo {stage last : Stage} : stage ∈ last.upTo ↔ stage ≤ last := by
  cases last <;> cases stage <;> decide

/-- The stages up to a later one are those up to an earlier one, and those that come after it. -/
theorem upTo_eq_append {first second : Stage} (h : first ≤ second) :
    second.upTo = first.upTo ++ second.upTo.filter (first < ·) := by
  revert h
  cases first <;> cases second <;> decide

/-- The stages of the second part do come after the earlier one. -/
theorem lt_of_mem_filter {first second stage : Stage}
    (h : stage ∈ second.upTo.filter (first < ·)) : first < stage := by
  simpa using (List.mem_filter.mp h).2

end Stage

namespace Program

/-- Stages in two parts run one after the other. -/
theorem runStages_append (first second : List Stage) (p : Program ι) :
    p.runStages (first ++ second) = (p.runStages first).runStages second :=
  List.foldl_append

/-- A run up to a later stage goes on from a run up to an earlier one. -/
theorem lowerUpTo_of_le {first second : Stage} (h : first ≤ second) (p : Program ι) :
    p.lowerUpTo second = (p.lowerUpTo first).runStages (second.upTo.filter (first < ·)) := by
  conv_lhs => rw [lowerUpTo, Stage.upTo_eq_append h, runStages_append]
  rfl

end Program

end Lowering
