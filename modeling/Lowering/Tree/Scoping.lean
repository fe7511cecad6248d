import Lowering.Tree.Basic

/-!
# Scopes

Whatever goes through a tree carries a scope on the way down: what it has to know about the names
that are bound around a node. A `Scoping` says how functions and blocks extend it.
-/

namespace Lowering

/-- How a scope grows on the way down a tree: first by the parameters of a function, then by its
body. Branches and bodies of methods are blocks without parameters: those of a method count only
once it has become a function. -/
structure Scoping (σ ι : Type) where
  /-- The scope that a function literal makes for its body. -/
  ofFunction : σ → List (Param ι) → Block ι → σ := fun scope _ _ => scope
  /-- The scope inside a block. -/
  ofBlock : σ → Block ι → σ := fun scope _ => scope

end Lowering
