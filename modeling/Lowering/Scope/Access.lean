import Lowering.Tree.Collector

/-!
# Accesses to the names of a block

How the code of a block uses the names that the block binds, in evaluation order. Names that a
nested block or function binds again are left out. `Access.needsBox` says when a variable has to
live in a box because some function nested in the block could otherwise see a stale value.
-/

namespace Lowering

variable {ι : Type}

/-- A use of a name; `inside` says whether it stands in a function nested in the block. -/
inductive Access where
  | read (name : String) (inside : Bool)
  | write (name : String) (inside : Bool)
  | declare (name : String)
deriving DecidableEq, Repr

/-- Where a node stands, seen from a block around it. -/
structure Viewpoint where
  /-- The names that are bound again between the block and the node. -/
  rebound : List String
  /-- The node stands in a function nested in the block. -/
  inside : Bool

namespace Access

/-- Each node contributes its own access. A write or a declaration comes after its value. -/
def collector : Collector Viewpoint ι Access where
  ofFunction v params _ := ⟨Param.names params ++ v.rebound, true⟩
  ofBlock v b := ⟨b.declared ++ v.rebound, v.inside⟩
  onExpr
    | v, .variable _ n => if n ∈ v.rebound then [] else [.read n v.inside]
    | _, _ => []
  afterStmt
    | v, .declare _ n _ => if n ∈ v.rebound then [] else [.declare n]
    | v, .assign _ n _ => if n ∈ v.rebound then [] else [.write n v.inside]
    | _, _ => []

/-- The access reads `n`. -/
def reads (n : String) : Access → Bool
  | .read m _ => m = n
  | _ => false

/-- The access reads `n` in a nested function. -/
def readsInside (n : String) : Access → Bool
  | .read m inside => m = n && inside
  | _ => false

/-- The access assigns to `n`. -/
def writes (n : String) : Access → Bool
  | .write m _ => m = n
  | _ => false

/-- The access assigns to `n` in a nested function. -/
def writesInside (n : String) : Access → Bool
  | .write m inside => m = n && inside
  | _ => false

/-- The access declares `n`. -/
def declares (n : String) : Access → Bool
  | .declare m => m = n
  | _ => false

/-- Some access of the first kind stands before some access of the second kind. -/
def comesBefore (first second : Access → Bool) : List Access → Bool
  | [] => false
  | a :: as => (first a && as.any second) || comesBefore first second as

/-- The name needs a box: it is read before it is declared, or a nested function assigns to it, or
it is assigned after a nested function has read it. -/
def needsBox (n : String) (accesses : List Access) : Bool :=
  comesBefore (reads n) (declares n) accesses || accesses.any (writesInside n) ||
    comesBefore (readsInside n) (writes n) accesses

end Access

/-- The accesses of a block to its own names and to those from around it. -/
def Block.accesses (b : Block ι) : List Access :=
  Access.collector.stmts ⟨[], false⟩ b

end Lowering
