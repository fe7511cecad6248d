import Lowering.Tree.Collector
import Lowering.Tree.Mapper
import Lowering.Tree.Traversal

/-!
# Walks

Uses of the three ways to go through a tree: the events that a walk meets, the variables that a
block reads, a fresh numbering of all nodes, and a renaming of variable reads.
-/

namespace Lowering

variable {ι : Type}

/-- What a walk meets. -/
inductive Event (ι : Type) where
  /-- A block, with its number of statements. -/
  | block (size : Nat)
  /-- A statement, with its info and kind. -/
  | stmt (info : ι) (kind : StmtKind)
  /-- An expression, with its info and kind. -/
  | expr (info : ι) (kind : ExprKind)
  /-- A method, with its info and name. -/
  | method (info : ι) (name : String)
deriving DecidableEq

/-- Each node contributes the event of meeting it. -/
def Event.collector : Collector Unit ι (Event ι) where
  onBlock _ _ b := [.block b.length]
  onStmt _ s := [.stmt s.info s.kind]
  onExpr _ e := [.expr e.info e.kind]
  onMethod
    | _, .mk i n _ _ => [.method i n]

/-- The events of a walk through a block. -/
def Block.events (b : Block ι) : List (Event ι) :=
  Event.collector.block () b

/-- Each read of a variable contributes its info and name. -/
def Block.readCollector : Collector Unit ι (ι × String) where
  onExpr
    | _, .variable i n => [(i, n)]
    | _, _ => []

/-- The variables read in a block, in evaluation order. -/
def Block.reads (b : Block ι) : List (ι × String) :=
  Block.readCollector.block () b

/-- Each node takes the next number, and each block notes the number that comes next together with
its size. Parameters keep their info. -/
def Block.numbering : Traversal (StateM (UInt32 × List (UInt32 × Nat))) UInt32 UInt32 where
  onBlock size := modify fun (next, blocks) => (next, blocks ++ [(next, size)])
  onStmt _ _ := modifyGet fun (next, blocks) => (next, (next + 1, blocks))
  onExpr _ _ := modifyGet fun (next, blocks) => (next, (next + 1, blocks))
  onMethod _ _ := modifyGet fun (next, blocks) => (next, (next + 1, blocks))
  onParam i := pure i

/-- Number the nodes of a block from `start` on, and list the blocks that were met. -/
def Block.renumber (start : UInt32) (b : Block UInt32) : Block UInt32 × List (UInt32 × Nat) :=
  let (numbered, _, blocks) := (Block.numbering.block b).run (start, [])
  (numbered, blocks)

/-- Each read of a variable gets a new name. Declarations, assignments and parameters stay. -/
def Block.renamer (rename : String → String) : Mapper Unit ι where
  onExpr
    | _, _, .variable i n => .variable i (rename n)
    | _, _, e => e

/-- Rename the variables read in a block. -/
def Block.rename (rename : String → String) (b : Block ι) : Block ι :=
  (Block.renamer rename).block () b

end Lowering
