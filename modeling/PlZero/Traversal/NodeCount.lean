import PlZero.Traversal.Visitor

/-!
# Counting nodes

How many nodes of each family a tree has, found by a visitor that adds one for
each node it meets.
-/

namespace PlZero

set_option autoImplicit false

structure NodeCount where
  blocks : Nat := 0
  statements : Nat := 0
  expressions : Nat := 0
  deriving DecidableEq, Repr

namespace NodeCount

def total (count : NodeCount) : Nat :=
  count.blocks + count.statements + count.expressions

def counter : Visitor (StateM NodeCount) where
  onBlock _ parts := do
    modify fun count => { count with blocks := count.blocks + 1 }
    parts
  onStatement _ parts := do
    modify fun count => { count with statements := count.statements + 1 }
    parts
  onExpression _ parts := do
    modify fun count => { count with expressions := count.expressions + 1 }
    parts

def ofNode (root : Node) : NodeCount :=
  ((root.accept counter).run {}).2

def ofBlock (block : Block) : NodeCount := ofNode (.block block)

end NodeCount

end PlZero
