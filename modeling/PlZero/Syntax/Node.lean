import PlZero.Syntax.Block

/-!
# Nodes

A node of a syntax tree, of whichever of the three families it belongs to:
blocks, statements or expressions. The preorder of a tree lists a node before
its parts, and its parts in source order.
-/

namespace PlZero

set_option autoImplicit false

inductive Family where
  | blocks
  | statements
  | expressions
  deriving DecidableEq, Repr

inductive Node where
  | block (block : Block)
  | statement (statement : Statement)
  | expression (expression : Expression)
  deriving DecidableEq, Repr

namespace Node

def family : Node → Family
  | block _ => .blocks
  | statement _ => .statements
  | expression _ => .expressions

end Node

def Expression.preorder : Expression → List Node
  | number value => [.expression (number value)]
  | identifier name => [.expression (identifier name)]
  | arithmetic operator left right =>
    .expression (arithmetic operator left right) :: (left.preorder ++ right.preorder)
  | relation comparison left right =>
    .expression (relation comparison left right) :: (left.preorder ++ right.preorder)
  | negate operand => .expression (negate operand) :: operand.preorder
  | odd operand => .expression (odd operand) :: operand.preorder

/-- A statement and all its parts; a condition comes before what it guards. -/
def Statement.preorder : Statement → List Node
  | ifThen condition body =>
    .statement (ifThen condition body) :: (condition.preorder ++ body.preorder)
  | whileDo condition body =>
    .statement (whileDo condition body) :: (condition.preorder ++ body.preorder)
  | assign name value => .statement (assign name value) :: value.preorder
  | pair first second => .statement (pair first second) :: (first.preorder ++ second.preorder)
  | call name => [.statement (call name)]
  | read name => [.statement (read name)]
  | print value => .statement (print value) :: value.preorder
  | pass => [.statement pass]

/-- A block and all its parts; a procedure's body comes before what follows it. -/
def Block.preorder : Block → List Node
  | procedure name body rest =>
    .block (procedure name body rest) :: (body.preorder ++ rest.preorder)
  | statement final => .block (statement final) :: final.preorder

def Node.preorder : Node → List Node
  | block root => root.preorder
  | statement root => root.preorder
  | expression root => root.preorder

end PlZero
