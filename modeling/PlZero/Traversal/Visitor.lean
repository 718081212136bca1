import PlZero.Syntax.Node

/-!
# Visitors

A visitor has one handler for each family of nodes. A handler is given the node
together with the action that visits its parts, and decides what to do before
and after that action, or whether to take it at all. The handler of a family
that is of no interest just takes the action, so the parts are reached anyway.
-/

namespace PlZero

set_option autoImplicit false

structure Visitor (m : Type → Type) where
  onBlock : Block → m Unit → m Unit := fun _ parts => parts
  onStatement : Statement → m Unit → m Unit := fun _ parts => parts
  onExpression : Expression → m Unit → m Unit := fun _ parts => parts

variable {m : Type → Type} [Monad m]

def Expression.accept (visitor : Visitor m) : Expression → m Unit
  | number value => visitor.onExpression (number value) (pure ())
  | identifier name => visitor.onExpression (identifier name) (pure ())
  | arithmetic operator left right =>
    visitor.onExpression (arithmetic operator left right) do
      left.accept visitor
      right.accept visitor
  | relation comparison left right =>
    visitor.onExpression (relation comparison left right) do
      left.accept visitor
      right.accept visitor
  | negate operand => visitor.onExpression (negate operand) (operand.accept visitor)
  | odd operand => visitor.onExpression (odd operand) (operand.accept visitor)

/-- The parts that a visit goes on to are the children. -/
theorem Expression.accept_eq_children [LawfulMonad m] (visitor : Visitor m) (root : Expression) :
    root.accept visitor =
      visitor.onExpression root (forM root.children fun part => part.accept visitor) := by
  cases root <;> simp [accept, children]

/-- Visit a statement, a condition before what it guards. -/
def Statement.accept (visitor : Visitor m) : Statement → m Unit
  | ifThen condition body =>
    visitor.onStatement (ifThen condition body) do
      condition.accept visitor
      body.accept visitor
  | whileDo condition body =>
    visitor.onStatement (whileDo condition body) do
      condition.accept visitor
      body.accept visitor
  | assign name value => visitor.onStatement (assign name value) (value.accept visitor)
  | pair first second =>
    visitor.onStatement (pair first second) do
      first.accept visitor
      second.accept visitor
  | call name => visitor.onStatement (call name) (pure ())
  | read name => visitor.onStatement (read name) (pure ())
  | print value => visitor.onStatement (print value) (value.accept visitor)
  | pass => visitor.onStatement pass (pure ())

/-- Visit a block, the body of a procedure before what follows it. -/
def Block.accept (visitor : Visitor m) : Block → m Unit
  | procedure name body rest =>
    visitor.onBlock (procedure name body rest) do
      body.accept visitor
      rest.accept visitor
  | statement final => visitor.onBlock (statement final) (final.accept visitor)

def Node.accept (visitor : Visitor m) : Node → m Unit
  | block root => root.accept visitor
  | statement root => root.accept visitor
  | expression root => root.accept visitor

end PlZero
