import PlZero.Traversal.NodeCount
import PlZero.Traversal.Recorder

/-!
# Visits as tours

A visitor that does something at each node that it comes to and then goes on to the parts, unless
it skips them, does this along a list of nodes that is known beforehand: the preorder without what
is below the nodes that are skipped. What such a visitor comes to is therefore told by a list,
whatever the families of nodes and however they call each other. Recorders and counters are visitors
of this kind.
-/

namespace PlZero

set_option autoImplicit false

/-- A node and, if it is not skipped, what is come to below it. -/
def Node.leading (skips : Node → Bool) (node : Node) (below : List Node) : List Node :=
  node :: if skips node then [] else below

def Expression.tour (skips : Node → Bool) : Expression → List Node
  | number value => Node.leading skips (.expression (number value)) []
  | identifier name => Node.leading skips (.expression (identifier name)) []
  | arithmetic operator left right =>
    Node.leading skips (.expression (arithmetic operator left right))
      (left.tour skips ++ right.tour skips)
  | relation comparison left right =>
    Node.leading skips (.expression (relation comparison left right))
      (left.tour skips ++ right.tour skips)
  | negate operand => Node.leading skips (.expression (negate operand)) (operand.tour skips)
  | odd operand => Node.leading skips (.expression (odd operand)) (operand.tour skips)

theorem Expression.tour_eq_children (skips : Node → Bool) (root : Expression) :
    root.tour skips =
      Node.leading skips (.expression root) (root.children.flatMap (Expression.tour skips)) := by
  cases root <;> simp [tour, children]

def Statement.tour (skips : Node → Bool) : Statement → List Node
  | ifThen condition body =>
    Node.leading skips (.statement (ifThen condition body))
      (condition.tour skips ++ body.tour skips)
  | whileDo condition body =>
    Node.leading skips (.statement (whileDo condition body))
      (condition.tour skips ++ body.tour skips)
  | assign name value => Node.leading skips (.statement (assign name value)) (value.tour skips)
  | pair first second =>
    Node.leading skips (.statement (pair first second)) (first.tour skips ++ second.tour skips)
  | call name => Node.leading skips (.statement (call name)) []
  | read name => Node.leading skips (.statement (read name)) []
  | print value => Node.leading skips (.statement (print value)) (value.tour skips)
  | pass => Node.leading skips (.statement pass) []

def Block.tour (skips : Node → Bool) : Block → List Node
  | procedure name body rest =>
    Node.leading skips (.block (procedure name body rest)) (body.tour skips ++ rest.tour skips)
  | statement final => Node.leading skips (.block (statement final)) (final.tour skips)

/-- The nodes of a tree that are come to, in order, when nothing below a skipped node is. -/
def Node.tour (skips : Node → Bool) : Node → List Node
  | block root => root.tour skips
  | statement root => root.tour skips
  | expression root => root.tour skips

section Preorder

theorem Node.leading_all (node : Node) (below : List Node) :
    node.leading (fun _ => false) below = node :: below := rfl

theorem Expression.tour_all (root : Expression) : root.tour (fun _ => false) = root.preorder := by
  induction root with
  | number | identifier => rfl
  | arithmetic operator left right ihLeft ihRight | relation comparison left right ihLeft ihRight =>
    rw [tour, Node.leading_all, ihLeft, ihRight, preorder]
  | negate operand ih | odd operand ih => rw [tour, Node.leading_all, ih, preorder]

theorem Statement.tour_all (root : Statement) : root.tour (fun _ => false) = root.preorder := by
  induction root with
  | ifThen condition body ih | whileDo condition body ih =>
    rw [tour, Node.leading_all, condition.tour_all, ih, preorder]
  | assign name value | print value => rw [tour, Node.leading_all, value.tour_all, preorder]
  | pair first second ihFirst ihSecond =>
    rw [tour, Node.leading_all, ihFirst, ihSecond, preorder]
  | call | read | pass => rfl

theorem Block.tour_all (root : Block) : root.tour (fun _ => false) = root.preorder := by
  induction root with
  | procedure name body rest ihBody ihRest =>
    rw [tour, Node.leading_all, ihBody, ihRest, preorder]
  | statement final => rw [tour, Node.leading_all, final.tour_all, preorder]

/-- Where nothing is skipped, the tour is the preorder. -/
theorem Node.tour_all (root : Node) : root.tour (fun _ => false) = root.preorder := by
  cases root with
  | block root => exact root.tour_all
  | statement root => exact root.tour_all
  | expression root => exact root.tour_all

end Preorder

section Touring

variable {m : Type → Type} [Monad m]

/-- The visitor that does something at each node and then visits the parts of those that it does
not skip. -/
def Visitor.touring (touch : Node → m Unit) (skips : Node → Bool) : Visitor m where
  onBlock block parts := do
    touch (.block block)
    if skips (.block block) then pure () else parts
  onStatement statement parts := do
    touch (.statement statement)
    if skips (.statement statement) then pure () else parts
  onExpression expression parts := do
    touch (.expression expression)
    if skips (.expression expression) then pure () else parts

variable [LawfulMonad m] (touch : Node → m Unit) (skips : Node → Bool)

theorem Node.forM_leading (node : Node) (below : List Node) :
    forM (node.leading skips below) touch =
      touch node >>= fun _ => if skips node then pure () else forM below touch := by
  cases skipped : skips node <;> simp [leading, skipped]

/-- If the visit of each part takes its nodes one after the other, so does that of all of them. -/
theorem forM_flatMap_of_parts {visit : Expression → m Unit} {nodes : Expression → List Node}
    {parts : List Expression} (each : ∀ part ∈ parts, visit part = forM (nodes part) touch) :
    forM parts visit = forM (parts.flatMap nodes) touch := by
  induction parts with
  | nil => rfl
  | cons part rest ih =>
    obtain ⟨first, others⟩ := List.forall_mem_cons.mp each
    rw [List.forM_cons, List.flatMap_cons, List.forM_append, first, ih others]

theorem Expression.accept_touring (root : Expression) :
    root.accept (.touring touch skips) = forM (root.tour skips) touch := by
  induction root using Expression.induction_on_children with
  | inherits root ih =>
    rw [accept_eq_children, tour_eq_children, Node.forM_leading,
      ← forM_flatMap_of_parts touch ih]
    rfl

theorem Statement.accept_touring (root : Statement) :
    root.accept (.touring touch skips) = forM (root.tour skips) touch := by
  induction root with
  | ifThen condition body ih | whileDo condition body ih =>
    rw [tour, Node.forM_leading, List.forM_append, ← condition.accept_touring, ← ih]
    rfl
  | assign name value | print value =>
    rw [tour, Node.forM_leading, ← value.accept_touring]
    rfl
  | pair first second ihFirst ihSecond =>
    rw [tour, Node.forM_leading, List.forM_append, ← ihFirst, ← ihSecond]
    rfl
  | call | read | pass =>
    rw [tour, Node.forM_leading, List.forM_nil]
    rfl

theorem Block.accept_touring (root : Block) :
    root.accept (.touring touch skips) = forM (root.tour skips) touch := by
  induction root with
  | procedure name body rest ihBody ihRest =>
    rw [tour, Node.forM_leading, List.forM_append, ← ihBody, ← ihRest]
    rfl
  | statement final =>
    rw [tour, Node.forM_leading, ← final.accept_touring]
    rfl

/-- A visit takes the nodes of the tour one after the other. -/
theorem Node.accept_touring (root : Node) :
    root.accept (.touring touch skips) = forM (root.tour skips) touch := by
  cases root with
  | block root => exact root.accept_touring touch skips
  | statement root => exact root.accept_touring touch skips
  | expression root => exact root.accept_touring touch skips

end Touring

end PlZero
