import PlZero.Proofs.Marks
import PlZero.Syntax.Node

/-!
# Links that take a level

Brackets, `BEGIN` and `END` leave no node in a tree, so its height is not the number of levels
that were open. But some links from a node to a part of it are there only because the part was
read one level further in: the body of a procedure or of a guarded statement, the members of a
group but the last, a value and the operands of a condition, and those operands of arithmetic
that need brackets. On no way down a derived tree are there more of these than it has levels.
-/

namespace PlZero

set_option autoImplicit false

inductive Link where
  /-- The part was read one level further in. -/
  | nesting
  /-- From a procedure to the rest of its block. -/
  | continuation
  /-- From a pair to its second statement. -/
  | follower
  /-- To a left operand that needs no brackets. -/
  | leftOperand
  /-- To any other part. -/
  | part
  deriving DecidableEq, Repr

def Link.nestingIf (test : Bool) (other : Link) : Link := if test then nesting else other

namespace Expression

def isLoose : Expression → Bool
  | arithmetic operator _ _ => operator.isAdditive
  | negate _ => true
  | _ => false

def isOperation : Expression → Bool
  | arithmetic .. => true
  | negate _ => true
  | _ => false

end Expression

namespace Node

/-- The parts of a node from left to right, each with the link to it. -/
def links : Node → List (Link × Node)
  | block (.procedure _ body rest) => [(.nesting, block body), (.continuation, block rest)]
  | block (.statement final) => [(.part, statement final)]
  | statement (.ifThen condition body) =>
    [(.part, expression condition), (.nesting, statement body)]
  | statement (.whileDo condition body) =>
    [(.part, expression condition), (.nesting, statement body)]
  | statement (.assign _ value) => [(.nesting, expression value)]
  | statement (.pair first second) => [(.nesting, statement first), (.follower, statement second)]
  | statement (.call _) => []
  | statement (.read _) => []
  | statement (.print value) => [(.nesting, expression value)]
  | statement .pass => []
  | expression (.number _) => []
  | expression (.identifier _) => []
  | expression (.arithmetic operator left right) =>
    [(.nestingIf (!operator.isAdditive && left.isLoose) .leftOperand, expression left),
      (.nestingIf (if operator.isAdditive then right.isLoose else right.isOperation) .part,
        expression right)]
  | expression (.relation _ left right) =>
    [(.nesting, expression left), (.nesting, expression right)]
  | expression (.negate operand) => [(.nestingIf operand.isLoose .part, expression operand)]
  | expression (.odd operand) => [(.nesting, expression operand)]

inductive Path : Node → List Link → Prop
  | leaf {node : Node} (last : node.links = []) : Path node []
  | down {node inner : Node} {link : Link} {further : List Link}
      (member : (link, inner) ∈ node.links) (rest : Path inner further) :
      Path node (link :: further)

/-- On each way down there are fewer nesting links than this. -/
def NestsBelow (node : Node) (bound : Nat) : Prop :=
  ∀ path, node.Path path → path.count .nesting < bound

theorem NestsBelow.mono {node : Node} {few many : Nat} (less : few ≤ many)
    (below : node.NestsBelow few) : node.NestsBelow many :=
  fun path way => Nat.lt_of_lt_of_le (below path way) less

/-- A part with its link that adds no more than one nesting link to those below it. -/
inductive Hangs (bound : Nat) : Link × Node → Prop
  | deeper {link : Link} {inner : Node} (below : inner.NestsBelow bound) :
      Hangs bound (link, inner)
  | level {link : Link} {inner : Node} (other : link ≠ .nesting)
      (below : inner.NestsBelow (bound + 1)) : Hangs bound (link, inner)

theorem nestsBelow_of_links {node : Node} {bound : Nat}
    (each : ∀ link ∈ node.links, Hangs bound link) : node.NestsBelow (bound + 1) := by
  intro path way
  cases way with
  | leaf last => exact Nat.succ_pos bound
  | @down _ inner link further member rest =>
    rw [List.count_cons]
    cases each _ member with
    | deeper below =>
      have fewer := below further rest
      split <;> omega
    | level other below =>
      have fewer := below further rest
      rw [if_neg (by simpa using other)]
      exact fewer

theorem nestsBelow_of_leaf {node : Node} (last : node.links = []) (bound : Nat) :
    node.NestsBelow (bound + 1) := by
  apply nestsBelow_of_links
  rw [last]
  exact fun _ member => by cases member

end Node

/-- An expression that adds no level of its own, unless it is one of those that need brackets. -/
structure Expression.Grouped (needsBrackets : Expression → Bool) (bound : Nat)
    (value : Expression) : Prop where
  below : (Node.expression value).NestsBelow (bound + 1)
  bracketed : needsBrackets value = true → (Node.expression value).NestsBelow bound

section Expressions

variable {bound : Nat} {inner : Grammar Expression}

theorem hangs_nestingIf {test : Bool} {other : Link} (plain : other ≠ .nesting) {part : Node}
    (below : part.NestsBelow (bound + 1)) (ifTest : test = true → part.NestsBelow bound) :
    Node.Hangs bound (.nestingIf test other, part) := by
  cases test with
  | true => exact .deeper (ifTest rfl)
  | false => exact .level plain below

theorem factor_grouped
    (inside : ∀ marks value, inner marks value → (Node.expression value).NestsBelow bound)
    {marks : List Mark} {value : Expression} (derived : IsFactor inner marks value) :
    value.Grouped Expression.isOperation bound := by
  cases derived with
  | name name line => exact ⟨Node.nestsBelow_of_leaf rfl bound, fun operation => by cases operation⟩
  | number value line =>
    exact ⟨Node.nestsBelow_of_leaf rfl bound, fun operation => by cases operation⟩
  | bracketed opening closing one =>
    have below := inside _ _ one
    exact ⟨below.mono (Nat.le_succ bound), fun _ => below⟩

/-- Factors joined by `*` and `/` add no level. -/
theorem product_grouped {left right : Expression} {operator : ArithmeticOperator}
    (rank : operator.isAdditive = false) (one : left.Grouped Expression.isLoose bound)
    (other : right.Grouped Expression.isOperation bound) :
    (Expression.arithmetic operator left right).Grouped Expression.isLoose bound where
  below := by
    apply Node.nestsBelow_of_links
    simp only [Node.links, rank, Bool.not_false, Bool.true_and, Bool.false_eq_true, if_false,
      List.forall_mem_cons]
    exact ⟨hangs_nestingIf (by decide) one.below one.bracketed,
      hangs_nestingIf (by decide) other.below other.bracketed, fun _ member => by cases member⟩
  bracketed loose := by
    rw [Expression.isLoose, rank] at loose
    cases loose

/-- Terms joined by `+` and `-` add no level. -/
theorem sum_below {left right : Expression} {operator : ArithmeticOperator}
    (rank : operator.isAdditive = true)
    (one : (Node.expression left).NestsBelow (bound + 1))
    (other : right.Grouped Expression.isLoose bound) :
    (Node.expression (.arithmetic operator left right)).NestsBelow (bound + 1) := by
  apply Node.nestsBelow_of_links
  simp only [Node.links, rank, Bool.not_true, Bool.false_and, if_true, List.forall_mem_cons]
  exact ⟨.level (by decide) one, hangs_nestingIf (by decide) other.below other.bracketed,
    fun _ member => by cases member⟩

theorem signed_below {operand : Expression} (one : operand.Grouped Expression.isLoose bound) :
    (Node.expression (.negate operand)).NestsBelow (bound + 1) := by
  apply Node.nestsBelow_of_links
  exact List.forall_mem_singleton.mpr (hangs_nestingIf (by decide) one.below one.bracketed)

theorem isOperation_of_loose {value : Expression} (loose : value.isLoose = true) :
    value.isOperation = true := by
  cases value with
  | arithmetic | negate => rfl
  | _ => cases loose

theorem term_grouped
    (inside : ∀ marks value, inner marks value → (Node.expression value).NestsBelow bound)
    {marks : List Mark} {value : Expression} (derived : IsTerm inner marks value) :
    value.Grouped Expression.isLoose bound := by
  obtain ⟨one, more⟩ := derived
  have first := factor_grouped inside one
  apply applyAll_keeps
  · exact ⟨first.below, fun loose => first.bracketed (isOperation_of_loose loose)⟩
  · intro operation member before grouped
    obtain ⟨part, own, _⟩ := repeated_parts more operation member
    obtain ⟨operator, line, rank, right⟩ := own
    exact product_grouped rank grouped (factor_grouped inside right)

theorem expression_below (height : Nat) (marks : List Mark) (value : Expression)
    (derived : IsExpression height marks value) : (Node.expression value).NestsBelow height := by
  induction height generalizing marks value with
  | zero => exact derived.elim
  | succ height inside =>
    have sums {left : Expression} {others : List Mark}
        {operations : List (ArithmeticOperator × Expression)}
        (begun : (Node.expression left).NestsBelow (height + 1))
        (more : Repeated (IsOperation true (IsTerm (IsExpression height))) others operations) :
        (Node.expression (Parser.applyAll left operations)).NestsBelow (height + 1) := by
      have kept := @applyAll_keeps fun value => (Node.expression value).NestsBelow (height + 1)
      refine kept begun ?_
      intro operation member before below
      obtain ⟨part, own, _⟩ := repeated_parts more operation member
      obtain ⟨operator, line, rank, right⟩ := own
      exact sum_below rank below (term_grouped inside right)
    cases derived with
    | plain one more => exact sums (term_grouped inside one).below more
    | signed line one more => exact sums (signed_below (term_grouped inside one)) more

theorem condition_below
    (inside : ∀ marks value, inner marks value → (Node.expression value).NestsBelow bound)
    {marks : List Mark} {value : Expression} (derived : IsCondition inner marks value) :
    (Node.expression value).NestsBelow (bound + 1) := by
  apply Node.nestsBelow_of_links
  cases derived with
  | odd text line one => exact List.forall_mem_singleton.mpr (.deeper (inside _ _ one))
  | relation stands one other =>
    refine List.forall_mem_cons.mpr ⟨.deeper (inside _ _ one), ?_⟩
    exact List.forall_mem_singleton.mpr (.deeper (inside _ _ other))

end Expressions

theorem sequence_below {bound : Nat} {statements : List Statement}
    (each : ∀ member ∈ statements, (Node.statement member).NestsBelow bound) :
    (Node.statement (.sequence statements)).NestsBelow (bound + 1) := by
  induction statements using Statement.sequence.induct with
  | case1 => exact Node.nestsBelow_of_leaf rfl bound
  | case2 last => exact (each last List.mem_cons_self).mono (Nat.le_succ bound)
  | case3 first next rest ih =>
    obtain ⟨one, others⟩ := List.forall_mem_cons.mp each
    apply Node.nestsBelow_of_links
    refine List.forall_mem_cons.mpr ⟨.deeper one, ?_⟩
    exact List.forall_mem_singleton.mpr (.level (by decide) (ih others))

theorem statement_below (height : Nat) (marks : List Mark) (value : Statement)
    (derived : IsStatement height marks value) : (Node.statement value).NestsBelow height := by
  induction height generalizing marks value with
  | zero => exact derived.elim
  | succ height inside =>
    have values := expression_below height
    cases derived with
    | empty | call | read | pass => exact Node.nestsBelow_of_leaf rfl height
    | assign name line equals one | print text line one =>
      apply Node.nestsBelow_of_links
      exact List.forall_mem_singleton.mpr (.deeper (values _ _ one))
    | group text line endText endLine one more =>
      apply sequence_below
      refine List.forall_mem_cons.mpr ⟨inside _ _ one, ?_⟩
      intro member among
      obtain ⟨part, own, _⟩ := repeated_parts more member among
      obtain ⟨line, other⟩ := own
      exact inside _ _ other
    | ifThen text line thenText thenLine test one | whileDo text line doText doLine test one =>
      apply Node.nestsBelow_of_links
      refine List.forall_mem_cons.mpr ⟨.level (by decide) (condition_below values test), ?_⟩
      exact List.forall_mem_singleton.mpr (.deeper (inside _ _ one))

theorem ofProcedures_below {bound : Nat} {procedures : List (String × Block)} {final : Statement}
    (each : ∀ declared ∈ procedures, (Node.block declared.2).NestsBelow bound)
    (last : (Node.statement final).NestsBelow (bound + 1)) :
    (Node.block (.ofProcedures procedures final)).NestsBelow (bound + 1) := by
  induction procedures with
  | nil =>
    apply Node.nestsBelow_of_links
    exact List.forall_mem_singleton.mpr (.level (by decide) last)
  | cons declared procedures ih =>
    obtain ⟨one, others⟩ := List.forall_mem_cons.mp each
    apply Node.nestsBelow_of_links
    refine List.forall_mem_cons.mpr ⟨.deeper one, ?_⟩
    exact List.forall_mem_singleton.mpr (.level (by decide) (ih others))

/-- A block takes two levels before anything in it is nested. -/
theorem block_below (height : Nat) (marks : List Mark) (value : Block)
    (derived : IsBlock (height + 1) marks value) : (Node.block value).NestsBelow height := by
  induction height generalizing marks value with
  | zero =>
    -- the statement that ends the block has no level left
    obtain ⟨_, _, _, last⟩ := derived
    exact last.elim
  | succ height inside =>
    obtain ⟨_, _, third, last⟩ := derived
    apply ofProcedures_below
    · intro declared member
      obtain ⟨part, own, _⟩ := repeated_parts third declared member
      obtain ⟨_, _, _, _, _, _, one⟩ := own
      exact inside _ _ one
    · exact statement_below (height + 1) _ _ last

end PlZero
