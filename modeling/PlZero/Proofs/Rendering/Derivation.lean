import PlZero.Proofs.Grammar
import PlZero.Proofs.Rendering.Source

/-!
# Written trees are derived

The marks of what is written for a tree, all on line zero, and their derivation. The
brackets around every operation make an operand a single factor, so each operation
is the only one of its expression.
-/

namespace PlZero

set_option autoImplicit false

def Expression.marks : Expression → List Mark
  | number value => [.plain ⟨.number value, 0⟩]
  | identifier name => [.use .integer name 0]
  | arithmetic operator left right =>
    .symbol '(' 0 :: (left.marks ++ .symbol operator.char 0 :: (right.marks ++ [.symbol ')' 0]))
  | relation comparison left right => left.marks ++ .plain ⟨comparison.token, 0⟩ :: right.marks
  | negate operand => .symbol '(' 0 :: .symbol '-' 0 :: (operand.marks ++ [.symbol ')' 0])
  | odd operand => .keyword .oddKw "ODD" 0 :: operand.marks

def Statement.marks : Statement → List Mark
  | ifThen condition body =>
    .keyword .ifKw "IF" 0 :: (condition.marks ++ .keyword .thenKw "THEN" 0 :: body.marks)
  | whileDo condition body =>
    .keyword .whileKw "WHILE" 0 :: (condition.marks ++ .keyword .doKw "DO" 0 :: body.marks)
  | assign name value => .use .integer name 0 :: .symbol '=' 0 :: value.marks
  | pair first second =>
    .keyword .beginKw "BEGIN" 0 ::
      (first.marks ++ (.symbol ';' 0 :: second.marks ++ [.keyword .endKw "END" 0]))
  | call name => [.keyword .callKw "CALL" 0, .use .procedure name 0]
  | read name => [.keyword .readKw "READ" 0, .use .integer name 0]
  | print value => .keyword .printKw "PRINT" 0 :: value.marks
  | pass => [.keyword .passKw "PASS" 0]

def Block.marks : Block → List Mark
  | procedure name body rest =>
    .keyword .procedureKw "PROCEDURE" 0 :: .declare .procedure name 0 :: .symbol ';' 0 ::
      (.enter :: (body.marks ++ [.leave]) ++ [.symbol ';' 0]) ++ rest.marks
  | statement final => final.marks

def declarationMarks : List String → List Mark
  | [] => []
  | first :: others =>
    .keyword .varKw "VAR" 0 :: .declare .var first 0 ::
      (others.flatMap (fun name => [.symbol ',' 0, .declare .var name 0]) ++ [.symbol ';' 0])

def Block.programMarks (block : Block) (order : List String) : List Mark :=
  .enter :: ((declarationMarks order ++ block.marks) ++ [.leave])

theorem term_of_factor {inner : Grammar Expression} {marks : List Mark} {value : Expression}
    (one : IsFactor inner marks value) : IsTerm inner marks value := by
  have term := IsTerm.mk one (.none : Repeated (IsOperation false (IsFactor inner)) [] [])
  rwa [List.append_nil] at term

theorem expression_of_term {inner : Grammar Expression} {marks : List Mark} {value : Expression}
    (one : IsTerm inner marks value) : IsExpressionBody inner marks value := by
  have expression := IsExpressionBody.plain one
    (.none : Repeated (IsOperation true (IsTerm inner)) [] [])
  rwa [List.append_nil] at expression

theorem repeated_of_operation {additive : Bool} {operand : Grammar Expression} {marks : List Mark}
    {right : Expression} (operator : ArithmeticOperator) (rank : operator.isAdditive = additive)
    (one : operand marks right) :
    Repeated (IsOperation additive operand) (.symbol operator.char 0 :: marks)
      [(operator, right)] := by
  have single := Repeated.more (IsOperation.mk operator 0 rank one) .none
  rwa [List.append_nil] at single

theorem expression_of_factors {inner : Grammar Expression} {first second : List Mark}
    {left right : Expression} (operator : ArithmeticOperator) (one : IsFactor inner first left)
    (other : IsFactor inner second right) :
    IsExpressionBody inner (first ++ .symbol operator.char 0 :: second)
      (.arithmetic operator left right) := by
  cases rank : operator.isAdditive with
  | true =>
    exact .plain (term_of_factor one) (repeated_of_operation operator rank (term_of_factor other))
  | false => exact expression_of_term (.mk one (repeated_of_operation operator rank other))

/-- A production that counts as a level leaves one less to what is inside it. -/
theorem below_of_succ_le {needed height : Nat} (enough : needed + 1 ≤ height) :
    ∃ below, height = below + 1 ∧ needed ≤ below :=
  ⟨height - 1, by omega, by omega⟩

theorem factor_of_arithmetic {expression : Expression} (arithmetic : expression.IsArithmetic)
    {height : Nat} (enough : expression.height ≤ height) :
    IsFactor (IsExpression height) expression.marks expression := by
  induction expression generalizing height with
  | number value => exact .number value 0
  | identifier name => exact .name name 0
  | arithmetic operator left right ihLeft ihRight =>
    obtain ⟨below, rfl, within⟩ := below_of_succ_le enough
    have inside : IsExpression (below + 1) _ _ := expression_of_factors operator
      (ihLeft arithmetic.1 (by omega)) (ihRight arithmetic.2 (by omega))
    have bracketed := IsFactor.bracketed 0 0 inside
    rwa [List.append_assoc] at bracketed
  | negate operand ih =>
    obtain ⟨below, rfl, within⟩ := below_of_succ_le enough
    have inside : IsExpression (below + 1) (.symbol '-' 0 :: (operand.marks ++ [])) _ :=
      .signed 0 (term_of_factor (ih arithmetic within)) .none
    rw [List.append_nil] at inside
    exact .bracketed 0 0 inside
  | relation | odd => exact arithmetic.elim

theorem expression_of_arithmetic {expression : Expression} (arithmetic : expression.IsArithmetic)
    {height : Nat} (enough : expression.height + 1 ≤ height) :
    IsExpression height expression.marks expression := by
  obtain ⟨below, rfl, within⟩ := below_of_succ_le enough
  exact expression_of_term (term_of_factor (factor_of_arithmetic arithmetic within))

theorem condition_of_test {condition : Expression} (test : condition.IsTest) {height : Nat}
    (enough : condition.height + 1 ≤ height) :
    IsCondition (IsExpression height) condition.marks condition := by
  cases condition with
  | relation comparison left right =>
    simp only [Expression.height] at enough
    exact .relation (Comparison.ofToken?_token comparison)
      (expression_of_arithmetic test.1 (by omega)) (expression_of_arithmetic test.2 (by omega))
  | odd operand => exact .odd "ODD" 0 (expression_of_arithmetic test enough)
  | number | identifier | arithmetic | negate => exact test.elim

theorem statement_of_formed {statement : Statement} (formed : statement.IsFormed) {height : Nat}
    (enough : statement.height ≤ height) : IsStatement height statement.marks statement := by
  induction statement generalizing height with
  | ifThen condition body ih =>
    obtain ⟨below, rfl, within⟩ := below_of_succ_le enough
    exact .ifThen "IF" 0 "THEN" 0 (condition_of_test formed.1 (by omega)) (ih formed.2 (by omega))
  | whileDo condition body ih =>
    obtain ⟨below, rfl, within⟩ := below_of_succ_le enough
    exact .whileDo "WHILE" 0 "DO" 0 (condition_of_test formed.1 (by omega)) (ih formed.2 (by omega))
  | assign name value =>
    obtain ⟨below, rfl, within⟩ := below_of_succ_le enough
    exact .assign name 0 0 (expression_of_arithmetic formed.2 within)
  | pair first second ihFirst ihSecond =>
    obtain ⟨below, rfl, within⟩ := below_of_succ_le enough
    have members : Repeated (Led ';' (IsStatement below)) (.symbol ';' 0 :: second.marks ++ [])
        [second] := .more (.mk 0 (ihSecond formed.2 (by omega))) .none
    rw [List.append_nil] at members
    exact .group "BEGIN" 0 "END" 0 (ihFirst formed.1 (by omega)) members
  | call name =>
    obtain ⟨below, rfl, _⟩ := below_of_succ_le enough
    exact .call "CALL" 0 name 0
  | read name =>
    obtain ⟨below, rfl, _⟩ := below_of_succ_le enough
    exact .read "READ" 0 name 0
  | print value =>
    obtain ⟨below, rfl, within⟩ := below_of_succ_le enough
    exact .print "PRINT" 0 (expression_of_arithmetic formed within)
  | pass =>
    obtain ⟨below, rfl, _⟩ := below_of_succ_le enough
    exact .pass "PASS" 0

theorem declaration_of_names (order : List String) :
    IsDeclarationPart .varKw IsVariable (declarationMarks order) () := by
  cases order with
  | nil => exact .absent
  | cons first others =>
    have more : ∃ units, Repeated (Led ',' IsVariable)
        (others.flatMap fun name => [.symbol ',' 0, .declare .var name 0]) units := by
      induction others with
      | nil => exact ⟨[], .none⟩
      | cons name others ih =>
        obtain ⟨units, rest⟩ := ih
        exact ⟨_, .more (.mk 0 (.mk name 0)) rest⟩
    obtain ⟨units, rest⟩ := more
    exact .present "VAR" 0 0 (.mk first 0) rest

namespace Block

theorem height_pos (block : Block) : 1 ≤ block.height := by
  induction block with
  | procedure name body rest _ ih => exact Nat.le_trans ih (Nat.le_max_right _ _)
  | statement final => exact Nat.le_add_left 1 final.height

/-- The marks of a block fall into procedures and a statement of less height. -/
def HasParts (block : Block) (height : Nat) : Prop :=
  ∃ procedures marks, block.marks = procedures ++ marks ∧
    Repeated (IsProcedure (IsBlock height)) procedures block.procedures ∧
    IsStatement height marks block.final

theorem derived_of_parts {block : Block} {height : Nat} (parts : block.HasParts height)
    (order : List String) :
    IsBlock (height + 1) (block.programMarks order) block := by
  obtain ⟨procedures, marks, split, third, last⟩ := parts
  have inside := IsBlockBody.mk (declaration_of_names order) .absent third last
  rw [ofProcedures_procedures, List.nil_append, ← split] at inside
  exact .mk inside

theorem parts_of_formed {block : Block} (formed : block.IsFormed) {height : Nat}
    (enough : block.height ≤ height + 1) : block.HasParts height := by
  induction block generalizing height with
  | procedure name body rest ihBody ihRest =>
    have bodyEnough : body.height ≤ height := by
      have within := Nat.le_trans (Nat.le_max_left _ _) enough
      omega
    obtain ⟨below, rfl, _⟩ := below_of_succ_le (Nat.le_trans body.height_pos bodyEnough)
    have derived := derived_of_parts (ihBody formed.2.1 bodyEnough) []
    obtain ⟨procedures, marks, split, third, last⟩ :=
      ihRest formed.2.2 (Nat.le_trans (Nat.le_max_right _ _) enough)
    have one := IsProcedure.mk "PROCEDURE" 0 name 0 0 0 derived
    refine ⟨_, marks, ?_, .more one third, last⟩
    rw [Block.marks, split]
    simp [programMarks, declarationMarks]
  | statement final =>
    exact ⟨[], final.marks, rfl, .none, statement_of_formed formed (Nat.le_of_succ_le_succ enough)⟩

end Block

/-- What is written for a tree is derived at every height that is not less than its own. -/
theorem block_of_formed {block : Block} (formed : block.IsFormed) (order : List String)
    {height : Nat} (enough : block.height ≤ height) :
    IsBlock height (block.programMarks order) block := by
  obtain ⟨below, rfl, _⟩ := below_of_succ_le (Nat.le_trans block.height_pos enough)
  exact Block.derived_of_parts (Block.parts_of_formed formed enough) order

end PlZero
