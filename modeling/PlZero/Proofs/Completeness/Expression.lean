import PlZero.Proofs.Completeness.Steps

/-!
# Derived expressions are read

An expression is read up to a token that is no arithmetic operator; a term only up
to one that does not bind factors. Every operator that an expression goes on with
ends the operand before it, so the loops stop at the right places.
-/

namespace PlZero.Parser

set_option autoImplicit false

/-- No operator of arithmetic: an expression cannot go on with it. -/
def EndsExpression (token : Token) : Prop := ∀ additive, operatorOf? additive token = none

theorem operatorOf?_char {operator : ArithmeticOperator} {additive : Bool} :
    operatorOf? additive (.symbol operator.char) =
      if operator.isAdditive = additive then some operator else none := by
  cases operator <;> cases additive <;> rfl

section Expressions

variable {inner : Parser Expression} {grammar : Grammar Expression}

theorem factor_completes (inside : Completes inner grammar EndsExpression) :
    Completes (factor inner) (IsFactor grammar) fun _ => True := by
  intro marks value rest derived _
  cases derived with
  | name name line =>
    apply follows_same rfl _ (follows_use_then .integer name line (follows_pure _ rest))
    intro state tail tokens
    rw [factor, peek_then tokens]
    rfl
  | number value line =>
    apply follows_taking _ (follows_pure _ rest)
    intro state tail tokens
    rw [factor, peek_then tokens]
    exact advance_then tokens _
  | bracketed opening closing one =>
    have closes : EndsExpression (.symbol ')') := by
      intro additive
      cases additive <;> rfl
    have bracket := follows_return (follows_expectSymbol ')' closing .missingCloseParen rest)
      fun _ => value
    apply follows_taking
    · intro state tail tokens
      rw [factor, peek_then tokens]
      exact advance_then tokens _
    · exact follows_bind _ (inside _ _ _ one (ahead_cons _ closes)) bracket

theorem operations_follow {additive : Bool} {operand : Parser Expression}
    {operandGrammar : Grammar Expression} {ends : Token → Prop} {rest : List LocatedToken}
    (near : Local operand) (reads : Completes operand operandGrammar ends)
    (goesOn : ∀ operator : ArithmeticOperator, operator.isAdditive = additive →
      ends (.symbol operator.char))
    (ahead : Ahead ends rest) (stops : Ahead (fun token => operatorOf? additive token = none) rest)
    {marks : List Mark} {operations : List (ArithmeticOperator × Expression)}
    (derived : Repeated (IsOperation additive operandGrammar) marks operations) :
    Follows (many (operation? additive operand)) marks operations rest := by
  rw [operation_eq_begun]
  have body (operator : ArithmeticOperator) : Local (do return (operator, ← operand)) :=
    local_bind near fun _ => local_pure _
  have follower {marks : List Mark} {operations : List (ArithmeticOperator × Expression)}
      (more : Repeated (IsOperation additive operandGrammar) marks operations) :
      Ahead ends (tokensOf marks ++ rest) := by
    apply ahead_of_repeated _ ahead more
    intro marks value other
    obtain ⟨operator, line, rank, one⟩ := other
    exact ⟨_, _, rfl, goesOn operator rank⟩
  apply follows_many body stops _ derived
  intro marks value operation
  obtain ⟨operator, line, rank, one⟩ := operation
  have selected : operatorOf? additive (.symbol operator.char) = some operator := by
    rw [operatorOf?_char, if_pos rank]
  refine ⟨_, operator, _, rfl, selected, ?_⟩
  intro others values more
  exact follows_return (reads _ _ _ one (follower more)) fun right => (operator, right)

theorem term_completes (near : Local inner) (inside : Completes inner grammar EndsExpression) :
    Completes (term inner) (IsTerm grammar) fun token => operatorOf? false token = none := by
  intro marks value rest derived ahead
  cases derived with
  | mk one more =>
    have operations := operations_follow (local_factor near)
      (factor_completes inside) (fun _ _ => trivial) (fun _ _ => trivial) ahead more
    exact follows_bind _ (factor_completes inside _ _ _ one fun _ _ => trivial)
      (follows_return operations _)

theorem terms_follow (near : Local inner) (inside : Completes inner grammar EndsExpression)
    {rest : List LocatedToken} (ahead : Ahead EndsExpression rest) {marks : List Mark}
    {operations : List (ArithmeticOperator × Expression)}
    (more : Repeated (IsOperation true (IsTerm grammar)) marks operations) :
    Follows (many (operation? true (term inner))) marks operations rest := by
  apply operations_follow (local_term near) (term_completes near inside)
  · intro operator rank
    rw [operatorOf?_char, rank]
    rfl
  · exact ahead_mono ahead fun _ ends => ends false
  · exact ahead_mono ahead fun _ ends => ends true
  · exact more

theorem ahead_of_terms {rest : List LocatedToken} (ahead : Ahead EndsExpression rest)
    {marks : List Mark} {operations : List (ArithmeticOperator × Expression)}
    (more : Repeated (IsOperation true (IsTerm grammar)) marks operations) :
    Ahead (fun token => operatorOf? false token = none) (tokensOf marks ++ rest) := by
  apply ahead_of_repeated _ (ahead_mono ahead fun _ ends => ends false) more
  intro marks value operation
  obtain ⟨operator, line, rank, one⟩ := operation
  refine ⟨_, _, rfl, ?_⟩
  rw [operatorOf?_char, rank]
  rfl

/-- A term begins with a name, a number or a bracket. -/
theorem first_of_term {marks : List Mark} {value : Expression}
    (derived : IsTerm grammar marks value) :
    ∃ mark others located, marks = mark :: others ∧ mark.tokens = [located] ∧
      located.token.isSymbol '-' = false ∧ located.token.keyword? = none := by
  cases derived with
  | mk one more =>
    cases one with
    | name name line => exact ⟨_, _, _, rfl, rfl, rfl, rfl⟩
    | number value line => exact ⟨_, _, _, rfl, rfl, rfl, rfl⟩
    | bracketed opening closing one => exact ⟨_, _, _, rfl, rfl, rfl, rfl⟩

theorem sign_of_minus {state : State} {line : Nat} {tail : List LocatedToken}
    (tokens : state.stream.tokens = ⟨.symbol '-', line⟩ :: tail) :
    sign state = .ok true { state with stream := ⟨tail, line⟩ } := by
  rw [sign, bind_apply, atSymbol_apply, peek?_of_tokens tokens]
  exact advance_then tokens fun _ => pure true

theorem sign_of_other {state : State} {located : LocatedToken} {tail : List LocatedToken}
    (tokens : state.stream.tokens = located :: tail)
    (unsigned : located.token.isSymbol '-' = false) : sign state = .ok false state := by
  rw [sign, bind_apply, atSymbol_apply, peek?_of_tokens tokens, Option.any_some, unsigned]
  rfl

theorem expression_body_completes (near : Local inner)
    (inside : Completes inner grammar EndsExpression) :
    Completes (expressionBody inner) (IsExpressionBody grammar) EndsExpression := by
  intro marks value rest derived ahead
  cases derived with
  | @plain first others left operations one more =>
    have terms := follows_return (terms_follow near inside ahead more) (applyAll left)
    have begun := term_completes near inside _ _ _ one (ahead_of_terms ahead more)
    obtain ⟨mark, following, located, rfl, tokens, unsigned, _⟩ := first_of_term one
    apply follows_same tokens
    · intro state tail tokens
      rw [expressionBody, bind_apply, sign_of_other tokens unsigned]
    · exact follows_bind _ begun terms
  | @signed first others left operations line one more =>
    have terms := follows_return (terms_follow near inside ahead more) (applyAll (.negate left))
    have begun := term_completes near inside _ _ _ one (ahead_of_terms ahead more)
    apply follows_taking
    · intro state tail tokens
      rw [expressionBody, bind_apply, sign_of_minus tokens]
    · exact follows_bind _ begun terms

end Expressions

theorem expression_completes (levels : Nat) :
    Completes (expression levels) (IsExpression levels) EndsExpression := by
  induction levels with
  | zero => exact fun _ _ _ derived => derived.elim
  | succ levels ih =>
    intro marks value rest derived ahead
    apply follows_nested
    exact expression_body_completes (local_expression levels) ih _ _ _ derived ahead

theorem first_of_expression {levels : Nat} {marks : List Mark} {value : Expression}
    (derived : IsExpression levels marks value) :
    ∃ mark others located, marks = mark :: others ∧ mark.tokens = [located] ∧
      located.token.keyword? = none := by
  cases levels with
  | zero => exact derived.elim
  | succ levels =>
    cases derived with
    | plain one more =>
      obtain ⟨mark, others, located, rfl, tokens, _, unreserved⟩ := first_of_term one
      exact ⟨mark, _, located, rfl, tokens, unreserved⟩
    | signed line one more => exact ⟨_, _, _, rfl, rfl, rfl⟩

theorem endsExpression_of_comparison {token : Token} {comparison : Comparison}
    (stands : Comparison.ofToken? token = some comparison) : EndsExpression token := by
  intro additive
  cases token with
  | number value => rfl
  | word text id => rfl
  | symbol char =>
    simp only [Comparison.ofToken?] at stands
    split at stands
    · next less => subst less; rfl
    · split at stands
      · next greater => subst greater; rfl
      · cases stands

theorem endsExpression_of_word (text : String) (id : Nat) : EndsExpression (.word text id) :=
  fun _ => rfl

theorem condition_completes (levels : Nat) :
    Completes (condition (expression levels)) (IsCondition (IsExpression levels))
      EndsExpression := by
  intro marks value rest derived ahead
  cases derived with
  | odd text line one =>
    apply follows_taking
    · intro state tail tokens
      rw [condition, bind_apply, atKeyword_apply, peek?_of_tokens tokens, Option.any_some,
        Token.isKeyword_iff.mpr ⟨text, rfl⟩]
      exact advance_then tokens _
    · exact follows_return (expression_completes levels _ _ _ one ahead) _
  | @relation first second left right located comparison stands one other =>
    obtain ⟨mark, others, head, rfl, single, unreserved⟩ := first_of_expression one
    have even : head.token.isKeyword Keyword.oddKw.id = false := by
      rw [Bool.eq_false_iff]
      intro isOdd
      rw [Token.keyword?_eq_some_iff.mpr (Token.isKeyword_iff.mp isOdd)] at unreserved
      cases unreserved
    apply follows_same single
    · intro state tail tokens
      rw [condition, bind_apply, atKeyword_apply, peek?_of_tokens tokens, Option.any_some, even]
    · apply follows_bind _ (expression_completes levels _ _ _ one
        (ahead_cons _ (endsExpression_of_comparison stands)))
      apply follows_taking
      · intro state tail tokens
        rw [peek_then tokens, Option.bind_some, stands]
        exact advance_then tokens _
      · exact follows_return (expression_completes levels _ _ _ other ahead) _

end PlZero.Parser
