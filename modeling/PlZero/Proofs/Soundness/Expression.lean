import PlZero.Proofs.Soundness.Steps

/-!
# Read expressions are derived

Each production is put together from its steps as the grammar says. Where it fails,
the expression can be brought to an end with a number.
-/

namespace PlZero.Parser

set_option autoImplicit false

section Expressions

variable {inner : Parser Expression} {exact wide : Grammar Expression}

theorem factor_inhabited (grammar : Grammar Expression) : (IsFactor grammar).Inhabited :=
  ⟨_, _, .number 0 0⟩

theorem bracketed_within (grammar : Grammar Expression) :
    (Taken (.symbol '(') (Sequenced grammar fun value =>
      Mapped (fun _ => value) (Taken (.symbol ')') (Nothing ())))).Within (IsFactor grammar) := by
  intro marks tree derived
  obtain ⟨opening, _, rfl, early, _, value, rfl, one, _, ⟨closing, _, rfl, rfl, _⟩, rfl⟩ := derived
  exact .bracketed opening closing one

theorem number_within (grammar : Grammar Expression) (value : Int) :
    (Taken (.number value) (Nothing (.number value))).Within (IsFactor grammar) := by
  intro marks tree derived
  obtain ⟨line, _, rfl, rfl, rfl⟩ := derived
  exact .number value line

theorem name_within (grammar : Grammar Expression) (name : String) :
    (Used .integer name (Nothing (.identifier name))).Within (IsFactor grammar) := by
  intro marks tree derived
  obtain ⟨line, _, rfl, rfl, rfl⟩ := derived
  exact .name name line

theorem sound_factor (inside : Sound inner exact wide) :
    Sound (factor inner) (IsFactor exact) (IsFactor wide) := by
  apply sound_peek
  intro head?
  split
  · next value =>
    exact soundOn_within (soundOn_taking (sound_pure _)) (number_within _ value)
      (number_within _ value)
  · apply soundOn_within _ (bracketed_within exact) (bracketed_within wide)
    apply soundOn_taking
    apply sound_bind inside
    · intro value
      exact sound_return (sound_expectSymbol ')' .missingCloseParen) fun _ => value
    · intro value
      exact mapped_inhabited (taken_inhabited (nothing_inhabited ())) fun _ => value
  · cases named : head?.bind Token.identifier? with
    | none => exact sound_fail _ _ (factor_inhabited _) _
    | some name =>
      obtain ⟨token, rfl, isName⟩ := Option.bind_eq_some_iff.mp named
      obtain rfl := Token.identifier?_eq_some_iff.mp isName
      apply soundOn_within _ (name_within exact name) (name_within wide name)
      exact soundOn_use (sound_pure _)

theorem operation_within {additive : Bool} (grammar : Grammar Expression) (token : Token)
    (operator : ArithmeticOperator) (selected : operatorOf? additive token = some operator) :
    (Taken token (Mapped (operator, ·) grammar)).Within (IsOperation additive grammar) := by
  intro marks tree derived
  obtain ⟨line, inside, rfl, right, one, rfl⟩ := derived
  cases token with
  | number value => cases selected
  | word text id => cases selected
  | symbol char =>
    obtain ⟨known, rank⟩ := Option.filter_eq_some_iff.mp selected
    rw [← ArithmeticOperator.ofChar?_eq_some_iff.mp known]
    exact .mk operator line (eq_of_beq rank) one

theorem sound_operations (additive : Bool) {operand : Parser Expression} (near : Local operand)
    (inside : Sound operand exact wide) :
    Sound (many (operation? additive operand)) (Repeated (IsOperation additive exact))
      (Repeated (IsOperation additive wide)) := by
  rw [operation_eq_begun]
  apply sound_many
  · intro operator
    exact local_bind near fun _ => local_pure _
  · intro operator
    exact sound_return inside (operator, ·)
  · exact operation_within exact
  · exact operation_within wide

theorem term_within (grammar : Grammar Expression) :
    (Sequenced (IsFactor grammar) fun left =>
      Mapped (applyAll left) (Repeated (IsOperation false (IsFactor grammar)))).Within
      (IsTerm grammar) := by
  intro marks tree derived
  obtain ⟨early, late, left, rfl, one, operations, more, rfl⟩ := derived
  exact .mk one more

theorem sound_term (near : Local inner) (inside : Sound inner exact wide) :
    Sound (term inner) (IsTerm exact) (IsTerm wide) := by
  have operations := sound_operations false (local_factor near) (sound_factor inside)
  apply sound_within _ (term_within exact) (term_within wide)
  apply sound_bind (sound_factor inside)
  · intro left
    exact sound_return operations (applyAll left)
  · intro left
    exact mapped_inhabited (repeated_inhabited _) (applyAll left)

def IsSign : Grammar Bool :=
  fun marks negative => (negative = true ∧ ∃ line, marks = [.symbol '-' line]) ∨
    (negative = false ∧ marks = [])

theorem sound_sign : Sound sign IsSign IsSign := by
  have minus : (Taken (.symbol '-') (Nothing true)).Within IsSign := by
    intro marks negative derived
    obtain ⟨line, _, rfl, rfl, rfl⟩ := derived
    exact .inl ⟨rfl, line, rfl⟩
  have none : (Nothing false).Within IsSign := by
    intro marks negative derived
    exact .inr ⟨derived.2, derived.1⟩
  apply sound_atSymbol
  · exact soundOn_within (soundOn_taking (sound_pure true)) minus minus
  · exact sound_within (sound_pure false) none none

theorem expression_body_within (grammar : Grammar Expression) :
    (Sequenced IsSign fun negative => Sequenced (IsTerm grammar) fun first =>
      Mapped (applyAll (if negative then .negate first else first))
        (Repeated (IsOperation true (IsTerm grammar)))).Within (IsExpressionBody grammar) := by
  intro marks tree derived
  obtain ⟨_, _, negative, rfl, signed, early, late, left, rfl, one, operations, more,
    rfl⟩ := derived
  obtain ⟨rfl, line, rfl⟩ | ⟨rfl, rfl⟩ := signed
  · exact (IsExpressionBody.signed line one more :)
  · exact (IsExpressionBody.plain one more :)

theorem term_inhabited (grammar : Grammar Expression) : (IsTerm grammar).Inhabited :=
  ⟨_, _, .mk (.number 0 0) .none⟩

theorem sound_expression_body (near : Local inner) (inside : Sound inner exact wide) :
    Sound (expressionBody inner) (IsExpressionBody exact) (IsExpressionBody wide) := by
  have operations (first : Expression) := sound_return
    (sound_operations true (local_term near) (sound_term near inside)) (applyAll first)
  have possible (first : Expression) := mapped_inhabited
    (repeated_inhabited (IsOperation true (IsTerm wide))) (applyAll first)
  apply sound_within _ (expression_body_within exact) (expression_body_within wide)
  apply sound_bind sound_sign
  · intro negative
    apply sound_bind (sound_term near inside)
    · intro first
      exact operations (if negative then .negate first else first)
    · intro first
      exact possible _
  · intro negative
    exact sequenced_inhabited (term_inhabited _) fun first => possible _

end Expressions

theorem expression_inhabited (height : Nat) : (IsExpression (height + 1)).Inhabited :=
  ⟨_, _, .plain (.mk (.number 0 0) .none) .none⟩

/-- A derivation of what was read uses no more levels than there were, and one level more is
enough to complete what was begun. -/
theorem sound_expression (levels : Nat) :
    Sound (expression levels) (IsExpression levels) (IsExpression (levels + 2)) := by
  induction levels with
  | zero =>
    intro head? base scope around state table head form
    cases form
  | succ levels ih => exact sound_nested (sound_expression_body (local_expression levels) ih)

section Conditions

variable {operand : Parser Expression} {exact wide : Grammar Expression}

def IsComparison (left : Expression) (grammar : Grammar Expression) : Grammar Expression :=
  fun marks value => ∃ located inside comparison right,
    Comparison.ofToken? located.token = some comparison ∧ marks = .plain located :: inside ∧
      grammar inside right ∧ value = .relation comparison left right

theorem comparison_within (grammar : Grammar Expression) (left : Expression) {token : Token}
    {comparison : Comparison} (stands : Comparison.ofToken? token = some comparison) :
    (Taken token (Mapped (.relation comparison left) grammar)).Within
      (IsComparison left grammar) := by
  intro marks tree derived
  obtain ⟨line, inside, rfl, right, one, rfl⟩ := derived
  exact ⟨⟨token, line⟩, inside, comparison, right, stands, rfl, one, rfl⟩

theorem comparison_inhabited {grammar : Grammar Expression} (inside : grammar.Inhabited)
    (left : Expression) : (IsComparison left grammar).Inhabited := by
  obtain ⟨marks, right, one⟩ := inside
  exact ⟨_, _, ⟨.symbol '<', 0⟩, marks, .less, right, rfl, rfl, one, rfl⟩

theorem odd_within (grammar : Grammar Expression) (text : String) :
    (Taken (.word text Keyword.oddKw.id) (Mapped .odd grammar)).Within (IsCondition grammar) := by
  intro marks tree derived
  obtain ⟨line, inside, rfl, value, one, rfl⟩ := derived
  exact .odd text line one

theorem relation_within (grammar : Grammar Expression) :
    (Sequenced grammar fun left => IsComparison left grammar).Within (IsCondition grammar) := by
  intro marks tree derived
  obtain ⟨early, _, left, rfl, one, located, late, comparison, right, stands, rfl, other,
    rfl⟩ := derived
  exact .relation stands one other

theorem sound_condition (inside : Sound operand exact wide) (possible : wide.Inhabited) :
    Sound (condition operand) (IsCondition exact) (IsCondition wide) := by
  apply sound_atKeyword
  · intro text
    apply soundOn_within _ (odd_within exact text) (odd_within wide text)
    exact soundOn_taking (sound_return inside Expression.odd)
  · apply sound_within _ (relation_within exact) (relation_within wide)
    apply sound_bind inside
    · intro left
      apply sound_peek
      intro head?
      cases found : head?.bind Comparison.ofToken? with
      | none => exact sound_fail _ _ (comparison_inhabited possible left) _
      | some comparison =>
        obtain ⟨token, rfl, stands⟩ := Option.bind_eq_some_iff.mp found
        apply soundOn_within _ (comparison_within exact left stands)
          (comparison_within wide left stands)
        exact soundOn_taking (sound_return inside (Expression.relation comparison left))
    · intro left
      exact comparison_inhabited possible left

end Conditions

end PlZero.Parser
