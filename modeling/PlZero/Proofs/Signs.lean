import PlZero.Proofs.Completeness.Expression
import PlZero.Proofs.ShownArithmetic

/-!
# Signs in shown arithmetic

Operations are shown with brackets around them and signs without any. The grammar knows a sign
only at the front of an expression, where it takes the whole first term. So shown arithmetic is
derived as an expression exactly if no sign comes behind an operator or another sign, and then as
itself, but for the signs in front of products: each becomes the sign of the product.
-/

namespace PlZero

set_option autoImplicit false

namespace Expression

def isSigned : Expression → Bool
  | negate _ => true
  | _ => false

/-- No sign is the right operand of an operator or the operand of another sign. -/
def SignsLead : Expression → Prop
  | arithmetic _ left right =>
    right.isSigned = false ∧ left.SignsLead ∧ right.SignsLead
  | negate operand => operand.isSigned = false ∧ operand.SignsLead
  | _ => True

/-- No sign is the right operand of an operator, the left operand of `*` or `/`, or the operand of
another sign. -/
def PlacesSigns : Expression → Prop
  | arithmetic operator left right =>
    right.isSigned = false ∧ (operator.isAdditive = false → left.isSigned = false) ∧
      left.PlacesSigns ∧ right.PlacesSigns
  | negate operand => operand.isSigned = false ∧ operand.PlacesSigns
  | _ => True

/-- What is read where a sign stands in front of an operation. -/
def signedOperation (operator : ArithmeticOperator) (left right : Expression) : Expression :=
  if operator.isAdditive then arithmetic operator (negate left) right
  else negate (arithmetic operator left right)

/-- What is read where arithmetic is shown, as far as the grammar allows its signs. -/
def reread : Expression → Expression
  | arithmetic operator (negate operand) right =>
    signedOperation operator operand.reread right.reread
  | arithmetic operator left right => arithmetic operator left.reread right.reread
  | negate operand => negate operand.reread
  | other => other

@[simp] theorem isSigned_negate (operand : Expression) : (negate operand).isSigned = true := rfl

theorem isSigned_of_other {expression : Expression}
    (other : ∀ operand, expression = negate operand → False) : expression.isSigned = false := by
  cases expression with
  | negate operand => exact (other operand rfl).elim
  | _ => rfl

theorem reread_arithmetic {left : Expression} (unsigned : left.isSigned = false)
    (operator : ArithmeticOperator) (right : Expression) :
    (arithmetic operator left right).reread = arithmetic operator left.reread right.reread := by
  cases left with
  | negate operand => cases unsigned
  | _ => rfl

/-- Signs are in their places exactly if they can be read and none is taken by a product. -/
theorem placesSigns_iff (expression : Expression) :
    expression.PlacesSigns ↔ expression.SignsLead ∧ expression.reread = expression := by
  induction expression using reread.induct with
  | case1 operator operand right ihOperand ihRight =>
    simp only [PlacesSigns, SignsLead, reread, signedOperation, isSigned_negate, ihOperand,
      ihRight]
    cases operator.isAdditive <;> simp [and_assoc, and_left_comm]
  | case2 operator left right unsigned ihLeft ihRight =>
    have noSign := isSigned_of_other unsigned
    simp [PlacesSigns, SignsLead, reread_arithmetic, noSign, ihLeft, ihRight, and_assoc,
      and_left_comm]
  | case3 operand ih =>
    simp only [PlacesSigns, SignsLead, reread, ih, negate.injEq, and_assoc]
  | case4 other _ noOperation noSign =>
    cases other with
    | arithmetic operator left right => exact (noOperation operator left right rfl).elim
    | negate operand => exact (noSign operand rfl).elim
    | _ => simp [PlacesSigns, SignsLead, reread]

end Expression

section Derivations

variable {inner : Grammar Expression}

/-- A sign in front of a product goes with the product, and in front of a sum with its first
term. -/
theorem expression_of_sign {first second : List Mark} {left right : Expression}
    (operator : ArithmeticOperator) (one : IsFactor inner first left)
    (other : IsFactor inner second right) :
    IsExpressionBody inner (.symbol '-' 0 :: (first ++ .symbol operator.char 0 :: second))
      (.signedOperation operator left right) := by
  unfold Expression.signedOperation
  cases rank : operator.isAdditive with
  | true =>
    exact .signed 0 (term_of_factor one)
      (repeated_of_operation operator rank (term_of_factor other))
  | false =>
    have product := IsTerm.mk one (repeated_of_operation operator rank other)
    have signed := IsExpressionBody.signed 0 product .none
    rwa [List.append_nil] at signed

/-- Shown arithmetic is a factor, if it has no sign of its own. -/
theorem factor_of_shown {expression : Expression} (arithmetic : expression.IsArithmetic)
    (leads : expression.SignsLead) (unsigned : expression.isSigned = false) {height : Nat}
    (enough : expression.height ≤ height) :
    IsFactor (IsExpression height) expression.shownMarks expression.reread := by
  induction expression using Expression.reread.induct generalizing height with
  | case1 operator operand right ihOperand ihRight =>
    -- the sign on the left is the first token behind the bracket
    obtain ⟨below, rfl, within⟩ := below_of_succ_le enough
    simp only [Expression.height] at within
    have first := @ihOperand arithmetic.1 leads.2.1.2 leads.2.1.1 below (by omega)
    have second := @ihRight arithmetic.2 leads.2.2 leads.1 below (by omega)
    have inside : IsExpression (below + 1) _ _ := expression_of_sign operator first second
    have bracketed := IsFactor.bracketed 0 0 inside
    rwa [List.cons_append, List.append_assoc] at bracketed
  | case2 operator left right other ihLeft ihRight =>
    obtain ⟨below, rfl, within⟩ := below_of_succ_le enough
    have noSign := Expression.isSigned_of_other other
    have first := @ihLeft arithmetic.1 leads.2.1 noSign below (by omega)
    have second := @ihRight arithmetic.2 leads.2.2 leads.1 below (by omega)
    have inside : IsExpression (below + 1) _ _ := expression_of_factors operator first second
    have bracketed := IsFactor.bracketed 0 0 inside
    rw [List.append_assoc] at bracketed
    rwa [Expression.reread_arithmetic noSign]
  | case3 operand ih => cases unsigned
  | case4 other _ noOperation noSign =>
    cases other with
    | number value => exact .number value 0
    | identifier name => exact .name name 0
    | arithmetic operator left right => exact (noOperation operator left right rfl).elim
    | negate operand => cases unsigned
    | relation | odd => exact arithmetic.elim

theorem expression_of_shown {expression : Expression} (arithmetic : expression.IsArithmetic)
    (leads : expression.SignsLead) {height : Nat} (enough : expression.height + 1 ≤ height) :
    IsExpression height expression.shownMarks expression.reread := by
  obtain ⟨below, rfl, within⟩ := below_of_succ_le enough
  cases signed : expression.isSigned with
  | false =>
    exact expression_of_term (term_of_factor (factor_of_shown arithmetic leads signed within))
  | true =>
    cases expression with
    | negate operand =>
      have computed : operand.IsArithmetic := arithmetic
      have factor := factor_of_shown computed leads.2 leads.1 (Nat.le_of_succ_le within)
      have whole := IsExpressionBody.signed 0 (term_of_factor factor) .none
      rwa [List.append_nil] at whole
    | _ => cases signed

/-- Somewhere a minus comes right behind an operator. -/
def SignBehindOperator (tokens : List Token) : Prop :=
  ∃ operator : ArithmeticOperator, [.symbol operator.char, .symbol '-'] <:+: tokens

theorem signs_apart_within {part whole : List Token} (apart : ¬ SignBehindOperator whole)
    (inside : part <:+: whole) : ¬ SignBehindOperator part := by
  rintro ⟨operator, found⟩
  exact apart ⟨operator, found.trans inside⟩

/-- A minus behind an operator is behind the first token or further on. -/
theorem signBehindOperator_cons {token : Token} {tokens : List Token}
    (behind : SignBehindOperator (token :: tokens)) :
    (∃ operator : ArithmeticOperator, token = .symbol operator.char ∧
      tokens.head? = some (.symbol '-')) ∨ SignBehindOperator tokens := by
  obtain ⟨operator, found⟩ := behind
  rcases List.infix_cons_iff.mp found with ⟨rest, here⟩ | later
  · obtain ⟨rfl, rfl⟩ := List.cons.inj here
    exact .inl ⟨operator, rfl, rfl⟩
  · exact .inr ⟨operator, later⟩

/-- What a production derives brings no minus behind an operator to the text in front of which it
stands. -/
def Grammar.KeepsSignsApart {α : Type} (grammar : Grammar α) : Prop :=
  ∀ marks value rest, grammar marks value → SignBehindOperator (tokenString marks ++ rest) →
    SignBehindOperator rest

theorem repeated_keepsSignsApart {α : Type} {item : Grammar α} (each : item.KeepsSignsApart) :
    (Repeated item).KeepsSignsApart := by
  intro marks values rest derived behind
  induction derived with
  | none => exact behind
  | more one others ih =>
    rw [tokenString_append, List.append_assoc] at behind
    exact ih (each _ _ _ one behind)

theorem passes_token {token : Token} {tokens : List Token}
    (other : ∀ operator : ArithmeticOperator, token ≠ .symbol operator.char)
    (behind : SignBehindOperator (token :: tokens)) : SignBehindOperator tokens := by
  rcases signBehindOperator_cons behind with ⟨operator, same, _⟩ | later
  · exact (other operator same).elim
  · exact later

theorem passes_operator (operator : ArithmeticOperator) {marks : List Mark} {value : Expression}
    (one : IsTerm inner marks value) {rest : List Token}
    (behind : SignBehindOperator (.symbol operator.char :: (tokenString marks ++ rest))) :
    SignBehindOperator (tokenString marks ++ rest) := by
  rcases signBehindOperator_cons behind with ⟨_, _, minus⟩ | later
  · obtain ⟨mark, others, located, rfl, single, unsigned, _⟩ := Parser.first_of_term one
    have first : tokenString (mark :: others) = located.token :: tokenString others := by
      rw [tokenString, tokensOf_cons, single]
      rfl
    rw [first] at minus
    rw [Token.isSymbol_iff.mpr (Option.some.inj minus)] at unsigned
    cases unsigned
  · exact later

theorem factor_keepsSignsApart (inside : inner.KeepsSignsApart) :
    (IsFactor inner).KeepsSignsApart := by
  have bracket {char : Char} (other : ∀ operator : ArithmeticOperator, char ≠ operator.char)
      (operator : ArithmeticOperator) : Token.symbol char ≠ .symbol operator.char :=
    fun same => other operator (Token.symbol.inj same)
  intro marks value rest derived behind
  cases derived with
  | name name line => exact passes_token (fun _ same => by cases same) behind
  | number value line => exact passes_token (fun _ same => by cases same) behind
  | bracketed opening closing one =>
    rw [tokenString_symbol, List.cons_append] at behind
    have within := passes_token (bracket fun operator => by cases operator <;> decide) behind
    rw [tokenString_append, List.append_assoc] at within
    exact passes_token (bracket fun operator => by cases operator <;> decide)
      (inside _ _ _ one within)

theorem operation_keepsSignsApart {operand : Grammar Expression} (additive : Bool)
    (inside : operand.KeepsSignsApart) (terms : operand.Within (IsTerm inner)) :
    (IsOperation additive operand).KeepsSignsApart := by
  intro marks value rest derived behind
  cases derived with
  | mk operator line rank one =>
    exact inside _ _ _ one (passes_operator operator (terms _ _ one) behind)

theorem term_keepsSignsApart (inside : inner.KeepsSignsApart) :
    (IsTerm inner).KeepsSignsApart := by
  have factors := factor_keepsSignsApart inside
  have operations := repeated_keepsSignsApart
    (operation_keepsSignsApart false factors fun _ _ => term_of_factor)
  intro marks value rest derived behind
  cases derived with
  | mk one more =>
    rw [tokenString_append, List.append_assoc] at behind
    exact operations _ _ _ more (factors _ _ _ one behind)

theorem expression_keepsSignsApart (height : Nat) : (IsExpression height).KeepsSignsApart := by
  induction height with
  | zero => exact fun _ _ _ derived => derived.elim
  | succ height inside =>
    have terms := term_keepsSignsApart inside
    have operations := repeated_keepsSignsApart
      (operation_keepsSignsApart true terms fun _ _ term => term)
    intro marks value rest derived behind
    cases derived with
    | plain one more =>
      rw [tokenString_append, List.append_assoc] at behind
      exact operations _ _ _ more (terms _ _ _ one behind)
    | signed line one more =>
      rw [tokenString_symbol, tokenString_append, List.cons_append, List.append_assoc] at behind
      -- the sign is written like an operator, but no other sign comes behind it
      have within := passes_operator .subtract one behind
      exact operations _ _ _ more (terms _ _ _ one within)

end Derivations

namespace Expression

/-- Where no minus comes behind an operator in what is shown, signs lead. -/
theorem leads_of_shown {expression : Expression}
    (apart : ¬ SignBehindOperator expression.shownTokens) : expression.SignsLead := by
  have unsigned {operator : ArithmeticOperator} {operand : Expression} {rest : List Token}
      (clear : ¬ SignBehindOperator (.symbol operator.char :: (operand.shownTokens ++ rest))) :
      operand.isSigned = false := by
    apply isSigned_of_other
    rintro inside rfl
    exact clear ⟨operator, ⟨[], inside.shownTokens ++ rest, rfl⟩⟩
  induction expression with
  | arithmetic operator left right ihLeft ihRight =>
    rw [shownTokens_arithmetic] at apart
    have operation : ¬ SignBehindOperator
        (.symbol operator.char :: (right.shownTokens ++ [.symbol ')'])) :=
      signs_apart_within apart ⟨.symbol '(' :: left.shownTokens, [], by simp⟩
    have first : ¬ SignBehindOperator left.shownTokens :=
      signs_apart_within apart ⟨[.symbol '('], _, rfl⟩
    have second : ¬ SignBehindOperator right.shownTokens :=
      signs_apart_within operation ⟨[.symbol operator.char], _, rfl⟩
    exact ⟨unsigned operation, ihLeft first, ihRight second⟩
  | negate operand ih =>
    rw [shownTokens_negate, ← List.append_nil operand.shownTokens] at apart
    have inside : ¬ SignBehindOperator operand.shownTokens :=
      signs_apart_within apart ⟨[.symbol '-'], [], by simp⟩
    -- the sign itself is written like the operator of a difference
    exact ⟨@unsigned .subtract operand [] apart, ih inside⟩
  | _ => trivial

end Expression

end PlZero
