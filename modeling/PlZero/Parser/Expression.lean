import PlZero.Parser.Basic
import PlZero.Syntax.Expression

/-!
# Parsing expressions

```text
expression = [ "-" ] term { ( "+" | "-" ) term } ;
term       = factor { ( "*" | "/" ) factor } ;
factor     = identifier | number | "(" expression ")" ;
condition  = "ODD" expression | expression comparator expression ;
```

Each expression is one level of nesting, so the parts of an expression are given
the parser for expressions of one level less. Operators of one rank group to the
left; a sign at the front belongs to the first term alone.
-/

namespace PlZero.Parser

set_option autoImplicit false

def factor (inner : Parser Expression) : Parser Expression := do
  match ← peek? with
  | some (.number value) =>
    advance
    return .number value
  | some (.symbol '(') =>
    advance
    let expression ← inner
    expectSymbol ')' .missingCloseParen
    return expression
  | head? =>
    match head?.bind Token.identifier? with
    | some name =>
      resolveInteger name
      advance
      return .identifier name
    | none => fail .missingOpenParen

def operator? (additive : Bool) : Parser (Option ArithmeticOperator) := do
  match ← peek? with
  | some (.symbol char) =>
    return (ArithmeticOperator.ofChar? char).filter fun operator =>
      operator.isAdditive == additive
  | _ => return none

def operation? (additive : Bool) (operand : Parser Expression) :
    Parser (Option (ArithmeticOperator × Expression)) := do
  match ← operator? additive with
  | some operator =>
    advance
    return some (operator, ← operand)
  | none => return none

def applyAll (first : Expression) (operations : List (ArithmeticOperator × Expression)) :
    Expression :=
  operations.foldl (fun left operation => .arithmetic operation.1 left operation.2) first

def term (inner : Parser Expression) : Parser Expression := do
  let first ← factor inner
  return applyAll first (← many (operation? false (factor inner)))

def sign : Parser Bool := do
  if ← atSymbol '-' then
    advance
    return true
  else
    return false

def expressionBody (inner : Parser Expression) : Parser Expression := do
  let negative ← sign
  let first ← term inner
  let signed := if negative then .negate first else first
  return applyAll signed (← many (operation? true (term inner)))

def expression : Nat → Parser Expression
  | 0 => tooDeep
  | levels + 1 => nested (expressionBody (expression levels))

/-- A condition whose operands are given. The comparison stands between the
operands, so it is known only after the first. -/
def condition (operand : Parser Expression) : Parser Expression := do
  if ← atKeyword .oddKw then
    advance
    return .odd (← operand)
  else
    let left ← operand
    match (← peek?).bind Comparison.ofToken? with
    | some comparison =>
      advance
      return .relation comparison left (← operand)
    | none => fail .missingComparison

end PlZero.Parser
