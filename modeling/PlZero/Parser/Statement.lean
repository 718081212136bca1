import PlZero.Parser.Expression
import PlZero.Syntax.Statement

/-!
# Parsing statements

```text
statement = [ identifier "=" expression
            | "CALL" identifier
            | "READ" identifier
            | "PRINT" expression
            | "BEGIN" statement { ";" statement } "END"
            | "IF" condition "THEN" statement
            | "WHILE" condition "DO" statement
            | "PASS" ] ;
```

A statement may be empty: where nothing begins one, none is taken. Names are
checked where they stand, before they are taken.
-/

namespace PlZero.Parser

set_option autoImplicit false

/-- The name that a `CALL` or `READ` is about, which must pass a check. Anything
else than a name fails like a name that was never declared. -/
def target (check : String → Parser Unit) : Parser String := do
  match (← peek?).bind Token.identifier? with
  | some name =>
    check name
    advance
    return name
  | none => fail .undeclared

def assignment (name : String) (value : Parser Expression) : Parser Statement := do
  resolveInteger name
  advance
  expectSymbol '=' .missingAssign
  return .assign name (← value)

def group (member : Parser Statement) : Parser Statement := do
  let first ← member
  let others ← many (after ';' member)
  expectKeyword .endKw .missingEnd
  return .sequence (first :: others)

/-- A statement that begins with a reserved word. A word that begins no
statement is left where it is. -/
def keywordStatement (keyword : Keyword) (inner : Parser Statement) (value : Parser Expression) :
    Parser Statement := do
  match keyword with
  | .callKw =>
    advance
    return .call (← target resolveProcedure)
  | .readKw =>
    advance
    return .read (← target resolveInteger)
  | .printKw =>
    advance
    return .print (← value)
  | .beginKw =>
    advance
    group inner
  | .ifKw =>
    advance
    let guard ← condition value
    expectKeyword .thenKw .missingThen
    return .ifThen guard (← inner)
  | .whileKw =>
    advance
    let guard ← condition value
    expectKeyword .doKw .missingDo
    return .whileDo guard (← inner)
  | .passKw =>
    advance
    return .pass
  | _ => return .pass

def statementBody (inner : Parser Statement) (value : Parser Expression) : Parser Statement := do
  let head? ← peek?
  match head?.bind Token.identifier? with
  | some name => assignment name value
  | none =>
    match head?.bind Token.keyword? with
    | some keyword => keywordStatement keyword inner value
    | none => return .pass

def statement : Nat → Parser Statement
  | 0 => tooDeep
  | levels + 1 => nested (statementBody (statement levels) (expression levels))

end PlZero.Parser
