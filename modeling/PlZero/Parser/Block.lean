import PlZero.Parser.Statement
import PlZero.Parser.Steps
import PlZero.Syntax.Block

/-!
# Parsing blocks

```text
block = [ "VAR" identifier { "," identifier } ";" ]
        [ "CONST" identifier "=" number { "," identifier "=" number } ";" ]
        { "PROCEDURE" identifier ";" block ";" } statement ;
```

Each block has a scope of its own. The name of a procedure goes into the scope
around its body before the body is read, so the body and all later procedures
can call it.
-/

namespace PlZero.Parser

set_option autoImplicit false

def variableName : Parser Unit := do
  let (name, line) ← expectName .missingName
  declare name .var line

/-- The name of a constant and its value. The value is checked, not kept. -/
def constantDefinition : Parser Unit := do
  let (name, line) ← expectName .missingName
  declare name .const line
  expectSymbol '=' .missingAssign
  if (← peek?).any fun token => token.number?.isSome then
    advance
  else
    fail .constantNotNumber

def declarationList (item : Parser Unit) : Parser Unit := do
  item
  discard <| many (after ',' item)
  expectSymbol ';' .missingDeclarationSeparator

/-- The declarations behind a reserved word, if it is at the head. The word is checked again where it
is taken. -/
def declarationPart (keyword : Keyword) (item : Parser Unit) : Parser Unit := do
  if ← atKeyword keyword then
    expectKeyword keyword .malformedStatement
    declarationList item

/-- The second check of the word never fails. -/
theorem declarationPart_eq_advance (keyword : Keyword) (item : Parser Unit) :
    declarationPart keyword item =
      (do if ← atKeyword keyword then (do advance; declarationList item)) :=
  expectKeyword_of_atKeyword keyword .malformedStatement (declarationList item) (pure ())

def procedure? (inner : Parser Block) : Parser (Option (String × Block)) := do
  if ← atKeyword .procedureKw then
    advance
    let (name, line) ← expectName .missingName
    declare name .procedure line
    expectSymbol ';' .missingDeclarationSeparator
    tell (.procedureDeclared name line)
    let body ← inner
    expectSymbol ';' .missingDeclarationSeparator
    return some (name, body)
  else
    return none

def blockBody (inner : Parser Block) (statement : Parser Statement) : Parser Block := do
  declarationPart .varKw variableName
  declarationPart .constKw constantDefinition
  let procedures ← many (procedure? inner)
  return .ofProcedures procedures (← statement)

def block : Nat → Parser Block
  | 0 => tooDeep
  | levels + 1 => nested (inScope (blockBody (block levels) (statement levels)))

end PlZero.Parser
