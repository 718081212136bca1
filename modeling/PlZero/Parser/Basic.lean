import PlZero.Event
import PlZero.SymbolTable
import PlZero.TokenStream

/-!
# Parsers

A parser takes tokens from the head of a stream, consults and extends a symbol
table, and either gives a value or fails. It never looks further than the head.
This module holds the state and the few steps from which every production is
made: look at the head, take it, fail there, declare a name, resolve a name,
open a scope for a while, and go one level deeper for a while.

What is declared inside a scope and how deep a production went are undone also
when the production fails, so a caller gets table and depth back as they were.
-/

namespace PlZero

set_option autoImplicit false

structure Parser.State where
  stream : TokenStream
  table : SymbolTable := .empty
  /-- How many productions that count as a level are open. -/
  depth : Nat := 0
  /-- What was told so far, newest first. -/
  log : List Event := []
  deriving DecidableEq, Repr

/-- A step of a descent. The state survives a failure. -/
abbrev Parser := EStateM Fault Parser.State

namespace Parser

variable {α : Type}

def tell (event : Event) : Parser Unit :=
  modify fun state => { state with log := event :: state.log }

def peek? : Parser (Option Token) := do
  return (← get).stream.peek?

def line : Parser Nat := do
  return (← get).stream.line

def advance : Parser Unit := do
  let state ← get
  match state.stream.advance with
  | .ok (_, stream) => set { state with stream := stream }
  | .error fault => throw fault

/-- Report a rule as broken at the head. A name that stands there is named; a
reserved word never is. -/
def fail (broken : Violation) : Parser α := do
  let line ← line
  tell (.violation broken line)
  throw (.violation broken line ((← peek?).bind Token.identifier?))

def atKeyword (keyword : Keyword) : Parser Bool := do
  return (← peek?).any fun token => token.isKeyword keyword.id

def atSymbol (char : Char) : Parser Bool := do
  return (← peek?).any fun token => token.isSymbol char

def expectKeyword (keyword : Keyword) (broken : Violation) : Parser Unit := do
  if ← atKeyword keyword then advance else fail broken

def expectSymbol (char : Char) (broken : Violation) : Parser Unit := do
  if ← atSymbol char then advance else fail broken

def expectName (broken : Violation) : Parser (String × Nat) := do
  let line ← line
  match (← peek?).bind Token.identifier? with
  | some name =>
    advance
    return (name, line)
  | none => fail broken

def declare (name : String) (kind : SymbolKind) (line : Nat) : Parser Unit := do
  let state ← get
  match state.table.declare name kind line with
  | .ok table => set { state with table := table }
  | .error fault =>
    tell (.doubleDeclaration name line)
    throw fault

def resolve (name : String) : Parser SymbolKind := do
  match (← get).table.lookup? name with
  | some kind => return kind
  | none =>
    tell (.undeclared name)
    throw (.violation .undeclared (← line) (some name))

/-- A name at the head that is used as a number: no procedure. -/
def resolveInteger (name : String) : Parser Unit := do
  if (← resolve name) = .procedure then fail .notInteger

/-- A name at the head that is called: a procedure. -/
def resolveProcedure (name : String) : Parser Unit := do
  if (← resolve name) ≠ .procedure then fail .notProcedure

def enterScope : Parser Unit :=
  modify fun state => { state with table := state.table.enterScope }

def leaveScope : Parser Unit := do
  let state ← get
  match state.table.leaveScope with
  | .ok table => set { state with table := table }
  | .error fault => throw fault

def inScope (production : Parser α) : Parser α := do
  enterScope
  tell (.blockEntered (← get).table.depth)
  try production finally leaveScope

def nested (production : Parser α) : Parser α := do
  modify fun state => { state with depth := state.depth + 1 }
  try production finally modify fun state => { state with depth := state.depth - 1 }

/-- Fail because no level is left. Then as many are open as the limit allows. -/
def tooDeep : Parser α := do
  throw (.nestingTooDeep (← get).depth (← line))

/-- Repeat at most once for each token of `bound`, until there is no item. -/
def manyWithin (item? : Parser (Option α)) : List LocatedToken → Parser (List α)
  | [] => return []
  | _ :: bound => do
    match ← item? with
    | none => return []
    | some item => return item :: (← manyWithin item? bound)

/-- Repeat until there is no item. Each item has to take a token, so the tokens
at hand bound the repetition; with none left there is no item either. -/
def many (item? : Parser (Option α)) : Parser (List α) := do
  manyWithin item? (← get).stream.tokens

/-- An item that is there only after a certain character. -/
def after (char : Char) (item : Parser α) : Parser (Option α) := do
  if ← atSymbol char then
    advance
    return some (← item)
  else
    return none

end Parser

end PlZero
