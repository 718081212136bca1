import PlZero.Diagnostic
import PlZero.Token

/-!
# Events

What the scanner and the parser tell about their work as they go. Each event
has a level, from the few that say how a run went to one for every token, and a
sentence. A listing at some level holds the events of that level and of the
more severe ones, in the order in which they happened.
-/

namespace PlZero

set_option autoImplicit false

/-- How much a listing of events tells, the tersest first. -/
inductive Level where
  | info
  | debug
  | trace
  deriving DecidableEq, Repr

namespace Level

def rank : Level → Nat
  | info => 0
  | debug => 1
  | trace => 2

def text : Level → String
  | info => "INFO"
  | debug => "DEBUG"
  | trace => "TRACE"

end Level

inductive Event where
  | tokenRead (token : LocatedToken)
  | scanned (tokens : Nat) (lines : Nat)
  | parsing (tokens : Nat)
  | blockEntered (scopes : Nat)
  | procedureDeclared (name : String) (line : Nat)
  | undeclared (name : String)
  | doubleDeclaration (name : String) (line : Nat)
  | violation (broken : Violation) (line : Nat)
  | trailing (tokens : Nat)
  | parsed (accepted : Bool)
  deriving DecidableEq, Repr

namespace Event

def level : Event → Level
  | tokenRead _ => .trace
  | scanned .. => .info
  | parsing _ => .info
  | parsed _ => .info
  | blockEntered _ => .debug
  | procedureDeclared .. => .debug
  | undeclared _ => .debug
  | doubleDeclaration .. => .debug
  | violation .. => .debug
  | trailing _ => .debug

def message : Event → String
  | tokenRead located => s!"line {located.line}: {located.token.text}"
  | scanned tokens lines => s!"lexer produced {tokens} tokens over {lines} lines"
  | parsing tokens => s!"parsing {tokens} tokens"
  | blockEntered scopes => s!"block entered, {scopes} scopes open"
  | procedureDeclared name line => s!"procedure '{name}' declared in line {line}"
  | undeclared name => s!"identifier '{name}' not declared"
  | doubleDeclaration name line => s!"double declaration of '{name}' in line {line}"
  | violation broken line => s!"{broken.code} ({broken.message}) in line {line}"
  | trailing tokens => s!"{tokens} tokens after '.' ignored"
  | parsed accepted => s!"parse finished, accepted: {accepted}"

def isShownAt (event : Event) (level : Level) : Bool :=
  event.level.rank ≤ level.rank

end Event

end PlZero
