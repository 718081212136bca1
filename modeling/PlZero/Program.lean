import PlZero.Parser.Block
import PlZero.Scan

/-!
# Programs

A program is a block and the period after it. Reading one tells a block that is
not followed by a period from one that is, and the stricter reading refuses the
first kind. Whatever follows the period is left in the stream.
-/

namespace PlZero

set_option autoImplicit false

def defaultLimit : Nat := 256

/-- The block that was read, and whether a period followed it. -/
structure Outcome where
  block : Block
  accepted : Bool
  deriving DecidableEq, Repr

namespace Parser

def period : Parser Bool := do
  if ← atSymbol '.' then
    advance
    let left := (← get).stream.length
    if left ≠ 0 then tell (.trailing left)
    return true
  else
    return false

/-- A block and perhaps a period, with at most `limit` levels open at a time. -/
def parse (limit : Nat) : Parser Outcome := do
  let state ← get
  tell (.parsing state.stream.length)
  let block ← block (limit - state.depth)
  let accepted ← period
  tell (.parsed accepted)
  return ⟨block, accepted⟩

def parseProgram (limit : Nat) : Parser Block := do
  let outcome ← parse limit
  if outcome.accepted then
    return outcome.block
  else
    fail .missingPeriod

def start (tokens : List LocatedToken) (table : SymbolTable) : State where
  stream := .ofList tokens
  table := table

def result {α : Type} : EStateM.Result Fault State α → Except Fault α
  | .ok value _ => .ok value
  | .error fault _ => .error fault

def stateAfter {α : Type} : EStateM.Result Fault State α → State
  | .ok _ state => state
  | .error _ state => state

end Parser

def check (limit : Nat) (source : String) : Except Fault Outcome := do
  let tokens ← (Scan.ofSource firstLine source).result
  Parser.result (Parser.parse limit (Parser.start tokens .empty))

/-- What a scan tells: each token, and at the end of the text the totals. -/
def Scan.events (scan : Scan) : List Event :=
  scan.tokens.map .tokenRead ++
    match scan.fault? with
    | none => [.scanned scan.tokens.length scan.line]
    | some _ => []

structure Run where
  scan : Scan
  result : Except Fault Block
  events : List Event

namespace Run

def ofSource (limit : Nat) (source : String) : Run :=
  let scan := Scan.ofSource firstLine source
  match scan.result with
  | .error fault => ⟨scan, .error fault, scan.events⟩
  | .ok tokens =>
    let outcome := Parser.parseProgram limit (Parser.start tokens .empty)
    ⟨scan, Parser.result outcome, scan.events ++ (Parser.stateAfter outcome).log.reverse⟩

/-- The events that a listing at some level holds; at no level it is empty. -/
def listing (run : Run) (level? : Option Level) : List Event :=
  match level? with
  | none => []
  | some level => run.events.filter fun event => event.isShownAt level

end Run

end PlZero
