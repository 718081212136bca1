import PlZero.Diagnostic
import PlZero.Keyword

/-!
# Symbol tables

The names in force while a program is read. All bindings stand in one list,
newest first, and for every open scope a marker records how many bindings there
were when it was entered. Entering a scope writes a marker; leaving it takes the
list back to that count. Bindings older than the first marker belong to a root
scope that is always there and cannot be left.
-/

namespace PlZero

set_option autoImplicit false

inductive SymbolKind where
  | var
  | const
  | procedure
  deriving DecidableEq, Repr

namespace SymbolKind

def keyword : SymbolKind → Keyword
  | .var => .varKw
  | .const => .constKw
  | .procedure => .procedureKw

def typeId (kind : SymbolKind) : Nat := kind.keyword.id

def text (kind : SymbolKind) : String := kind.keyword.spelling

end SymbolKind

structure Symbol where
  name : String
  kind : SymbolKind
  line : Nat
  deriving DecidableEq, Repr

structure SymbolTable where
  /-- All bindings, newest first. -/
  entries : List Symbol
  /-- For each open scope, innermost first, the number of bindings around it. -/
  markers : List Nat
  deriving DecidableEq, Repr

namespace SymbolTable

def empty : SymbolTable := ⟨[], []⟩

def enterScope (table : SymbolTable) : SymbolTable :=
  { table with markers := table.entries.length :: table.markers }

/-- The bindings that were there when `start` of them had been made. -/
def entriesBefore (table : SymbolTable) (start : Nat) : List Symbol :=
  table.entries.drop (table.entries.length - start)

/-- The bindings made after the first `start`, newest first. -/
def entriesSince (table : SymbolTable) (start : Nat) : List Symbol :=
  table.entries.take (table.entries.length - start)

def leaveScope (table : SymbolTable) : Except Fault SymbolTable :=
  match table.markers with
  | [] => .error .scopeUnderflow
  | start :: outer => .ok ⟨table.entriesBefore start, outer⟩

def currentStart (table : SymbolTable) : Nat := table.markers.headD 0

def innermost (table : SymbolTable) : List Symbol :=
  table.entriesSince table.currentStart

/-- The bindings of the innermost scope, oldest first. -/
def currentScope (table : SymbolTable) : List Symbol := table.innermost.reverse

/-- Bind a name in the innermost scope, which must not bind it yet. -/
def declare (table : SymbolTable) (name : String) (kind : SymbolKind) (line : Nat) :
    Except Fault SymbolTable :=
  if table.innermost.any fun symbol => symbol.name == name then
    .error (.violation .doubleDeclaration line (some name))
  else
    .ok { table with entries := ⟨name, kind, line⟩ :: table.entries }

def get? (table : SymbolTable) (name : String) : Option Symbol :=
  table.entries.find? fun symbol => symbol.name == name

def lookup? (table : SymbolTable) (name : String) : Option SymbolKind :=
  (table.get? name).map Symbol.kind

def contains (table : SymbolTable) (name : String) : Bool := (table.get? name).isSome

def depth (table : SymbolTable) : Nat := table.markers.length

def size (table : SymbolTable) : Nat := table.entries.length

def isEmpty (table : SymbolTable) : Bool := table.entries.isEmpty

end SymbolTable

end PlZero
