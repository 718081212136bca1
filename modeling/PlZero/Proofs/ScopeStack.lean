import PlZero.SymbolTable

/-!
# Symbol tables as stacks of scopes

A symbol table keeps all bindings in one list and knows where its scopes begin. It can be
told from outside only by its answers, and these are the answers of a plain stack of
scopes: each scope has its own bindings, oldest first, and there is always one scope below
all that were entered. The table is computed from the stack that it stands for, and each
operation on the one is the same operation on the other.
-/

namespace PlZero

set_option autoImplicit false

/-- The bindings of one scope, oldest first. No name is bound twice. -/
structure Scope where
  symbols : List Symbol
  distinct : (symbols.map Symbol.name).Nodup

namespace Scope

def empty : Scope := ⟨[], List.nodup_nil⟩

def names (scope : Scope) : List String := scope.symbols.map Symbol.name

def get? (scope : Scope) (name : String) : Option Symbol :=
  scope.symbols.find? fun symbol => symbol.name == name

def bind (scope : Scope) (symbol : Symbol) (fresh : symbol.name ∉ scope.names) : Scope where
  symbols := scope.symbols ++ [symbol]
  distinct := by
    rw [List.map_append, List.map_singleton, List.nodup_append]
    refine ⟨scope.distinct, by simp, ?_⟩
    intro name bound other isLast same
    rw [List.mem_singleton.mp isLast] at same
    exact fresh (same ▸ bound)

theorem any_name_eq (scope : Scope) (name : String) :
    (scope.symbols.any fun symbol => symbol.name == name) = decide (name ∈ scope.names) := by
  rw [Bool.eq_iff_iff, List.any_eq_true, decide_eq_true_eq, names, List.mem_map]
  simp only [beq_iff_eq]

theorem isSome_get? (scope : Scope) (name : String) :
    (scope.get? name).isSome = decide (name ∈ scope.names) := by
  rw [get?, List.isSome_find?, any_name_eq]

/-- As names are distinct, the newest binding of a name is its oldest one. -/
theorem find?_reverse (scope : Scope) (name : String) :
    scope.symbols.reverse.find? (fun symbol => symbol.name == name) = scope.get? name := by
  obtain ⟨symbols, distinct⟩ := scope
  unfold get?
  induction symbols with
  | nil => rfl
  | cons symbol rest ih =>
    rw [List.map_cons, List.nodup_cons] at distinct
    obtain ⟨single, others⟩ := distinct
    rw [List.reverse_cons, List.find?_append, ih others]
    by_cases same : symbol.name = name
    · have absent : (rest.find? fun symbol => symbol.name == name) = none := by
        rw [List.find?_eq_none]
        intro other member named
        apply single
        rw [same, ← eq_of_beq named]
        exact List.mem_map_of_mem member
      simp [absent, same]
    · simp [same]

end Scope

/-- A stack of scopes. The lowest of them, the root, is always there. -/
structure ScopeStack where
  top : Scope
  /-- The scopes around the top one, the root last. -/
  around : List Scope

namespace ScopeStack

def empty : ScopeStack := ⟨.empty, []⟩

def scopes (stack : ScopeStack) : List Scope := stack.top :: stack.around

def enter (stack : ScopeStack) : ScopeStack := ⟨.empty, stack.scopes⟩

def leave (stack : ScopeStack) : Except Fault ScopeStack :=
  match stack.around with
  | [] => .error .scopeUnderflow
  | next :: outer => .ok ⟨next, outer⟩

/-- Bind a name in the top scope, which must not bind it yet. -/
def declare (stack : ScopeStack) (name : String) (kind : SymbolKind) (line : Nat) :
    Except Fault ScopeStack :=
  if bound : name ∈ stack.top.names then
    .error (.violation .doubleDeclaration line (some name))
  else
    .ok { stack with top := stack.top.bind ⟨name, kind, line⟩ bound }

def get? (stack : ScopeStack) (name : String) : Option Symbol :=
  stack.scopes.findSome? fun scope => scope.get? name

def lookup? (stack : ScopeStack) (name : String) : Option SymbolKind :=
  (stack.get? name).map Symbol.kind

def contains (stack : ScopeStack) (name : String) : Bool :=
  stack.scopes.any fun scope => decide (name ∈ scope.names)

def currentScope (stack : ScopeStack) : List Symbol := stack.top.symbols

def depth (stack : ScopeStack) : Nat := stack.around.length

def size (stack : ScopeStack) : Nat := (stack.scopes.flatMap Scope.symbols).length

def isEmpty (stack : ScopeStack) : Bool := stack.scopes.all fun scope => scope.symbols.isEmpty

/-- The bindings of scopes in one list, newest first. -/
def entriesOf (scopes : List Scope) : List Symbol :=
  scopes.flatMap fun scope => scope.symbols.reverse

theorem entriesOf_cons (scope : Scope) (outer : List Scope) :
    entriesOf (scope :: outer) = scope.symbols.reverse ++ entriesOf outer := List.flatMap_cons

/-- For each of the scopes around the top one the number of bindings up to its end. -/
def markersOf : List Scope → List Nat
  | [] => []
  | scope :: outer => (entriesOf (scope :: outer)).length :: markersOf outer

def toTable (stack : ScopeStack) : SymbolTable := ⟨entriesOf stack.scopes, markersOf stack.around⟩

theorem toTable_empty : empty.toTable = .empty := rfl

theorem toTable_enter (stack : ScopeStack) : stack.enter.toTable = stack.toTable.enterScope := rfl

theorem leaveScope_toTable (stack : ScopeStack) :
    stack.toTable.leaveScope = stack.leave.map toTable := by
  obtain ⟨top, around⟩ := stack
  cases around with
  | nil => rfl
  | cons next outer =>
    have kept : (toTable ⟨top, next :: outer⟩).entriesBefore (entriesOf (next :: outer)).length =
        entriesOf (next :: outer) := by
      simp [SymbolTable.entriesBefore, toTable, scopes, entriesOf_cons top]
    have left : (toTable ⟨top, next :: outer⟩).leaveScope = .ok
        ⟨(toTable ⟨top, next :: outer⟩).entriesBefore (entriesOf (next :: outer)).length,
          markersOf outer⟩ := rfl
    rw [left, kept]
    rfl

theorem currentStart_toTable (stack : ScopeStack) :
    stack.toTable.currentStart = (entriesOf stack.around).length := by
  obtain ⟨top, around⟩ := stack
  cases around <;> rfl

theorem innermost_toTable (stack : ScopeStack) :
    stack.toTable.innermost = stack.top.symbols.reverse := by
  rw [SymbolTable.innermost, currentStart_toTable, SymbolTable.entriesSince, toTable, scopes,
    entriesOf_cons, List.length_append, Nat.add_sub_cancel, List.take_left]

theorem declare_toTable (stack : ScopeStack) (name : String) (kind : SymbolKind) (line : Nat) :
    stack.toTable.declare name kind line = (stack.declare name kind line).map toTable := by
  have known : (stack.toTable.innermost.any fun symbol => symbol.name == name) =
      decide (name ∈ stack.top.names) := by
    rw [innermost_toTable, List.any_reverse, Scope.any_name_eq]
  unfold SymbolTable.declare declare
  rw [known]
  by_cases bound : name ∈ stack.top.names
  · simp [bound, Except.map]
  · simp [bound, Except.map, toTable, scopes, entriesOf, Scope.bind]

theorem get?_toTable (stack : ScopeStack) (name : String) :
    stack.toTable.get? name = stack.get? name := by
  have entries : ∀ scopes : List Scope,
      (entriesOf scopes).find? (fun symbol => symbol.name == name) =
        scopes.findSome? fun scope => scope.get? name := by
    intro scopes
    induction scopes with
    | nil => rfl
    | cons scope outer ih =>
      rw [entriesOf_cons, List.find?_append, Scope.find?_reverse, ih, List.findSome?_cons]
      cases scope.get? name <;> rfl
  exact entries stack.scopes

theorem lookup?_toTable (stack : ScopeStack) (name : String) :
    stack.toTable.lookup? name = stack.lookup? name := by
  rw [SymbolTable.lookup?, get?_toTable, lookup?]

theorem contains_toTable (stack : ScopeStack) (name : String) :
    stack.toTable.contains name = stack.contains name := by
  rw [SymbolTable.contains, get?_toTable, get?, contains]
  induction stack.scopes with
  | nil => rfl
  | cons scope outer ih =>
    rw [List.findSome?_cons, List.any_cons, ← scope.isSome_get?, ← ih]
    cases scope.get? name <;> rfl

theorem currentScope_toTable (stack : ScopeStack) :
    stack.toTable.currentScope = stack.currentScope := by
  rw [SymbolTable.currentScope, innermost_toTable, List.reverse_reverse, currentScope]

theorem depth_toTable (stack : ScopeStack) : stack.toTable.depth = stack.depth := by
  change (markersOf stack.around).length = stack.around.length
  induction stack.around with
  | nil => rfl
  | cons scope outer ih => exact congrArg (· + 1) ih

theorem size_toTable (stack : ScopeStack) : stack.toTable.size = stack.size := by
  change (entriesOf stack.scopes).length = stack.size
  rw [size]
  induction stack.scopes with
  | nil => rfl
  | cons scope outer ih =>
    rw [entriesOf_cons, List.length_append, List.length_reverse, ih, List.flatMap_cons,
      List.length_append]

theorem isEmpty_toTable (stack : ScopeStack) : stack.toTable.isEmpty = stack.isEmpty := by
  change (entriesOf stack.scopes).isEmpty = stack.isEmpty
  rw [isEmpty]
  induction stack.scopes with
  | nil => rfl
  | cons scope outer ih =>
    rw [entriesOf_cons, List.all_cons, ← ih, Bool.eq_iff_iff]
    simp

end ScopeStack

inductive ScopeOperation where
  | enter
  | leave
  | declare (name : String) (kind : SymbolKind) (line : Nat)
  | get (name : String)
  | lookup (name : String)
  | contains (name : String)
  | currentScope
  | depth
  | size
  | isEmpty
  deriving DecidableEq, Repr

inductive ScopeAnswer where
  | done
  | failed (fault : Fault)
  | symbol (found? : Option Symbol)
  | kind (found? : Option SymbolKind)
  | symbols (found : List Symbol)
  | number (count : Nat)
  | truth (holds : Bool)
  deriving DecidableEq, Repr

namespace ScopeAnswer

/-- A change that fails leaves everything as it was. -/
def ofChange {σ : Type} (before : σ) : Except Fault σ → ScopeAnswer × σ
  | .ok after => (done, after)
  | .error fault => (failed fault, before)

end ScopeAnswer

def SymbolTable.perform (table : SymbolTable) : ScopeOperation → ScopeAnswer × SymbolTable
  | .enter => (.done, table.enterScope)
  | .leave => ScopeAnswer.ofChange table table.leaveScope
  | .declare name kind line => ScopeAnswer.ofChange table (table.declare name kind line)
  | .get name => (.symbol (table.get? name), table)
  | .lookup name => (.kind (table.lookup? name), table)
  | .contains name => (.truth (table.contains name), table)
  | .currentScope => (.symbols table.currentScope, table)
  | .depth => (.number table.depth, table)
  | .size => (.number table.size, table)
  | .isEmpty => (.truth table.isEmpty, table)

def ScopeStack.perform (stack : ScopeStack) : ScopeOperation → ScopeAnswer × ScopeStack
  | .enter => (.done, stack.enter)
  | .leave => ScopeAnswer.ofChange stack stack.leave
  | .declare name kind line => ScopeAnswer.ofChange stack (stack.declare name kind line)
  | .get name => (.symbol (stack.get? name), stack)
  | .lookup name => (.kind (stack.lookup? name), stack)
  | .contains name => (.truth (stack.contains name), stack)
  | .currentScope => (.symbols stack.currentScope, stack)
  | .depth => (.number stack.depth, stack)
  | .size => (.number stack.size, stack)
  | .isEmpty => (.truth stack.isEmpty, stack)

def ScopeOperation.answers {σ : Type} (perform : σ → ScopeOperation → ScopeAnswer × σ) (state : σ) :
    List ScopeOperation → List ScopeAnswer
  | [] => []
  | operation :: rest =>
    (perform state operation).1 :: answers perform (perform state operation).2 rest

namespace ScopeStack

theorem ofChange_toTable (before : ScopeStack) (change : Except Fault ScopeStack) :
    ScopeAnswer.ofChange before.toTable (change.map toTable) =
      ((ScopeAnswer.ofChange before change).1, (ScopeAnswer.ofChange before change).2.toTable) := by
  cases change <;> rfl

/-- An operation on a table is answered like the same operation on the stack that it stands for,
and leads to the table that stands for the stack after it. -/
theorem perform_toTable (stack : ScopeStack) (operation : ScopeOperation) :
    stack.toTable.perform operation =
      ((stack.perform operation).1, (stack.perform operation).2.toTable) := by
  cases operation with
  | enter => rw [SymbolTable.perform, ← toTable_enter, perform]
  | leave => rw [SymbolTable.perform, leaveScope_toTable, ofChange_toTable, perform]
  | declare name kind line =>
    rw [SymbolTable.perform, declare_toTable, ofChange_toTable, perform]
  | get name => rw [SymbolTable.perform, get?_toTable, perform]
  | lookup name => rw [SymbolTable.perform, lookup?_toTable, perform]
  | contains name => rw [SymbolTable.perform, contains_toTable, perform]
  | currentScope => rw [SymbolTable.perform, currentScope_toTable, perform]
  | depth => rw [SymbolTable.perform, depth_toTable, perform]
  | size => rw [SymbolTable.perform, size_toTable, perform]
  | isEmpty => rw [SymbolTable.perform, isEmpty_toTable, perform]

theorem answers_toTable (stack : ScopeStack) (operations : List ScopeOperation) :
    ScopeOperation.answers SymbolTable.perform stack.toTable operations =
      ScopeOperation.answers ScopeStack.perform stack operations := by
  induction operations generalizing stack with
  | nil => rfl
  | cons operation rest ih =>
    rw [ScopeOperation.answers, perform_toTable, ih, ScopeOperation.answers]

end ScopeStack

/-- A new symbol table answers all operations as an empty stack of scopes does. -/
theorem table_answers_as_stack (operations : List ScopeOperation) :
    ScopeOperation.answers SymbolTable.perform .empty operations =
      ScopeOperation.answers ScopeStack.perform .empty operations := by
  rw [← ScopeStack.toTable_empty]
  exact ScopeStack.empty.answers_toTable operations

end PlZero
