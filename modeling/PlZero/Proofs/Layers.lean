import Mathlib.Data.List.Nodup
import PlZero.Proofs.BracketedRuns

/-!
# The tables that can be reached

The markers of a symbol table cut its list of bindings into layers, one for each open scope
and one for the root. A table that was reached from the empty one has its markers in order and
within the list, and no layer binds a name twice. Nothing more can be said of it: a table with
these properties stands for a stack of scopes, and each stack is built by entering its scopes
and declaring their names, from the root upwards.
-/

namespace PlZero

set_option autoImplicit false

namespace SymbolTable

/-- The bindings that are among the first `stop` and not among the first `start`, newest first. -/
def entriesBetween (table : SymbolTable) (start stop : Nat) : List Symbol :=
  (table.entriesBefore stop).take (stop - start)

/-- The layers into which markers, innermost first, cut the first `stop` bindings. -/
def layersBefore (table : SymbolTable) (stop : Nat) : List Nat → List (List Symbol)
  | [] => [table.entriesBetween 0 stop]
  | start :: outer => table.entriesBetween start stop :: table.layersBefore start outer

/-- The bindings after the last marker, those between any two markers that follow one another, and
those before the first one. -/
def layers (table : SymbolTable) : List (List Symbol) :=
  table.layersBefore table.size table.markers

structure IsLayered (table : SymbolTable) : Prop where
  /-- The innermost marker comes first, so none is below one that follows it. -/
  ordered : table.markers.Pairwise (· ≥ ·)
  within : ∀ marker ∈ table.markers, marker ≤ table.size
  distinct : ∀ layer ∈ table.layers, (layer.map Symbol.name).Nodup

variable {table : SymbolTable} {start : Nat} {outer : List Nat}

theorem IsLayered.marker_le (layered : table.IsLayered) (same : table.markers = start :: outer) :
    start ≤ table.size := by
  have within := layered.within
  rw [same] at within
  exact (List.forall_mem_cons.mp within).1

theorem IsLayered.outer_le (layered : table.IsLayered) (same : table.markers = start :: outer) :
    ∀ marker ∈ outer, marker ≤ start := by
  have ordered := layered.ordered
  rw [same] at ordered
  exact (List.pairwise_cons.mp ordered).1

/-- The innermost scope begins within the list. -/
theorem IsLayered.currentStart_le (layered : table.IsLayered) :
    table.currentStart ≤ table.size := by
  cases same : table.markers with
  | nil =>
    rw [currentStart, same]
    exact Nat.zero_le table.size
  | cons start outer =>
    rw [currentStart, same]
    exact layered.marker_le same

theorem length_entriesBefore (bound : start ≤ table.size) :
    (table.entriesBefore start).length = start := by
  rw [entriesBefore, List.length_drop]
  exact Nat.sub_sub_self bound

/-- Bindings that were made before an older time were made before a newer one. -/
theorem entriesBefore_entriesBefore (markers : List Nat) {stop : Nat} (older : stop ≤ start)
    (bound : start ≤ table.size) :
    entriesBefore ⟨table.entriesBefore start, markers⟩ stop = table.entriesBefore stop := by
  have inner := length_entriesBefore bound
  rw [entriesBefore, inner, entriesBefore, List.drop_drop, entriesBefore]
  congr 1
  rw [size] at bound
  omega

theorem entriesBetween_size (table : SymbolTable) (start : Nat) :
    table.entriesBetween start table.size = table.entriesSince start := by
  rw [entriesBetween, entriesBefore, size, Nat.sub_self, List.drop_zero, entriesSince]

theorem layers_of_root (entries : List Symbol) : layers ⟨entries, []⟩ = [entries] := by
  rw [layers, layersBefore, entriesBetween_size, entriesSince, Nat.sub_zero, List.take_length]

theorem entriesBetween_of_suffix {inner outer : List Symbol}
    (older : inner ++ outer <:+ table.entries) :
    table.entriesBetween outer.length (inner ++ outer).length = inner := by
  have before : table.entriesBefore (inner ++ outer).length = inner ++ outer :=
    (List.suffix_iff_eq_drop.mp older).symm
  rw [entriesBetween, before, List.length_append, Nat.add_sub_cancel, List.take_left]

/-- Layers below a marker do not change when the bindings above it are forgotten. -/
theorem layersBefore_entriesBefore (markers : List Nat) (bound : start ≤ table.size) {stop : Nat}
    (older : stop ≤ start) (below : ∀ marker ∈ outer, marker ≤ start) :
    layersBefore ⟨table.entriesBefore start, markers⟩ stop outer =
      table.layersBefore stop outer := by
  induction outer generalizing stop with
  | nil =>
    rw [layersBefore, layersBefore, entriesBetween, entriesBefore_entriesBefore _ older bound,
      entriesBetween]
  | cons marker outer ih =>
    obtain ⟨next, others⟩ := List.forall_mem_cons.mp below
    rw [layersBefore, layersBefore, ih next others, entriesBetween,
      entriesBefore_entriesBefore _ older bound, entriesBetween]

/-- The first layer is what leaving the innermost scope takes away, and the others are those of the
table that it leads to. -/
theorem IsLayered.layers_eq (layered : table.IsLayered) (same : table.markers = start :: outer) :
    table.layers = table.entriesSince start :: layers ⟨table.entriesBefore start, outer⟩ := by
  have bound := layered.marker_le same
  have others : layers ⟨table.entriesBefore start, outer⟩ = table.layersBefore start outer := by
    rw [layers, size, length_entriesBefore bound]
    exact layersBefore_entriesBefore outer bound (Nat.le_refl start) (layered.outer_le same)
  rw [layers, same, layersBefore, entriesBetween_size, others]

theorem IsLayered.distinct_parts (layered : table.IsLayered)
    (same : table.markers = start :: outer) :
    ((table.entriesSince start).map Symbol.name).Nodup ∧
      ∀ layer ∈ layers ⟨table.entriesBefore start, outer⟩, (layer.map Symbol.name).Nodup := by
  have distinct := layered.distinct
  rw [layered.layers_eq same] at distinct
  exact List.forall_mem_cons.mp distinct

/-- What is left after leaving the innermost scope is layered again. -/
theorem IsLayered.left (layered : table.IsLayered) (same : table.markers = start :: outer) :
    IsLayered ⟨table.entriesBefore start, outer⟩ where
  ordered := by
    have ordered := layered.ordered
    rw [same] at ordered
    exact (List.pairwise_cons.mp ordered).2
  within := by
    rw [size, length_entriesBefore (layered.marker_le same)]
    exact layered.outer_le same
  distinct := (layered.distinct_parts same).2

end SymbolTable

def Symbol.declaration (symbol : Symbol) : ScopeOperation :=
  .declare symbol.name symbol.kind symbol.line

def Scope.ofNewest (symbols : List Symbol) (distinct : (symbols.map Symbol.name).Nodup) :
    Scope where
  symbols := symbols.reverse
  distinct := by rwa [List.map_reverse, List.nodup_reverse]

namespace ScopeStack

open SymbolTable

theorem markersOf_le (outer : List Scope) :
    ∀ marker ∈ markersOf outer, marker ≤ (entriesOf outer).length := by
  induction outer with
  | nil => intro marker member; cases member
  | cons scope outer ih =>
    have longer : (entriesOf outer).length ≤ (entriesOf (scope :: outer)).length := by
      rw [entriesOf_cons, List.length_append]
      exact Nat.le_add_left _ _
    exact List.forall_mem_cons.mpr
      ⟨Nat.le_refl _, fun marker member => Nat.le_trans (ih marker member) longer⟩

theorem markersOf_ordered (outer : List Scope) : (markersOf outer).Pairwise (· ≥ ·) := by
  induction outer with
  | nil => exact .nil
  | cons scope outer ih =>
    refine .cons ?_ ih
    intro marker member
    have below := markersOf_le outer marker member
    rw [entriesOf_cons, List.length_append]
    omega

/-- The layers below the end of a scope are that scope and those around it. -/
theorem layersBefore_of_suffix {table : SymbolTable} (scope : Scope) (outer : List Scope)
    (older : entriesOf (scope :: outer) <:+ table.entries) :
    table.layersBefore (entriesOf (scope :: outer)).length (markersOf outer) =
      (scope :: outer).map fun scope => scope.symbols.reverse := by
  induction outer generalizing scope with
  | nil =>
    have own := entriesBetween_of_suffix older
    rw [entriesOf_cons]
    exact congrArg (fun layer => [layer]) own
  | cons next outer ih =>
    have own := entriesBetween_of_suffix older
    rw [entriesOf_cons] at older ⊢
    have below := ih next ((List.suffix_append _ _).trans older)
    rw [markersOf, layersBefore, below, List.map_cons]
    congr 1

theorem layers_toTable (stack : ScopeStack) :
    stack.toTable.layers = stack.scopes.map fun scope => scope.symbols.reverse :=
  layersBefore_of_suffix stack.top stack.around List.suffix_rfl

theorem isLayered_toTable (stack : ScopeStack) : stack.toTable.IsLayered where
  ordered := markersOf_ordered stack.around
  within := by
    have below := markersOf_le stack.scopes
    exact (List.forall_mem_cons.mp below).2
  distinct := by
    rw [layers_toTable]
    intro layer member
    obtain ⟨scope, _, rfl⟩ := List.mem_map.mp member
    rw [List.map_reverse, List.nodup_reverse]
    exact scope.distinct

/-- Each layer of a table has distinct names, so it is a scope. -/
theorem exists_toTable {table : SymbolTable} (layered : table.IsLayered) :
    ∃ stack : ScopeStack, stack.toTable = table := by
  obtain ⟨entries, markers⟩ := table
  induction markers generalizing entries with
  | nil =>
    have distinct := layered.distinct entries (by rw [layers_of_root]; exact List.mem_cons_self)
    refine ⟨⟨.ofNewest entries distinct, []⟩, ?_⟩
    rw [toTable, scopes, entriesOf_cons, Scope.ofNewest, List.reverse_reverse]
    exact congrArg (fun whole => SymbolTable.mk whole []) (List.append_nil entries)
  | cons start outer ih =>
    -- the table without its innermost scope stands for the stack below
    obtain ⟨distinct, _⟩ := layered.distinct_parts rfl
    obtain ⟨stack, same⟩ := ih _ (layered.left rfl)
    obtain ⟨below, markersBelow⟩ := SymbolTable.mk.inj same
    have whole : entriesOf (.ofNewest _ distinct :: stack.scopes) = entries := by
      rw [entriesOf_cons, below, Scope.ofNewest, List.reverse_reverse]
      exact List.take_append_drop _ entries
    have marked : markersOf stack.scopes = start :: outer := by
      rw [← markersBelow, ← length_entriesBefore (layered.marker_le rfl), ← below]
      rfl
    exact ⟨⟨.ofNewest _ distinct, stack.scopes⟩, congrArg₂ SymbolTable.mk whole marked⟩

theorem after_toTable (stack : ScopeStack) (operations : List ScopeOperation) :
    ∃ later : ScopeStack, stack.toTable.after operations = later.toTable := by
  induction operations generalizing stack with
  | nil => exact ⟨stack, rfl⟩
  | cons operation rest ih =>
    rw [SymbolTable.after, perform_toTable]
    exact ih (stack.perform operation).2

/-- Names of a scope that are declared one after the other are added to those it has. -/
theorem after_declarations (top whole : Scope) (around : List Scope) {symbols : List Symbol}
    (parts : whole.symbols = top.symbols ++ symbols) :
    (toTable ⟨top, around⟩).after (symbols.map Symbol.declaration) = toTable ⟨whole, around⟩ := by
  induction symbols generalizing top with
  | nil =>
    have same : whole.symbols = top.symbols := by rw [parts, List.append_nil]
    rw [List.map_nil, SymbolTable.after, toTable, toTable, scopes, scopes, entriesOf_cons,
      entriesOf_cons, same]
  | cons symbol rest ih =>
    have fresh : symbol.name ∉ top.names := by
      have distinct := whole.distinct
      rw [parts, List.map_append, List.map_cons] at distinct
      intro bound
      exact (List.nodup_append.mp distinct).2.2 symbol.name bound symbol.name
        List.mem_cons_self rfl
    have declared : perform ⟨top, around⟩ symbol.declaration =
        (.done, ⟨top.bind symbol fresh, around⟩) := by
      rw [Symbol.declaration, perform, declare, dif_neg fresh]
      rfl
    have others : whole.symbols = (top.bind symbol fresh).symbols ++ rest := by
      rw [parts, Scope.bind, List.append_assoc, List.singleton_append]
    rw [List.map_cons, SymbolTable.after, perform_toTable, declared]
    exact ih (top.bind symbol fresh) others

/-- The scopes of a stack are entered and filled one after the other, from the root upwards. -/
theorem exists_after (stack : ScopeStack) :
    ∃ operations, SymbolTable.empty.after operations = stack.toTable := by
  obtain ⟨top, around⟩ := stack
  induction around generalizing top with
  | nil => exact ⟨top.symbols.map Symbol.declaration, after_declarations .empty top [] rfl⟩
  | cons next outer ih =>
    obtain ⟨operations, reached⟩ := ih next
    refine ⟨operations ++ .enter :: top.symbols.map Symbol.declaration, ?_⟩
    rw [after_append, reached]
    exact after_declarations .empty top (next :: outer) rfl

end ScopeStack

/-- A table is reached from the empty one by some operations, whether they succeed or fail, exactly
if its markers are in order and within its list and each layer has distinct names. Hence the
innermost scope always begins within the list. -/
theorem table_reached_iff_layered (table : SymbolTable) :
    (∃ operations, SymbolTable.empty.after operations = table) ↔
      table.IsLayered ∧ table.currentStart ≤ table.size := by
  constructor
  · rintro ⟨operations, rfl⟩
    obtain ⟨stack, stands⟩ := ScopeStack.empty.after_toTable operations
    have layered := stack.isLayered_toTable
    rw [← stands] at layered
    exact ⟨layered, layered.currentStart_le⟩
  · rintro ⟨layered, _⟩
    obtain ⟨stack, rfl⟩ := ScopeStack.exists_toTable layered
    exact stack.exists_after

/-- Markers are equal around a scope that binds nothing, and a name that is refused is in no
layer. -/
example :
    let table := SymbolTable.empty.after
      [.declare "x" .var 1, .enter, .enter, .declare "x" .const 2, .declare "x" .var 3]
    table.markers = [1, 1] ∧ table.layers = [[⟨"x", .const, 2⟩], [], [⟨"x", .var, 1⟩]] := by
  decide

end PlZero
