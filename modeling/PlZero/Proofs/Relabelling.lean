import Mathlib.Data.List.Forall2
import PlZero.Program

/-!
# Changed labels

A program carries labels that mean nothing by themselves: the names, the text of a word
whose number is what counts, and the numbers of its lines. Here all of them are changed.
Names are exchanged for other names, different ones for different ones. Lines go to any
lines, and the text of a word that is no name to any text.
-/

namespace PlZero

set_option autoImplicit false

def Expression.rename (name : String → String) : Expression → Expression
  | number value => number value
  | identifier own => identifier (name own)
  | arithmetic operator left right => arithmetic operator (left.rename name) (right.rename name)
  | relation comparison left right => relation comparison (left.rename name) (right.rename name)
  | negate operand => negate (operand.rename name)
  | odd operand => odd (operand.rename name)

def Statement.rename (name : String → String) : Statement → Statement
  | ifThen condition body => ifThen (condition.rename name) (body.rename name)
  | whileDo condition body => whileDo (condition.rename name) (body.rename name)
  | assign own value => assign (name own) (value.rename name)
  | pair first second => pair (first.rename name) (second.rename name)
  | call own => call (name own)
  | read own => read (name own)
  | print value => print (value.rename name)
  | pass => pass

def Block.rename (name : String → String) : Block → Block
  | procedure own body rest => procedure (name own) (body.rename name) (rest.rename name)
  | statement final => statement (final.rename name)

def Outcome.rename (name : String → String) (outcome : Outcome) : Outcome :=
  ⟨outcome.block.rename name, outcome.accepted⟩

def Symbol.rename (name : String → String) (symbol : Symbol) : Symbol :=
  { symbol with name := name symbol.name }

def SymbolTable.rename (name : String → String) (table : SymbolTable) : SymbolTable :=
  { table with entries := table.entries.map (Symbol.rename name) }

theorem Statement.rename_sequence (name : String → String) (members : List Statement) :
    (sequence members).rename name = sequence (members.map (Statement.rename name)) := by
  induction members using sequence.induct with
  | case1 => rfl
  | case2 last => rfl
  | case3 first next rest ih => simp only [sequence, rename, ih, List.map_cons]

theorem Block.rename_ofProcedures (name : String → String) (procedures : List (String × Block))
    (final : Statement) :
    (ofProcedures procedures final).rename name =
      ofProcedures (procedures.map (Prod.map name (Block.rename name))) (final.rename name) := by
  induction procedures with
  | nil => rfl
  | cons declared rest ih => exact congrArg (procedure _ _) ih

theorem Parser.rename_applyAll (name : String → String) (first : Expression)
    (operations : List (ArithmeticOperator × Expression)) :
    (applyAll first operations).rename name =
      applyAll (first.rename name) (operations.map (Prod.map id (Expression.rename name))) := by
  induction operations generalizing first with
  | nil => rfl
  | cons operation rest ih => exact ih (.arithmetic operation.1 first operation.2)

/-- A change of all labels. Different names stay different. -/
structure Relabelling where
  name : String → String
  injective : Function.Injective name
  line : Nat → Nat

namespace Relabelling

variable (change : Relabelling)

/-- What may become of a token. Only the number of a reserved word counts, so its text may become
any text. -/
inductive OnToken : Token → Token → Prop
  | number (value : Int) : OnToken (.number value) (.number value)
  | symbol (char : Char) : OnToken (.symbol char) (.symbol char)
  | name (own : String) : OnToken (.identifier own) (.identifier (change.name own))
  | word (text changed : String) {id : Nat} (other : id ≠ identifierId) :
      OnToken (.word text id) (.word changed id)

structure OnLocated (located changed : LocatedToken) : Prop where
  token : change.OnToken located.token changed.token
  line : changed.line = change.line located.line

def OnTokens (tokens changed : List LocatedToken) : Prop :=
  List.Forall₂ change.OnLocated tokens changed

def onFault : Fault → Fault
  | .violation broken line name? => .violation broken (change.line line) (name?.map change.name)
  | .nestingTooDeep limit line => .nestingTooDeep limit (change.line line)
  | .invalidNumber digits line => .invalidNumber digits (change.line line)
  | other => other

def onResult : Except Fault Outcome → Except Fault Outcome
  | .ok outcome => .ok (outcome.rename change.name)
  | .error fault => .error (change.onFault fault)

section Tokens

variable {change} {token changed : Token} (related : change.OnToken token changed)
include related

theorem OnToken.isSymbol (char : Char) : changed.isSymbol char = token.isSymbol char := by
  cases related <;> rfl

theorem OnToken.isKeyword {keyword : Keyword} :
    changed.isKeyword keyword.id = token.isKeyword keyword.id := by
  cases related <;> rfl

theorem OnToken.keyword? : changed.keyword? = token.keyword? := by
  cases related <;> rfl

theorem OnToken.number? : changed.number? = token.number? := by
  cases related <;> rfl

theorem OnToken.identifier? : changed.identifier? = token.identifier?.map change.name := by
  cases related with
  | number | symbol | name => rfl
  | word text changed other => simp [Token.identifier?, other]

theorem OnToken.comparison? : Comparison.ofToken? changed = Comparison.ofToken? token := by
  cases related <;> rfl

end Tokens

/-- What may become of a binding. Lines of declarations are looked at by nothing. -/
structure OnSymbol (symbol changed : Symbol) : Prop where
  name : changed.name = change.name symbol.name
  kind : changed.kind = symbol.kind

structure OnTable (table changed : SymbolTable) : Prop where
  entries : List.Forall₂ change.OnSymbol table.entries changed.entries
  markers : changed.markers = table.markers

section Tables

variable {change}

theorem onTable_rename (table : SymbolTable) : change.OnTable table (table.rename change.name) where
  entries := by
    rw [SymbolTable.rename, List.forall₂_map_right_iff, List.forall₂_same]
    exact fun _ _ => ⟨rfl, rfl⟩
  markers := rfl

/-- As different names stay different, a binding is of a name exactly if it still is. -/
theorem OnSymbol.isNamed {symbol changed : Symbol} (related : change.OnSymbol symbol changed)
    (name : String) : (changed.name == change.name name) = (symbol.name == name) := by
  rw [related.name, Bool.eq_iff_iff, beq_iff_eq, beq_iff_eq]
  exact change.injective.eq_iff

theorem any_isNamed {symbols changed : List Symbol}
    (related : List.Forall₂ change.OnSymbol symbols changed) (name : String) :
    (changed.any fun symbol => symbol.name == change.name name) =
      symbols.any fun symbol => symbol.name == name := by
  induction related with
  | nil => rfl
  | cons head _ ih => rw [List.any_cons, List.any_cons, head.isNamed, ih]

theorem find?_isNamed {symbols changed : List Symbol}
    (related : List.Forall₂ change.OnSymbol symbols changed) (name : String) :
    (changed.find? fun symbol => symbol.name == change.name name).map Symbol.kind =
      (symbols.find? fun symbol => symbol.name == name).map Symbol.kind := by
  induction related with
  | nil => rfl
  | @cons symbol changed _ _ head _ ih =>
    rw [List.find?_cons, List.find?_cons, head.isNamed]
    cases symbol.name == name with
    | true => exact congrArg some head.kind
    | false => exact ih

section Operations

variable {table changed : SymbolTable} (related : change.OnTable table changed)
include related

theorem OnTable.lookup? (name : String) :
    changed.lookup? (change.name name) = table.lookup? name := find?_isNamed related.entries name

theorem OnTable.length : changed.entries.length = table.entries.length :=
  related.entries.length_eq.symm

theorem OnTable.enterScope : change.OnTable table.enterScope changed.enterScope where
  entries := related.entries
  markers := by simp only [SymbolTable.enterScope, related.length, related.markers]

theorem OnTable.innermost : List.Forall₂ change.OnSymbol table.innermost changed.innermost := by
  simp only [SymbolTable.innermost, SymbolTable.entriesSince, SymbolTable.currentStart,
    related.length, related.markers]
  exact List.forall₂_take _ related.entries

end Operations

end Tables

end Relabelling

end PlZero
