import PlZero.Lexeme
import PlZero.Syntax.Block

/-!
# Shapes of trees

Trees as a type admit more than the grammar and the rules about names allow: conditions
inside arithmetic, arithmetic where a condition belongs, negative numbers, names that
are no names, and calls of procedures that are nowhere declared. The shape of those
that are allowed is told here.
-/

namespace PlZero

set_option autoImplicit false

def IsName (name : String) : Prop :=
  ∃ first tail, name.toList = first :: tail ∧ first.isAlpha = true ∧
    (∀ char ∈ tail, char.isAlphanum = true) ∧ Keyword.ofSpelling? name = none

namespace Expression

/-- Numbers that can be written, names, and operations and signs on them. -/
def IsArithmetic : Expression → Prop
  | number value => 0 ≤ value ∧ value ≤ Lexeme.maxNumber
  | identifier name => IsName name
  | arithmetic _ left right => left.IsArithmetic ∧ right.IsArithmetic
  | negate operand => operand.IsArithmetic
  | relation .. => False
  | odd _ => False

def IsTest : Expression → Prop
  | relation _ left right => left.IsArithmetic ∧ right.IsArithmetic
  | odd operand => operand.IsArithmetic
  | _ => False

end Expression

namespace Statement

/-- Tests where a condition belongs and arithmetic elsewhere, and names that are names. -/
def IsFormed : Statement → Prop
  | ifThen condition body => condition.IsTest ∧ body.IsFormed
  | whileDo condition body => condition.IsTest ∧ body.IsFormed
  | assign name value => IsName name ∧ value.IsArithmetic
  | pair first second => first.IsFormed ∧ second.IsFormed
  | call name => IsName name
  | read name => IsName name
  | print value => value.IsArithmetic
  | pass => True

def calls : Statement → List String
  | ifThen _ body => body.calls
  | whileDo _ body => body.calls
  | pair first second => first.calls ++ second.calls
  | call name => [name]
  | _ => []

end Statement

namespace Block

def IsFormed : Block → Prop
  | procedure name body rest => IsName name ∧ body.IsFormed ∧ rest.IsFormed
  | statement final => final.IsFormed

def HasDistinctProcedures : Block → Prop
  | procedure name body rest => name ∉ rest.procedures.map Prod.fst ∧
      body.HasDistinctProcedures ∧ rest.HasDistinctProcedures
  | statement _ => True

/-- Only procedures are called that are declared around a block or up to that point in it. The body
of a procedure may call the procedure itself and those before it. -/
def CallsDeclared (declared : List String) : Block → Prop
  | procedure name body rest =>
    body.CallsDeclared (name :: declared) ∧ rest.CallsDeclared (name :: declared)
  | statement final => ∀ name ∈ final.calls, name ∈ declared

end Block

end PlZero
