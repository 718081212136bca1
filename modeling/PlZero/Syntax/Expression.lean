import PlZero.Token

/-!
# Expressions

Arithmetic over names and numbers, and the conditions made from it: a
comparison of two expressions, or the test whether one is odd. The type admits
conditions inside arithmetic; the grammar does not. Arithmetic is shown fully
bracketed, so its grouping can be read off; comparisons, signs and `ODD` are
shown without brackets.
-/

namespace PlZero

set_option autoImplicit false

inductive ArithmeticOperator where
  | add
  | subtract
  | multiply
  | divide
  deriving DecidableEq, Repr

namespace ArithmeticOperator

def char : ArithmeticOperator → Char
  | add => '+'
  | subtract => '-'
  | multiply => '*'
  | divide => '/'

def ofChar? : Char → Option ArithmeticOperator
  | '+' => some add
  | '-' => some subtract
  | '*' => some multiply
  | '/' => some divide
  | _ => none

/-- Operators that bind terms together. -/
def isAdditive : ArithmeticOperator → Bool
  | add | subtract => true
  | multiply | divide => false

theorem ofChar?_char (operator : ArithmeticOperator) : ofChar? operator.char = some operator := by
  cases operator <;> rfl

/-- Looking a character up finds exactly the operator that is written with it. -/
theorem ofChar?_eq_some_iff {char : Char} {operator : ArithmeticOperator} :
    ofChar? char = some operator ↔ operator.char = char := by
  constructor
  · intro found
    unfold ofChar? at found
    split at found <;> cases found <;> rfl
  · rintro rfl
    exact ofChar?_char operator

end ArithmeticOperator

inductive Comparison where
  | less
  | greater
  | equal
  | notEqual
  | lessEqual
  | greaterEqual
  deriving DecidableEq, Repr

namespace Comparison

def text : Comparison → String
  | less => "<"
  | greater => ">"
  | equal => "=="
  | notEqual => "!="
  | lessEqual => "<="
  | greaterEqual => ">="

/-- The comparison that a token stands for: two of them are single characters,
the others reserved words. -/
def ofToken? (token : Token) : Option Comparison :=
  match token with
  | .number _ => none
  | .symbol char => if char = '<' then some less else if char = '>' then some greater else none
  | .word _ _ =>
    match token.keyword? with
    | some .eqKw => some equal
    | some .neKw => some notEqual
    | some .leKw => some lessEqual
    | some .geKw => some greaterEqual
    | _ => none

def token : Comparison → Token
  | less => .symbol '<'
  | greater => .symbol '>'
  | equal => .keyword .eqKw
  | notEqual => .keyword .neKw
  | lessEqual => .keyword .leKw
  | greaterEqual => .keyword .geKw

theorem ofToken?_token (comparison : Comparison) : ofToken? comparison.token = some comparison := by
  cases comparison <;> rfl

end Comparison

inductive Expression where
  | number (value : Int)
  | identifier (name : String)
  | arithmetic (operator : ArithmeticOperator) (left right : Expression)
  | relation (comparison : Comparison) (left right : Expression)
  | negate (operand : Expression)
  | odd (operand : Expression)
  deriving DecidableEq, Repr

namespace Expression

def children : Expression → List Expression
  | number _ => []
  | identifier _ => []
  | arithmetic _ left right => [left, right]
  | relation _ left right => [left, right]
  | negate operand => [operand]
  | odd operand => [operand]

/-- What an expression inherits from its children holds of all expressions. -/
theorem induction_on_children {motive : Expression → Prop}
    (inherits : ∀ root, (∀ part ∈ root.children, motive part) → motive root) (root : Expression) :
    motive root := by
  induction root with
  | number | identifier => exact inherits _ (List.forall_mem_nil _)
  | arithmetic operator left right ihLeft ihRight | relation comparison left right ihLeft ihRight =>
    exact inherits _ (List.forall_mem_cons.mpr ⟨ihLeft, List.forall_mem_singleton.mpr ihRight⟩)
  | negate operand ih | odd operand ih => exact inherits _ (List.forall_mem_singleton.mpr ih)

def isCondition : Expression → Bool
  | relation .. => true
  | odd _ => true
  | _ => false

def text : Expression → String
  | number value => toString value
  | identifier name => name
  | arithmetic operator left right =>
    "(" ++ left.text ++ " " ++ String.singleton operator.char ++ " " ++ right.text ++ ")"
  | relation comparison left right => left.text ++ " " ++ comparison.text ++ " " ++ right.text
  | negate operand => "-" ++ operand.text
  | odd operand => "ODD " ++ operand.text

end Expression

end PlZero
