import PlZero.Syntax.Expression

/-!
# Statements

The statements of PL/0. A group `BEGIN … END` is kept as a chain of pairs that
leans to the right; an empty statement and `PASS` are the same. A statement is
shown as lines, four blanks further in for each enclosing `IF` or `WHILE`; the
members of a group stand below each other without a frame.
-/

namespace PlZero

set_option autoImplicit false

inductive Statement where
  | ifThen (condition : Expression) (body : Statement)
  | whileDo (condition : Expression) (body : Statement)
  | assign (name : String) (value : Expression)
  | pair (first second : Statement)
  | call (name : String)
  | read (name : String)
  | print (value : Expression)
  /-- The word `PASS`, or a place where a statement was left out. -/
  | pass
  deriving DecidableEq, Repr

def indentation (depth : Nat) : String :=
  String.join (List.replicate depth "    ")

def joinLines (lines : List String) : String :=
  String.join (lines.map (· ++ "\n"))

namespace Statement

/-- The statements of a group as one: a lone one stays as it is, and an empty
group does nothing. -/
def sequence : List Statement → Statement
  | [] => pass
  | [last] => last
  | first :: next :: rest => pair first (sequence (next :: rest))

/-- The members of a group in source order, however they were paired. -/
def flatten : Statement → List Statement
  | pair first second => first.flatten ++ second.flatten
  | other => [other]

def lines (depth : Nat) : Statement → List String
  | ifThen condition body =>
    (indentation depth ++ "IF " ++ condition.text ++ " THEN") :: body.lines (depth + 1)
  | whileDo condition body =>
    (indentation depth ++ "WHILE " ++ condition.text ++ " DO") :: body.lines (depth + 1)
  | assign name value => [indentation depth ++ name ++ " = " ++ value.text]
  | pair first second => first.lines depth ++ second.lines depth
  | call name => [indentation depth ++ "CALL " ++ name]
  | read name => [indentation depth ++ "READ " ++ name]
  | print value => [indentation depth ++ "PRINT " ++ value.text]
  | pass => [indentation depth ++ "PASS"]

def text (statement : Statement) : String := joinLines (statement.lines 0)

end Statement

end PlZero
