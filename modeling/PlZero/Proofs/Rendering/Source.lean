import PlZero.Proofs.Shape
import PlZero.Proofs.Spacing

/-!
# Trees as source text

A tree is written as the lexemes of a program: all its variables in one declaration,
each block as its procedures and its statement, pairs of statements as groups, and
arithmetic with a bracket around every operation and every sign. Not every tree can
come back from that. What has to hold is gathered here: the shape that the grammar
allows, names that are names, procedures that are declared where they are called,
and no name that is both a variable and a procedure.
-/

namespace PlZero

set_option autoImplicit false

namespace Expression

def names : Expression → List String
  | number _ => []
  | identifier name => [name]
  | arithmetic _ left right => left.names ++ right.names
  | relation _ left right => left.names ++ right.names
  | negate operand => operand.names
  | odd operand => operand.names

def lexemes : Expression → List String
  | number value => [toString value]
  | identifier name => [name]
  | arithmetic operator left right =>
    "(" :: (left.lexemes ++ String.singleton operator.char :: (right.lexemes ++ [")"]))
  | relation comparison left right => left.lexemes ++ comparison.text :: right.lexemes
  | negate operand => "(" :: "-" :: (operand.lexemes ++ [")"])
  | odd operand => "ODD" :: operand.lexemes

/-- The brackets that are open at a time in what is written for an expression. -/
def height : Expression → Nat
  | number _ => 0
  | identifier _ => 0
  | arithmetic _ left right => max left.height right.height + 1
  | relation _ left right => max left.height right.height
  | negate operand => operand.height + 1
  | odd operand => operand.height

end Expression

namespace Statement

def usedNames : Statement → List String
  | ifThen condition body => condition.names ++ body.usedNames
  | whileDo condition body => condition.names ++ body.usedNames
  | assign name value => name :: value.names
  | pair first second => first.usedNames ++ second.usedNames
  | call _ => []
  | read name => [name]
  | print value => value.names
  | pass => []

def lexemes : Statement → List String
  | ifThen condition body => "IF" :: (condition.lexemes ++ "THEN" :: body.lexemes)
  | whileDo condition body => "WHILE" :: (condition.lexemes ++ "DO" :: body.lexemes)
  | assign name value => name :: "=" :: value.lexemes
  | pair first second => "BEGIN" :: (first.lexemes ++ ";" :: (second.lexemes ++ ["END"]))
  | call name => ["CALL", name]
  | read name => ["READ", name]
  | print value => "PRINT" :: value.lexemes
  | pass => ["PASS"]

/-- The nesting height of what is written for a statement. -/
def height : Statement → Nat
  | ifThen condition body => max (condition.height + 1) body.height + 1
  | whileDo condition body => max (condition.height + 1) body.height + 1
  | assign _ value => value.height + 2
  | pair first second => max first.height second.height + 1
  | call _ => 1
  | read _ => 1
  | print value => value.height + 2
  | pass => 1

end Statement

namespace Block

def usedNames : Block → List String
  | procedure _ body rest => body.usedNames ++ rest.usedNames
  | statement final => final.usedNames

def procedureNames : Block → List String
  | procedure name body rest => name :: (body.procedureNames ++ rest.procedureNames)
  | statement _ => []

/-- How a block is written, without a declaration of variables. -/
def lexemes : Block → List String
  | procedure name body rest =>
    "PROCEDURE" :: name :: ";" :: (body.lexemes ++ ";" :: rest.lexemes)
  | statement final => final.lexemes

def height : Block → Nat
  | procedure _ body rest => max (body.height + 1) rest.height
  | statement final => final.height + 1

structure IsRenderable (block : Block) : Prop where
  formed : block.IsFormed
  distinct : block.HasDistinctProcedures
  declared : block.CallsDeclared []
  disjoint : ∀ name ∈ block.usedNames, name ∉ block.procedureNames

end Block

def declarationLexemes : List String → List String
  | [] => []
  | first :: others =>
    "VAR" :: first :: (others.flatMap (fun name => [",", name]) ++ [";"])

/-- The lexemes of the program that a tree is written as, with its variables in some order. -/
def Block.program (block : Block) (order : List String) : List String :=
  declarationLexemes order ++ (block.lexemes ++ ["."])

theorem Expression.height_lt_length (expression : Expression) :
    expression.height < expression.lexemes.length := by
  induction expression <;> simp only [height, lexemes, List.length_cons, List.length_append,
    List.length_nil] <;> omega

theorem Statement.height_le_length (statement : Statement) :
    statement.height ≤ statement.lexemes.length := by
  induction statement with
  | ifThen condition body ih | whileDo condition body ih =>
    have test := condition.height_lt_length
    simp only [height, lexemes, List.length_cons, List.length_append]
    omega
  | assign name value | print value =>
    have computed := value.height_lt_length
    simp only [height, lexemes, List.length_cons]
    omega
  | pair first second ihFirst ihSecond =>
    simp only [height, lexemes, List.length_cons, List.length_append, List.length_nil]
    omega
  | call | read | pass => simp only [height, lexemes, List.length_cons, List.length_nil]; omega

theorem Block.height_le_length (block : Block) : block.height ≤ block.lexemes.length + 1 := by
  induction block with
  | procedure name body rest ihBody ihRest =>
    simp only [height, lexemes, List.length_cons, List.length_append]
    omega
  | statement final =>
    have last := final.height_le_length
    simp only [height, lexemes]
    omega

theorem Expression.names_are_names {expression : Expression}
    (arithmetic : expression.IsArithmetic) : ∀ name ∈ expression.names, IsName name := by
  induction expression with
  | number value => exact fun name member => by cases member
  | identifier name =>
    intro other member
    rw [List.mem_singleton.mp member]
    exact arithmetic
  | arithmetic operator left right ihLeft ihRight =>
    intro name member
    rcases List.mem_append.mp member with inLeft | inRight
    · exact ihLeft arithmetic.1 name inLeft
    · exact ihRight arithmetic.2 name inRight
  | negate operand ih => exact ih arithmetic
  | relation | odd => exact arithmetic.elim

theorem Expression.names_of_test {condition : Expression} (test : condition.IsTest) :
    ∀ name ∈ condition.names, IsName name := by
  cases condition with
  | relation comparison left right =>
    intro name member
    rcases List.mem_append.mp member with inLeft | inRight
    · exact names_are_names test.1 name inLeft
    · exact names_are_names test.2 name inRight
  | odd operand => exact @names_are_names operand test
  | number | identifier | arithmetic | negate => exact test.elim

theorem Statement.usedNames_are_names {statement : Statement} (formed : statement.IsFormed) :
    ∀ name ∈ statement.usedNames, IsName name := by
  induction statement with
  | ifThen condition body ih | whileDo condition body ih =>
    intro name member
    rcases List.mem_append.mp member with inTest | inBody
    · exact Expression.names_of_test formed.1 name inTest
    · exact ih formed.2 name inBody
  | assign name value =>
    intro other member
    rcases List.mem_cons.mp member with rfl | inValue
    · exact formed.1
    · exact Expression.names_are_names formed.2 other inValue
  | pair first second ihFirst ihSecond =>
    intro name member
    rcases List.mem_append.mp member with inFirst | inSecond
    · exact ihFirst formed.1 name inFirst
    · exact ihSecond formed.2 name inSecond
  | read name =>
    intro other member
    rw [List.mem_singleton.mp member]
    exact formed
  | print value => exact Expression.names_are_names formed
  | call | pass => exact fun name member => by cases member

theorem Block.usedNames_are_names {block : Block} (formed : block.IsFormed) :
    ∀ name ∈ block.usedNames, IsName name := by
  induction block with
  | statement final => exact Statement.usedNames_are_names formed
  | procedure name body rest ihBody ihRest =>
    intro other member
    rcases List.mem_append.mp member with inBody | inRest
    · exact ihBody formed.2.1 other inBody
    · exact ihRest formed.2.2 other inRest

end PlZero
