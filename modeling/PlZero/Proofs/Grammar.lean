import PlZero.Program

/-!
# The grammar

The grammar of PL/0 as a relation between token strings and trees, apart from
any way of parsing:

```text
program    = block "." ;
block      = [ "VAR" identifier { "," identifier } ";" ]
             [ "CONST" identifier "=" number { "," identifier "=" number } ";" ]
             { "PROCEDURE" identifier ";" block ";" } statement ;
statement  = [ identifier "=" expression | "CALL" identifier | "READ" identifier
             | "PRINT" expression | "BEGIN" statement { ";" statement } "END"
             | "IF" condition "THEN" statement | "WHILE" condition "DO" statement | "PASS" ] ;
condition  = "ODD" expression | expression comparison expression ;
expression = [ "-" ] term { ( "+" | "-" ) term } ;
term       = factor { ( "*" | "/" ) factor } ;
factor     = identifier | number | "(" expression ")" ;
```

A derivation is recorded as a string of marks. They are the tokens in order, where
a name says whether it is declared or used there and for what, and the two
borders of each block. No rule about names is part of the grammar. Reserved words
are known by their number, whatever their text.

Blocks, statements and expressions are the productions that count for the nesting
height. Each is given with the height that its derivations may have at most: its
parts have one less, and none is left at zero.
-/

namespace PlZero

set_option autoImplicit false

inductive Usage where
  /-- Assigned to, read or computed with: a variable or a constant. -/
  | integer
  /-- Called: a procedure. -/
  | procedure
  deriving DecidableEq, Repr

/-- A token and its part in a derivation, or a border of a block. -/
inductive Mark where
  | plain (located : LocatedToken)
  | declare (kind : SymbolKind) (name : String) (line : Nat)
  | use (usage : Usage) (name : String) (line : Nat)
  | enter
  | leave
  deriving DecidableEq, Repr

namespace Mark

def tokens : Mark → List LocatedToken
  | plain located => [located]
  | declare _ name line => [⟨.identifier name, line⟩]
  | use _ name line => [⟨.identifier name, line⟩]
  | enter => []
  | leave => []

/-- A reserved word in any spelling. -/
def keyword (keyword : Keyword) (text : String) (line : Nat) : Mark :=
  plain ⟨.word text keyword.id, line⟩

def symbol (char : Char) (line : Nat) : Mark := plain ⟨.symbol char, line⟩

end Mark

def tokensOf (marks : List Mark) : List LocatedToken := marks.flatMap Mark.tokens

@[simp] theorem tokensOf_nil : tokensOf [] = [] := rfl

@[simp] theorem tokensOf_cons (mark : Mark) (marks : List Mark) :
    tokensOf (mark :: marks) = mark.tokens ++ tokensOf marks := rfl

@[simp] theorem tokensOf_append (first second : List Mark) :
    tokensOf (first ++ second) = tokensOf first ++ tokensOf second := by
  simp [tokensOf]

theorem tokensOf_bordered (marks : List Mark) :
    tokensOf (.enter :: (marks ++ [.leave])) = tokensOf marks := by
  simp [Mark.tokens]

/-- The marked strings that a production derives, each with what it stands for. -/
abbrev Grammar (α : Type) := List Mark → α → Prop

def Grammar.Within {α : Type} (first second : Grammar α) : Prop :=
  ∀ marks value, first marks value → second marks value

/-- `{ item }` -/
inductive Repeated {α : Type} (item : Grammar α) : Grammar (List α) where
  | none : Repeated item [] []
  | more {first rest : List Mark} {value : α} {values : List α}
      (one : item first value) (others : Repeated item rest values) :
      Repeated item (first ++ rest) (value :: values)

inductive Led {α : Type} (char : Char) (item : Grammar α) : Grammar α where
  | mk {marks : List Mark} {value : α} (line : Nat) (one : item marks value) :
      Led char item (.symbol char line :: marks) value

section Expressions

/-- `factor`, given the expressions that may stand in brackets. -/
inductive IsFactor (inner : Grammar Expression) : Grammar Expression where
  | name (name : String) (line : Nat) : IsFactor inner [.use .integer name line] (.identifier name)
  | number (value : Int) (line : Nat) :
      IsFactor inner [.plain ⟨.number value, line⟩] (.number value)
  | bracketed {marks : List Mark} {value : Expression} (opening closing : Nat)
      (inside : inner marks value) :
      IsFactor inner (.symbol '(' opening :: (marks ++ [.symbol ')' closing])) value

inductive IsOperation (additive : Bool) (operand : Grammar Expression) :
    Grammar (ArithmeticOperator × Expression) where
  | mk {marks : List Mark} {right : Expression} (operator : ArithmeticOperator) (line : Nat)
      (rank : operator.isAdditive = additive) (one : operand marks right) :
      IsOperation additive operand (.symbol operator.char line :: marks) (operator, right)

inductive IsTerm (inner : Grammar Expression) : Grammar Expression where
  | mk {first others : List Mark} {left : Expression}
      {operations : List (ArithmeticOperator × Expression)} (one : IsFactor inner first left)
      (more : Repeated (IsOperation false (IsFactor inner)) others operations) :
      IsTerm inner (first ++ others) (Parser.applyAll left operations)

/-- `expression`, given the expressions that may stand in brackets. -/
inductive IsExpressionBody (inner : Grammar Expression) : Grammar Expression where
  | plain {first others : List Mark} {left : Expression}
      {operations : List (ArithmeticOperator × Expression)} (one : IsTerm inner first left)
      (more : Repeated (IsOperation true (IsTerm inner)) others operations) :
      IsExpressionBody inner (first ++ others) (Parser.applyAll left operations)
  | signed {first others : List Mark} {left : Expression}
      {operations : List (ArithmeticOperator × Expression)} (line : Nat)
      (one : IsTerm inner first left)
      (more : Repeated (IsOperation true (IsTerm inner)) others operations) :
      IsExpressionBody inner (.symbol '-' line :: (first ++ others))
        (Parser.applyAll (.negate left) operations)

def IsExpression : Nat → Grammar Expression
  | 0 => fun _ _ => False
  | height + 1 => IsExpressionBody (IsExpression height)

inductive IsCondition (operand : Grammar Expression) : Grammar Expression where
  | odd {marks : List Mark} {value : Expression} (text : String) (line : Nat)
      (one : operand marks value) :
      IsCondition operand (.keyword .oddKw text line :: marks) (.odd value)
  | relation {first second : List Mark} {left right : Expression} {located : LocatedToken}
      {comparison : Comparison} (stands : Comparison.ofToken? located.token = some comparison)
      (one : operand first left) (other : operand second right) :
      IsCondition operand (first ++ .plain located :: second) (.relation comparison left right)

end Expressions

inductive IsStatementBody (inner : Grammar Statement) (value : Grammar Expression) :
    Grammar Statement where
  | empty : IsStatementBody inner value [] .pass
  | assign {marks : List Mark} {assigned : Expression} (name : String) (line equals : Nat)
      (one : value marks assigned) :
      IsStatementBody inner value (.use .integer name line :: .symbol '=' equals :: marks)
        (.assign name assigned)
  | call (text : String) (line : Nat) (name : String) (nameLine : Nat) :
      IsStatementBody inner value [.keyword .callKw text line, .use .procedure name nameLine]
        (.call name)
  | read (text : String) (line : Nat) (name : String) (nameLine : Nat) :
      IsStatementBody inner value [.keyword .readKw text line, .use .integer name nameLine]
        (.read name)
  | print {marks : List Mark} {printed : Expression} (text : String) (line : Nat)
      (one : value marks printed) :
      IsStatementBody inner value (.keyword .printKw text line :: marks) (.print printed)
  | group {first others : List Mark} {statement : Statement} {statements : List Statement}
      (text : String) (line : Nat) (endText : String) (endLine : Nat)
      (one : inner first statement) (more : Repeated (Led ';' inner) others statements) :
      IsStatementBody inner value
        (.keyword .beginKw text line :: (first ++ (others ++ [.keyword .endKw endText endLine])))
        (.sequence (statement :: statements))
  | ifThen {guard marks : List Mark} {condition : Expression} {body : Statement}
      (text : String) (line : Nat) (thenText : String) (thenLine : Nat)
      (test : IsCondition value guard condition) (one : inner marks body) :
      IsStatementBody inner value
        (.keyword .ifKw text line :: (guard ++ .keyword .thenKw thenText thenLine :: marks))
        (.ifThen condition body)
  | whileDo {guard marks : List Mark} {condition : Expression} {body : Statement}
      (text : String) (line : Nat) (doText : String) (doLine : Nat)
      (test : IsCondition value guard condition) (one : inner marks body) :
      IsStatementBody inner value
        (.keyword .whileKw text line :: (guard ++ .keyword .doKw doText doLine :: marks))
        (.whileDo condition body)
  | pass (text : String) (line : Nat) :
      IsStatementBody inner value [.keyword .passKw text line] .pass

def IsStatement : Nat → Grammar Statement
  | 0 => fun _ _ => False
  | height + 1 => IsStatementBody (IsStatement height) (IsExpression height)

inductive IsVariable : Grammar Unit where
  | mk (name : String) (line : Nat) : IsVariable [.declare .var name line] ()

inductive IsConstant : Grammar Unit where
  | mk (name : String) (line equals : Nat) (value : Int) (valueLine : Nat) :
      IsConstant [.declare .const name line, .symbol '=' equals, .plain ⟨.number value, valueLine⟩]
        ()

/-- `[ keyword item { "," item } ";" ]` -/
inductive IsDeclarationPart (keyword : Keyword) (item : Grammar Unit) : Grammar Unit where
  | absent : IsDeclarationPart keyword item [] ()
  | present {first others : List Mark} {units : List Unit} (text : String) (line closing : Nat)
      (one : item first ()) (more : Repeated (Led ',' item) others units) :
      IsDeclarationPart keyword item
        (.keyword keyword text line :: (first ++ (others ++ [.symbol ';' closing]))) ()

/-- `"PROCEDURE" identifier ";" block ";"` -/
inductive IsProcedure (inner : Grammar Block) : Grammar (String × Block) where
  | mk {marks : List Mark} {body : Block} (text : String) (line : Nat) (name : String)
      (nameLine opening closing : Nat) (one : inner marks body) :
      IsProcedure inner
        (.keyword .procedureKw text line :: .declare .procedure name nameLine ::
          .symbol ';' opening :: (marks ++ [.symbol ';' closing]))
        (name, body)

inductive IsBlockBody (inner : Grammar Block) (statement : Grammar Statement) :
    Grammar Block where
  | mk {variableMarks constants procedures marks : List Mark} {declared : List (String × Block)}
      {final : Statement} (first : IsDeclarationPart .varKw IsVariable variableMarks ())
      (second : IsDeclarationPart .constKw IsConstant constants ())
      (third : Repeated (IsProcedure inner) procedures declared)
      (last : statement marks final) :
      IsBlockBody inner statement (variableMarks ++ (constants ++ (procedures ++ marks)))
        (.ofProcedures declared final)

inductive Bordered {α : Type} (inside : Grammar α) : Grammar α where
  | mk {marks : List Mark} {value : α} (one : inside marks value) :
      Bordered inside (.enter :: (marks ++ [.leave])) value

/-- A block of at most this nesting height. -/
def IsBlock : Nat → Grammar Block
  | 0 => fun _ _ => False
  | height + 1 => Bordered (IsBlockBody (IsBlock height) (IsStatement height))

end PlZero
