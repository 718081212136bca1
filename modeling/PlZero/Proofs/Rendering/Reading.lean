import PlZero.Proofs.Rendering.Derivation
import PlZero.Proofs.Spelling

/-!
# Written trees are scanned

Each lexeme that is written for a tree is a whole one and is read as the token of the
mark that stands in its place.
-/

namespace PlZero

set_option autoImplicit false

theorem reading?_operator (operator : ArithmeticOperator) :
    reading? (String.singleton operator.char) = some (.symbol operator.char) := by
  cases operator <;> rfl

theorem reading?_comparison (comparison : Comparison) :
    reading? comparison.text = some comparison.token := by
  cases comparison <;> rfl

theorem reading?_name {name : String} (isName : IsName name) :
    reading? name = some (.identifier name) := by
  obtain ⟨first, tail, spelled, letter, others, unreserved⟩ := isName
  rw [reading?_word ⟨first, tail, spelled, letter, others⟩, Token.ofWord, unreserved]

def Reads (lexemes : List String) (marks : List Mark) : Prop :=
  lexemes.map reading? = (tokensOf marks).map fun located => some located.token

theorem reads_nil : Reads [] [] := rfl

theorem reads_append {first second : List String} {early late : List Mark} (one : Reads first early)
    (other : Reads second late) : Reads (first ++ second) (early ++ late) := by
  rw [Reads, tokensOf_append, List.map_append, List.map_append, one, other]

theorem reads_cons {lexeme : String} {lexemes : List String} {mark : Mark} {marks : List Mark}
    {located : LocatedToken} (single : mark.tokens = [located])
    (read : reading? lexeme = some located.token) (rest : Reads lexemes marks) :
    Reads (lexeme :: lexemes) (mark :: marks) := by
  rw [Reads, tokensOf_cons, single, List.map_cons, read, rest]
  rfl

theorem reads_bordered {lexemes : List String} {marks : List Mark} (inside : Reads lexemes marks) :
    Reads lexemes (.enter :: (marks ++ [.leave])) := by
  rw [Reads, tokensOf_bordered]
  exact inside

theorem reads_symbol {lexeme : String} {char : Char} (read : reading? lexeme = some (.symbol char))
    {lexemes : List String} {marks : List Mark} (rest : Reads lexemes marks) :
    Reads (lexeme :: lexemes) (.symbol char 0 :: marks) := reads_cons rfl read rest

theorem reads_keyword (keyword : Keyword) {lexemes : List String} {marks : List Mark}
    (rest : Reads lexemes marks) :
    Reads (keyword.spelling :: lexemes) (.keyword keyword keyword.spelling 0 :: marks) := by
  refine reads_cons rfl ?_ rest
  cases keyword <;> rfl

theorem Expression.reads_marks {expression : Expression} (arithmetic : expression.IsArithmetic) :
    Reads expression.lexemes expression.marks := by
  have closing : Reads [")"] [.symbol ')' 0] := reads_symbol rfl reads_nil
  induction expression with
  | number value => exact reads_cons rfl (reading?_number arithmetic.1 arithmetic.2) reads_nil
  | identifier name => exact reads_cons rfl (reading?_name arithmetic) reads_nil
  | arithmetic operator left right ihLeft ihRight =>
    have operation := reads_symbol (reading?_operator operator)
      (reads_append (ihRight arithmetic.2) closing)
    exact reads_symbol rfl (reads_append (ihLeft arithmetic.1) operation)
  | negate operand ih =>
    have signed : Reads ("-" :: (operand.lexemes ++ [")"]))
        (.symbol '-' 0 :: (operand.marks ++ [.symbol ')' 0])) :=
      reads_symbol rfl (reads_append (ih arithmetic) closing)
    exact reads_symbol rfl signed
  | relation | odd => exact arithmetic.elim

theorem Expression.reads_test {condition : Expression} (test : condition.IsTest) :
    Reads condition.lexemes condition.marks := by
  cases condition with
  | relation comparison left right =>
    exact reads_append (reads_marks test.1)
      (reads_cons rfl (reading?_comparison comparison) (reads_marks test.2))
  | odd operand => exact reads_keyword .oddKw (reads_marks test)
  | number | identifier | arithmetic | negate => exact test.elim

theorem Statement.reads_marks {statement : Statement} (formed : statement.IsFormed) :
    Reads statement.lexemes statement.marks := by
  induction statement with
  | ifThen condition body ih =>
    exact reads_keyword .ifKw (reads_append (Expression.reads_test formed.1)
      (reads_keyword .thenKw (ih formed.2)))
  | whileDo condition body ih =>
    exact reads_keyword .whileKw (reads_append (Expression.reads_test formed.1)
      (reads_keyword .doKw (ih formed.2)))
  | assign name value =>
    exact reads_cons rfl (reading?_name formed.1)
      (reads_symbol rfl (Expression.reads_marks formed.2))
  | pair first second ihFirst ihSecond =>
    have ending := reads_append (ihSecond formed.2) (reads_keyword .endKw reads_nil)
    have others : Reads (";" :: (second.lexemes ++ ["END"]))
        (.symbol ';' 0 :: (second.marks ++ [.keyword .endKw "END" 0])) := reads_symbol rfl ending
    exact reads_keyword .beginKw (reads_append (ihFirst formed.1) others)
  | call name =>
    exact reads_keyword .callKw (reads_cons rfl (reading?_name formed) reads_nil)
  | read name =>
    exact reads_keyword .readKw (reads_cons rfl (reading?_name formed) reads_nil)
  | print value => exact reads_keyword .printKw (Expression.reads_marks formed)
  | pass => exact reads_keyword .passKw reads_nil

theorem Block.reads_marks {block : Block} (formed : block.IsFormed) :
    Reads block.lexemes block.marks := by
  induction block with
  | statement final => exact Statement.reads_marks formed
  | procedure name body rest ihBody ihRest =>
    have closing : Reads (";" :: rest.lexemes) (.symbol ';' 0 :: rest.marks) :=
      reads_symbol rfl (ihRest formed.2.2)
    have inside := reads_append (reads_bordered (ihBody formed.2.1)) closing
    have named : Reads (name :: ";" :: (body.lexemes ++ ";" :: rest.lexemes))
        (.declare .procedure name 0 :: .symbol ';' 0 ::
          (.enter :: (body.marks ++ [.leave]) ++ .symbol ';' 0 :: rest.marks)) :=
      reads_cons rfl (reading?_name formed.1) (reads_symbol rfl inside)
    have together : (Block.procedure name body rest).marks =
        .keyword .procedureKw "PROCEDURE" 0 :: .declare .procedure name 0 :: .symbol ';' 0 ::
          (.enter :: (body.marks ++ [.leave]) ++ .symbol ';' 0 :: rest.marks) := by
      simp [marks]
    rw [together]
    exact reads_keyword .procedureKw named

theorem reads_declaration {names : List String} (areNames : ∀ name ∈ names, IsName name) :
    Reads (declarationLexemes names) (declarationMarks names) := by
  cases names with
  | nil => exact reads_nil
  | cons first others =>
    obtain ⟨isName, areOthers⟩ := List.forall_mem_cons.mp areNames
    have further : Reads (others.flatMap fun name => [",", name])
        (others.flatMap fun name => [.symbol ',' 0, .declare .var name 0]) := by
      clear areNames
      induction others with
      | nil => exact reads_nil
      | cons name others ih =>
        obtain ⟨isOther, areRest⟩ := List.forall_mem_cons.mp areOthers
        have one : Reads [",", name] [.symbol ',' 0, .declare .var name 0] :=
          reads_symbol rfl (reads_cons rfl (reading?_name isOther) reads_nil)
        exact reads_append one (ih areRest)
    have closing : Reads [";"] [.symbol ';' 0] := reads_symbol rfl reads_nil
    have list := reads_append further closing
    exact reads_keyword .varKw (reads_cons rfl (reading?_name isName) list)

end PlZero
