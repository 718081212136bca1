import PlZero.Proofs.Rendering
import PlZero.Proofs.Signs

/-!
# Printed arithmetic that reads back

A program that prints shown arithmetic is scanned to the tokens that were shown. Where signs lead
it is accepted with the tree that the grammar gives them, and where they do not it is accepted
with no printed tree at all. So the arithmetic comes back exactly if its signs are in their
places.
-/

namespace PlZero

set_option autoImplicit false

section Printed

/-- A part of a block that begins with another word has no marks in what begins with `PRINT`. -/
theorem part_before_print {keyword : Keyword} (other : keyword.id ≠ Keyword.printKw.id)
    {item : Grammar Unit} {marks rest : List Mark} {tokens : List Token}
    (part : IsDeclarationPart keyword item marks ())
    (spelled : tokenString (marks ++ rest) = .keyword .printKw :: tokens) : marks = [] := by
  cases part with
  | absent => rfl
  | present text line closing one more =>
    exact (other (Token.word.inj (List.cons.inj spelled).1).2).elim

theorem expression_of_statement {limit : Nat} {marks : List Mark} {printed : Expression}
    {tokens : List Token} (derived : IsStatement limit marks (.print printed))
    (spelled : tokenString marks = .keyword .printKw :: tokens) :
    ∃ height inner, IsExpression height inner printed ∧ tokenString inner = tokens := by
  cases limit with
  | zero => exact derived.elim
  | succ height =>
    generalize shape : Statement.print printed = statement at derived
    cases derived with
    | print text line one =>
      cases shape
      exact ⟨height, _, one, (List.cons.inj spelled).2⟩
    | group text line endText endLine one more =>
      -- a group of one statement is that statement, but it begins with `BEGIN`
      cases (List.cons.inj spelled).1
    | _ => cases shape

/-- A block that prints something and begins with `PRINT` is nothing but this statement. -/
theorem expression_of_block {limit : Nat} {marks : List Mark} {printed : Expression}
    {tokens : List Token} (derived : IsBlock limit marks (.statement (.print printed)))
    (spelled : tokenString marks = .keyword .printKw :: tokens) :
    ∃ height inner, IsExpression height inner printed ∧ tokenString inner = tokens := by
  cases limit with
  | zero => exact derived.elim
  | succ height =>
    generalize shape : Block.statement (.print printed) = block at derived
    obtain ⟨first, second, third, last⟩ := derived
    rw [tokenString, tokensOf_bordered] at spelled
    obtain rfl := part_before_print (by decide) first spelled
    obtain rfl := part_before_print (by decide) second spelled
    cases third with
    | none =>
      cases shape
      exact expression_of_statement last spelled
    | more one others => cases shape

variable {expression : Expression}

def Expression.printTokens (expression : Expression) : List Token :=
  .keyword .printKw :: (expression.shownTokens ++ [.symbol '.'])

theorem scan_printed (arithmetic : expression.IsArithmetic) (line : Nat) :
    ∃ located, (Scan.ofSource line ("PRINT " ++ expression.text ++ ".")).result = .ok located ∧
      located.map LocatedToken.token = expression.printTokens := by
  have period : ScansTo ['.'] [.symbol '.'] := scansTo_symbol (by decide) scansTo_nil
  have shown := expression.scansTo_shown arithmetic (partsWords_cons (by decide) []) period
  have reads : reading? "PRINT" = some (.keyword .printKw) := by decide
  have ends : Lexeme.EndsBefore "PRINT".toList (' ' :: (expression.text.toList ++ ['.'])) :=
    Lexeme.endsBefore_blank _ _ rfl
  have split : ("PRINT " ++ expression.text ++ ".").toList =
      "PRINT".toList ++ ' ' :: (expression.text.toList ++ ['.']) := by
    simp
  obtain ⟨located, last, scanned, spelled⟩ := scansTo_lexeme reads ends (scansTo_blank shown) line
  rw [Scan.ofSource, split, scanned]
  exact ⟨located, rfl, spelled⟩

def Expression.printMarks (expression : Expression) : List Mark :=
  .enter :: (.keyword .printKw "PRINT" 0 :: expression.shownMarks ++ [.leave])

theorem block_of_shown (arithmetic : expression.IsArithmetic)
    (leads : expression.SignsLead) {limit : Nat} (enough : expression.height + 3 ≤ limit) :
    IsBlock limit expression.printMarks (.statement (.print expression.reread)) := by
  obtain ⟨height, rfl, within⟩ := below_of_succ_le enough
  obtain ⟨below, rfl, further⟩ := below_of_succ_le within
  have value := expression_of_shown arithmetic leads further
  have last : IsStatement (below + 1) _ _ := .print "PRINT" 0 value
  exact .mk (.mk .absent .absent .none last)

/-- Over a table in which the names stand for integers, the program uses them in order. -/
theorem printMarks_obey_scoping {table : SymbolTable} (known : ∀ name ∈ expression.names,
      table.lookup? name = some .var ∨ table.lookup? name = some .const) :
    ObeysScoping table.lookup? expression.printMarks := by
  have allowed : ∀ name ∈ expression.names,
      Scopes.Allows table.lookup? [[]] .integer name := by
    intro name member
    have outside : Scopes.lookup? table.lookup? [[]] name = table.lookup? name := rfl
    rw [Scopes.Allows, outside]
    rcases known name member with isVar | isConst
    · rw [isVar]
      rfl
    · rw [isConst]
      rfl
  refine obeysScoping_iff_pass.mpr ⟨[], ?_⟩
  rw [Expression.printMarks, Scopes.pass_bordered, Scopes.pass_keyword,
    expression.pass_shownMarks allowed]
  rfl

/-- Shown arithmetic in which signs lead is accepted as what it is read as. -/
theorem parse_shown (arithmetic : expression.IsArithmetic) (leads : expression.SignsLead)
    {table : SymbolTable} (known : ∀ name ∈ expression.names,
      table.lookup? name = some .var ∨ table.lookup? name = some .const)
    {located : List LocatedToken}
    (spelled : located.map LocatedToken.token = expression.printTokens) {limit : Nat}
    (enough : located.length ≤ limit) :
    Parser.result (Parser.parse limit (Parser.start located table)) =
      .ok ⟨.statement (.print expression.reread), true⟩ := by
  have count : located.length = expression.shownTokens.length + 2 := by
    have same := congrArg List.length spelled
    simpa [Expression.printTokens] using same
  have small := expression.height_lt_shown
  have derived : IsBlock limit _ _ := block_of_shown arithmetic leads (by omega)
  apply parse_on_any_lines table derived (printMarks_obey_scoping known)
  rw [spelled, Expression.printMarks, tokensOf_bordered]
  rfl

theorem tokens_before_period {located : List LocatedToken} {tokens : List Token}
    (spelled : located.map LocatedToken.token = tokens ++ [.symbol '.'])
    (free : Token.symbol '.' ∉ tokens) :
    (beforePeriod located).map LocatedToken.token = tokens := by
  obtain ⟨inside, last, rfl, rfl, period⟩ := List.map_eq_append_iff.mp spelled
  obtain ⟨⟨token, line⟩, rest, rfl, rfl, empty⟩ := List.map_eq_cons_iff.mp period
  have periodFree : PeriodFree inside := by
    intro located member same
    exact free (List.mem_map.mpr ⟨located, member, same⟩)
  rw [beforePeriod_append periodFree]

/-- If shown arithmetic is accepted as something printed, signs lead in it. -/
theorem leads_of_accepted {table : SymbolTable} {located : List LocatedToken}
    (spelled : located.map LocatedToken.token = expression.printTokens) {limit : Nat}
    {printed : Expression}
    (accepted : Parser.result (Parser.parse limit (Parser.start located table)) =
      .ok ⟨.statement (.print printed), true⟩) : expression.SignsLead := by
  obtain ⟨after, outcome⟩ := Parser.ok_of_result accepted
  obtain ⟨marks, line, derived, whole, _⟩ := Parser.derived_of_accepted outcome
  have free : Token.symbol '.' ∉ .keyword .printKw :: expression.shownTokens := by
    have inside := expression.period_not_shown
    simp [inside, Token.keyword]
  have begins : tokenString marks = .keyword .printKw :: expression.shownTokens := by
    rw [← tokens_before_period spelled free, whole,
      beforePeriod_append (block_periodFree limit marks _ derived), tokenString]
  obtain ⟨height, inner, value, shown⟩ := expression_of_block derived begins
  apply Expression.leads_of_shown
  rw [← shown, ← List.append_nil (tokenString inner)]
  intro behind
  obtain ⟨operator, found⟩ := expression_keepsSignsApart height _ _ _ value behind
  cases List.infix_nil.mp found

end Printed

/-- What arithmetic is shown as, printed by a program, is accepted with the arithmetic itself
exactly if its signs are in their places. -/
theorem printed_arithmetic_reads_back_iff (expression : Expression)
    (arithmetic : expression.IsArithmetic) (line : Nat) :
    ∃ located, (Scan.ofSource line ("PRINT " ++ expression.text ++ ".")).result = .ok located ∧
      ∀ table : SymbolTable, (∀ name ∈ expression.names,
          table.lookup? name = some .var ∨ table.lookup? name = some .const) →
        ∀ limit, located.length ≤ limit →
          (Parser.result (Parser.parse limit (Parser.start located table)) =
            .ok ⟨.statement (.print expression), true⟩ ↔ expression.PlacesSigns) := by
  obtain ⟨located, scanned, spelled⟩ := scan_printed arithmetic line
  refine ⟨located, scanned, ?_⟩
  intro table known limit enough
  rw [expression.placesSigns_iff]
  constructor
  · intro accepted
    have leads := leads_of_accepted spelled accepted
    have read := parse_shown arithmetic leads known spelled enough
    simp only [accepted, Except.ok.injEq, Outcome.mk.injEq, Block.statement.injEq,
      Statement.print.injEq, and_true] at read
    exact ⟨leads, read.symm⟩
  · rintro ⟨leads, same⟩
    have read := parse_shown arithmetic leads known spelled enough
    rwa [same] at read

def signedSum : Expression :=
  .arithmetic .multiply (.arithmetic .add (.negate (.identifier "a")) (.number 2))
    (.identifier "b")

def signedProduct : Expression :=
  .arithmetic .multiply (.negate (.identifier "a")) (.identifier "b")

theorem signed_sum_reads_back_but_no_product :
    let table : SymbolTable := ⟨[⟨"b", .const, 2⟩, ⟨"a", .var, 1⟩], []⟩
    signedSum.IsArithmetic ∧ signedProduct.IsArithmetic ∧
      (∃ located, (Scan.ofSource 1 "PRINT ((-a + 2) * b).").result = .ok located ∧
        Parser.result (Parser.parse located.length (Parser.start located table)) =
          .ok ⟨.statement (.print signedSum), true⟩) ∧
      ∃ located, (Scan.ofSource 1 "PRINT (-a * b).").result = .ok located ∧
        Parser.result (Parser.parse located.length (Parser.start located table)) ≠
          .ok ⟨.statement (.print signedProduct), true⟩ := by
  intro table
  have isA : IsName "a" := ⟨'a', [], rfl, rfl, by simp, rfl⟩
  have isB : IsName "b" := ⟨'b', [], rfl, rfl, by simp, rfl⟩
  have isSum : signedSum.IsArithmetic := ⟨⟨isA, by decide, by decide⟩, isB⟩
  have isProduct : signedProduct.IsArithmetic := ⟨isA, isB⟩
  have known : ∀ name ∈ ["a", "b"],
      table.lookup? name = some .var ∨ table.lookup? name = some .const := by decide
  have inSum : (Expression.negate (.identifier "a")).PlacesSigns := ⟨rfl, trivial⟩
  have placed : signedSum.PlacesSigns := ⟨rfl, fun _ => rfl, ⟨rfl, nofun, inSum, trivial⟩, trivial⟩
  obtain ⟨located, scanned, decided⟩ := printed_arithmetic_reads_back_iff signedSum isSum 1
  obtain ⟨others, alsoScanned, alsoDecided⟩ :=
    printed_arithmetic_reads_back_iff signedProduct isProduct 1
  refine ⟨isSum, isProduct, ⟨located, scanned, ?_⟩, others, alsoScanned, ?_⟩
  · exact (decided table known _ (Nat.le_refl _)).mpr placed
  · intro accepted
    have product := (alsoDecided table known _ (Nat.le_refl _)).mp accepted
    cases product.2.1 rfl

end PlZero
