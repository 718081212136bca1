import PlZero.Parser.Steps
import PlZero.Program

/-!
# Relations that a descent keeps

A relation between parsers that holds between each basic step and itself, and
that sequencing, levels, scopes and loops keep, holds between two descents as
soon as it holds between the parsers they use inside. Every comparison of two
runs, and every property of one run, that looks at the basic steps only is an
instance: its own work is the steps, and the productions come from here.

A step is not taken just anywhere. A token is taken only where one is at hand, a
name is looked up only while it stands at the head, and it is declared only when it
has just been taken. So the relation may depend on the head, and the steps are
asked for as they occur. A relation that does not need this is given by its steps
alone. Only a block tells something as it goes, so a relation about statements need not
say what telling does.
-/

namespace PlZero

set_option autoImplicit false

/-- The rules that a block can break at the head of the stream. The others are broken
by a name that was taken already, at the end of a program, or never. -/
def Violation.arisesAtHead : Violation → Bool
  | missingPeriod => false
  | missingDeclaredName => false
  | missingBlockSeparator => false
  | malformedStatement => false
  | doubleDeclaration => false
  | _ => true

/-- Whether a block can break a rule where this token stands. That no name is given to be called or
read is found only where no name stands. -/
def Violation.arisesAt (head? : Option Token) : Violation → Bool
  | undeclared => (head?.bind Token.identifier?).isNone
  | other => other.arisesAtHead

theorem Violation.arisesAtHead_of_arisesAt {broken : Violation} {head? : Option Token}
    (arises : broken.arisesAt head? = true) : broken.arisesAtHead = true := by
  cases broken with
  | undeclared => rfl
  | _ => exact arises

namespace Parser

variable {α β σ : Type}

/-- An item of a loop. The head decides whether it is there, and is then taken
before the rest of it. -/
def begun (select : Token → Option σ) (body : σ → Parser α) : Parser (Option α) := do
  match (← peek?).bind select with
  | some choice =>
    advance
    return some (← body choice)
  | none => return none

def operatorOf? (additive : Bool) : Token → Option ArithmeticOperator
  | .symbol char => (ArithmeticOperator.ofChar? char).filter fun operator =>
      operator.isAdditive == additive
  | _ => none

def chosen (test : Token → Bool) (token : Token) : Option Unit :=
  if test token then some () else none

theorem test_of_chosen {test : Token → Bool} {token : Token} {choice : Unit}
    (selected : chosen test token = some choice) : test token = true := by
  unfold chosen at selected
  split at selected
  · assumption
  · cases selected

def procedureBody (inner : Parser Block) : Parser (String × Block) := do
  let (name, line) ← expectName .missingName
  declare name .procedure line
  expectSymbol ';' .missingDeclarationSeparator
  tell (.procedureDeclared name line)
  let body ← inner
  expectSymbol ';' .missingDeclarationSeparator
  return (name, body)

theorem discard_eq_bind (production : Parser α) :
    discard production = production >>= fun _ => pure () := rfl

theorem after_eq_begun (char : Char) (item : Parser α) :
    after char item = begun (chosen fun token => token.isSymbol char) fun _ => item := by
  simp only [after, begun, atSymbol, bind_assoc, pure_bind]
  congr
  funext head?
  cases head? with
  | none => rfl
  | some head =>
    cases named : head.isSymbol char <;> simp [chosen, named]

theorem operation_eq_begun (additive : Bool) (operand : Parser Expression) :
    operation? additive operand =
      begun (operatorOf? additive) fun operator => do return (operator, ← operand) := by
  simp only [operation?, operator?, begun, bind_assoc]
  congr
  funext head?
  cases head? with
  | none => rfl
  | some head =>
    cases head with
    | number value => rfl
    | word text id => rfl
    | symbol char =>
      simp only [Option.bind_some, operatorOf?, pure_bind]
      cases (ArithmeticOperator.ofChar? char).filter fun operator =>
        operator.isAdditive == additive <;> rfl

theorem procedure_eq_begun (inner : Parser Block) :
    procedure? inner =
      begun (chosen fun token => token.isKeyword Keyword.procedureKw.id)
        fun _ => procedureBody inner := by
  simp only [procedure?, begun, atKeyword, procedureBody, bind_assoc, pure_bind]
  congr
  funext head?
  cases head? with
  | none => rfl
  | some head =>
    cases named : head.isKeyword Keyword.procedureKw.id <;> simp [chosen, named]

def declareName (kind : SymbolKind) : Parser (String × Nat) := do
  let (name, line) ← expectName .missingName
  declare name kind line
  return (name, line)

theorem variable_eq_declareName : variableName = declareName .var >>= fun _ => pure () := by
  simp [variableName, declareName]

theorem constant_eq_declareName :
    constantDefinition = (declareName .const >>= fun _ => do
      expectSymbol '=' .missingAssign
      if (← peek?).any fun token => token.number?.isSome then
        advance
      else
        fail .constantNotNumber) := by
  simp [constantDefinition, declareName]

theorem procedure_eq_declareName (inner : Parser Block) :
    procedureBody inner = (declareName .procedure >>= fun declared => do
      expectSymbol ';' .missingDeclarationSeparator
      tell (.procedureDeclared declared.1 declared.2)
      let body ← inner
      expectSymbol ';' .missingDeclarationSeparator
      return (declared.1, body)) := by
  simp [procedureBody, declareName]

theorem head_of_identifier {head? : Option Token} {name : String}
    (named : head?.bind Token.identifier? = some name) : head? = some (.identifier name) := by
  obtain ⟨token, rfl, own⟩ := Option.bind_eq_some_iff.mp named
  rw [Token.identifier?_eq_some_iff.mp own]

/-- A relation between parsers, given the head, that every step that tells nothing has to itself
where it is taken, and that is kept by whatever builds a production out of steps. -/
structure QuietCongruence (related : Option Token → ∀ {α : Type}, Parser α → Parser α → Prop) :
    Prop where
  pure {α : Type} (value : α) (head? : Option Token) :
    related head? (pure value : Parser α) (pure value)
  bind {α β : Type} {first first' : Parser α} {next next' : α → Parser β} {head? : Option Token} :
    related head? first first' → (∀ value head?, related head? (next value) (next' value)) →
      related head? (first >>= next) (first' >>= next')
  peek {α : Type} {next next' : Option Token → Parser α} :
    (∀ head?, related head? (next head?) (next' head?)) →
      ∀ head?, related head? (peek? >>= next) (peek? >>= next')
  advance (token : Token) : related (some token) advance advance
  fail {α : Type} {broken : Violation} {head? : Option Token}
    (arises : broken.arisesAt head? = true) :
    related head? (fail broken : Parser α) (fail broken)
  declare (kind : SymbolKind) (head? : Option Token) :
    related head? (declareName kind) (declareName kind)
  integer (name : String) :
    related (some (.identifier name)) (do resolveInteger name; Parser.advance)
      (do resolveInteger name; Parser.advance)
  procedure (name : String) :
    related (some (.identifier name)) (do resolveProcedure name; Parser.advance)
      (do resolveProcedure name; Parser.advance)
  many {σ α : Type} (select : Token → Option σ) {body body' : σ → Parser α} :
    (∀ choice head?, related head? (body choice) (body' choice)) →
      ∀ head?, related head? (many (begun select body)) (many (begun select body'))

namespace QuietCongruence

variable {related : Option Token → ∀ {α : Type}, Parser α → Parser α → Prop}
variable (keeps : QuietCongruence related)
include keeps

theorem taking {next next' : Parser α} (token : Token)
    (inside : ∀ head?, related head? next next') :
    related (some token) (Parser.advance >>= fun _ => next) (Parser.advance >>= fun _ => next') :=
  keeps.bind (keeps.advance token) fun _ => inside

theorem after_check {check : Parser Unit} {next next' : Parser α} {head? : Option Token}
    (checked : related head? (do check; Parser.advance) (do check; Parser.advance))
    (inside : ∀ head?, related head? next next') :
    related head? (do check; Parser.advance; next) (do check; Parser.advance; next') := by
  have both := keeps.bind checked fun _ => inside
  rwa [bind_assoc, bind_assoc] at both

theorem at_symbol {char : Char} {next next' : Bool → Parser α}
    (found : related (some (.symbol char)) (next true) (next' true))
    (other : ∀ head?, related head? (next false) (next' false)) (head? : Option Token) :
    related head? (atSymbol char >>= next) (atSymbol char >>= next') := by
  simp only [atSymbol, bind_assoc, pure_bind]
  refine keeps.peek (fun head? => ?_) head?
  cases tested : head?.any fun token => token.isSymbol char with
  | false => exact other head?
  | true =>
    obtain ⟨token, rfl, isChar⟩ := (Option.any_eq_true _ _).mp tested
    rw [Token.isSymbol_iff.mp isChar]
    exact found

theorem at_keyword {keyword : Keyword} {next next' : Bool → Parser α}
    (found : ∀ text, related (some (.word text keyword.id)) (next true) (next' true))
    (other : ∀ head?, related head? (next false) (next' false)) (head? : Option Token) :
    related head? (atKeyword keyword >>= next) (atKeyword keyword >>= next') := by
  simp only [atKeyword, bind_assoc, pure_bind]
  refine keeps.peek (fun head? => ?_) head?
  cases tested : head?.any fun token => token.isKeyword keyword.id with
  | false => exact other head?
  | true =>
    obtain ⟨token, rfl, isWord⟩ := (Option.any_eq_true _ _).mp tested
    obtain ⟨text, rfl⟩ := Token.isKeyword_iff.mp isWord
    exact found text

theorem expect_keyword (keyword : Keyword) {broken : Violation}
    (arises : ∀ {head?}, broken.arisesAt head? = true) (head? : Option Token) :
    related head? (expectKeyword keyword broken) (expectKeyword keyword broken) :=
  keeps.at_keyword (fun _ => keeps.advance _) (fun _ => keeps.fail arises) head?

theorem expect_symbol (char : Char) {broken : Violation}
    (arises : ∀ {head?}, broken.arisesAt head? = true) (head? : Option Token) :
    related head? (expectSymbol char broken) (expectSymbol char broken) :=
  keeps.at_symbol (keeps.advance _) (fun _ => keeps.fail arises) head?

section Expressions

variable {inner inner' : Parser Expression} (inside : ∀ head?, related head? inner inner')
include inside

theorem factor (head? : Option Token) : related head? (factor inner) (Parser.factor inner') := by
  refine keeps.peek (fun head? => ?_) head?
  split
  · exact keeps.taking _ (keeps.pure _)
  · exact keeps.taking _ fun _ => keeps.bind (inside _) fun _ _ =>
      keeps.bind (keeps.expect_symbol _ rfl _) fun _ => keeps.pure _
  · cases named : head?.bind Token.identifier? with
    | none => exact keeps.fail rfl
    | some name =>
      obtain rfl := head_of_identifier named
      exact keeps.after_check (keeps.integer name) (keeps.pure _)

theorem operations (additive : Bool) (head? : Option Token) :
    related head? (Parser.many (operation? additive inner))
      (Parser.many (operation? additive inner')) := by
  rw [operation_eq_begun, operation_eq_begun]
  exact keeps.many _ (fun _ _ => keeps.bind (inside _) fun _ => keeps.pure _) head?

theorem term (head? : Option Token) : related head? (term inner) (Parser.term inner') :=
  keeps.bind (keeps.factor inside _) fun _ _ =>
    keeps.bind (keeps.operations (keeps.factor inside) false _) fun _ => keeps.pure _

omit inside in
theorem sign (head? : Option Token) : related head? sign Parser.sign := by
  refine keeps.at_symbol ?_ (fun _ => ?_) head?
  · exact keeps.taking _ (keeps.pure true)
  · exact keeps.pure _ _

theorem expression_body (head? : Option Token) :
    related head? (expressionBody inner) (expressionBody inner') :=
  keeps.bind (keeps.sign _) fun _ _ => keeps.bind (keeps.term inside _) fun _ _ =>
    keeps.bind (keeps.operations (keeps.term inside) true _) fun _ => keeps.pure _

theorem condition (head? : Option Token) :
    related head? (condition inner) (Parser.condition inner') := by
  refine keeps.at_keyword (fun _ => ?_) (fun head? => ?_) head?
  · exact keeps.taking _ fun _ => keeps.bind (inside _) fun _ => keeps.pure _
  · refine keeps.bind (inside _) fun left => keeps.peek fun head? => ?_
    cases head? with
    | none => exact keeps.fail rfl
    | some token =>
      rw [Option.bind_some]
      cases Comparison.ofToken? token with
      | none => exact keeps.fail rfl
      | some comparison =>
        exact keeps.taking _ fun _ => keeps.bind (inside _) fun _ => keeps.pure _

theorem assignment (name : String) :
    related (some (.identifier name)) (assignment name inner) (Parser.assignment name inner') :=
  keeps.after_check (keeps.integer name) fun _ =>
    keeps.bind (keeps.expect_symbol _ rfl _) fun _ _ => keeps.bind (inside _) fun _ => keeps.pure _

end Expressions

theorem target {check : String → Parser Unit}
    (checks : ∀ name, related (some (.identifier name)) (do check name; Parser.advance)
      (do check name; Parser.advance)) (head? : Option Token) :
    related head? (target check) (Parser.target check) := by
  refine keeps.peek (fun head? => ?_) head?
  cases named : head?.bind Token.identifier? with
  | none => exact keeps.fail (by rw [Violation.arisesAt, named, Option.isNone_none])
  | some name =>
    obtain rfl := head_of_identifier named
    exact keeps.after_check (checks name) (keeps.pure _)

theorem many_after (char : Char) {α : Type} {item item' : Parser α}
    (each : ∀ head?, related head? item item') (head? : Option Token) :
    related head? (Parser.many (after char item)) (Parser.many (after char item')) := by
  rw [after_eq_begun, after_eq_begun]
  exact keeps.many _ (fun _ => each) head?

section Statements

variable {member member' : Parser Statement} {value value' : Parser Expression}
variable (members : ∀ head?, related head? member member')
variable (values : ∀ head?, related head? value value')
include members

theorem group (head? : Option Token) : related head? (group member) (Parser.group member') :=
  keeps.bind (members _) fun _ _ => keeps.bind (keeps.many_after ';' members _) fun _ _ =>
    keeps.bind (keeps.expect_keyword _ rfl _) fun _ => keeps.pure _

include values

theorem keyword_statement (token : Token) (keyword : Keyword) :
    related (some token) (keywordStatement keyword member value)
      (keywordStatement keyword member' value') := by
  cases keyword
  case callKw =>
    exact keeps.taking _ fun _ => keeps.bind (keeps.target keeps.procedure _) fun _ => keeps.pure _
  case readKw =>
    exact keeps.taking _ fun _ => keeps.bind (keeps.target keeps.integer _) fun _ => keeps.pure _
  case printKw =>
    exact keeps.taking _ fun _ => keeps.bind (values _) fun _ => keeps.pure _
  case beginKw => exact keeps.taking _ (keeps.group members)
  case ifKw | whileKw =>
    exact keeps.taking _ fun _ => keeps.bind (keeps.condition values _) fun _ _ =>
      keeps.bind (keeps.expect_keyword _ rfl _) fun _ _ =>
        keeps.bind (members _) fun _ => keeps.pure _
  case passKw => exact keeps.taking _ (keeps.pure _)
  all_goals exact keeps.pure _ _

theorem statement_body (head? : Option Token) :
    related head? (statementBody member value) (statementBody member' value') := by
  refine keeps.peek (fun head? => ?_) head?
  cases named : head?.bind Token.identifier? with
  | some name =>
    obtain rfl := head_of_identifier named
    exact keeps.assignment values name
  | none =>
    cases head? with
    | none => exact keeps.pure _ _
    | some token =>
      rw [Option.bind_some]
      cases token.keyword? with
      | none => exact keeps.pure _ _
      | some keyword => exact keeps.keyword_statement members values token keyword

end Statements

theorem variable_name (head? : Option Token) : related head? variableName variableName := by
  rw [variable_eq_declareName]
  exact keeps.bind (keeps.declare _ _) fun _ => keeps.pure _

theorem constant_definition (head? : Option Token) :
    related head? constantDefinition constantDefinition := by
  rw [constant_eq_declareName]
  refine keeps.bind (keeps.declare _ _) fun _ _ => keeps.bind (keeps.expect_symbol _ rfl _)
    fun _ => keeps.peek fun head? => ?_
  cases head? with
  | none => exact keeps.fail rfl
  | some token =>
    rw [Option.any_some]
    split
    · exact keeps.advance token
    · exact keeps.fail rfl

theorem declaration_part (keyword : Keyword) {item : Parser Unit}
    (each : ∀ head?, related head? item item) (head? : Option Token) :
    related head? (declarationPart keyword item) (declarationPart keyword item) := by
  rw [declarationPart_eq_advance]
  refine keeps.at_keyword (fun _ => ?_) (fun _ => ?_) head?
  · refine keeps.taking _ fun _ => keeps.bind (each _) fun _ _ => ?_
    rw [discard_eq_bind]
    exact keeps.bind (keeps.bind (keeps.many_after ',' each _) fun _ => keeps.pure _) fun _ =>
      keeps.expect_symbol _ rfl
  · exact keeps.pure _ _

end QuietCongruence

/-- A relation that every step has to itself, the one that tells of a procedure included. -/
structure Congruence (related : Option Token → ∀ {α : Type}, Parser α → Parser α → Prop) : Prop
    extends QuietCongruence related where
  tell (name : String) (line : Nat) (head? : Option Token) :
    related head? (tell (.procedureDeclared name line)) (tell (.procedureDeclared name line))

namespace Congruence

variable {related : Option Token → ∀ {α : Type}, Parser α → Parser α → Prop}
variable (keeps : Congruence related)
include keeps

section Blocks

variable {inner inner' : Parser Block} {statement statement' : Parser Statement}
variable (blocks : ∀ head?, related head? inner inner')
variable (statements : ∀ head?, related head? statement statement')
include blocks

theorem procedure_body (head? : Option Token) :
    related head? (procedureBody inner) (procedureBody inner') := by
  rw [procedure_eq_declareName, procedure_eq_declareName]
  exact keeps.bind (keeps.declare _ _) fun _ _ => keeps.bind (keeps.expect_symbol _ rfl _)
    fun _ _ => keeps.bind (keeps.tell _ _ _) fun _ _ => keeps.bind (blocks _) fun _ _ =>
      keeps.bind (keeps.expect_symbol _ rfl _) fun _ => keeps.pure _

theorem procedures (head? : Option Token) :
    related head? (Parser.many (procedure? inner)) (Parser.many (procedure? inner')) := by
  rw [procedure_eq_begun, procedure_eq_begun]
  exact keeps.many _ (fun _ => keeps.procedure_body blocks) head?

include statements

theorem block_body (head? : Option Token) :
    related head? (blockBody inner statement) (blockBody inner' statement') :=
  keeps.bind (keeps.declaration_part _ keeps.variable_name _) fun _ _ =>
    keeps.bind (keeps.declaration_part _ keeps.constant_definition _) fun _ _ =>
    keeps.bind (keeps.procedures blocks _) fun _ _ =>
    keeps.bind (statements _) fun _ => keeps.pure _

end Blocks

end Congruence

/-- A family of relations, one for each number of levels that may still be opened, that every step
of a statement has to itself. -/
structure QuietDescent (related : Nat → Option Token → ∀ {α : Type}, Parser α → Parser α → Prop) :
    Prop where
  inside (levels : Nat) : QuietCongruence (related levels)
  deep {α : Type} (head? : Option Token) : related 0 head? (tooDeep : Parser α) tooDeep
  nested {α : Type} {levels : Nat} {production production' : Parser α} :
    (∀ head?, related levels head? production production') →
      ∀ head?, related (levels + 1) head? (nested production) (nested production')

namespace QuietDescent

variable {related : Nat → Option Token → ∀ {α : Type}, Parser α → Parser α → Prop}
variable (keeps : QuietDescent related)
include keeps

theorem expression : ∀ levels head?,
    related levels head? (expression levels) (Parser.expression levels)
  | 0 => keeps.deep
  | levels + 1 => keeps.nested ((keeps.inside levels).expression_body (expression levels))

theorem statement : ∀ levels head?,
    related levels head? (statement levels) (Parser.statement levels)
  | 0 => keeps.deep
  | levels + 1 =>
    keeps.nested ((keeps.inside levels).statement_body (statement levels)
      (keeps.expression levels))

end QuietDescent

structure Descent (related : Nat → Option Token → ∀ {α : Type}, Parser α → Parser α → Prop) :
    Prop where
  inside (levels : Nat) : Congruence (related levels)
  deep {α : Type} (head? : Option Token) : related 0 head? (tooDeep : Parser α) tooDeep
  nested {α : Type} {levels : Nat} {production production' : Parser α} :
    (∀ head?, related levels head? production production') →
      ∀ head?, related (levels + 1) head? (nested production) (nested production')
  inScope {α : Type} {levels : Nat} {production production' : Parser α} :
    (∀ head?, related levels head? production production') →
      ∀ head?, related levels head? (inScope production) (inScope production')

namespace Descent

variable {related : Nat → Option Token → ∀ {α : Type}, Parser α → Parser α → Prop}
variable (keeps : Descent related)
include keeps

theorem quiet : QuietDescent related where
  inside levels := (keeps.inside levels).toQuietCongruence
  deep := keeps.deep
  nested := keeps.nested

theorem expression (levels : Nat) (head? : Option Token) :
    related levels head? (expression levels) (Parser.expression levels) :=
  keeps.quiet.expression levels head?

theorem statement (levels : Nat) (head? : Option Token) :
    related levels head? (statement levels) (Parser.statement levels) :=
  keeps.quiet.statement levels head?

theorem block : ∀ levels head?, related levels head? (block levels) (Parser.block levels)
  | 0 => keeps.deep
  | levels + 1 =>
    keeps.nested <| keeps.inScope <|
      (keeps.inside levels).block_body (block levels) (keeps.statement levels)

end Descent

/-- A relation that every step has to itself wherever it is taken. -/
structure Steps (related : ∀ {α : Type}, Parser α → Parser α → Prop) : Prop where
  pure {α : Type} (value : α) : related (pure value : Parser α) (pure value)
  bind {α β : Type} {first first' : Parser α} {next next' : α → Parser β} :
    related first first' → (∀ value, related (next value) (next' value)) →
      related (first >>= next) (first' >>= next')
  peek : related peek? peek?
  line : related line line
  advance : related advance advance
  fail {α : Type} (broken : Violation) : related (fail broken : Parser α) (fail broken)
  tell (name : String) (line : Nat) :
    related (tell (.procedureDeclared name line)) (tell (.procedureDeclared name line))
  declare (name : String) (kind : SymbolKind) (line : Nat) :
    related (declare name kind line) (declare name kind line)
  resolve (name : String) : related (resolve name) (resolve name)
  nested {α : Type} {production production' : Parser α} :
    related production production' → related (nested production) (nested production')
  inScope {α : Type} {production production' : Parser α} :
    related production production' → related (inScope production) (inScope production')
  many {σ α : Type} (select : Token → Option σ) {body body' : σ → Parser α} :
    (∀ choice, related (body choice) (body' choice)) →
      related (many (begun select body)) (many (begun select body'))

namespace Steps

variable {related : ∀ {α : Type}, Parser α → Parser α → Prop} (keeps : Steps related)
include keeps

theorem expect_name (broken : Violation) :
    related (expectName broken) (expectName broken) := by
  refine keeps.bind keeps.line fun line => keeps.bind keeps.peek fun head? => ?_
  cases head?.bind Token.identifier? with
  | none => exact keeps.fail broken
  | some name => exact keeps.bind keeps.advance fun _ => keeps.pure _

theorem resolve_integer (name : String) :
    related (resolveInteger name) (resolveInteger name) := by
  apply keeps.bind (keeps.resolve name)
  intro _
  split
  · exact keeps.fail _
  · exact keeps.pure _

theorem resolve_procedure (name : String) :
    related (resolveProcedure name) (resolveProcedure name) := by
  apply keeps.bind (keeps.resolve name)
  intro _
  split
  · exact keeps.fail _
  · exact keeps.pure _

theorem congruence : Congruence fun _ {α} => @related α where
  pure value _ := keeps.pure value
  bind first next := keeps.bind first fun value => next value none
  peek next _ := keeps.bind keeps.peek next
  advance _ := keeps.advance
  fail _ := keeps.fail _
  tell name line _ := keeps.tell name line
  declare _ _ := keeps.bind (keeps.expect_name .missingName) fun _ =>
    keeps.bind (keeps.declare _ _ _) fun _ => keeps.pure _
  integer name := keeps.bind (keeps.resolve_integer name) fun _ => keeps.advance
  procedure name := keeps.bind (keeps.resolve_procedure name) fun _ => keeps.advance
  many select _ _ inside _ := keeps.many select fun choice => inside choice none

theorem quiet : QuietCongruence fun _ {α} => @related α := keeps.congruence.toQuietCongruence

theorem descent (deep : ∀ {α : Type}, related (tooDeep : Parser α) tooDeep) :
    Descent fun _ _ {α} => @related α where
  inside _ := keeps.congruence
  deep _ := deep
  nested inside _ := keeps.nested (inside none)
  inScope inside _ := keeps.inScope (inside none)

end Steps

end Parser

end PlZero
