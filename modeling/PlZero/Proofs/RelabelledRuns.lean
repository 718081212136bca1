import PlZero.Proofs.Calls
import PlZero.Proofs.Relabelling

/-!
# A parse takes changed labels as they are

Two runs are followed side by side, one over some tokens and one over the same tokens with
all labels changed. What a production decides by stays the same: the number of a word, a
character, whether two names are equal. So both runs take the same steps and end alike, and
the second one gives what the first one gives with its labels changed.

The productions are followed here for their own sake, since a production of the second run is
given other names than that of the first one, and gives other trees.
-/

namespace PlZero.Parser

set_option autoImplicit false

open Relabelling

variable {α β σ : Type} (change : Relabelling)

/-- Two states of a parser, of which the second one differs in its labels only. -/
structure OnState (state changed : State) : Prop where
  tokens : change.OnTokens state.stream.tokens changed.stream.tokens
  lastLine : changed.stream.lastLine = change.line state.stream.lastLine
  table : change.OnTable state.table changed.table
  depth : changed.depth = state.depth

inductive EndMirrored (onValue : α → α) :
    EStateM.Result Fault State α → EStateM.Result Fault State α → Prop where
  | ok {after changed : State} (value : α) (last : OnState change after changed) :
      EndMirrored onValue (.ok value after) (.ok (onValue value) changed)
  | error {after changed : State} (fault : Fault) (last : OnState change after changed) :
      EndMirrored onValue (.error fault after) (.error (change.onFault fault) changed)

/-- From states that differ in labels only, the second parser ends like the first one, and what it
gives is the changed value. -/
def Mirrors (onValue : α → α) (production mirror : Parser α) : Prop :=
  ∀ state changed, OnState change state changed →
    EndMirrored change onValue (production state) (mirror changed)

variable {change} {onValue : α → α}

section States

variable {state changed : State} (related : OnState change state changed)
include related

theorem OnState.line : changed.stream.line = change.line state.stream.line := by
  have tokens := related.tokens
  unfold TokenStream.line
  generalize state.stream.tokens = own, changed.stream.tokens = other at tokens ⊢
  cases tokens with
  | nil => exact related.lastLine
  | cons head _ => exact head.line

theorem OnState.head : Option.Rel change.OnToken state.stream.peek? changed.stream.peek? := by
  have tokens := related.tokens
  unfold TokenStream.peek?
  generalize state.stream.tokens = own, changed.stream.tokens = other at tokens ⊢
  cases tokens with
  | nil => exact .none
  | cons head _ => exact .some head.token

theorem OnState.atDepth (shift : Nat → Nat) :
    OnState change { state with depth := shift state.depth }
      { changed with depth := shift changed.depth } :=
  ⟨related.tokens, related.lastLine, related.table, congrArg shift related.depth⟩

theorem OnState.withTable {table other : SymbolTable} (tables : change.OnTable table other) :
    OnState change { state with table := table } { changed with table := other } :=
  ⟨related.tokens, related.lastLine, tables, related.depth⟩

theorem OnState.told (own other : List Event) :
    OnState change { state with log := own } { changed with log := other } :=
  ⟨related.tokens, related.lastLine, related.table, related.depth⟩

end States

section Heads

variable {head? changed? : Option Token} (related : Option.Rel change.OnToken head? changed?)
include related

theorem any_head {test : Token → Bool}
    (alike : ∀ token changed, change.OnToken token changed → test changed = test token) :
    changed?.any test = head?.any test := by
  cases related with
  | none => rfl
  | some token => exact alike _ _ token

theorem bind_head {select : Token → Option σ}
    (alike : ∀ token changed, change.OnToken token changed → select changed = select token) :
    changed?.bind select = head?.bind select := by
  cases related with
  | none => rfl
  | some token => exact alike _ _ token

theorem identifier_at_head :
    changed?.bind Token.identifier? = (head?.bind Token.identifier?).map change.name := by
  cases related with
  | none => rfl
  | some token => exact token.identifier?

end Heads

theorem mirrors_pure {value mirror : α} (same : mirror = onValue value) :
    Mirrors change onValue (pure value) (pure mirror) := by
  intro state changed related
  rw [same]
  exact .ok value related

theorem mirrors_bind {onLater : β → β} {first mirror : Parser α} {next nextMirror : α → Parser β}
    (early : Mirrors change onValue first mirror)
    (late : ∀ value, Mirrors change onLater (next value) (nextMirror (onValue value))) :
    Mirrors change onLater (first >>= next) (mirror >>= nextMirror) := by
  intro state changed related
  have alike := early state changed related
  rw [bind_apply, bind_apply]
  generalize first state = outcome, mirror changed = outcome' at alike ⊢
  cases alike with
  | ok value last => exact late value _ _ last
  | error fault last => exact .error fault last

/-- A production that ends by making its value out of another one. -/
theorem mirrors_return {onLater : β → β} {first mirror : Parser α} {make makeMirror : α → β}
    (early : Mirrors change onValue first mirror)
    (same : ∀ value, makeMirror (onValue value) = onLater (make value)) :
    Mirrors change onLater (first >>= fun value => pure (make value))
      (mirror >>= fun value => pure (makeMirror value)) :=
  mirrors_bind early fun value => mirrors_pure (same value)

theorem mirrors_peek {next mirror : Option Token → Parser α}
    (inside : ∀ head? changed?, Option.Rel change.OnToken head? changed? →
      Mirrors change onValue (next head?) (mirror changed?)) :
    Mirrors change onValue (peek? >>= next) (peek? >>= mirror) := by
  intro state changed related
  rw [bind_apply, bind_apply, peek?_apply, peek?_apply]
  exact inside _ _ related.head state changed related

theorem mirrors_line : Mirrors change change.line line line := by
  intro state changed related
  rw [line_apply, line_apply, related.line]
  exact .ok _ related

theorem mirrors_advance : Mirrors change id advance advance := by
  intro state changed related
  have tokens := related.tokens
  rw [advance_apply, advance_apply]
  generalize state.stream.tokens = own, changed.stream.tokens = other at tokens ⊢
  cases tokens with
  | nil => exact .error .emptyTokenStream related
  | cons head rest => exact .ok () ⟨rest, head.line, related.table, related.depth⟩

theorem mirrors_fail (broken : Violation) :
    Mirrors change onValue (fail broken : Parser α) (fail broken) := by
  intro state changed related
  rw [fail_apply, fail_apply, related.line, identifier_at_head related.head]
  exact .error (.violation broken state.stream.line (state.stream.peek?.bind Token.identifier?))
    (related.told _ _)

theorem mirrors_tell (event told : Event) :
    Mirrors change id (tell event) (tell told) :=
  fun _ _ related => .ok () (related.told _ _)

theorem mirrors_declare (name : String) (kind : SymbolKind) (line : Nat) :
    Mirrors change id (declare name kind line)
      (declare (change.name name) kind (change.line line)) := by
  intro state changed related
  have bound := any_isNamed related.table.innermost name
  rw [declare_apply, declare_apply, SymbolTable.declare, SymbolTable.declare, bound]
  cases state.table.innermost.any fun symbol => symbol.name == name with
  | true => exact .error (.violation .doubleDeclaration line (some name)) (related.told _ _)
  | false => exact .ok () (related.withTable ⟨.cons ⟨rfl, rfl⟩ related.table.entries,
      related.table.markers⟩)

theorem mirrors_resolve (name : String) :
    Mirrors change id (resolve name) (resolve (change.name name)) := by
  intro state changed related
  rw [resolve_apply, resolve_apply, related.table.lookup?, related.line]
  cases state.table.lookup? name with
  | some kind => exact .ok kind related
  | none => exact .error (.violation .undeclared state.stream.line (some name)) (related.told _ _)

theorem mirrors_tooDeep : Mirrors change onValue (tooDeep : Parser α) tooDeep := by
  intro state changed related
  rw [tooDeep_apply, tooDeep_apply, related.depth, related.line]
  exact .error (.nestingTooDeep state.depth state.stream.line) related

theorem mirrors_nested {production : Parser α}
    (inside : Mirrors change onValue production production) :
    Mirrors change onValue (nested production) (nested production) := by
  intro state changed related
  have alike := inside _ _ (related.atDepth (· + 1))
  rw [nested_apply, nested_apply]
  generalize production { state with depth := state.depth + 1 } = outcome,
    production { changed with depth := changed.depth + 1 } = outcome' at alike ⊢
  cases alike with
  | ok value last => exact .ok value (last.atDepth (· - 1))
  | error fault last => exact .error fault (last.atDepth (· - 1))

/-- A scope is left in both runs, if one is open. -/
theorem leaveScope_changed {table changed : SymbolTable} (related : change.OnTable table changed) :
    (table.leaveScope = .error .scopeUnderflow ∧ changed.leaveScope = .error .scopeUnderflow) ∨
      ∃ left other, table.leaveScope = .ok left ∧ changed.leaveScope = .ok other ∧
        change.OnTable left other := by
  unfold SymbolTable.leaveScope
  rw [related.markers]
  cases table.markers with
  | nil => exact .inl ⟨rfl, rfl⟩
  | cons start outer =>
    refine .inr ⟨_, _, rfl, rfl, ?_, rfl⟩
    simp only [SymbolTable.entriesBefore, related.length]
    exact List.forall₂_drop _ related.entries

theorem mirrors_inScope {production : Parser α}
    (inside : Mirrors change onValue production production) :
    Mirrors change onValue (inScope production) (inScope production) := by
  intro state changed related
  have entered : OnState change state.entered changed.entered :=
    (related.withTable related.table.enterScope).told _ _
  have alike := inside _ _ entered
  rw [inScope_eq_closed, inScope_eq_closed]
  generalize production state.entered = outcome, production changed.entered = outcome' at alike ⊢
  cases alike with
  | ok value last | error fault last =>
    rcases leaveScope_changed last.table with
      ⟨stays, staysToo⟩ | ⟨left, other, leaves, leavesToo, tables⟩
    · simp only [closed, stays, staysToo]
      exact .error .scopeUnderflow last
    · simp only [closed, leaves, leavesToo]
      constructor
      exact last.withTable tables

theorem mirrors_manyWithin {item? mirror? : Parser (Option α)}
    (inside : Mirrors change (Option.map onValue) item? mirror?) {bound other : List LocatedToken}
    (related : change.OnTokens bound other) :
    Mirrors change (List.map onValue) (manyWithin item? bound)
      (manyWithin mirror? other) := by
  induction related with
  | nil => exact mirrors_pure rfl
  | cons _ _ ih =>
    refine mirrors_bind inside fun value? => ?_
    cases value? with
    | none => exact mirrors_pure rfl
    | some value => exact mirrors_return ih fun _ => rfl

theorem mirrors_many {item? mirror? : Parser (Option α)}
    (inside : Mirrors change (Option.map onValue) item? mirror?) :
    Mirrors change (List.map onValue) (many item?) (many mirror?) := by
  intro state changed related
  rw [many_apply, many_apply]
  exact mirrors_manyWithin inside related.tokens state changed related

theorem mirrors_atSymbol (char : Char) :
    Mirrors change id (atSymbol char) (atSymbol char) := by
  refine mirrors_peek fun head? changed? related => mirrors_pure ?_
  exact any_head related fun _ _ token => token.isSymbol char

theorem mirrors_atKeyword (keyword : Keyword) :
    Mirrors change id (atKeyword keyword) (atKeyword keyword) := by
  refine mirrors_peek fun head? changed? related => mirrors_pure ?_
  exact any_head related fun _ _ token => token.isKeyword

/-- What depends on a test that both runs answer alike. -/
theorem mirrors_if {test : Bool} {yes yesMirror no noMirror : Parser α}
    (whenTrue : Mirrors change onValue yes yesMirror)
    (whenFalse : Mirrors change onValue no noMirror) :
    Mirrors change onValue (if test then yes else no) (if test then yesMirror else noMirror) := by
  cases test
  · exact whenFalse
  · exact whenTrue

theorem mirrors_expectSymbol (char : Char) (broken : Violation) :
    Mirrors change id (expectSymbol char broken) (expectSymbol char broken) :=
  mirrors_bind (mirrors_atSymbol char) fun _ => mirrors_if mirrors_advance (mirrors_fail broken)

theorem mirrors_expectKeyword (keyword : Keyword) (broken : Violation) :
    Mirrors change id (expectKeyword keyword broken)
      (expectKeyword keyword broken) :=
  mirrors_bind (mirrors_atKeyword keyword) fun _ => mirrors_if mirrors_advance (mirrors_fail broken)

theorem mirrors_expectName (broken : Violation) :
    Mirrors change (Prod.map change.name change.line) (expectName broken)
      (expectName broken) := by
  refine mirrors_bind mirrors_line fun line => mirrors_peek fun head? changed? related => ?_
  rw [identifier_at_head related]
  cases head?.bind Token.identifier? with
  | none => exact mirrors_fail broken
  | some name => exact mirrors_return mirrors_advance fun _ => rfl

theorem mirrors_resolveInteger (name : String) :
    Mirrors change id (resolveInteger name) (resolveInteger (change.name name)) := by
  refine mirrors_bind (mirrors_resolve name) fun kind => ?_
  dsimp only [id]
  split
  · exact mirrors_fail .notInteger
  · exact mirrors_pure rfl

theorem mirrors_resolveProcedure (name : String) :
    Mirrors change id (resolveProcedure name)
      (resolveProcedure (change.name name)) := by
  refine mirrors_bind (mirrors_resolve name) fun kind => ?_
  dsimp only [id]
  split
  · exact mirrors_fail .notProcedure
  · exact mirrors_pure rfl

theorem mirrors_after (char : Char) {item : Parser α} (inside : Mirrors change onValue item item) :
    Mirrors change (Option.map onValue) (after char item) (after char item) := by
  refine mirrors_bind (mirrors_atSymbol char) fun _ => mirrors_if ?_ (mirrors_pure rfl)
  exact mirrors_bind mirrors_advance fun _ => mirrors_return inside fun _ => rfl

section Expressions

variable {inner : Parser Expression}
variable (inside : Mirrors change (Expression.rename change.name) inner inner)
include inside

theorem mirrors_factor :
    Mirrors change (Expression.rename change.name) (factor inner) (factor inner) := by
  refine mirrors_peek fun head? changed? related => ?_
  cases related with
  | none => exact mirrors_fail .missingOpenParen
  | some token =>
    cases token with
    | number value => exact mirrors_return mirrors_advance fun _ => rfl
    | word text changed other =>
      simp only [Option.bind_some, Token.identifier?, if_neg other]
      exact mirrors_fail .missingOpenParen
    | name own =>
      refine mirrors_bind (mirrors_resolveInteger own) fun _ => ?_
      exact mirrors_return mirrors_advance fun _ => rfl
    | symbol char =>
      by_cases isOpen : char = '('
      · subst isOpen
        refine mirrors_bind mirrors_advance fun _ => mirrors_bind inside fun _ => ?_
        exact mirrors_return (mirrors_expectSymbol ')' .missingCloseParen) fun _ => rfl
      · split
        · next same => cases same
        · next same =>
          cases same
          exact absurd rfl isOpen
        · exact mirrors_fail .missingOpenParen

omit inside in
theorem mirrors_operator (additive : Bool) :
    Mirrors change id (operator? additive) (operator? additive) := by
  refine mirrors_peek fun head? changed? related => ?_
  cases related with
  | none => exact mirrors_pure rfl
  | some token => cases token <;> exact mirrors_pure rfl

theorem mirrors_operations (additive : Bool) :
    Mirrors change (List.map (Prod.map id (Expression.rename change.name)))
      (many (operation? additive inner))
      (many (operation? additive inner)) := by
  refine mirrors_many (mirrors_bind (mirrors_operator additive) fun operator? => ?_)
  cases operator? with
  | none => exact mirrors_pure rfl
  | some operator =>
    exact mirrors_bind mirrors_advance fun _ => mirrors_return inside fun _ => rfl

theorem mirrors_term :
    Mirrors change (Expression.rename change.name) (term inner) (term inner) := by
  refine mirrors_bind (mirrors_factor inside) fun first => ?_
  refine mirrors_return (mirrors_operations (mirrors_factor inside) false) fun operations => ?_
  exact (rename_applyAll change.name first operations).symm

omit inside in
theorem mirrors_sign : Mirrors change id sign sign := by
  refine mirrors_bind (mirrors_atSymbol '-') fun _ => mirrors_if ?_ (mirrors_pure rfl)
  exact mirrors_return mirrors_advance fun _ => rfl

theorem mirrors_expressionBody :
    Mirrors change (Expression.rename change.name) (expressionBody inner)
      (expressionBody inner) := by
  refine mirrors_bind mirrors_sign fun negative => ?_
  refine mirrors_bind (mirrors_term inside) fun first => ?_
  refine mirrors_return (mirrors_operations (mirrors_term inside) true) fun operations => ?_
  rw [rename_applyAll]
  cases negative <;> rfl

theorem mirrors_condition :
    Mirrors change (Expression.rename change.name) (condition inner)
      (condition inner) := by
  refine mirrors_bind (mirrors_atKeyword .oddKw) fun _ => mirrors_if ?_ ?_
  · refine mirrors_bind mirrors_advance fun _ => ?_
    exact mirrors_return inside fun _ => rfl
  · refine mirrors_bind inside fun left => mirrors_peek fun head? changed? related => ?_
    rw [bind_head related fun _ _ token => token.comparison?]
    cases head?.bind Comparison.ofToken? with
    | none => exact mirrors_fail .missingComparison
    | some comparison =>
      exact mirrors_bind mirrors_advance fun _ => mirrors_return inside fun _ => rfl

theorem mirrors_assignment (name : String) :
    Mirrors change (Statement.rename change.name) (assignment name inner)
      (assignment (change.name name) inner) := by
  refine mirrors_bind (mirrors_resolveInteger name) fun _ => ?_
  refine mirrors_bind mirrors_advance fun _ => ?_
  refine mirrors_bind (mirrors_expectSymbol '=' .missingAssign) fun _ => ?_
  exact mirrors_return inside fun _ => rfl

end Expressions

theorem mirrors_expression (levels : Nat) :
    Mirrors change (Expression.rename change.name) (expression levels)
      (expression levels) := by
  induction levels with
  | zero => exact mirrors_tooDeep
  | succ levels ih => exact mirrors_nested (mirrors_expressionBody ih)

theorem mirrors_target {check : String → Parser Unit}
    (checks : ∀ name, Mirrors change id (check name) (check (change.name name))) :
    Mirrors change change.name (target check) (target check) := by
  refine mirrors_peek fun head? changed? related => ?_
  rw [identifier_at_head related]
  cases head?.bind Token.identifier? with
  | none => exact mirrors_fail .undeclared
  | some name =>
    exact mirrors_bind (checks name) fun _ => mirrors_return mirrors_advance fun _ => rfl

section Statements

variable {inner : Parser Statement} {value : Parser Expression}
variable (inside : Mirrors change (Statement.rename change.name) inner inner)
variable (values : Mirrors change (Expression.rename change.name) value value)
include inside

theorem mirrors_group :
    Mirrors change (Statement.rename change.name) (group inner) (group inner) := by
  refine mirrors_bind inside fun first => ?_
  refine mirrors_bind (mirrors_many (mirrors_after ';' inside)) fun others => ?_
  refine mirrors_return (mirrors_expectKeyword .endKw .missingEnd) fun _ => ?_
  exact (Statement.rename_sequence change.name (first :: others)).symm

include values

/-- `IF` and `WHILE` differ in the word after the condition and in the statement that is made. -/
theorem mirrors_guarded (keyword : Keyword) (broken : Violation)
    {make : Expression → Statement → Statement}
    (renamed : ∀ guard body, (make guard body).rename change.name =
      make (guard.rename change.name) (body.rename change.name)) :
    Mirrors change (Statement.rename change.name)
      (do
        let guard ← condition value
        expectKeyword keyword broken
        return make guard (← inner))
      (do
        let guard ← condition value
        expectKeyword keyword broken
        return make guard (← inner)) := by
  refine mirrors_bind (mirrors_condition values) fun guard => ?_
  refine mirrors_bind (mirrors_expectKeyword keyword broken) fun _ => ?_
  exact mirrors_return inside fun body => (renamed guard body).symm

theorem mirrors_keywordStatement (keyword : Keyword) :
    Mirrors change (Statement.rename change.name) (keywordStatement keyword inner value)
      (keywordStatement keyword inner value) := by
  have taking {next : Parser Statement}
      (rest : Mirrors change (Statement.rename change.name) next next) :
      Mirrors change (Statement.rename change.name) (advance >>= fun _ => next)
        (advance >>= fun _ => next) := mirrors_bind mirrors_advance fun _ => rest
  cases keyword
  case callKw =>
    exact taking (mirrors_return (mirrors_target mirrors_resolveProcedure) fun _ => rfl)
  case readKw => exact taking (mirrors_return (mirrors_target mirrors_resolveInteger) fun _ => rfl)
  case printKw => exact taking (mirrors_return values fun _ => rfl)
  case beginKw => exact taking (mirrors_group inside)
  case ifKw => exact taking (mirrors_guarded inside values .thenKw .missingThen fun _ _ => rfl)
  case whileKw => exact taking (mirrors_guarded inside values .doKw .missingDo fun _ _ => rfl)
  case passKw => exact taking (mirrors_pure rfl)
  all_goals exact mirrors_pure rfl

theorem mirrors_statementBody :
    Mirrors change (Statement.rename change.name) (statementBody inner value)
      (statementBody inner value) := by
  refine mirrors_peek fun head? changed? related => ?_
  rw [identifier_at_head related, bind_head related fun _ _ token => token.keyword?]
  cases head?.bind Token.identifier? with
  | some name => exact mirrors_assignment values name
  | none =>
    cases head?.bind Token.keyword? with
    | none => exact mirrors_pure rfl
    | some keyword => exact mirrors_keywordStatement inside values keyword

end Statements

theorem mirrors_statement (levels : Nat) :
    Mirrors change (Statement.rename change.name) (statement levels)
      (statement levels) := by
  induction levels with
  | zero => exact mirrors_tooDeep
  | succ levels ih => exact mirrors_nested (mirrors_statementBody ih (mirrors_expression levels))

theorem mirrors_variableName : Mirrors change id variableName variableName :=
  mirrors_bind (mirrors_expectName .missingName) fun found =>
    mirrors_declare found.1 .var found.2

theorem mirrors_constantDefinition :
    Mirrors change id constantDefinition constantDefinition := by
  refine mirrors_bind (mirrors_expectName .missingName) fun found => ?_
  refine mirrors_bind (mirrors_declare found.1 .const found.2) fun _ => ?_
  refine mirrors_bind (mirrors_expectSymbol '=' .missingAssign) fun _ => ?_
  refine mirrors_peek fun head? changed? related => ?_
  rw [any_head related fun _ _ token => congrArg Option.isSome token.number?]
  exact mirrors_if mirrors_advance (mirrors_fail .constantNotNumber)

theorem mirrors_declarationPart (keyword : Keyword) {item : Parser Unit}
    (inside : Mirrors change id item item) :
    Mirrors change id (declarationPart keyword item)
      (declarationPart keyword item) := by
  rw [declarationPart_eq_advance]
  refine mirrors_bind (mirrors_atKeyword keyword) fun _ => mirrors_if ?_ (mirrors_pure rfl)
  have others : Mirrors change id (many (after ',' item) >>= fun _ => pure ())
      (many (after ',' item) >>= fun _ => pure ()) :=
    mirrors_return (mirrors_many (mirrors_after ',' inside)) fun _ => rfl
  refine mirrors_bind mirrors_advance fun _ => mirrors_bind inside fun _ => ?_
  rw [discard_eq_bind]
  exact mirrors_bind others fun _ => mirrors_expectSymbol ';' .missingDeclarationSeparator

theorem mirrors_procedure {inner : Parser Block}
    (inside : Mirrors change (Block.rename change.name) inner inner) :
    Mirrors change (Option.map (Prod.map change.name (Block.rename change.name)))
      (procedure? inner) (procedure? inner) := by
  refine mirrors_bind (mirrors_atKeyword .procedureKw) fun _ => mirrors_if ?_ (mirrors_pure rfl)
  refine mirrors_bind mirrors_advance fun _ => ?_
  refine mirrors_bind (mirrors_expectName .missingName) fun found => ?_
  refine mirrors_bind (mirrors_declare found.1 .procedure found.2) fun _ => ?_
  refine mirrors_bind (mirrors_expectSymbol ';' .missingDeclarationSeparator) fun _ => ?_
  refine mirrors_bind (mirrors_tell _ _) fun _ => mirrors_bind inside fun body => ?_
  exact mirrors_return (mirrors_expectSymbol ';' .missingDeclarationSeparator) fun _ => rfl

theorem mirrors_blockBody {inner : Parser Block} {statement : Parser Statement}
    (inside : Mirrors change (Block.rename change.name) inner inner)
    (statements : Mirrors change (Statement.rename change.name) statement statement) :
    Mirrors change (Block.rename change.name) (blockBody inner statement)
      (blockBody inner statement) := by
  refine mirrors_bind (mirrors_declarationPart .varKw mirrors_variableName) fun _ => ?_
  refine mirrors_bind (mirrors_declarationPart .constKw mirrors_constantDefinition) fun _ => ?_
  refine mirrors_bind (mirrors_many (mirrors_procedure inside)) fun procedures => ?_
  refine mirrors_return statements fun final => ?_
  exact (Block.rename_ofProcedures change.name procedures final).symm

theorem mirrors_block (levels : Nat) :
    Mirrors change (Block.rename change.name) (block levels) (block levels) := by
  induction levels with
  | zero => exact mirrors_tooDeep
  | succ levels ih =>
    exact mirrors_nested (mirrors_inScope (mirrors_blockBody ih (mirrors_statement levels)))

/-- A state may be consulted as a whole if what is done with it ends alike. -/
theorem mirrors_get {next mirror : State → Parser α}
    (inside : ∀ state changed, OnState change state changed →
      Mirrors change onValue (next state) (mirror changed)) :
    Mirrors change onValue (get >>= next) (get >>= mirror) :=
  fun state changed related => inside state changed related state changed related

theorem mirrors_period : Mirrors change id period period := by
  refine mirrors_bind (mirrors_atSymbol '.') fun _ => mirrors_if ?_ (mirrors_pure rfl)
  refine mirrors_bind mirrors_advance fun _ => mirrors_get fun state changed related => ?_
  have left : changed.stream.length = state.stream.length := related.tokens.length_eq.symm
  simp only [left]
  split
  · exact mirrors_bind (mirrors_tell _ _) fun _ => mirrors_pure rfl
  · exact mirrors_pure rfl

theorem mirrors_parse (limit : Nat) :
    Mirrors change (Outcome.rename change.name) (parse limit) (parse limit) := by
  refine mirrors_get fun state changed related => ?_
  rw [related.depth]
  refine mirrors_bind (mirrors_tell _ _) fun _ => ?_
  refine mirrors_bind (mirrors_block _) fun block => ?_
  refine mirrors_bind mirrors_period fun accepted => ?_
  exact mirrors_return (mirrors_tell _ _) fun _ => rfl

theorem onState_start {tokens changed : List LocatedToken} (nonempty : tokens ≠ [])
    (related : change.OnTokens tokens changed) (table : SymbolTable) :
    OnState change (start tokens table) (start changed (table.rename change.name)) where
  tokens := related
  lastLine := by
    cases related with
    | nil => exact absurd rfl nonempty
    | cons head _ => exact head.line
  table := onTable_rename table
  depth := rfl

theorem EndMirrored.tokens_left {outcome mirror : EStateM.Result Fault State α}
    (alike : EndMirrored change onValue outcome mirror) :
    change.OnTokens (stateAfter outcome).stream.tokens (stateAfter mirror).stream.tokens := by
  cases alike with
  | ok value last => exact last.tokens
  | error fault last => exact last.tokens

theorem EndMirrored.result {outcome mirror : EStateM.Result Fault State Outcome}
    (alike : EndMirrored change (Outcome.rename change.name) outcome mirror) :
    Parser.result mirror = change.onResult (Parser.result outcome) := by
  cases alike <;> rfl

/-- What a parse leaves is the end of the tokens. -/
theorem left_of_parse (limit : Nat) (tokens : List LocatedToken) (table : SymbolTable) :
    (stateAfter (parse limit (start tokens table))).stream.tokens <:+ tokens := by
  obtain ⟨taken, comes⟩ := (restored_parse limit (start tokens table)).along
  exact ⟨taken, comes.tokens.symm⟩

/-- When the labels of some tokens and the names of the table are changed, a parse comes to the
same with its labels changed, and leaves as many of the tokens. -/
theorem parse_over_changed_labels (change : Relabelling) (limit : Nat)
    {tokens changed : List LocatedToken} (nonempty : tokens ≠ [])
    (related : change.OnTokens tokens changed) (table : SymbolTable) :
    let plain := parse limit (start tokens table)
    let mirror := parse limit (start changed (table.rename change.name))
    result mirror = change.onResult (result plain) ∧
      ∃ taken, (stateAfter plain).stream.tokens = tokens.drop taken ∧
        (stateAfter mirror).stream.tokens = changed.drop taken := by
  intro plain mirror
  have alike : EndMirrored change (Outcome.rename change.name) plain mirror :=
    mirrors_parse limit _ _ (onState_start nonempty related table)
  have lengths := alike.tokens_left.length_eq
  refine ⟨alike.result, tokens.length - (stateAfter plain).stream.tokens.length, ?_, ?_⟩
  · exact List.suffix_iff_eq_drop.mp (left_of_parse limit tokens table)
  · rw [related.length_eq, lengths]
    exact List.suffix_iff_eq_drop.mp (left_of_parse limit changed _)

/-- Every name gets a tail, and the lines are counted from the other end. -/
def tailed : Relabelling where
  name own := own ++ "_"
  injective _ _ same := (String.append_left_inj "_").mp same
  line line := 9 - line

theorem call_of_variable_relabelled :
    let tokens : List LocatedToken :=
      [⟨.keyword .callKw, 1⟩, ⟨.identifier "x", 2⟩, ⟨.symbol '.', 3⟩]
    let changed : List LocatedToken :=
      [⟨.word "go" Keyword.callKw.id, 8⟩, ⟨.identifier "x_", 7⟩, ⟨.symbol '.', 6⟩]
    tokens ≠ [] ∧ tailed.OnTokens tokens changed ∧
      result (parse 9 (start changed ⟨[⟨"x_", .var, 1⟩], []⟩)) =
        .error (.violation .notProcedure 7 (some "x_")) := by
  intro tokens changed
  have nonempty : tokens ≠ [] := List.cons_ne_nil _ _
  have related : tailed.OnTokens tokens changed :=
    .cons ⟨.word _ _ (by decide), rfl⟩ <|
      .cons ⟨.name "x", rfl⟩ <| .cons ⟨.symbol '.', rfl⟩ .nil
  have alike := parse_over_changed_labels tailed 9 nonempty related ⟨[⟨"x", .var, 1⟩], []⟩
  exact ⟨nonempty, related, alike.1⟩

end PlZero.Parser
