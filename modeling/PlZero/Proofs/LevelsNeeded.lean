import PlZero.Proofs.Blame
import PlZero.Proofs.Program

/-!
# The levels that tokens can need

A block and its statement open two levels before anything is taken. Every further level is opened
behind a token of its own: the word that begins a statement, a bracket, or the head of a
procedure. So a descent that runs out of levels has taken a token for each of them but the first
two, and with two levels more than there are tokens no descent runs out. With one level less it
can happen, whatever the number of tokens.
-/

namespace PlZero.Parser

set_option autoImplicit false

variable {α β σ : Type}

/-- Where a production runs out of levels, it has taken at least so many tokens. -/
def DeepAfterAt (taken : Nat) (production : Parser α) (state : State) : Prop :=
  ∀ limit line after, production state = .error (.nestingTooDeep limit line) after →
    taken + after.stream.tokens.length ≤ state.stream.tokens.length

structure DeepAfter (taken : Nat) (production : Parser α) : Prop where
  framed : Framed production
  along : Leads Along production
  deep : ∀ state, DeepAfterAt taken production state

theorem Along.length_le {before after : State} (along : Along before after) :
    after.stream.tokens.length ≤ before.stream.tokens.length := by
  obtain ⟨taken, comes⟩ := along
  rw [comes.tokens, List.length_append]
  exact Nat.le_add_left _ _

theorem DeepAfter.fewer {many few : Nat} {production : Parser α} (less : few ≤ many)
    (after : DeepAfter many production) : DeepAfter few production where
  framed := after.framed
  along := after.along
  deep state limit line last failed := by
    have taken := after.deep state limit line last failed
    omega

theorem deepAfter_bind {taken : Nat} {first : Parser α} {next : α → Parser β}
    (early : DeepAfter taken first) (late : ∀ value, DeepAfter taken (next value)) :
    DeepAfter taken (first >>= next) where
  framed := framed_bind early.framed fun value => (late value).framed
  along := along_chained.leads_bind early.along fun value => (late value).along
  deep state limit line after failed := by
    have moved := (early.along state).length_le
    rw [bind_apply] at failed
    cases outcome : first state with
    | error fault last =>
      rw [outcome] at failed
      cases failed
      exact early.deep state limit line after outcome
    | ok value middle =>
      rw [outcome] at failed moved
      have paid := (late value).deep middle limit line after failed
      exact Nat.le_trans paid moved

/-- What runs out of levels behind a token that was taken has taken one more. -/
theorem deepAfter_taking {taken : Nat} {next : Parser α} (later : DeepAfter taken next) :
    DeepAfter (taken + 1) (advance >>= fun _ => next) where
  framed := framed_bind framed_advance fun _ => later.framed
  along := along_chained.leads_bind along_advance fun _ => later.along
  deep state limit line after failed := by
    cases tokens : state.stream.tokens with
    | nil =>
      rw [bind_apply, advance_apply, tokens] at failed
      cases failed
    | cons head tail =>
      rw [advance_then tokens] at failed
      have paid := later.deep _ limit line after failed
      rw [List.length_cons]
      simp only at paid
      omega

theorem deepAfter_nested {taken : Nat} {production : Parser α}
    (inside : DeepAfter taken production) : DeepAfter taken (nested production) where
  framed := framed_nested inside.framed
  along := along_nested inside.along
  deep state limit line after failed := by
    rw [nested_apply] at failed
    cases outcome : production { state with depth := state.depth + 1 } with
    | ok value last =>
      rw [outcome] at failed
      cases failed
    | error fault last =>
      rw [outcome] at failed
      cases failed
      exact inside.deep { state with depth := state.depth + 1 } limit line last outcome

theorem deepAfter_inScope {taken : Nat} {production : Parser α}
    (inside : DeepAfter taken production) : DeepAfter taken (inScope production) where
  framed := framed_inScope inside.framed
  along := along_inScope inside.along
  deep state limit line after failed := by
    rw [inScope_eq_withTable inside.framed] at failed
    cases outcome : production state.entered with
    | ok value last =>
      rw [outcome] at failed
      cases failed
    | error fault last =>
      rw [outcome] at failed
      cases failed
      exact inside.deep state.entered limit line last outcome

/-- A production that never runs out of levels. -/
theorem deepAfter_of_flat {taken : Nat} {production : Parser α} (framed : Framed production)
    (along : Leads Along production)
    (flat : ∀ state limit line after,
      production state ≠ .error (.nestingTooDeep limit line) after) :
    DeepAfter taken production :=
  ⟨framed, along, fun state limit line after failed => absurd failed (flat state limit line after)⟩

theorem deepAfter_pure (taken : Nat) (value : α) : DeepAfter taken (pure value : Parser α) := by
  apply deepAfter_of_flat (frame_chained.leads_pure value) (along_chained.leads_pure value)
  intro state limit line after failed
  cases failed

theorem deepAfter_begun {taken : Nat} (select : Token → Option σ) {body : σ → Parser α}
    (inside : ∀ choice, DeepAfter taken (body choice)) :
    DeepAfter (taken + 1) (begun select body) where
  framed := frame_chained.leads_begun framed_advance select fun choice => (inside choice).framed
  along := along_chained.leads_begun along_advance select fun choice => (inside choice).along
  deep state limit line after failed := by
    cases found : state.stream.peek?.bind select with
    | none =>
      rw [begun_none select body found] at failed
      cases failed
    | some choice =>
      obtain ⟨head, tail, tokens, selected⟩ := head_of_selected found
      rw [begun_some body tokens selected] at failed
      have later := deepAfter_bind (inside choice) fun value => deepAfter_pure taken (some value)
      have paid := later.deep { state with stream := ⟨tail, head.line⟩ } limit line after failed
      rw [tokens, List.length_cons]
      simp only at paid
      omega

theorem deepAfter_manyWithin {taken : Nat} {item? : Parser (Option α)}
    (each : DeepAfter taken item?) (bound : List LocatedToken) :
    DeepAfter taken (manyWithin item? bound) := by
  induction bound with
  | nil => exact deepAfter_pure taken []
  | cons first bound ih =>
    apply deepAfter_bind each
    intro value?
    cases value? with
    | none => exact deepAfter_pure taken []
    | some value => exact deepAfter_bind ih fun values => deepAfter_pure taken (value :: values)

/-- Every round of a loop begins with a token of its own. -/
theorem deepAfter_many {taken : Nat} (select : Token → Option σ) {body : σ → Parser α}
    (inside : ∀ choice, DeepAfter taken (body choice)) :
    DeepAfter (taken + 1) (many (begun select body)) where
  framed := framed_many select fun choice => (inside choice).framed
  along := along_chained.leads_many along_advance select fun choice => (inside choice).along
  deep state :=
    (deepAfter_manyWithin (deepAfter_begun select inside) state.stream.tokens).deep state

theorem deepAfter_steps (taken : Nat) : Steps fun production _ => DeepAfter taken production where
  pure := deepAfter_pure taken
  bind := deepAfter_bind
  peek := deepAfter_of_flat framed_steps.peek along_steps.peek fun _ _ _ _ failed => by cases failed
  line := deepAfter_of_flat framed_steps.line along_steps.line fun _ _ _ _ failed => by cases failed
  advance := by
    apply deepAfter_of_flat framed_advance along_advance
    intro state limit line after failed
    rw [advance_apply] at failed
    split at failed <;> cases failed
  fail broken := deepAfter_of_flat (framed_steps.fail broken) (along_steps.fail broken)
    fun _ _ _ _ failed => by cases failed
  tell name line := deepAfter_of_flat (framed_steps.tell name line) (along_steps.tell name line)
    fun _ _ _ _ failed => by cases failed
  declare name kind line := by
    apply deepAfter_of_flat (framed_declare name kind line) (along_declare name kind line)
    intro state limit own after failed
    rw [declare_apply] at failed
    split at failed
    · cases failed
    · next refused =>
      cases failed
      cases declare_refused refused
  resolve name := by
    apply deepAfter_of_flat (framed_resolve name) (along_resolve name)
    intro state limit line after failed
    rw [resolve_apply] at failed
    split at failed <;> cases failed
  nested := deepAfter_nested
  inScope := deepAfter_inScope
  many select _ _ inside := (deepAfter_many select inside).fewer (Nat.le_succ taken)

theorem deepAfter_tooDeep : DeepAfter 0 (tooDeep : Parser α) where
  framed := framed_tooDeep
  along _ := along_chained.same _
  deep state limit line after failed := by
    cases failed
    exact Nat.le_of_eq (Nat.zero_add _)

section Expressions

variable {taken : Nat} {inner : Parser Expression} (inside : DeepAfter taken inner)
include inside

/-- The expression in brackets comes behind the opening bracket. -/
theorem deepAfter_factor : DeepAfter (taken + 1) (factor inner) := by
  refine deepAfter_bind (deepAfter_steps (taken + 1)).peek fun head? => ?_
  split
  · exact deepAfter_taking (deepAfter_pure taken _)
  · exact deepAfter_taking <| deepAfter_bind inside fun value =>
      deepAfter_bind ((deepAfter_steps taken).congruence.expect_symbol ')' rfl none) fun _ =>
        deepAfter_pure taken value
  · cases head?.bind Token.identifier? with
    | none => exact (deepAfter_steps (taken + 1)).fail .missingOpenParen
    | some name =>
      exact deepAfter_bind ((deepAfter_steps (taken + 1)).resolve_integer name) fun _ =>
        deepAfter_taking (deepAfter_pure taken _)

theorem deepAfter_term : DeepAfter (taken + 1) (term inner) := by
  have factors := deepAfter_factor inside
  have operations := @QuietCongruence.operations _ (deepAfter_steps (taken + 1)).quiet
    (factor inner) (factor inner) (fun _ => factors) false none
  exact deepAfter_bind factors fun _ => deepAfter_bind operations fun _ =>
    deepAfter_pure (taken + 1) _

theorem deepAfter_expressionBody : DeepAfter (taken + 1) (expressionBody inner) := by
  have keeps := (deepAfter_steps (taken + 1)).quiet
  have terms := deepAfter_term inside
  have operations := @QuietCongruence.operations _ keeps (term inner) (term inner) (fun _ => terms)
    true none
  exact deepAfter_bind (keeps.sign none) fun _ => deepAfter_bind terms fun _ =>
    deepAfter_bind operations fun _ => deepAfter_pure (taken + 1) _

end Expressions

theorem deepAfter_expression (levels : Nat) : DeepAfter levels (expression levels) := by
  induction levels with
  | zero => exact deepAfter_tooDeep
  | succ levels inside => exact deepAfter_nested (deepAfter_expressionBody inside)

section Statements

variable {taken : Nat} {inner : Parser Statement} {value : Parser Expression}
variable (inside : DeepAfter taken inner) (values : DeepAfter taken value)
include inside values

theorem deepAfter_keywordStatement (keyword : Keyword) :
    DeepAfter (taken + 1) (keywordStatement keyword inner value) := by
  have keeps := (deepAfter_steps taken).quiet
  cases keyword
  case callKw =>
    exact deepAfter_taking <| deepAfter_bind (keeps.target keeps.procedure none) fun _ =>
      deepAfter_pure taken _
  case readKw =>
    exact deepAfter_taking <| deepAfter_bind (keeps.target keeps.integer none) fun _ =>
      deepAfter_pure taken _
  case printKw => exact deepAfter_taking <| deepAfter_bind values fun _ => deepAfter_pure taken _
  case beginKw =>
    exact deepAfter_taking (@QuietCongruence.group _ keeps inner inner (fun _ => inside) none)
  case ifKw | whileKw =>
    have guard := @QuietCongruence.condition _ keeps value value (fun _ => values) none
    exact deepAfter_taking <| deepAfter_bind guard fun _ =>
      deepAfter_bind (keeps.expect_keyword _ rfl none) fun _ =>
        deepAfter_bind inside fun _ => deepAfter_pure taken _
  case passKw => exact deepAfter_taking (deepAfter_pure taken _)
  all_goals exact deepAfter_pure (taken + 1) _

/-- What is inside a statement comes behind its first token. -/
theorem deepAfter_statementBody : DeepAfter (taken + 1) (statementBody inner value) := by
  refine deepAfter_bind (deepAfter_steps (taken + 1)).peek fun head? => ?_
  cases head?.bind Token.identifier? with
  | some name =>
    have own := (deepAfter_steps taken).congruence
    have assigned : DeepAfter taken (do
        expectSymbol '=' .missingAssign
        return Statement.assign name (← value)) :=
      deepAfter_bind (own.expect_symbol '=' rfl none) fun _ =>
        deepAfter_bind values fun _ => deepAfter_pure taken _
    exact deepAfter_bind ((deepAfter_steps (taken + 1)).resolve_integer name) fun _ =>
      deepAfter_taking assigned
  | none =>
    cases head?.bind Token.keyword? with
    | none => exact deepAfter_pure (taken + 1) _
    | some keyword => exact deepAfter_keywordStatement inside values keyword

end Statements

theorem deepAfter_statement (levels : Nat) : DeepAfter levels (statement levels) := by
  induction levels with
  | zero => exact deepAfter_tooDeep
  | succ levels inside =>
    exact deepAfter_nested (deepAfter_statementBody inside (deepAfter_expression levels))

/-- The first level of a block is opened before any token, and every other one behind one. -/
theorem deepAfter_block (levels : Nat) : DeepAfter (levels - 1) (block levels) := by
  induction levels with
  | zero => exact deepAfter_tooDeep
  | succ levels inside =>
    have keeps := (deepAfter_steps levels).congruence
    have procedures : DeepAfter levels (many (procedure? (block levels))) := by
      rw [procedure_eq_begun]
      -- its head pays for the first level of a body, which no token of the body has to pay for
      have body := @Congruence.procedure_body _ (deepAfter_steps (levels - 1)).congruence
        (block levels) (block levels) (fun _ => inside) none
      exact (deepAfter_many _ fun _ => body).fewer (by omega)
    refine deepAfter_nested (deepAfter_inScope ?_)
    exact deepAfter_bind (keeps.declaration_part _ keeps.variable_name none) fun _ =>
      deepAfter_bind (keeps.declaration_part _ keeps.constant_definition none) fun _ =>
      deepAfter_bind procedures fun _ =>
      deepAfter_bind (deepAfter_statement levels) fun _ => deepAfter_pure levels _

def openings (count : Nat) : List LocatedToken := List.replicate count ⟨.keyword .beginKw, 1⟩

/-- Each opening takes one level, and the statement behind the last one finds none. -/
theorem statement_of_openings (levels : Nat) (state : State)
    (opened : state.stream.tokens = openings levels) :
    ∃ line after, statement levels state =
      .error (.nestingTooDeep (state.depth + levels) line) after := by
  induction levels generalizing state with
  | zero => exact ⟨state.stream.line, state, rfl⟩
  | succ levels ih =>
    let deeper : State := { state with depth := state.depth + 1 }
    have ahead : deeper.stream.tokens = ⟨.keyword .beginKw, 1⟩ :: openings levels := opened
    let inner : State := { deeper with stream := ⟨openings levels, 1⟩ }
    obtain ⟨line, after, deep⟩ := ih inner rfl
    have body : statementBody (statement levels) (expression levels) deeper =
        group (statement levels) inner := by
      rw [statementBody, peek_then ahead]
      exact advance_then ahead _
    refine ⟨line, { after with depth := after.depth - 1 }, ?_⟩
    rw [statement, nested_apply, body, group, bind_apply, deep]
    have depth : inner.depth + levels = state.depth + (levels + 1) := Nat.succ_add_eq_add_succ _ _
    rw [depth]

theorem parse_of_openings (count : Nat) (table : SymbolTable) :
    ∃ line, result (parse (count + 1) (start (openings count) table)) =
      .error (.nestingTooDeep (count + 1) line) := by
  let first := fresh (openings count) table
  let inner := State.entered { first with depth := first.depth + 1 }
  have unled : Ahead (Unled partKeywords) inner.stream.tokens := by
    have tokens : inner.stream.tokens = openings count := rfl
    rw [tokens]
    cases count with
    | zero => exact fun _ member => by cases member
    | succ count => exact ahead_cons (openings count) (unled_of_word "BEGIN" (by decide))
  obtain ⟨line, after, deep⟩ := statement_of_openings count inner rfl
  have levels : inner.depth + count = count + 1 := Nat.add_comm 1 count
  rw [levels] at deep
  refine ⟨line, ?_⟩
  rw [parse_apply, bind_apply, block, nested_apply, inScope_eq_withTable (framed_blockBody count),
    blockBody_of_unled _ _ unled, bind_apply, deep]
  rfl

/-- No call over fewer tokens than levels, by two, runs out of levels; and for each number of tokens
there are some over which a parse with one level less does. -/
theorem levels_needed_by_tokens :
    (∀ (call : Call) (limit : Nat) (tokens : List LocatedToken) (table : SymbolTable),
      tokens.length + 2 ≤ limit → ∀ own line,
        result (call.run limit (start tokens table)) ≠ .error (.nestingTooDeep own line)) ∧
    ∀ count, ∃ tokens : List LocatedToken, tokens.length = count ∧
      ∀ table, ∃ line, result (parse (count + 1) (start tokens table)) =
        .error (.nestingTooDeep (count + 1) line) := by
  constructor
  · intro call limit tokens table enough own line deep
    obtain ⟨after, failed⟩ := error_of_result deep
    rcases failed_call failed with inBlock | ⟨_, other⟩
    · have taken : limit - 1 + after.stream.tokens.length ≤ tokens.length :=
        (deepAfter_block limit).deep (fresh tokens table) own line after inBlock
      omega
    · cases other
  · intro count
    exact ⟨openings count, List.length_replicate, parse_of_openings count⟩

/-- Five levels are enough for three groups that are opened, and four are not. -/
theorem levels_of_three_openings :
    (openings 3).length + 2 ≤ 5 ∧
      (∀ own line,
        result (Call.parse.run 5 (start (openings 3) .empty)) ≠ .error (.nestingTooDeep own line)) ∧
      ∃ line, result (parse 4 (start (openings 3) .empty)) = .error (.nestingTooDeep 4 line) := by
  have few : (openings 3).length + 2 ≤ 5 := by decide
  have enough := levels_needed_by_tokens.1 .parse 5 (openings 3) .empty few
  exact ⟨few, enough, parse_of_openings 3 .empty⟩

end PlZero.Parser
