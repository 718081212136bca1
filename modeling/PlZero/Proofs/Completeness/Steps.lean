import PlZero.Proofs.Lookahead
import PlZero.Proofs.Scoping

/-!
# What is derived is read, step by step

Over the tokens of a derivation, a production gives the tree of the derivation and
leaves what follows, unless the pass over the names has a finding; then the
production fails with that finding and leaves what is not read by then. What
follows must not be able to go on with the production, which is one condition on
the next token: no operator after an expression, and the end of a statement after
a statement. The conditions are handed down from the end of the program.
-/

namespace PlZero.Parser

set_option autoImplicit false

variable {α β σ : Type}

/-- A production agrees with the pass over the names: both are clean, and only the
innermost scope may have changed, or both end with the same fault at the same place. -/
def Agrees (base : SymbolTable) (around : Scopes) (value : α) (rest : List LocatedToken)
    (result : EStateM.Result Fault State α) : Except Finding Scopes → Prop
  | .ok scopes => ∃ scope after, scopes = scope :: around ∧ result = .ok value after ∧
      after.table = base.extend scopes ∧ after.stream.tokens = rest
  | .error finding => ∃ after, result = .error finding.fault after ∧
      after.stream.tokens = tokensOf finding.unread ++ rest

/-- Inside a block, and over the tokens of some marks with a rest after them, a production
agrees with the pass. -/
def Follows (production : Parser α) (marks : List Mark) (value : α)
    (rest : List LocatedToken) : Prop :=
  ∀ (base : SymbolTable) (scope : List Symbol) (around : Scopes) (state : State),
    state.table = base.extend (scope :: around) →
    state.stream.tokens = tokensOf marks ++ rest →
      Agrees base around value rest (production state)
        (Scopes.pass base.lookup? (scope :: around) marks)

theorem follows_pure (value : α) (rest : List LocatedToken) :
    Follows (pure value) [] value rest := by
  intro base scope around state table tokens
  exact ⟨scope, state, rfl, rfl, table, tokens⟩

theorem follows_bind {first : Parser α} (next : α → Parser β) {early late : List Mark}
    {value : α} {last : β} {rest : List LocatedToken}
    (one : Follows first early value (tokensOf late ++ rest))
    (other : Follows (next value) late last rest) :
    Follows (first >>= next) (early ++ late) last rest := by
  intro base scope around state table tokens
  rw [tokensOf_append, List.append_assoc] at tokens
  have begun := one base scope around state table tokens
  rw [Scopes.pass_append, bind_apply]
  cases passed : Scopes.pass base.lookup? (scope :: around) early with
  | error finding =>
    rw [passed] at begun
    obtain ⟨after, outcome, left⟩ := begun
    rw [outcome]
    exact ⟨after, rfl, by rw [left, tokensOf_append, List.append_assoc]⟩
  | ok scopes =>
    rw [passed] at begun
    obtain ⟨scope, middle, rfl, outcome, table, left⟩ := begun
    rw [outcome]
    exact other base scope around middle table left

theorem follows_then {first : Parser α} {second : Parser β} {early late : List Mark}
    {value : α} {last : β} {rest : List LocatedToken}
    (one : Follows first early value (tokensOf late ++ rest))
    (other : Follows second late last rest) :
    Follows (first >>= fun _ => second) (early ++ late) last rest :=
  follows_bind _ one other

theorem follows_return {production : Parser α} {marks : List Mark} {value : α}
    {rest : List LocatedToken} (one : Follows production marks value rest) (result : α → β) :
    Follows (production >>= fun value => pure (result value)) marks (result value) rest := by
  have both := follows_bind (fun value => pure (result value)) one (follows_pure _ rest)
  rwa [List.append_nil] at both

/-- A production that begins by taking a token goes on as what it does then. -/
theorem follows_taking {production next : Parser α} {located : LocatedToken}
    {marks : List Mark} {value : α} {rest : List LocatedToken}
    (takes : ∀ state tail, state.stream.tokens = located :: tail →
      production state = next { state with stream := ⟨tail, located.line⟩ })
    (inside : Follows next marks value rest) :
    Follows production (.plain located :: marks) value rest := by
  intro base scope around state table tokens
  rw [takes state _ tokens]
  exact inside base scope around _ table rfl

theorem follows_same {production other : Parser α} {mark : Mark} {located : LocatedToken}
    {marks : List Mark} {value : α} {rest : List LocatedToken} (head : mark.tokens = [located])
    (same : ∀ state tail, state.stream.tokens = located :: tail → production state = other state)
    (inside : Follows other (mark :: marks) value rest) :
    Follows production (mark :: marks) value rest := by
  intro base scope around state table tokens
  have split := tokens
  rw [tokensOf_cons, head] at split
  rw [same state _ split]
  exact inside base scope around state table tokens

theorem follows_advance (located : LocatedToken) (rest : List LocatedToken) :
    Follows advance [.plain located] () rest := by
  apply follows_taking _ (follows_pure () rest)
  intro state tail tokens
  rw [advance_apply, tokens]
  rfl

theorem follows_expectSymbol (char : Char) (line : Nat) (broken : Violation)
    (rest : List LocatedToken) :
    Follows (expectSymbol char broken) [.symbol char line] () rest := by
  apply follows_same rfl _ (follows_advance _ _)
  intro state tail tokens
  simp [expectSymbol, bind_apply, atSymbol_apply, TokenStream.peek?, tokens, Token.isSymbol]

theorem follows_expectKeyword (keyword : Keyword) (text : String) (line : Nat)
    (broken : Violation) (rest : List LocatedToken) :
    Follows (expectKeyword keyword broken) [.keyword keyword text line] () rest := by
  apply follows_same rfl _ (follows_advance _ _)
  intro state tail tokens
  simp [expectKeyword, bind_apply, atKeyword_apply, TokenStream.peek?, tokens, Token.isKeyword]

theorem follows_use (usage : Usage) (name : String) (line : Nat) (rest : List LocatedToken) :
    Follows (do checkOf usage name; advance) [.use usage name line] () rest := by
  intro base scope around state table tokens
  have meaning : state.table.lookup? name =
      Scopes.lookup? base.lookup? (scope :: around) name := by
    rw [table, base.lookup?_extend]
  simp only [Scopes.pass, Scopes.fault?, ← meaning]
  cases judged : usage.violation? (state.table.lookup? name) with
  | none =>
    rw [bind_apply, checkOf_clean judged]
    exact follows_advance ⟨.identifier name, line⟩ rest base scope around state table tokens
  | some broken =>
    obtain ⟨after, outcome, stream, _⟩ := checkOf_violation tokens judged
    rw [bind_apply, outcome]
    exact ⟨after, rfl, by rw [stream, tokens]; rfl⟩

theorem follows_use_then {next : Parser α} {marks : List Mark} {value : α}
    {rest : List LocatedToken} (usage : Usage) (name : String) (line : Nat)
    (inside : Follows next marks value rest) :
    Follows (do checkOf usage name; advance; next) (.use usage name line :: marks) value rest := by
  have both := follows_then (follows_use usage name line _) inside
  rwa [bind_assoc] at both

theorem follows_declare (kind : SymbolKind) (name : String) (line : Nat) (broken : Violation)
    (rest : List LocatedToken) :
    Follows (do let (name, line) ← expectName broken; declare name kind line; return (name, line))
      [.declare kind name line] (name, line) rest := by
  intro base scope around state table tokens
  have taken := expectName_taken tokens broken
  simp only [Scopes.pass, Scopes.fault?_declare, bind_apply, taken, declare_apply, table,
    base.declare_extend]
  by_cases doubled : (scope.any fun symbol => symbol.name == name) = true
  · simp only [if_pos doubled]
    exact ⟨_, rfl, rfl⟩
  · simp only [if_neg doubled]
    exact ⟨_, _, rfl, rfl, rfl, rfl⟩

/-- What a test says of the next token, if there is one. -/
def Ahead (test : Token → Prop) (tokens : List LocatedToken) : Prop :=
  ∀ located ∈ tokens.head?, test located.token

theorem ahead_cons {test : Token → Prop} {located : LocatedToken} (tail : List LocatedToken)
    (holds : test located.token) : Ahead test (located :: tail) := by
  intro head isHead
  cases isHead
  exact holds

theorem ahead_mono {weak strong : Token → Prop} {tokens : List LocatedToken}
    (ahead : Ahead strong tokens) (weaker : ∀ token, strong token → weak token) :
    Ahead weak tokens :=
  fun located isHead => weaker _ (ahead located isHead)

theorem bind_peek?_of_ahead {select : Token → Option σ} {state : State}
    (ahead : Ahead (fun token => select token = none) state.stream.tokens) :
    state.stream.peek?.bind select = none := by
  unfold TokenStream.peek?
  cases tokens : state.stream.tokens with
  | nil => rfl
  | cons head tail => exact ahead head (by rw [tokens]; rfl)

/-- Where items of a loop follow each other, the next token begins an item or what comes
after the loop. -/
theorem ahead_of_repeated {item : Grammar α} {test : Token → Prop} {rest : List LocatedToken}
    (starts : ∀ marks value, item marks value →
      ∃ located others, marks = .plain located :: others ∧ test located.token)
    (ahead : Ahead test rest) {marks : List Mark} {values : List α}
    (items : Repeated item marks values) : Ahead test (tokensOf marks ++ rest) := by
  cases items with
  | none => exact ahead
  | more one others =>
    obtain ⟨located, following, rfl, holds⟩ := starts _ _ one
    exact ahead_cons _ holds

/-- A loop reads its items one by one and ends where none is selected. -/
theorem follows_many {select : Token → Option σ} {body : σ → Parser α} {item : Grammar α}
    {rest : List LocatedToken} (near : ∀ choice, Local (body choice))
    (ends : Ahead (fun token => select token = none) rest)
    (each : ∀ marks value, item marks value → ∃ located choice inside,
      marks = .plain located :: inside ∧ select located.token = some choice ∧
        ∀ others values, Repeated item others values →
          Follows (body choice) inside value (tokensOf others ++ rest))
    {marks : List Mark} {values : List α} (items : Repeated item marks values) :
    Follows (many (begun select body)) marks values rest := by
  induction items with
  | none =>
    intro base scope around state table tokens
    have unselected : state.stream.peek?.bind select = none :=
      bind_peek?_of_ahead (by rw [tokens]; exact ends)
    rw [many_none select body unselected]
    exact ⟨scope, state, rfl, rfl, table, tokens⟩
  | more one others ih =>
    obtain ⟨located, choice, inside, rfl, selected, reads⟩ := each _ _ one
    apply follows_taking
    · intro state tail tokens
      exact many_some near tokens selected
    · exact follows_bind _ (reads _ _ others) (follows_return ih _)

theorem follows_nested {production : Parser α} {marks : List Mark} {value : α}
    {rest : List LocatedToken} (inside : Follows production marks value rest) :
    Follows (nested production) marks value rest := by
  intro base scope around state table tokens
  have deeper := inside base scope around { state with depth := state.depth + 1 } table tokens
  rw [nested_apply]
  cases passed : Scopes.pass base.lookup? (scope :: around) marks with
  | error finding =>
    rw [passed] at deeper
    obtain ⟨after, outcome, left⟩ := deeper
    rw [outcome]
    exact ⟨_, rfl, left⟩
  | ok scopes =>
    rw [passed] at deeper
    obtain ⟨scope, after, same, outcome, table, left⟩ := deeper
    rw [outcome]
    exact ⟨scope, _, same, rfl, table, left⟩

/-- A production reads all that a grammar derives, where the next token ends it. -/
def Completes (production : Parser α) (grammar : Grammar α) (ends : Token → Prop) : Prop :=
  ∀ marks value rest, grammar marks value → Ahead ends rest → Follows production marks value rest

end PlZero.Parser
