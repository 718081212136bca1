import PlZero.Proofs.Frame

/-!
# One token of lookahead

A production takes some tokens off the stream and, apart from them, looks at
the head of what it leaves and at nothing behind it. So its outcome stays the
same when everything after that head is exchanged. The loops need the most
care: they are bounded by the tokens at hand, and the bound never bites.
-/

namespace PlZero.Parser

set_option autoImplicit false

variable {α β σ : Type}

def State.withTokens (state : State) (tokens : List LocatedToken) : State :=
  { state with stream := { state.stream with tokens := tokens } }

def leaving (tokens : List LocatedToken) :
    EStateM.Result Fault State α → EStateM.Result Fault State α
  | .ok value after => .ok value (after.withTokens tokens)
  | .error fault after => .error fault (after.withTokens tokens)

/-- Of the tokens that a production leaves, its outcome from a state depends on the
first only. -/
def LocalAt (production : Parser α) (state : State) : Prop :=
  ∃ consumed,
    state.stream.tokens = consumed ++ (stateAfter (production state)).stream.tokens ∧
      ∀ rest, rest.head? = (stateAfter (production state)).stream.tokens.head? →
        production (state.withTokens (consumed ++ rest)) = leaving rest (production state)

def Local (production : Parser α) : Prop := ∀ state, LocalAt production state

theorem local_length {production : Parser α} (near : Local production) (state : State) :
    (stateAfter (production state)).stream.tokens.length ≤ state.stream.tokens.length := by
  obtain ⟨consumed, split, _⟩ := near state
  rw [split, List.length_append]
  exact Nat.le_add_left _ _

theorem peek?_withTokens {state : State} {rest : List LocatedToken}
    (same : rest.head? = state.stream.tokens.head?) :
    (state.withTokens rest).stream.peek? = state.stream.peek? := by
  simp only [State.withTokens, TokenStream.peek?, same]

theorem line_withTokens {state : State} {rest : List LocatedToken}
    (same : rest.head? = state.stream.tokens.head?) :
    (state.withTokens rest).stream.line = state.stream.line := by
  obtain ⟨⟨tokens, last⟩, table, depth, log⟩ := state
  cases tokens <;> cases rest <;> simp_all [State.withTokens, TokenStream.line]

theorem peek?_of_tokens {state : State} {located : LocatedToken} {tail : List LocatedToken}
    (tokens : state.stream.tokens = located :: tail) :
    state.stream.peek? = some located.token := by
  rw [TokenStream.peek?, tokens]
  rfl

theorem tokens_of_peek? {state : State} {token : Token} (head : state.stream.peek? = some token) :
    ∃ line tail, state.stream.tokens = ⟨token, line⟩ :: tail := by
  unfold TokenStream.peek? at head
  cases tokens : state.stream.tokens with
  | nil => simp [tokens] at head
  | cons first tail =>
    rw [tokens] at head
    obtain ⟨token, line⟩ := first
    cases head
    exact ⟨line, tail, rfl⟩

theorem peek_then {state : State} {located : LocatedToken} {tail : List LocatedToken}
    (tokens : state.stream.tokens = located :: tail) (next : Option Token → Parser α) :
    (peek? >>= next) state = next (some located.token) state := by
  rw [bind_apply, peek?_apply, peek?_of_tokens tokens]

theorem advance_then {state : State} {located : LocatedToken} {tail : List LocatedToken}
    (tokens : state.stream.tokens = located :: tail) (next : Unit → Parser α) :
    (advance >>= next) state = next () { state with stream := ⟨tail, located.line⟩ } := by
  rw [bind_apply, advance_apply, tokens]

theorem local_of_still {production : Parser α}
    (still : ∀ state, (stateAfter (production state)).stream.tokens = state.stream.tokens)
    (near : ∀ state rest, rest.head? = state.stream.tokens.head? →
      production (state.withTokens rest) = leaving rest (production state)) :
    Local production := by
  intro state
  refine ⟨[], by rw [still]; rfl, ?_⟩
  intro rest same
  rw [still] at same
  exact near state rest same

theorem local_pure (value : α) : Local (pure value : Parser α) :=
  local_of_still (fun _ => rfl) fun _ _ _ => rfl

theorem localAt_bind {first : Parser α} {next : α → Parser β} {state : State}
    (firstNear : LocalAt first state)
    (nextNear : ∀ value middle, first state = .ok value middle → LocalAt (next value) middle) :
    LocalAt (first >>= next) state := by
  obtain ⟨consumed, split, same⟩ := firstNear
  unfold LocalAt
  rw [bind_apply]
  cases outcome : first state with
  | error fault after =>
    rw [outcome] at split same
    refine ⟨consumed, split, fun rest agree => ?_⟩
    rw [bind_apply, same rest agree]
    rfl
  | ok value middle =>
    rw [outcome] at split same
    obtain ⟨more, splitMore, sameMore⟩ := nextNear value middle outcome
    refine ⟨consumed ++ more, ?_, fun rest agree => ?_⟩
    · rw [split, List.append_assoc]
      exact congrArg (consumed ++ ·) splitMore
    · have agreeMiddle : (more ++ rest).head? = middle.stream.tokens.head? := by
        rw [splitMore, List.head?_append, List.head?_append]
        exact congrArg (more.head?.or ·) agree
      rw [List.append_assoc, bind_apply, same (more ++ rest) agreeMiddle]
      exact sameMore rest agree

theorem local_bind {first : Parser α} {next : α → Parser β} (firstNear : Local first)
    (nextNear : ∀ value, Local (next value)) : Local (first >>= next) :=
  fun state => localAt_bind (firstNear state) fun value middle _ => nextNear value middle

theorem local_advance : Local advance := by
  intro state
  obtain ⟨⟨tokens, last⟩, table, depth, log⟩ := state
  cases tokens with
  | nil =>
    refine ⟨[], rfl, fun rest agree => ?_⟩
    have empty : rest = [] := List.head?_eq_none_iff.mp agree
    subst empty
    rfl
  | cons head tail => exact ⟨[head], rfl, fun rest _ => rfl⟩

theorem local_fail (broken : Violation) : Local (fail broken : Parser α) := by
  refine local_of_still (fun _ => rfl) fun state rest same => ?_
  rw [fail_apply, fail_apply, peek?_withTokens same, line_withTokens same]
  rfl

theorem local_declare (name : String) (kind : SymbolKind) (line : Nat) :
    Local (declare name kind line) := by
  refine local_of_still (fun state => ?_) fun state rest same => ?_
  · rw [declare_apply]
    cases state.table.declare name kind line <;> rfl
  · rw [declare_apply, declare_apply]
    simp only [State.withTokens]
    cases state.table.declare name kind line <;> rfl

theorem local_resolve (name : String) : Local (resolve name) := by
  refine local_of_still (fun state => ?_) fun state rest same => ?_
  · rw [resolve_apply]
    cases state.table.lookup? name <;> rfl
  · rw [resolve_apply, resolve_apply, line_withTokens same]
    simp only [State.withTokens]
    cases state.table.lookup? name <;> rfl

/-- What is done before and after a production, apart from the stream, leaves it local. -/
theorem local_wrapped {production wrapped : Parser α} (near : Local production)
    (before : State → State)
    (after : EStateM.Result Fault State α → EStateM.Result Fault State α)
    (runs : ∀ state, wrapped state = after (production (before state)))
    (beforeTokens : ∀ state, (before state).stream.tokens = state.stream.tokens)
    (beforeWith : ∀ state rest, before (state.withTokens rest) = (before state).withTokens rest)
    (afterTokens : ∀ result,
      (stateAfter (after result)).stream.tokens = (stateAfter result).stream.tokens)
    (afterLeaving : ∀ result rest, after (leaving rest result) = leaving rest (after result)) :
    Local wrapped := by
  intro state
  obtain ⟨consumed, split, same⟩ := near (before state)
  rw [beforeTokens] at split
  refine ⟨consumed, by rw [runs, afterTokens, split], fun rest agree => ?_⟩
  rw [runs, afterTokens] at agree
  rw [runs, runs, beforeWith, same rest agree, afterLeaving]

theorem local_nested {production : Parser α} (near : Local production) :
    Local (nested production) := by
  refine local_wrapped near (fun state => { state with depth := state.depth + 1 })
    (fun
      | .ok value after => .ok value { after with depth := after.depth - 1 }
      | .error fault after => .error fault { after with depth := after.depth - 1 })
    (fun state => ?_) (fun _ => rfl) (fun _ _ => rfl) (fun result => ?_) fun result rest => ?_
  · exact nested_apply production state
  · cases result <;> rfl
  · cases result <;> rfl

theorem local_inScope {production : Parser α} (near : Local production) :
    Local (inScope production) := by
  refine local_wrapped near State.entered closed (fun state => inScope_eq_closed production state)
    (fun _ => rfl) (fun _ _ => rfl) (fun result => ?_) fun result rest => ?_
  · cases result with
    | ok value after | error fault after =>
      simp only [closed]
      split <;> rfl
  · cases result with
    | ok value after | error fault after =>
      simp only [closed, leaving, State.withTokens]
      cases after.table.leaveScope <;> rfl

/-- A bound that is not shorter than the tokens at hand does not end a loop. -/
theorem manyWithin_bound {item? : Parser (Option α)}
    (idle : ∀ state, state.stream.tokens = [] → item? state = .ok none state)
    (progress : ∀ state value after, item? state = .ok (some value) after →
      after.stream.tokens.length < state.stream.tokens.length)
    (bound other : List LocatedToken) (state : State)
    (enough : state.stream.tokens.length ≤ bound.length)
    (otherEnough : state.stream.tokens.length ≤ other.length) :
    manyWithin item? bound state = manyWithin item? other state := by
  induction bound generalizing other state with
  | nil =>
    have empty : state.stream.tokens = [] := List.length_eq_zero_iff.mp (Nat.le_zero.mp enough)
    cases other with
    | nil => rfl
    | cons first others => simp only [manyWithin, bind_apply, idle state empty]
  | cons first bound ih =>
    cases other with
    | nil =>
      have empty : state.stream.tokens = [] :=
        List.length_eq_zero_iff.mp (Nat.le_zero.mp otherEnough)
      simp only [manyWithin, bind_apply, idle state empty]
    | cons second others =>
      simp only [manyWithin, bind_apply]
      cases outcome : item? state with
      | error fault after => rfl
      | ok value? after =>
        cases value? with
        | none => rfl
        | some value =>
          have shorter := progress state value after outcome
          simp only [List.length_cons] at enough otherEnough
          simp only [bind_apply, ih others after (by omega) (by omega)]

theorem head_of_selected {select : Token → Option σ} {state : State} {choice : σ}
    (found : state.stream.peek?.bind select = some choice) :
    ∃ head tail, state.stream.tokens = head :: tail ∧ select head.token = some choice := by
  cases tokens : state.stream.tokens with
  | nil => simp [TokenStream.peek?, tokens] at found
  | cons head tail => exact ⟨head, tail, rfl, by simpa [TokenStream.peek?, tokens] using found⟩

theorem begun_none (select : Token → Option σ) (body : σ → Parser α) {state : State}
    (unselected : state.stream.peek?.bind select = none) :
    begun select body state = .ok none state := by
  simp only [begun, bind_apply, peek?_apply, unselected]
  rfl

theorem begun_some {select : Token → Option σ} (body : σ → Parser α) {state : State}
    {head : LocatedToken} {tail : List LocatedToken} {choice : σ}
    (tokens : state.stream.tokens = head :: tail) (selected : select head.token = some choice) :
    begun select body state =
      (body choice >>= fun value => pure (some value))
        { state with stream := ⟨tail, head.line⟩ } := by
  have found : state.stream.peek?.bind select = some choice := by
    rw [peek?_of_tokens tokens, Option.bind_some, selected]
  simp only [begun, bind_apply, peek?_apply, found, advance_apply, tokens]

theorem begun_progress (select : Token → Option σ) {body : σ → Parser α}
    (near : ∀ choice, Local (body choice)) (state : State) (value : α) (after : State)
    (outcome : begun select body state = .ok (some value) after) :
    after.stream.tokens.length < state.stream.tokens.length := by
  cases found : state.stream.peek?.bind select with
  | none =>
    rw [begun_none select body found] at outcome
    cases outcome
  | some choice =>
    obtain ⟨head, tail, tokens, selected⟩ := head_of_selected found
    rw [begun_some body tokens selected, bind_apply] at outcome
    have shorter := local_length (near choice) { state with stream := ⟨tail, head.line⟩ }
    cases run : body choice { state with stream := ⟨tail, head.line⟩ } with
    | error fault last =>
      rw [run] at outcome
      cases outcome
    | ok found last =>
      rw [run] at outcome shorter
      cases outcome
      rw [tokens]
      exact Nat.lt_succ_of_le shorter

theorem many_none (select : Token → Option σ) (body : σ → Parser α) {state : State}
    (unselected : state.stream.peek?.bind select = none) :
    many (begun select body) state = .ok [] state := by
  rw [many_apply]
  cases state.stream.tokens with
  | nil => rfl
  | cons head tail =>
    simp only [manyWithin, bind_apply, begun_none select body unselected]
    rfl

/-- A loop whose item is there goes on after the item, with no bound to look at. -/
theorem many_some {select : Token → Option σ} {body : σ → Parser α}
    (near : ∀ choice, Local (body choice)) {state : State}
    {head : LocatedToken} {tail : List LocatedToken} {choice : σ}
    (tokens : state.stream.tokens = head :: tail) (selected : select head.token = some choice) :
    many (begun select body) state =
      (do return (← body choice) :: (← many (begun select body)))
        { state with stream := ⟨tail, head.line⟩ } := by
  have shorter := local_length (near choice) { state with stream := ⟨tail, head.line⟩ }
  rw [many_apply, tokens]
  simp only [manyWithin, bind_apply, begun_some body tokens selected]
  cases run : body choice { state with stream := ⟨tail, head.line⟩ } with
  | error fault after => rfl
  | ok value after =>
    rw [run] at shorter
    simp only [pure_apply, bind_apply, many_apply]
    rw [manyWithin_bound (fun state empty => begun_none select body ?_)
      (begun_progress select near) tail after.stream.tokens after shorter (Nat.le_refl _)]
    simp [TokenStream.peek?, empty]

/-- Each round of a loop leaves fewer tokens, so what holds where the loop stops, and of a
round if it holds after it, holds of all rounds. -/
theorem loop_induction (select : Token → Option σ) {body : σ → Parser α}
    (near : ∀ choice, Local (body choice)) {motive : State → Prop}
    (stop : ∀ state, state.stream.peek?.bind select = none → motive state)
    (round : ∀ state head tail choice, state.stream.tokens = head :: tail →
      select head.token = some choice →
      (∀ value middle, body choice { state with stream := ⟨tail, head.line⟩ } = .ok value middle →
        motive middle) → motive state)
    (state : State) : motive state := by
  generalize size : state.stream.tokens.length = length
  induction length using Nat.strongRecOn generalizing state with
  | ind length ih =>
    cases found : state.stream.peek?.bind select with
    | none => exact stop state found
    | some choice =>
      obtain ⟨head, tail, tokens, selected⟩ := head_of_selected found
      apply round state head tail choice tokens selected
      intro value middle outcome
      have shorter := local_length (near choice) { state with stream := ⟨tail, head.line⟩ }
      rw [outcome] at shorter
      simp only [stateAfter] at shorter
      apply ih middle.stream.tokens.length _ middle rfl
      rw [← size, tokens, List.length_cons]
      omega

theorem local_many (select : Token → Option σ) {body : σ → Parser α}
    (near : ∀ choice, Local (body choice)) : Local (many (begun select body)) := by
  intro state
  induction state using loop_induction select near with
  | stop state found =>
    refine ⟨[], by rw [many_none select body found]; rfl, fun rest agree => ?_⟩
    rw [many_none select body found] at agree ⊢
    refine many_none select body ?_
    have sameHead : rest.head? = state.stream.tokens.head? := agree
    rw [List.nil_append, peek?_withTokens sameHead, found]
  | round state head tail choice tokens selected ih =>
    have further : LocalAt (do return (← body choice) :: (← many (begun select body)))
        { state with stream := ⟨tail, head.line⟩ } := by
      apply localAt_bind (near choice _)
      intro value middle outcome
      exact localAt_bind (ih value middle outcome) fun values last _ => local_pure _ last
    obtain ⟨consumed, split, same⟩ := further
    refine ⟨head :: consumed, ?_, fun rest agree => ?_⟩
    · rw [many_some near tokens selected, tokens]
      exact congrArg (head :: ·) split
    · rw [many_some near tokens selected] at agree ⊢
      rw [List.cons_append, many_some near rfl selected]
      exact same rest agree

theorem local_steps : Steps fun production _ => Local production where
  pure := local_pure
  bind := local_bind
  peek := local_of_still (fun _ => rfl) fun state rest same => by
    rw [peek?_apply, peek?_apply, peek?_withTokens same]
    rfl
  line := local_of_still (fun _ => rfl) fun state rest same => by
    rw [line_apply, line_apply, line_withTokens same]
    rfl
  advance := local_advance
  fail := local_fail
  tell _ _ := local_of_still (fun _ => rfl) fun _ _ _ => rfl
  declare := local_declare
  resolve := local_resolve
  nested := local_nested
  inScope := local_inScope
  many select _ _ near := local_many select near

theorem local_tooDeep : Local (tooDeep : Parser α) := by
  refine local_of_still (fun _ => rfl) fun state rest same => ?_
  rw [tooDeep_apply, tooDeep_apply, line_withTokens same]
  rfl

theorem local_factor {inner : Parser Expression} (near : Local inner) : Local (factor inner) :=
  @QuietCongruence.factor _ local_steps.quiet inner inner (fun _ => near) none

theorem local_term {inner : Parser Expression} (near : Local inner) : Local (term inner) :=
  @QuietCongruence.term _ local_steps.quiet inner inner (fun _ => near) none

theorem local_variableName : Local variableName :=
  @QuietCongruence.variable_name _ local_steps.quiet none

theorem local_constantDefinition : Local constantDefinition :=
  @QuietCongruence.constant_definition _ local_steps.quiet none

theorem local_procedureBody {inner : Parser Block} (near : Local inner) :
    Local (procedureBody inner) :=
  @Congruence.procedure_body _ local_steps.congruence inner inner (fun _ => near) none

theorem local_expression (levels : Nat) : Local (expression levels) :=
  (local_steps.descent local_tooDeep).expression levels none

theorem local_statement (levels : Nat) : Local (statement levels) :=
  (local_steps.descent local_tooDeep).statement levels none

theorem local_block (levels : Nat) : Local (block levels) :=
  (local_steps.descent local_tooDeep).block levels none

end PlZero.Parser
