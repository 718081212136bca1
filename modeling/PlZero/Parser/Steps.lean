import PlZero.Parser.Basic

/-!
# Parser steps on a state

What each basic step does to a state, in one equation per step. The equations
let an argument about a production follow its steps without opening the monad:
`bind_apply` runs the first step, and the equation of that step says where it
leads. Main statements: a level that was opened is closed again on both ways out
(`nested_apply`), and so is a scope (`inScope_apply`).
-/

namespace PlZero.Parser

set_option autoImplicit false

variable {α β : Type}

theorem bind_apply (first : Parser α) (next : α → Parser β) (state : State) :
    (first >>= next) state =
      match first state with
      | .ok value after => next value after
      | .error fault after => .error fault after := by
  simp only [bind, EStateM.bind]
  cases first state <;> rfl

theorem pure_apply (value : α) (state : State) : (pure value : Parser α) state = .ok value state :=
  rfl

theorem get_apply (state : State) : (get : Parser State) state = .ok state state := rfl

theorem modify_apply (change : State → State) (state : State) :
    (modify change : Parser Unit) state = .ok () (change state) := rfl

theorem tell_apply (event : Event) (state : State) :
    tell event state = .ok () { state with log := event :: state.log } := rfl

theorem peek?_apply (state : State) : peek? state = .ok state.stream.peek? state := rfl

theorem line_apply (state : State) : line state = .ok state.stream.line state := rfl

theorem advance_apply (state : State) :
    advance state =
      match state.stream.tokens with
      | [] => .error .emptyTokenStream state
      | head :: rest => .ok () { state with stream := ⟨rest, head.line⟩ } := by
  obtain ⟨⟨tokens, last⟩, table, depth, log⟩ := state
  cases tokens <;> rfl

/-- A failure blames the head of the stream and leaves the stream alone. -/
theorem fail_apply (broken : Violation) (state : State) :
    (fail broken : Parser α) state =
      .error
        (.violation broken state.stream.line (state.stream.peek?.bind Token.identifier?))
        { state with log := .violation broken state.stream.line :: state.log } := rfl

theorem atKeyword_apply (keyword : Keyword) (state : State) :
    atKeyword keyword state =
      .ok (state.stream.peek?.any fun token => token.isKeyword keyword.id) state := rfl

theorem expectKeyword_apply (keyword : Keyword) (broken : Violation) (state : State) :
    expectKeyword keyword broken state =
      if state.stream.peek?.any fun token => token.isKeyword keyword.id then advance state
      else (fail broken : Parser Unit) state := by
  simp only [expectKeyword, bind_apply, atKeyword_apply]
  split <;> rfl

/-- A look at the head leaves it there, so the reserved word that it has seen can be taken. -/
theorem expectKeyword_of_atKeyword (keyword : Keyword) (broken : Violation)
    (next other : Parser α) :
    (do if ← atKeyword keyword then (do expectKeyword keyword broken; next) else other) =
      (do if ← atKeyword keyword then (do advance; next) else other) := by
  funext state
  simp only [bind_apply, atKeyword_apply]
  cases seen : state.stream.peek?.any fun token => token.isKeyword keyword.id with
  | false => rfl
  | true =>
    have taken : expectKeyword keyword broken state = advance state := by
      rw [expectKeyword_apply, seen, if_pos rfl]
    simp only [if_true, bind_apply, taken]

theorem atSymbol_apply (char : Char) (state : State) :
    atSymbol char state = .ok (state.stream.peek?.any fun token => token.isSymbol char) state :=
  rfl

theorem declare_apply (name : String) (kind : SymbolKind) (line : Nat) (state : State) :
    declare name kind line state =
      match state.table.declare name kind line with
      | .ok table => .ok () { state with table := table }
      | .error fault =>
        .error fault { state with log := .doubleDeclaration name line :: state.log } := by
  simp only [declare, bind_apply, get_apply]
  cases state.table.declare name kind line <;> rfl

theorem resolve_apply (name : String) (state : State) :
    resolve name state =
      match state.table.lookup? name with
      | some kind => .ok kind state
      | none =>
        .error (.violation .undeclared state.stream.line (some name))
          { state with log := .undeclared name :: state.log } := by
  simp only [resolve, bind_apply, get_apply]
  cases state.table.lookup? name <;> rfl

theorem leaveScope_apply (state : State) :
    leaveScope state =
      match state.table.leaveScope with
      | .ok table => .ok () { state with table := table }
      | .error fault => .error fault state := by
  simp only [leaveScope, bind_apply, get_apply]
  cases state.table.leaveScope <;> rfl

/-- A level is closed again whether the production succeeded or not. -/
theorem nested_apply (production : Parser α) (state : State) :
    nested production state =
      match production { state with depth := state.depth + 1 } with
      | .ok value after => .ok value { after with depth := after.depth - 1 }
      | .error fault after => .error fault { after with depth := after.depth - 1 } := by
  simp only [nested, bind_apply, modify_apply, tryFinally, MonadFinally.tryFinally', Functor.map,
    EStateM.map]
  cases production { state with depth := state.depth + 1 } <;> rfl

/-- A scope is left again whether the production succeeded or not. -/
theorem inScope_apply (production : Parser α) (state : State) :
    inScope production state =
      match production
          { state with
            table := state.table.enterScope
            log := .blockEntered state.table.enterScope.depth :: state.log } with
      | .ok value after =>
        match after.table.leaveScope with
        | .ok table => .ok value { after with table := table }
        | .error fault => .error fault after
      | .error fault after =>
        match after.table.leaveScope with
        | .ok table => .error fault { after with table := table }
        | .error underflow => .error underflow after := by
  simp only [inScope, enterScope, tell_apply, bind_apply, modify_apply, get_apply, tryFinally,
    MonadFinally.tryFinally', Functor.map, EStateM.map]
  cases production _ with
  | ok value after =>
    simp only [leaveScope_apply]
    cases after.table.leaveScope <;> rfl
  | error fault after =>
    simp only [leaveScope_apply]
    cases after.table.leaveScope <;> rfl

theorem tooDeep_apply (state : State) :
    (tooDeep : Parser α) state = .error (.nestingTooDeep state.depth state.stream.line) state :=
  rfl

theorem many_apply (item? : Parser (Option α)) (state : State) :
    many item? state = manyWithin item? state.stream.tokens state := rfl

end PlZero.Parser
