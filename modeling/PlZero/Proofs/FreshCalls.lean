import PlZero.Proofs.Indifference
import PlZero.Proofs.Program

/-!
# Calls as if they were the first

Earlier calls of a parser, whatever they came to, have no part in a later one. While
tokens are left, a call does what it would do on a new parser over these tokens. Once
none is left, every call finds an empty block, which has no period after it, and all that
is remembered is the line of the last token.
-/

namespace PlZero.Parser

set_option autoImplicit false

variable {α : Type}

/-- What a call comes to when there is no token, by the line that is remembered. The empty block
takes one level and its empty statement another. -/
def Call.onNothing (limit line : Nat) : (call : Call) → Except Fault call.Answer
  | .parse =>
    if limit < 2 then .error (.nestingTooDeep limit line) else .ok ⟨.statement .pass, false⟩
  | .program =>
    if limit < 2 then .error (.nestingTooDeep limit line)
    else .error (.violation .missingPeriod line none)

theorem indifferent_call (limit : Nat) (call : Call) :
    Indifferent (call.run limit) (call.run limit) := by
  cases call with
  | parse => exact indifferent_parse limit
  | program =>
    refine indifferent_bind (indifferent_parse limit) fun outcome => ?_
    split
    · exact indifferent_pure _
    · exact indifferent_fail .missingPeriod

theorem result_of_endAlike {first second : EStateM.Result Fault State α}
    (alike : EndAlike first second) :
    result first = result second ∧ Indistinct (stateAfter first) (stateAfter second) := by
  cases alike with
  | ok value same => exact ⟨rfl, same⟩
  | error fault same => exact ⟨rfl, same⟩

/-- After any calls a parser is not told from a new one over the tokens that are left. Only at the
end of the tokens does it remember a line that a new one has never seen. -/
theorem afterCalls_indistinct (limit : Nat) (tokens : List LocatedToken) (table : SymbolTable)
    (earlier : List Call)
    (left : ((start tokens table).afterCalls limit earlier).stream.tokens ≠ []) :
    Indistinct ((start tokens table).afterCalls limit earlier)
      (start ((start tokens table).afterCalls limit earlier).stream.tokens table) := by
  have restored := restored_calls limit earlier (start tokens table)
  refine ⟨rfl, ?_, restored.table, restored.depth⟩
  obtain ⟨head, rest, split⟩ := List.exists_cons_of_ne_nil left
  rw [TokenStream.line, split]
  rfl

theorem line_afterCalls {limit : Nat} {tokens : List LocatedToken} {table : SymbolTable}
    {earlier : List Call}
    (dry : ((start tokens table).afterCalls limit earlier).stream.tokens = []) :
    ((start tokens table).afterCalls limit earlier).stream.line =
      (tokens.getLast?.map LocatedToken.line).getD firstLine := by
  obtain ⟨taken, comes⟩ := (restored_calls limit earlier (start tokens table)).along
  have whole : tokens = taken := by
    have split := comes.tokens
    rw [dry, List.append_nil] at split
    exact split
  have here := TokenStream.line_of_comesTo comes
  rw [dry, ← whole] at here
  exact here

def State.told (state : State) (event : Event) : State :=
  { state with log := event :: state.log }

theorem parse_of_outermost (limit : Nat) {state : State} (outermost : state.depth = 0) :
    parse limit state =
      (block limit >>= finish) (state.told (.parsing state.stream.length)) := by
  have begun : parse limit state =
      (block (limit - state.depth) >>= finish) (state.told (.parsing state.stream.length)) := rfl
  rwa [outermost, Nat.sub_zero] at begun

section Dry

variable {state : State} (dry : state.stream.tokens = [])
include dry

theorem peek?_dry : state.stream.peek? = none := by
  rw [TokenStream.peek?, dry]
  rfl

/-- Where no token is left, a block is its statement. -/
theorem blockBody_dry (inner : Parser Block) (final : Parser Statement) :
    blockBody inner final state = (do return Block.statement (← final)) state := by
  apply blockBody_of_unled
  rw [dry]
  exact fun _ member => by cases member

theorem statementBody_dry (inner : Parser Statement) (value : Parser Expression) :
    statementBody inner value state = .ok .pass state := by
  rw [statementBody, bind_apply, peek?_apply, peek?_dry dry]
  rfl

theorem block_dry_of_few {limit : Nat} (few : limit < 2) (outermost : state.depth = 0) :
    ∃ after, block limit state = .error (.nestingTooDeep limit state.stream.line) after := by
  match limit, few with
  | 0, _ =>
    rw [block, tooDeep_apply, outermost]
    exact ⟨state, rfl⟩
  | 1, _ =>
    have inside : (State.entered { state with depth := state.depth + 1 }).stream.tokens = [] := dry
    rw [block, nested_apply, inScope_eq_withTable (framed_blockBody 0), blockBody_dry inside,
      bind_apply, statement, tooDeep_apply]
    simp only [State.entered, outermost]
    exact ⟨_, rfl⟩

theorem block_dry_of_enough {limit : Nat} (enough : 2 ≤ limit) :
    ∃ after, after.stream = state.stream ∧ block limit state = .ok (.statement .pass) after := by
  obtain ⟨levels, rfl⟩ := Nat.exists_eq_add_of_le' enough
  have inside : (State.entered { state with depth := state.depth + 1 }).stream.tokens = [] := dry
  rw [block, nested_apply, inScope_eq_withTable (framed_blockBody (levels + 1)),
    blockBody_dry inside, bind_apply, statement, nested_apply, statementBody_dry (by exact inside)]
  refine ⟨_, ?_, rfl⟩
  rfl

/-- The result of a call to a parser that has no token left and no level open. -/
theorem call_dry (limit : Nat) (outermost : state.depth = 0) (call : Call) :
    result (call.run limit state) = call.onNothing limit state.stream.line := by
  have toldDry : (state.told (.parsing state.stream.length)).stream.tokens = [] := dry
  have begun : parse limit state =
      (block limit >>= finish) (state.told (.parsing state.stream.length)) :=
    parse_of_outermost limit outermost
  by_cases few : limit < 2
  · obtain ⟨after, outcome⟩ := block_dry_of_few toldDry few outermost
    rw [bind_apply, outcome] at begun
    cases call with
    | parse =>
      rw [Call.run, begun, Call.onNothing, if_pos few]
      rfl
    | program =>
      rw [Call.run, parseProgram, bind_apply, begun, Call.onNothing, if_pos few]
      rfl
  · obtain ⟨middle, stream, outcome⟩ := block_dry_of_enough toldDry (Nat.le_of_not_lt few)
    have absent : Ahead (fun token => token ≠ .symbol '.') middle.stream.tokens := by
      rw [stream, toldDry]
      exact fun _ member => by cases member
    obtain ⟨after, finished, same⟩ := finish_of_other (.statement .pass) absent
    rw [bind_apply, outcome] at begun
    simp only [finished] at begun
    cases call with
    | parse =>
      rw [Call.run, begun, Call.onNothing, if_neg few]
      rfl
    | program =>
      have here : after.stream = state.stream := same.trans stream
      rw [Call.run, parseProgram, bind_apply, begun, Call.onNothing, if_neg few]
      simp only [Bool.false_eq_true, if_false]
      rw [fail_apply, here, peek?_dry dry]
      rfl

end Dry

/-- Each call does what it would do on a new parser over the tokens that are left, in whatever way
the earlier calls ended. When none is left it finds nothing, on the line of the last token. -/
theorem calls_leave_nothing_hidden (limit : Nat) (tokens : List LocatedToken)
    (table : SymbolTable) (earlier : List Call) (call : Call) :
    let before := (start tokens table).afterCalls limit earlier
    let anew := start before.stream.tokens table
    (before.stream.tokens ≠ [] →
      result (call.run limit before) = result (call.run limit anew) ∧
        (before.afterCall limit call).stream.tokens =
          (anew.afterCall limit call).stream.tokens) ∧
    (before.stream.tokens = [] →
      result (call.run limit before) =
        call.onNothing limit ((tokens.getLast?.map LocatedToken.line).getD firstLine)) := by
  intro before anew
  constructor
  · intro left
    have same : Indistinct before anew := afterCalls_indistinct limit tokens table earlier left
    obtain ⟨results, afterwards⟩ :=
      result_of_endAlike (indifferent_call limit call before anew same)
    exact ⟨results, afterwards.tokens⟩
  · intro dry
    have outermost : before.depth = 0 := (restored_calls limit earlier (start tokens table)).depth
    have last : before.stream.line = _ := line_afterCalls dry
    rw [call_dry dry limit outermost call, last]

def programAndMore : List LocatedToken :=
  [⟨.keyword .printKw, 1⟩, ⟨.number 7, 1⟩, ⟨.symbol '.', 1⟩, ⟨.keyword .printKw, 2⟩]

/-- After an accepted program the next one fails like the first of its parser, and after this
failure there is nothing left. -/
theorem calls_after_program_and_failure :
    result (parseProgram 3 ((start programAndMore .empty).afterCalls 3 [.parse])) =
        .error (.violation .missingOpenParen 2 none) ∧
      result (parseProgram 3 ((start programAndMore .empty).afterCalls 3 [.parse, .program])) =
        .error (.violation .missingPeriod 2 none) := by
  constructor
  · have left : ((start programAndMore .empty).afterCalls 3 [.parse]).stream.tokens =
        [⟨.keyword .printKw, 2⟩] := rfl
    have more : ((start programAndMore .empty).afterCalls 3 [.parse]).stream.tokens ≠ [] := by
      rw [left]
      exact List.cons_ne_nil _ _
    have afresh := (calls_leave_nothing_hidden 3 programAndMore .empty [.parse] .program).1 more
    exact afresh.1
  · have dry : ((start programAndMore .empty).afterCalls 3 [.parse, .program]).stream.tokens = [] :=
      rfl
    exact (calls_leave_nothing_hidden 3 programAndMore .empty [.parse, .program] .program).2 dry

end PlZero.Parser
