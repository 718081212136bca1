import PlZero.Proofs.Calls
import PlZero.Proofs.Completeness.Block
import PlZero.Proofs.Period
import PlZero.Proofs.Soundness.Block

/-!
# Programs, from the first token to the period

A parse over fresh tokens is a block with all levels, read over the table as it was
given, and a look at the period. So what a parse gives is known as soon as it is
known what the block gives: an error of the block, a block with the period behind
it, or a block behind which there is something else.
-/

namespace PlZero.Parser

set_option autoImplicit false

variable {limit : Nat} {tokens : List LocatedToken} {table : SymbolTable}

def fresh (tokens : List LocatedToken) (table : SymbolTable) : State :=
  { start tokens table with log := [.parsing tokens.length] }

def finish (block : Block) : Parser Outcome := do
  let accepted ← period
  tell (.parsed accepted)
  return ⟨block, accepted⟩

theorem parse_apply (limit : Nat) (tokens : List LocatedToken) (table : SymbolTable) :
    parse limit (start tokens table) = (block limit >>= finish) (fresh tokens table) := rfl

theorem ok_of_result {α : Type} {ended : EStateM.Result Fault State α} {value : α}
    (found : result ended = .ok value) : ∃ after, ended = .ok value after := by
  cases ended with
  | ok own after =>
    cases found
    exact ⟨after, rfl⟩
  | error fault after => cases found

theorem error_of_result {α : Type} {ended : EStateM.Result Fault State α} {fault : Fault}
    (found : result ended = .error fault) : ∃ after, ended = .error fault after := by
  cases ended with
  | ok own after => cases found
  | error own after =>
    cases found
    exact ⟨after, rfl⟩

theorem period_taken {state : State} {line : Nat} {rest : List LocatedToken}
    (ahead : state.stream.tokens = ⟨.symbol '.', line⟩ :: rest) :
    ∃ after, period state = .ok true after ∧ after.stream = ⟨rest, line⟩ := by
  have found : (Token.symbol '.').isSymbol '.' = true := rfl
  rw [period, bind_apply, atSymbol_apply, peek?_of_tokens ahead, Option.any_some, found]
  simp only [if_true]
  rw [advance_then ahead]
  cases rest with
  | nil => exact ⟨_, rfl, rfl⟩
  | cons head tail => exact ⟨_, rfl, rfl⟩

theorem period_absent {state : State}
    (other : Ahead (fun token => token ≠ .symbol '.') state.stream.tokens) :
    period state = .ok false state := by
  have absent : (state.stream.peek?.any fun token => token.isSymbol '.') = false := by
    unfold TokenStream.peek?
    cases ahead : state.stream.tokens with
    | nil => rfl
    | cons head tail =>
      rw [Bool.eq_false_iff]
      exact fun isPeriod => other head (by rw [ahead]; rfl) (Token.isSymbol_iff.mp isPeriod)
  rw [period, bind_apply, atSymbol_apply, absent]
  rfl

theorem period_ahead_or_other (tokens : List LocatedToken) :
    (∃ line rest, tokens = ⟨.symbol '.', line⟩ :: rest) ∨
      Ahead (fun token => token ≠ .symbol '.') tokens := by
  cases tokens with
  | nil => exact .inr fun _ member => by cases member
  | cons head tail =>
    obtain ⟨token, line⟩ := head
    by_cases isPeriod : token = .symbol '.'
    · exact .inl ⟨line, tail, by rw [isPeriod]⟩
    · exact .inr (ahead_cons tail isPeriod)

theorem finish_of_period (block : Block) {state : State} {line : Nat} {rest : List LocatedToken}
    (ahead : state.stream.tokens = ⟨.symbol '.', line⟩ :: rest) :
    ∃ after, finish block state = .ok ⟨block, true⟩ after ∧ after.stream = ⟨rest, line⟩ := by
  obtain ⟨after, outcome, left⟩ := period_taken ahead
  rw [finish, bind_apply, outcome]
  exact ⟨_, rfl, left⟩

theorem finish_of_other (block : Block) {state : State}
    (other : Ahead (fun token => token ≠ .symbol '.') state.stream.tokens) :
    ∃ after, finish block state = .ok ⟨block, false⟩ after ∧ after.stream = state.stream := by
  rw [finish, bind_apply, period_absent other]
  exact ⟨_, rfl, rfl⟩

theorem restored_finish (block : Block) : Leads Restored (finish block) := by
  refine restored_chained.leads_bind restored_period fun accepted => ?_
  exact restored_chained.leads_bind (restored_tell _) fun _ => restored_chained.leads_pure _

/-- All that a parse can come to, told from what its block comes to. -/
inductive Concludes (limit : Nat) (tokens : List LocatedToken) (table : SymbolTable) :
    EStateM.Result Fault State Outcome → Prop where
  | failed {fault : Fault} {after : State}
      (outcome : block limit (fresh tokens table) = .error fault after) :
      Concludes limit tokens table (.error fault after)
  | accepted {value : Block} {middle after : State} {line : Nat} {rest : List LocatedToken}
      (outcome : block limit (fresh tokens table) = .ok value middle)
      (ahead : middle.stream.tokens = ⟨.symbol '.', line⟩ :: rest)
      (stream : after.stream = ⟨rest, line⟩) :
      Concludes limit tokens table (.ok ⟨value, true⟩ after)
  | unaccepted {value : Block} {middle after : State}
      (outcome : block limit (fresh tokens table) = .ok value middle)
      (other : Ahead (fun token => token ≠ .symbol '.') middle.stream.tokens)
      (stream : after.stream = middle.stream) :
      Concludes limit tokens table (.ok ⟨value, false⟩ after)

theorem parse_concludes (limit : Nat) (tokens : List LocatedToken) (table : SymbolTable) :
    Concludes limit tokens table (parse limit (start tokens table)) := by
  rw [parse_apply, bind_apply]
  cases outcome : block limit (fresh tokens table) with
  | error fault after => exact .failed outcome
  | ok value middle =>
    simp only
    obtain ⟨line, rest, ahead⟩ | other := period_ahead_or_other middle.stream.tokens
    · obtain ⟨after, finished, stream⟩ := finish_of_period value ahead
      rw [finished]
      exact .accepted outcome ahead stream
    · obtain ⟨after, finished, stream⟩ := finish_of_other value other
      rw [finished]
      exact .unaccepted outcome other stream

/-- A program is refused by its block, or because something else than a period comes after it. -/
theorem failure_of_program {fault : Fault} {after : State}
    (failed : parseProgram limit (start tokens table) = .error fault after) :
    block limit (fresh tokens table) = .error fault after ∨
      ∃ value middle, block limit (fresh tokens table) = .ok value middle ∧
        Ahead (fun token => token ≠ .symbol '.') middle.stream.tokens ∧
        after.stream = middle.stream ∧
        fault = .violation .missingPeriod after.stream.line
          (after.stream.peek?.bind Token.identifier?) := by
  have concludes := parse_concludes limit tokens table
  rw [parseProgram, bind_apply] at failed
  generalize parse limit (start tokens table) = parsed at concludes failed
  cases concludes with
  | failed outcome =>
    cases failed
    exact .inl outcome
  | accepted outcome ahead stream => cases failed
  | unaccepted outcome other stream =>
    cases failed
    exact .inr ⟨_, _, outcome, other, stream, rfl⟩

/-- A call fails in its block, or because a program lacks its period. -/
theorem failed_call {call : Call} {fault : Fault} {after : State}
    (failed : call.run limit (start tokens table) = .error fault after) :
    block limit (fresh tokens table) = .error fault after ∨
      call = .program ∧ fault = .violation .missingPeriod after.stream.line
        (after.stream.peek?.bind Token.identifier?) := by
  cases call with
  | parse =>
    have concludes := parse_concludes limit tokens table
    have failed : parse limit (start tokens table) = .error fault after := failed
    rw [failed] at concludes
    cases concludes with
    | failed outcome => exact .inl outcome
  | program =>
    rcases failure_of_program failed with outcome | ⟨_, _, _, _, _, same⟩
    · exact .inl outcome
    · exact .inr ⟨rfl, same⟩

/-- A parse over a derived block and a period agrees with the pass over the names. -/
theorem parse_of_derived (table : SymbolTable) {marks : List Mark} {value : Block}
    (derived : IsBlock limit marks value) {line : Nat} {rest : List LocatedToken}
    (spelled : tokens = tokensOf marks ++ ⟨.symbol '.', line⟩ :: rest) :
    match Scopes.pass table.lookup? [] marks with
    | .ok _ => ∃ after, parse limit (start tokens table) = .ok ⟨value, true⟩ after ∧
        after.stream.tokens = rest
    | .error finding => ∃ after, parse limit (start tokens table) = .error finding.fault after ∧
        after.stream.tokens = tokensOf finding.unread ++ ⟨.symbol '.', line⟩ :: rest := by
  have ahead : Ahead EndsStatement (⟨.symbol '.', line⟩ :: rest) :=
    ahead_cons rest endsStatement_period
  have read := block_spans limit marks value _ derived ahead table [] (fresh tokens table) rfl
    spelled
  rw [parse_apply, bind_apply]
  cases passed : Scopes.pass table.lookup? [] marks with
  | error finding =>
    rw [passed] at read
    obtain ⟨after, outcome, left⟩ := read
    rw [outcome]
    exact ⟨after, rfl, left⟩
  | ok last =>
    rw [passed] at read
    obtain ⟨_, after, outcome, _, left⟩ := read
    obtain ⟨final, finished, stream⟩ := finish_of_period value left
    rw [outcome]
    exact ⟨final, finished, by rw [stream]⟩

/-- The tokens that the block of a program took are derived and in order. -/
theorem derived_of_block {value : Block} {middle : State}
    (outcome : block limit (fresh tokens table) = .ok value middle) :
    ∃ marks, IsBlock limit marks value ∧ tokens = tokensOf marks ++ middle.stream.tokens ∧
      Scopes.pass table.lookup? [] marks = .ok [] := by
  have accounted := sound_block limit table [] (fresh tokens table) rfl
  rw [outcome] at accounted
  obtain ⟨marks, derived, _, split, passed, _⟩ := accounted
  exact ⟨marks, derived, split, passed⟩

/-- What an accepted parse read is a derived block that is in order, and a period. -/
theorem derived_of_accepted {value : Block} {after : State}
    (accepted : parse limit (start tokens table) = .ok ⟨value, true⟩ after) :
    ∃ marks line, IsBlock limit marks value ∧
      tokens = tokensOf marks ++ ⟨.symbol '.', line⟩ :: after.stream.tokens ∧
      ObeysScoping table.lookup? marks := by
  have concludes := parse_concludes limit tokens table
  rw [accepted] at concludes
  cases concludes with
  | @accepted value middle after line rest outcome ahead stream =>
    obtain ⟨marks, derived, split, passed⟩ := derived_of_block outcome
    refine ⟨marks, line, derived, ?_, obeysScoping_iff_pass.mpr ⟨_, passed⟩⟩
    rw [stream, ← ahead]
    exact split

/-- What was read as a block is derived and in order, whether a period came after it or not. -/
theorem derived_of_parsed {outcome : Outcome} {after : State}
    (parsed : parse limit (start tokens table) = .ok outcome after) :
    ∃ marks rest, IsBlock limit marks outcome.block ∧ tokens = tokensOf marks ++ rest ∧
      Scopes.pass table.lookup? [] marks = .ok [] := by
  have concludes := parse_concludes limit tokens table
  rw [parsed] at concludes
  cases concludes with
  | accepted outcome | unaccepted outcome =>
    obtain ⟨marks, derived, split, passed⟩ := derived_of_block outcome
    exact ⟨marks, _, derived, split, passed⟩

end PlZero.Parser
