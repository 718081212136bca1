import PlZero.Proofs.Stream

/-!
# Calls of one parser

A parser can be called again and again, also after it has failed. Each call goes on with
the tokens that are left, over the table as it is. Whatever a call comes to, it leaves
every scope and every level that it opened, so the table and the depth are the old ones
afterwards, and the tokens left are the end of those that were there.
-/

namespace PlZero.Parser

set_option autoImplicit false

variable {α β σ : Type}

inductive Call where
  | parse
  | program
  deriving DecidableEq, Repr

namespace Call

def Answer : Call → Type
  | parse => Outcome
  | program => Block

def run (limit : Nat) : (call : Call) → Parser call.Answer
  | parse => Parser.parse limit
  | program => parseProgram limit

end Call

def State.afterCall (limit : Nat) (state : State) (call : Call) : State :=
  stateAfter (call.run limit state)

def State.afterCalls (limit : Nat) (state : State) (calls : List Call) : State :=
  calls.foldl (State.afterCall limit) state

/-- The table and the depth are the old ones, and tokens were taken from the head only. -/
structure Restored (before after : State) : Prop where
  table : after.table = before.table
  depth : after.depth = before.depth
  along : Along before after

theorem restored_chained : Chained Restored where
  same state := ⟨rfl, rfl, along_chained.same state⟩
  joined early late :=
    ⟨late.table.trans early.table, late.depth.trans early.depth,
      along_chained.joined early.along late.along⟩

/-- A block leaves its own scope, and with it all that was declared since. -/
theorem table_of_block (levels : Nat) (state : State) :
    (stateAfter (block levels state)).table = state.table := by
  cases levels with
  | zero => rfl
  | succ levels =>
    rw [block, nested_apply, inScope_eq_withTable (framed_blockBody levels)]
    cases blockBody (block levels) (statement levels) _ <;> rfl

theorem restored_block (levels : Nat) : Leads Restored (block levels) := fun state =>
  ⟨table_of_block levels state, (framed_block levels state).depth, along_block levels state⟩

theorem restored_advance : Leads Restored advance := by
  intro state
  have along := along_advance state
  obtain ⟨⟨tokens, last⟩, table, depth, log⟩ := state
  cases tokens <;> exact ⟨rfl, rfl, along⟩

theorem restored_tell (event : Event) : Leads Restored (tell event) :=
  fun _ => ⟨rfl, rfl, along_of_same rfl⟩

theorem restored_fail (broken : Violation) : Leads Restored (fail broken : Parser α) :=
  fun _ => ⟨rfl, rfl, along_of_same rfl⟩

theorem restored_period : Leads Restored period := by
  refine restored_chained.leads_bind restored_chained.same fun found => ?_
  cases found with
  | false => exact restored_chained.leads_pure false
  | true =>
    refine restored_chained.leads_bind restored_advance fun _ => ?_
    refine restored_chained.leads_bind restored_chained.same fun state => ?_
    dsimp only
    split
    · exact restored_chained.leads_bind (restored_tell _) fun _ => restored_chained.leads_pure true
    · exact restored_chained.leads_pure true

theorem restored_parse (limit : Nat) : Leads Restored (parse limit) := by
  refine restored_chained.leads_bind restored_chained.same fun state => ?_
  refine restored_chained.leads_bind (restored_tell _) fun _ => ?_
  refine restored_chained.leads_bind (restored_block _) fun block => ?_
  refine restored_chained.leads_bind restored_period fun accepted => ?_
  exact restored_chained.leads_bind (restored_tell _) fun _ => restored_chained.leads_pure _

theorem restored_call (limit : Nat) (call : Call) : Leads Restored (call.run limit) := by
  cases call with
  | parse => exact restored_parse limit
  | program =>
    refine restored_chained.leads_bind (restored_parse limit) fun outcome => ?_
    split
    · exact restored_chained.leads_pure _
    · exact restored_fail .missingPeriod

/-- A call over fresh tokens stops between the tokens that it took and those that it left. -/
theorem place_of_call (call : Call) (limit : Nat) (tokens : List LocatedToken)
    (table : SymbolTable) :
    let after := stateAfter (call.run limit (start tokens table))
    ∃ taken, tokens = taken ++ after.stream.tokens ∧
      after.stream.line = lineBetween taken after.stream.tokens := by
  obtain ⟨taken, comes⟩ := (restored_call limit call (start tokens table)).along
  exact ⟨taken, comes.tokens, TokenStream.line_of_comesTo comes⟩

/-- What a call leaves as it was, any number of calls leave as it was. -/
theorem restored_calls (limit : Nat) (calls : List Call) (state : State) :
    Restored state (state.afterCalls limit calls) := by
  induction calls generalizing state with
  | nil => exact restored_chained.same state
  | cons call calls ih =>
    exact restored_chained.joined (restored_call limit call state) (ih (state.afterCall limit call))

/-- After each of any calls the table is the one before that call, no level is open, and the
tokens left are the end of those before it. -/
theorem calls_restore_table_and_depth (limit : Nat) (tokens : List LocatedToken)
    (table : SymbolTable) (earlier : List Call) (call : Call) :
    let before := (start tokens table).afterCalls limit earlier
    let after := before.afterCall limit call
    after.table = before.table ∧ after.depth = 0 ∧
      after.stream.tokens <:+ before.stream.tokens := by
  intro before after
  have sofar := restored_calls limit earlier (start tokens table)
  have last : Restored before after := restored_call limit call before
  obtain ⟨taken, comes⟩ := last.along
  exact ⟨last.table, last.depth.trans sofar.depth, taken, comes.tokens.symm⟩

end PlZero.Parser
