import PlZero.Proofs.Lookahead

/-!
# Raising the nesting limit

Two descents that differ in the levels they may open do the same until the one
with fewer levels runs out of them. It stops there, and the other one goes on
from what is left at that point.
-/

namespace PlZero.Parser

set_option autoImplicit false

variable {α β σ : Type}

/-- From a state, a production with fewer levels ends as the one with more does, or it runs
out of levels on the way. -/
def RaisesAt (low high : Parser α) (state : State) : Prop :=
  low state = high state ∨
    ∃ limit line after taken,
      low state = .error (.nestingTooDeep limit line) after ∧
        after.stream.tokens = taken ++ (stateAfter (high state)).stream.tokens

structure Raises (low high : Parser α) : Prop where
  lowNear : Local low
  highNear : Local high
  lowFramed : Framed low
  highFramed : Framed high
  raises : ∀ state, RaisesAt low high state

theorem raises_same {production : Parser α} (near : Local production)
    (framed : Framed production) : Raises production production where
  lowNear := near
  highNear := near
  lowFramed := framed
  highFramed := framed
  raises _ := .inl rfl

theorem raisesAt_bind {low high : Parser α} {lowNext highNext : α → Parser β} {state : State}
    (first : RaisesAt low high state) (near : ∀ value, Local (highNext value))
    (next : ∀ value middle, high state = .ok value middle →
      RaisesAt (lowNext value) (highNext value) middle) :
    RaisesAt (low >>= lowNext) (high >>= highNext) state := by
  unfold RaisesAt
  rw [bind_apply, bind_apply]
  rcases first with same | ⟨limit, line, after, taken, stopped, split⟩
  · rw [same]
    cases outcome : high state with
    | error fault after => exact .inl rfl
    | ok value middle => exact next value middle outcome
  · refine .inr ⟨limit, line, after, ?_⟩
    rw [stopped]
    cases outcome : high state with
    | error fault last =>
      rw [outcome] at split
      exact ⟨taken, rfl, split⟩
    | ok value middle =>
      rw [outcome] at split
      obtain ⟨more, splitMore, _⟩ := near value middle
      refine ⟨taken ++ more, rfl, ?_⟩
      rw [split, List.append_assoc]
      exact congrArg (taken ++ ·) splitMore

theorem raises_bind {low high : Parser α} {lowNext highNext : α → Parser β}
    (first : Raises low high) (next : ∀ value, Raises (lowNext value) (highNext value)) :
    Raises (low >>= lowNext) (high >>= highNext) where
  lowNear := local_bind first.lowNear fun value => (next value).lowNear
  highNear := local_bind first.highNear fun value => (next value).highNear
  lowFramed := framed_bind first.lowFramed fun value => (next value).lowFramed
  highFramed := framed_bind first.highFramed fun value => (next value).highFramed
  raises state := raisesAt_bind (first.raises state) (fun value => (next value).highNear)
    fun value middle _ => (next value).raises middle

theorem raises_nested {low high : Parser α} (inside : Raises low high) :
    Raises (nested low) (nested high) where
  lowNear := local_nested inside.lowNear
  highNear := local_nested inside.highNear
  lowFramed := framed_nested inside.lowFramed
  highFramed := framed_nested inside.highFramed
  raises state := by
    unfold RaisesAt
    rw [nested_apply, nested_apply]
    rcases inside.raises { state with depth := state.depth + 1 } with
      same | ⟨limit, line, after, taken, stopped, split⟩
    · exact .inl (by rw [same])
    · rw [stopped]
      refine .inr ⟨limit, line, _, taken, rfl, ?_⟩
      cases outcome : high { state with depth := state.depth + 1 } with
      | ok value last | error fault last =>
        rw [outcome] at split
        exact split

theorem raises_inScope {low high : Parser α} (inside : Raises low high) :
    Raises (inScope low) (inScope high) where
  lowNear := local_inScope inside.lowNear
  highNear := local_inScope inside.highNear
  lowFramed := framed_inScope inside.lowFramed
  highFramed := framed_inScope inside.highFramed
  raises state := by
    unfold RaisesAt
    rw [inScope_eq_withTable inside.lowFramed, inScope_eq_withTable inside.highFramed]
    rcases inside.raises state.entered with same | ⟨limit, line, after, taken, stopped, split⟩
    · exact .inl (by rw [same])
    · rw [stopped]
      refine .inr ⟨limit, line, _, taken, rfl, ?_⟩
      cases outcome : high state.entered with
      | ok value last | error fault last =>
        rw [outcome] at split
        exact split

theorem raises_many (select : Token → Option σ) {low high : σ → Parser α}
    (inside : ∀ choice, Raises (low choice) (high choice)) :
    Raises (many (begun select low)) (many (begun select high)) where
  lowNear := local_many select fun choice => (inside choice).lowNear
  highNear := local_many select fun choice => (inside choice).highNear
  lowFramed := framed_many select fun choice => (inside choice).lowFramed
  highFramed := framed_many select fun choice => (inside choice).highFramed
  raises state := by
    have lowNear choice := (inside choice).lowNear
    have highNear choice := (inside choice).highNear
    induction state using loop_induction select highNear with
    | stop state found =>
      exact .inl (by rw [many_none select _ found, many_none select _ found])
    | round state head tail choice tokens selected ih =>
      unfold RaisesAt
      rw [many_some lowNear tokens selected, many_some highNear tokens selected]
      refine raisesAt_bind ((inside choice).raises _)
        (fun _ => local_bind (local_many select highNear) fun _ => local_pure _)
        fun value middle outcome => ?_
      exact raisesAt_bind (ih value middle outcome) (fun _ => local_pure _) fun _ _ _ => .inl rfl

theorem raises_steps : Steps Raises where
  pure value := raises_same (local_pure value) (frame_chained.leads_pure value)
  bind := raises_bind
  peek := raises_same local_steps.peek framed_steps.peek
  line := raises_same local_steps.line framed_steps.line
  advance := raises_same local_advance framed_advance
  fail broken := raises_same (local_fail broken) (framed_steps.fail broken)
  tell name line := raises_same (local_steps.tell name line) (framed_steps.tell name line)
  declare name kind line :=
    raises_same (local_declare name kind line) (framed_declare name kind line)
  resolve name := raises_same (local_resolve name) (framed_resolve name)
  nested := raises_nested
  inScope := raises_inScope
  many := raises_many

theorem raises_tooDeep {production : Parser α} (near : Local production)
    (framed : Framed production) : Raises tooDeep production where
  lowNear := local_tooDeep
  highNear := near
  lowFramed := framed_tooDeep
  highFramed := framed
  raises state := by
    obtain ⟨consumed, split, _⟩ := near state
    exact .inr ⟨state.depth, state.stream.line, state, consumed, rfl, split⟩

theorem raises_expression {low high : Nat} (more : low ≤ high) :
    Raises (expression low) (expression high) := by
  induction low generalizing high with
  | zero => exact raises_tooDeep (local_expression high) (framed_expression high)
  | succ low ih =>
    obtain ⟨high, rfl⟩ : ∃ fewer, high = fewer + 1 := ⟨high - 1, by omega⟩
    exact raises_nested (raises_steps.congruence.expression_body (fun _ => ih (by omega)) none)

theorem raises_statement {low high : Nat} (more : low ≤ high) :
    Raises (statement low) (statement high) := by
  induction low generalizing high with
  | zero => exact raises_tooDeep (local_statement high) (framed_statement high)
  | succ low ih =>
    obtain ⟨high, rfl⟩ : ∃ fewer, high = fewer + 1 := ⟨high - 1, by omega⟩
    exact raises_nested (raises_steps.congruence.statement_body (fun _ => ih (by omega))
      (fun _ => raises_expression (by omega)) none)

theorem raises_block {low high : Nat} (more : low ≤ high) :
    Raises (block low) (block high) := by
  induction low generalizing high with
  | zero => exact raises_tooDeep (local_block high) (framed_block high)
  | succ low ih =>
    obtain ⟨high, rfl⟩ : ∃ fewer, high = fewer + 1 := ⟨high - 1, by omega⟩
    exact raises_nested (raises_inScope (raises_steps.congruence.block_body
      (fun _ => ih (by omega)) (fun _ => raises_statement (by omega)) none))

/-- Two limits give the same unless one of them is too low. -/
theorem blocks_agree (first second : Nat) (state : State) :
    block first state = block second state ∨
      (∃ limit line after, block first state = .error (.nestingTooDeep limit line) after) ∨
      ∃ limit line after, block second state = .error (.nestingTooDeep limit line) after := by
  rcases Nat.le_total first second with more | fewer
  · rcases (raises_block more).raises state with same | ⟨limit, line, after, _, stopped, _⟩
    · exact .inl same
    · exact .inr (.inl ⟨limit, line, after, stopped⟩)
  · rcases (raises_block fewer).raises state with same | ⟨limit, line, after, _, stopped, _⟩
    · exact .inl same.symm
    · exact .inr (.inr ⟨limit, line, after, stopped⟩)

end PlZero.Parser
