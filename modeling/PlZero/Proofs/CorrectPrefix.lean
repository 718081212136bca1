import PlZero.Proofs.Limit
import PlZero.Proofs.Lines
import PlZero.Proofs.Program

/-!
# Errors of form at the first impossible token

When a program is refused over its form, what was taken by then is the beginning of
a sentence of the grammar, and the token at which the parser stopped cannot follow
it in any sentence. The first half is what the steps of the parser account for. The
second half comes from completeness: if the token could follow, a parse of such a
sentence would go as far as the failing one, with one token of lookahead, and would
not fail there over the form, at whatever limit.
-/

namespace PlZero

set_option autoImplicit false

/-- A block of any nesting height and a period, on any lines. -/
def IsSentence (tokens : List Token) : Prop :=
  ∃ height marks block, IsBlock height marks block ∧
    tokens = (tokensOf marks).map LocatedToken.token ++ [.symbol '.']

theorem derived_of_sentence {tokens : List LocatedToken}
    (sentence : IsSentence (tokens.map LocatedToken.token)) :
    ∃ height marks block line, IsBlock height marks block ∧
      tokens = tokensOf marks ++ [⟨.symbol '.', line⟩] := by
  obtain ⟨height, marks, block, derived, spelled⟩ := sentence
  obtain ⟨inside, last, rfl, same, period⟩ := List.map_eq_append_iff.mp spelled
  obtain ⟨⟨token, line⟩, rest, rfl, rfl, empty⟩ := List.map_eq_cons_iff.mp period
  obtain rfl := List.map_eq_nil_iff.mp empty
  obtain ⟨others, alike, rfl⟩ := block_of_tokens derived same
  exact ⟨height, others, block, line, alike, rfl⟩

/-- What the pass over the names finds is a broken rule, and never one of form. -/
theorem fault_of_finding {outer : String → Option SymbolKind} {scopes : Scopes}
    {marks : List Mark} {finding : Finding}
    (found : Scopes.pass outer scopes marks = .error finding) :
    ∃ broken line name, finding.fault = .violation broken line (some name) ∧
      finding.fault.concernsForm = false := by
  obtain ⟨before, mark, rest, _, _, violated, _⟩ := (Scopes.pass_finding_iff _ _ _).mp found
  cases mark with
  | declare kind name line =>
    simp only [Scopes.fault?, Option.ite_none_right_eq_some, Option.some.injEq] at violated
    rw [← violated.2]
    exact ⟨_, _, _, rfl, rfl⟩
  | use usage name line =>
    obtain ⟨broken, judged, same⟩ := Option.map_eq_some_iff.mp violated
    rw [← same]
    exact ⟨_, _, _, rfl, Parser.concernsForm_of_usage judged line name⟩
  | plain | enter | leave => cases violated

namespace Parser

/-- Over a sentence, a block at any limit is read up to the period, or it fails, but not over the
form. -/
theorem block_over_sentence (limit : Nat) (state : State) {height : Nat} {marks : List Mark}
    {value : Block} (derived : IsBlock height marks value) {line : Nat}
    (spelled : state.stream.tokens = tokensOf marks ++ [⟨.symbol '.', line⟩]) :
    match block limit state with
    | .ok _ after => after.stream.tokens = [⟨.symbol '.', line⟩]
    | .error fault _ => fault.concernsForm = false := by
  have read := block_spans height marks value _ derived (ahead_cons [] endsStatement_period)
    state.table [] state rfl spelled
  rcases blocks_agree limit height state with same | ⟨_, _, _, stopped⟩ | ⟨_, _, _, stopped⟩
  · rw [same]
    cases passed : Scopes.pass state.table.lookup? [] marks with
    | ok last =>
      rw [passed] at read
      obtain ⟨_, after, outcome, _, left⟩ := read
      rw [outcome]
      exact left
    | error finding =>
      rw [passed] at read
      obtain ⟨after, outcome, _⟩ := read
      obtain ⟨_, _, _, _, noForm⟩ := fault_of_finding passed
      rw [outcome]
      exact noForm
  · rw [stopped]
    rfl
  · -- the levels of the derivation itself are enough
    rw [stopped] at read
    cases passed : Scopes.pass state.table.lookup? [] marks with
    | ok last =>
      rw [passed] at read
      obtain ⟨_, _, outcome, _⟩ := read
      cases outcome
    | error finding =>
      rw [passed] at read
      obtain ⟨_, outcome, _⟩ := read
      obtain ⟨_, _, _, same, _⟩ := fault_of_finding passed
      rw [same] at outcome
      cases outcome

variable {limit : Nat} {tokens : List LocatedToken} {table : SymbolTable}

theorem taken_begins_sentence {fault : Fault} {after : State}
    (failed : parseProgram limit (start tokens table) = .error fault after)
    (form : fault.concernsForm = true) :
    ∃ taken, tokens = taken ++ after.stream.tokens ∧
      ∃ completion, IsSentence (taken.map LocatedToken.token ++ completion) := by
  have accounted := sound_block limit table [] (fresh tokens table) rfl
  rcases failure_of_program failed with outcome | ⟨value, middle, outcome, _, stream, _⟩
  · rw [outcome] at accounted
    obtain ⟨marks, value, taken, ahead, derived, split, whole⟩ := accounted form
    refine ⟨taken, whole, ahead.map LocatedToken.token ++ [.symbol '.'], _, marks, value,
      derived, ?_⟩
    rw [split, List.map_append, List.append_assoc]
  · rw [outcome] at accounted
    obtain ⟨marks, derived, _, split, _, _⟩ := accounted
    refine ⟨tokensOf marks, ?_, [.symbol '.'], _, marks, value, derived, rfl⟩
    rw [stream]
    exact split

theorem no_sentence_ahead {fault : Fault} {after : State} {taken : List LocatedToken}
    (failed : parseProgram limit (start tokens table) = .error fault after)
    (form : fault.concernsForm = true) (split : tokens = taken ++ after.stream.tokens)
    (rest : List LocatedToken) (agree : rest.head? = after.stream.tokens.head?) :
    ¬ IsSentence ((taken ++ rest).map LocatedToken.token) := by
  intro sentence
  obtain ⟨height, marks, value, line, derived, spelled⟩ := derived_of_sentence sentence
  obtain ⟨consumed, whole, same⟩ := local_block limit (fresh tokens table)
  have whole : tokens = consumed ++ (stateAfter (block limit (fresh tokens table))).stream.tokens :=
    whole
  rcases failure_of_program failed with outcome | ⟨block, middle, outcome, other, stream, _⟩
  · rw [outcome] at whole same
    obtain rfl : taken = consumed := List.append_cancel_right (split.symm.trans whole)
    have read := block_over_sentence limit ((fresh tokens table).withTokens (taken ++ rest)) derived
      spelled
    rw [same rest agree] at read
    exact Bool.noConfusion (form.symm.trans read)
  · rw [outcome] at whole same
    rw [stream] at split agree
    obtain rfl : taken = consumed := List.append_cancel_right (split.symm.trans whole)
    have read := block_over_sentence limit ((fresh tokens table).withTokens (taken ++ rest)) derived
      spelled
    rw [same rest agree] at read
    have left : rest = [⟨.symbol '.', line⟩] := read
    rw [left] at agree
    exact other ⟨.symbol '.', line⟩ agree.symm rfl

/-- Errors of form are reported at the first token that cannot go on. -/
theorem form_error_at_first_impossible_token {limit : Nat} {tokens : List LocatedToken}
    {table : SymbolTable} {fault : Fault} {after : State}
    (failed : parseProgram limit (start tokens table) = .error fault after)
    (form : fault.concernsForm = true) :
    ∃ taken, tokens = taken ++ after.stream.tokens ∧
      (∃ completion, IsSentence (taken.map LocatedToken.token ++ completion)) ∧
      (∀ next rest, after.stream.tokens = next :: rest →
        ∀ completion, ¬ IsSentence (taken.map LocatedToken.token ++ next.token :: completion)) ∧
      (after.stream.tokens = [] → ¬ IsSentence (taken.map LocatedToken.token)) := by
  obtain ⟨taken, split, begun⟩ := taken_begins_sentence failed form
  refine ⟨taken, split, begun, ?_, ?_⟩
  · intro next rest ahead completion sentence
    have relabelled : (next :: completion.map fun token => ⟨token, 0⟩).map LocatedToken.token =
        next.token :: completion := by
      simp [Function.comp_def]
    refine no_sentence_ahead failed form split (next :: completion.map fun token => ⟨token, 0⟩)
      (by rw [ahead]; rfl) ?_
    rw [List.map_append, relabelled]
    exact sentence
  · intro dry sentence
    refine no_sentence_ahead failed form split [] (by rw [dry]) ?_
    rw [List.append_nil]
    exact sentence

/-- `PRINT .` fails at the period: no sentence begins so, though some begin with `PRINT`. -/
theorem period_cannot_follow_print :
    (∃ completion, IsSentence (.keyword .printKw :: completion)) ∧
      ∀ completion, ¬ IsSentence (.keyword .printKw :: .symbol '.' :: completion) := by
  have failed : parseProgram 3 (start [⟨.keyword .printKw, 1⟩, ⟨.symbol '.', 1⟩] .empty) =
      .error (.violation .missingOpenParen 1 none) _ := rfl
  obtain ⟨taken, split, begun, impossible, _⟩ := form_error_at_first_impossible_token failed rfl
  obtain rfl : [⟨.keyword .printKw, 1⟩] = taken := List.append_cancel_right split
  exact ⟨begun, impossible _ [] rfl⟩

end Parser

end PlZero
