import PlZero.Proofs.Program

/-!
# Name checks on the way

The parser checks each name where it stands, while it opens and closes scopes and
takes tokens. A separate pass over the finished derivation would come to the same
result: the parser fails with the first name that breaks a rule, and with no other,
and it stops there. If all names are in order it accepts.
-/

namespace PlZero.Parser

set_option autoImplicit false

/-- Over a derivation that is high enough, the parser and the pass over its names find the same, at
the same place. -/
theorem parse_agrees_with_pass (limit : Nat) (tokens : List LocatedToken) (table : SymbolTable)
    {marks : List Mark} {block : Block} (period : ∃ located ∈ tokens, located.token = .symbol '.')
    (derived : IsBlock limit marks block) (spelled : tokensOf marks = beforePeriod tokens) :
    (∀ finding, Scopes.pass table.lookup? [] marks = .error finding →
      ∃ after, parse limit (start tokens table) = .error finding.fault after ∧
        after.stream.tokens = tokensOf finding.unread ++ fromPeriod tokens) ∧
    (∀ last, Scopes.pass table.lookup? [] marks = .ok last →
      ∃ after, parse limit (start tokens table) = .ok ⟨block, true⟩ after ∧
        after.stream.tokens = (fromPeriod tokens).tail) := by
  obtain ⟨line, rest, ahead, whole⟩ := split_at_period period
  rw [← spelled] at whole
  have read := parse_of_derived table derived whole
  rw [ahead]
  constructor
  · intro finding passed
    rw [passed] at read
    exact read
  · intro last passed
    rw [passed] at read
    exact read

def callOfVariable : List LocatedToken :=
  [⟨.keyword .varKw, 1⟩, ⟨.identifier "a", 1⟩, ⟨.symbol ';', 1⟩, ⟨.keyword .callKw, 2⟩,
    ⟨.identifier "a", 2⟩, ⟨.symbol '.', 2⟩]

/-- The call is refused: a variable cannot be called. -/
theorem parse_refuses_call_of_variable :
    ∃ after, parse 2 (start callOfVariable .empty) =
        .error (.violation .notProcedure 2 (some "a")) after ∧
      after.stream.tokens = [⟨.identifier "a", 2⟩, ⟨.symbol '.', 2⟩] := by
  have derived : IsBlock 2 _ (.statement (.call "a")) :=
    .mk (.mk (.present "VAR" 1 1 (.mk "a" 1) .none) .absent .none (.call "CALL" 2 "a" 2))
  have period : ∃ located ∈ callOfVariable, located.token = .symbol '.' :=
    ⟨⟨.symbol '.', 2⟩, by simp [callOfVariable], rfl⟩
  have agrees := (parse_agrees_with_pass 2 callOfVariable .empty period derived rfl).1
  refine agrees ⟨_, [.use .procedure "a" 2, .leave]⟩ ?_
  simp [Scopes.pass, Scopes.fault?, Scopes.after, Scopes.lookup?, Usage.violation?, Mark.keyword,
    Mark.symbol, Mark.unread]

end PlZero.Parser
