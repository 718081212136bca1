import PlZero.Proofs.Program

/-!
# What is accepted

A token string is accepted as a program exactly if it has a period, and what comes
before its first period is derived as a block of a nesting height that is allowed,
where every name obeys the rules. This holds over every table and for any tokens,
also such as no text is scanned to. The tree is the one that the derivation gives.
-/

namespace PlZero.Parser

set_option autoImplicit false

/-- Acceptance is derivability together with the rules about names. -/
theorem parse_accepts_iff (limit : Nat) (tokens : List LocatedToken) (table : SymbolTable)
    (block : Block) :
    result (parse limit (start tokens table)) = .ok ⟨block, true⟩ ↔
      (∃ located ∈ tokens, located.token = .symbol '.') ∧
        ∃ marks, IsBlock limit marks block ∧ tokensOf marks = beforePeriod tokens ∧
          ObeysScoping table.lookup? marks := by
  constructor
  · intro accepted
    cases outcome : parse limit (start tokens table) with
    | error fault after =>
      rw [outcome] at accepted
      cases accepted
    | ok found after =>
      rw [outcome] at accepted
      cases accepted
      obtain ⟨marks, line, derived, whole, inOrder⟩ := derived_of_accepted outcome
      refine ⟨⟨⟨.symbol '.', line⟩, ?_, rfl⟩, marks, derived, ?_, inOrder⟩
      · rw [whole]
        exact List.mem_append_right _ List.mem_cons_self
      · rw [whole, beforePeriod_append (block_periodFree limit marks block derived)]
  · rintro ⟨period, marks, derived, spelled, inOrder⟩
    obtain ⟨line, rest, _, whole⟩ := split_at_period period
    rw [← spelled] at whole
    obtain ⟨last, passed⟩ := obeysScoping_iff_pass.mp inOrder
    have read := parse_of_derived table derived whole
    rw [passed] at read
    obtain ⟨after, outcome, _⟩ := read
    rw [outcome]
    rfl

end PlZero.Parser
