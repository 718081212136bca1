import PlZero.Proofs.Limit
import PlZero.Proofs.Program

/-!
# Parses under a raised limit

A parse that the limit did not end is the same under every higher limit, to the last
token left. One that the limit did end goes on under a higher limit from the place where
it had stopped, so it leaves no more tokens than before.
-/

namespace PlZero.Parser

set_option autoImplicit false

/-- An outcome that was not brought about by the limit. -/
def IsDecided : Except Fault Outcome → Prop
  | .error (.nestingTooDeep _ _) => False
  | _ => True

/-- With a higher limit a parse is the same, or it goes on where the lower one ended it. -/
theorem raises_parse {low high : Nat} (more : low ≤ high) (tokens : List LocatedToken)
    (table : SymbolTable) : RaisesAt (parse low) (parse high) (start tokens table) := by
  unfold RaisesAt
  rw [parse_apply, parse_apply, bind_apply, bind_apply]
  rcases (raises_block more).raises (fresh tokens table) with
    same | ⟨limit, line, after, taken, stopped, split⟩
  · exact .inl (by rw [same])
  · refine .inr ⟨limit, line, after, ?_⟩
    rw [stopped]
    cases outcome : block high (fresh tokens table) with
    | error fault last =>
      rw [outcome] at split
      exact ⟨taken, rfl, split⟩
    | ok value middle =>
      rw [outcome] at split
      obtain ⟨added, comes⟩ := (restored_finish value middle).along
      have further : middle.stream.tokens =
          added ++ (stateAfter (finish value middle)).stream.tokens := comes.tokens
      refine ⟨taken ++ added, rfl, ?_⟩
      rw [split, List.append_assoc]
      exact congrArg (taken ++ ·) further

/-- A decided parse is the same under a higher limit. An undecided one goes on from there. -/
theorem raised_limit_keeps_decided_parse {low high : Nat} (more : low ≤ high)
    (tokens : List LocatedToken) (table : SymbolTable) :
    (IsDecided (result (parse low (start tokens table))) →
      parse high (start tokens table) = parse low (start tokens table)) ∧
    (¬ IsDecided (result (parse low (start tokens table))) →
      (stateAfter (parse high (start tokens table))).stream.tokens <:+
        (stateAfter (parse low (start tokens table))).stream.tokens) := by
  rcases raises_parse more tokens table with same | ⟨limit, line, after, taken, stopped, split⟩
  · rw [same]
    exact ⟨fun _ => rfl, fun _ => List.suffix_refl _⟩
  · rw [stopped]
    exact ⟨fun decided => decided.elim, fun _ => ⟨taken, split.symm⟩⟩

def bracketedSeven : List LocatedToken :=
  [⟨.keyword .printKw, 1⟩, ⟨.symbol '(', 1⟩, ⟨.number 7, 2⟩, ⟨.symbol ')', 2⟩]

/-- Four levels are enough for one pair of brackets, and a hundred give the same. Three levels end
before the number, which a hundred go on to take. -/
theorem raised_limit_over_brackets :
    result (parse 100 (start bracketedSeven .empty)) =
        .ok ⟨.statement (.print (.number 7)), false⟩ ∧
      (stateAfter (parse 100 (start bracketedSeven .empty))).stream.tokens <:+
        [⟨.number 7, 2⟩, ⟨.symbol ')', 2⟩] := by
  constructor
  · have low : result (parse 4 (start bracketedSeven .empty)) =
        .ok ⟨.statement (.print (.number 7)), false⟩ := rfl
    have decided : IsDecided (result (parse 4 (start bracketedSeven .empty))) := by
      rw [low]
      trivial
    have enough : 4 ≤ 100 := by decide
    rw [(raised_limit_keeps_decided_parse enough bracketedSeven .empty).1 decided]
    exact low
  · have stopped : result (parse 3 (start bracketedSeven .empty)) =
        .error (.nestingTooDeep 3 2) := rfl
    have undecided : ¬ IsDecided (result (parse 3 (start bracketedSeven .empty))) := by
      rw [stopped]
      exact id
    have enough : 3 ≤ 100 := by decide
    exact (raised_limit_keeps_decided_parse enough bracketedSeven .empty).2 undecided

end PlZero.Parser
