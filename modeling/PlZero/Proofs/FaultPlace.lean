import PlZero.Proofs.Blame
import PlZero.Proofs.Program

/-!
# Where a fault points

The line and the name of a fault are those of the token at which the call stopped. That is
the first token left, or where none is left the last one taken. Only a name that is
declared twice is taken before it is refused, and the fault points back to it.
-/

namespace PlZero

set_option autoImplicit false

/-- A fault points to the place between the tokens that were taken and those that are left. A call
has no other faults than these. -/
def Fault.PointsBetween (limit : Nat) (taken left : List LocatedToken) : Fault → Prop
  | .nestingTooDeep own line => own = limit ∧ line = lineBetween taken left
  | .violation .doubleDeclaration line name? =>
    ∃ name, name? = some name ∧ taken.getLast? = some ⟨.identifier name, line⟩
  | .violation _ line name? => line = lineBetween taken left ∧
    ∀ name, name? = some name ↔ left.head?.map LocatedToken.token = some (.identifier name)
  | _ => False

namespace Parser

variable {α : Type}

theorem name_at_head (stream : TokenStream) (name : String) :
    stream.peek?.bind Token.identifier? = some name ↔
      stream.tokens.head?.map LocatedToken.token = some (.identifier name) := by
  constructor
  · exact head_of_identifier
  · intro head
    rw [TokenStream.peek?, head]
    rfl

theorem points_at_head {broken : Violation} (other : broken ≠ .doubleDeclaration) (limit : Nat)
    {taken : List LocatedToken} {stream : TokenStream}
    (here : stream.line = lineBetween taken stream.tokens) :
    (Fault.violation broken stream.line (stream.peek?.bind Token.identifier?)).PointsBetween limit
      taken stream.tokens := by
  cases broken with
  | doubleDeclaration => exact absurd rfl other
  | _ => exact ⟨here, name_at_head stream⟩

theorem points_of_blame {production : Parser α} {limit : Nat} {state after : State} {fault : Fault}
    (blame : Blame production limit state after fault) {taken : List LocatedToken}
    (split : state.stream.tokens = taken ++ after.stream.tokens)
    (here : after.stream.line = lineBetween taken after.stream.tokens) :
    fault.PointsBetween limit taken after.stream.tokens := by
  cases blame with
  | head broken arises =>
    apply points_at_head _ limit here
    rintro rfl
    cases arises
  | nesting => exact ⟨rfl, here⟩
  | name before name line named =>
    have last : taken = before ++ [⟨.identifier name, line⟩] := by
      apply List.append_cancel_right (split.symm.trans _)
      rw [named, List.append_assoc, List.singleton_append]
    exact ⟨name, rfl, by rw [last, List.getLast?_concat]⟩

/-- The fault of a call points to the place where the call stopped. -/
theorem fault_points_where_call_stopped (call : Call) {limit : Nat} {tokens : List LocatedToken}
    {table : SymbolTable} {fault : Fault} {after : State}
    (failed : call.run limit (start tokens table) = .error fault after) :
    ∃ taken, tokens = taken ++ after.stream.tokens ∧
      after.stream.line = lineBetween taken after.stream.tokens ∧
      fault.PointsBetween limit taken after.stream.tokens := by
  have restored := restored_call limit call (start tokens table)
  rw [failed] at restored
  obtain ⟨taken, comes⟩ := restored.along
  have split : tokens = taken ++ after.stream.tokens := comes.tokens
  have here : after.stream.line = lineBetween taken after.stream.tokens :=
    TokenStream.line_of_comesTo comes
  refine ⟨taken, split, here, ?_⟩
  have blamed (outcome : block limit (fresh tokens table) = .error fault after) :
      fault.PointsBetween limit taken after.stream.tokens := by
    have blame := blamesAt_block limit (fresh tokens table) fault after outcome
    have levels : (fresh tokens table).depth + limit = limit := Nat.zero_add limit
    rw [levels] at blame
    exact points_of_blame blame split here
  cases call with
  | parse =>
    have concludes := parse_concludes limit tokens table
    have failed : parse limit (start tokens table) = .error fault after := failed
    rw [failed] at concludes
    cases concludes with
    | failed outcome => exact blamed outcome
  | program =>
    rcases failure_of_program failed with outcome | ⟨_, _, _, _, _, rfl⟩
    · exact blamed outcome
    · exact points_at_head (by decide) limit here

def repeatedName : List LocatedToken :=
  [⟨.keyword .procedureKw, 1⟩, ⟨.identifier "p", 1⟩, ⟨.symbol ';', 1⟩, ⟨.keyword .varKw, 2⟩,
    ⟨.identifier "a", 2⟩, ⟨.symbol ',', 2⟩, ⟨.identifier "a", 3⟩, ⟨.symbol ';', 4⟩]

/-- The fault points to line 3, although the next token is on line 4. -/
theorem fault_points_at_repeated_name :
    ∃ after taken, Call.program.run 2 (start repeatedName .empty) =
        .error (.violation .doubleDeclaration 3 (some "a")) after ∧
      repeatedName = taken ++ after.stream.tokens ∧ after.stream.line = 4 ∧
      taken.getLast? = some ⟨.identifier "a", 3⟩ := by
  have failed : Call.program.run 2 (start repeatedName .empty) =
      .error (.violation .doubleDeclaration 3 (some "a")) _ := rfl
  obtain ⟨taken, split, _, name, same, last⟩ := fault_points_where_call_stopped .program failed
  cases same
  exact ⟨_, taken, failed, split, rfl, last⟩

end Parser

end PlZero
