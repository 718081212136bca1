import PlZero.Proofs.Blame
import PlZero.Proofs.Indifference
import PlZero.Proofs.Program

/-!
# What decides a parse

A parse is decided by the tokens that it takes and the one after them. Whatever is put in
the place of the tokens behind that one, the outcome stays the same and exactly these
tokens are left. Where the parse ends with the period, or with a name that is declared
twice, the last token taken decides, and not even the next one matters.
-/

namespace PlZero.Parser

set_option autoImplicit false

variable {limit : Nat} {table : SymbolTable} {taken rest other : List LocatedToken}

def EndsWith (limit : Nat) (table : SymbolTable) (tokens : List LocatedToken)
    (outcome : Except Fault Outcome) (left : List LocatedToken) : Prop :=
  result (parse limit (start tokens table)) = outcome ∧
    (stateAfter (parse limit (start tokens table))).stream.tokens = left

/-- With other tokens after those that were taken, a parse has the same outcome and leaves the
other ones. -/
def DecidedBy (limit : Nat) (table : SymbolTable) (taken rest other : List LocatedToken) : Prop :=
  EndsWith limit table (taken ++ other) (result (parse limit (start (taken ++ rest) table))) other

/-- An outcome that is settled by the last token taken. -/
def IsSettled : Except Fault Outcome → Prop
  | .ok outcome => outcome.accepted = true
  | .error fault => fault.violation? = some .doubleDeclaration

/-- Fresh tokens are not told apart from the same tokens put in the place of others that have the
same head. -/
theorem fresh_indistinct {tokens others : List LocatedToken}
    (agree : others.head? = tokens.head?) :
    Indistinct (fresh others table) ((fresh tokens table).withTokens others) where
  tokens := rfl
  line := by
    cases others with
    | cons head more => rfl
    | nil =>
      obtain rfl : tokens = [] := List.head?_eq_none_iff.mp agree.symm
      rfl
  table := rfl
  depth := rfl

/-- The block of a program over other tokens, from the same block with these put in the place of
its own. -/
theorem block_over_others {tokens others left : List LocatedToken}
    (agree : others.head? = tokens.head?)
    (same : block limit ((fresh tokens table).withTokens others) =
      leaving left (block limit (fresh tokens table))) :
    EndAlike (block limit (fresh others table))
      (leaving left (block limit (fresh tokens table))) := by
  rw [← same]
  exact indifferent_block limit _ _ (fresh_indistinct agree)

/-- A block ends alike over all tokens that begin with the ones it took and the one after them. -/
theorem block_over_same_head
    (left : (stateAfter (block limit (fresh (taken ++ rest) table))).stream.tokens = rest)
    (agree : other.head? = rest.head?) :
    EndAlike (block limit (fresh (taken ++ other) table))
      (leaving other (block limit (fresh (taken ++ rest) table))) := by
  obtain ⟨consumed, split, same⟩ := local_block limit (fresh (taken ++ rest) table)
  rw [left] at split same
  obtain rfl : taken = consumed := List.append_cancel_right split
  apply block_over_others _ (same other agree)
  rw [List.head?_append, List.head?_append, agree]

theorem failed_over_others {others left : List LocatedToken} {fault : Fault} {after : State}
    (alike : EndAlike (block limit (fresh others table)) (.error fault (after.withTokens left))) :
    EndsWith limit table others (.error fault) left := by
  rw [EndsWith, parse_apply, bind_apply]
  generalize block limit (fresh others table) = outcome at alike ⊢
  cases alike with
  | error fault same => exact ⟨rfl, same.tokens⟩

theorem accepted_over_others {others left : List LocatedToken} {value : Block} {middle : State}
    {line : Nat}
    (alike : EndAlike (block limit (fresh others table))
      (.ok value (middle.withTokens (⟨.symbol '.', line⟩ :: left)))) :
    EndsWith limit table others (.ok ⟨value, true⟩) left := by
  rw [EndsWith, parse_apply, bind_apply]
  generalize block limit (fresh others table) = outcome at alike ⊢
  cases alike with
  | ok value same =>
    obtain ⟨last, finished, stream⟩ := finish_of_period value same.tokens
    simp only [finished]
    exact ⟨rfl, congrArg TokenStream.tokens stream⟩

theorem unaccepted_over_others {others left : List LocatedToken} {value : Block} {middle : State}
    (other : Ahead (fun token => token ≠ .symbol '.') left)
    (alike : EndAlike (block limit (fresh others table)) (.ok value (middle.withTokens left))) :
    EndsWith limit table others (.ok ⟨value, false⟩) left := by
  rw [EndsWith, parse_apply, bind_apply]
  generalize block limit (fresh others table) = outcome at alike ⊢
  cases alike with
  | @ok state _ value same =>
    have left : state.stream.tokens = left := same.tokens
    rw [← left] at other
    obtain ⟨last, finished, stream⟩ := finish_of_other value other
    simp only [finished]
    exact ⟨rfl, (congrArg TokenStream.tokens stream).trans left⟩

theorem ahead_of_same_head {good : Token → Prop} (agree : other.head? = rest.head?)
    (ahead : Ahead good rest) : Ahead good other :=
  fun located member => ahead located (agree ▸ member)

/-- A failure over a name that is declared twice is the same whatever comes after the name. -/
theorem repeated_over_others {fault : Fault} {after : State}
    (failed : block limit (fresh (taken ++ rest) table) = .error fault after)
    (left : after.stream.tokens = rest) (isRepeated : fault.violation? = some .doubleDeclaration)
    (other : List LocatedToken) : EndsWith limit table (taken ++ other) (.error fault) other := by
  cases blamesAt_block limit _ fault after failed with
  | head broken arises =>
    cases isRepeated
    cases arises
  | nesting => cases isRepeated
  | name before name line split alone =>
    obtain rfl : taken = before ++ [⟨.identifier name, line⟩] := by
      apply (List.append_left_inj rest).mp
      rw [left] at split
      rw [List.append_assoc]
      exact split
    have alike := block_over_others (by cases before <;> rfl) (alone other)
    rw [failed] at alike
    rw [List.append_assoc]
    exact failed_over_others alike

/-- A block that ends before a period makes the same program whatever comes after the period. -/
theorem period_over_others {value : Block} {middle : State} {line : Nat}
    (outcome : block limit (fresh (taken ++ rest) table) = .ok value middle)
    (ahead : middle.stream.tokens = ⟨.symbol '.', line⟩ :: rest) (other : List LocatedToken) :
    EndsWith limit table (taken ++ other) (.ok ⟨value, true⟩) other := by
  obtain ⟨consumed, rfl⟩ : ∃ consumed, taken = consumed ++ [⟨.symbol '.', line⟩] := by
    obtain ⟨consumed, split, _⟩ := local_block limit (fresh (taken ++ rest) table)
    refine ⟨consumed, (List.append_left_inj rest).mp ?_⟩
    rw [outcome] at split
    rw [List.append_assoc, List.singleton_append, ← ahead]
    exact split
  rw [List.append_assoc, List.singleton_append] at outcome ⊢
  have left : (stateAfter (block limit
      (fresh (consumed ++ ⟨.symbol '.', line⟩ :: rest) table))).stream.tokens =
        ⟨.symbol '.', line⟩ :: rest := by
    rw [outcome]
    exact ahead
  have agree : (⟨.symbol '.', line⟩ :: other).head? = (⟨.symbol '.', line⟩ :: rest).head? := rfl
  have alike := block_over_same_head left agree
  rw [outcome] at alike
  exact accepted_over_others alike

/-- The tokens taken and the one after them decide a parse. Where it is accepted, or a name is
declared twice, the last token taken settles it. -/
theorem parse_decided_by_next_token
    (ended : (stateAfter (parse limit (start (taken ++ rest) table))).stream.tokens = rest) :
    (∀ other, other.head? = rest.head? → DecidedBy limit table taken rest other) ∧
      (IsSettled (result (parse limit (start (taken ++ rest) table))) →
        ∀ other, DecidedBy limit table taken rest other) := by
  have concludes := parse_concludes limit (taken ++ rest) table
  unfold DecidedBy
  generalize parse limit (start (taken ++ rest) table) = parsed at concludes ended ⊢
  cases concludes with
  | @failed fault after outcome =>
    have left : after.stream.tokens = rest := ended
    refine ⟨fun other agree => ?_, fun isRepeated => repeated_over_others outcome left isRepeated⟩
    have alike := block_over_same_head (by rw [outcome]; exact left) agree
    rw [outcome] at alike
    exact failed_over_others alike
  | @accepted value middle after line more outcome ahead stream =>
    obtain rfl : more = rest := (congrArg TokenStream.tokens stream).symm.trans ended
    have settled := period_over_others outcome ahead
    exact ⟨fun other _ => settled other, fun _ => settled⟩
  | @unaccepted value middle after outcome absent stream =>
    have left : middle.stream.tokens = rest := (congrArg TokenStream.tokens stream).symm.trans ended
    refine ⟨fun other agree => ?_, fun isAccepted => by cases isAccepted⟩
    have alike := block_over_same_head (by rw [outcome]; exact left) agree
    rw [outcome] at alike
    rw [left] at absent
    exact unaccepted_over_others (ahead_of_same_head agree absent) alike

def printedSeven : List LocatedToken := [⟨.keyword .printKw, 1⟩, ⟨.number 7, 1⟩]

/-- No program has the token `?`. Behind a semicolon and behind a period it changes nothing. -/
theorem parse_decided_before_strange_token :
    EndsWith 3 .empty (printedSeven ++ [⟨.symbol ';', 2⟩, ⟨.symbol '?', 3⟩])
        (.ok ⟨.statement (.print (.number 7)), false⟩) [⟨.symbol ';', 2⟩, ⟨.symbol '?', 3⟩] ∧
      EndsWith 3 .empty ((printedSeven ++ [⟨.symbol '.', 2⟩]) ++ [⟨.symbol '?', 3⟩])
        (.ok ⟨.statement (.print (.number 7)), true⟩) [⟨.symbol '?', 3⟩] := by
  constructor
  · have unaccepted : result (parse 3 (start (printedSeven ++ [⟨.symbol ';', 2⟩]) .empty)) =
        .ok ⟨.statement (.print (.number 7)), false⟩ := rfl
    have ended : (stateAfter (parse 3
        (start (printedSeven ++ [⟨.symbol ';', 2⟩]) .empty))).stream.tokens =
          [⟨.symbol ';', 2⟩] := rfl
    have decided := (parse_decided_by_next_token ended).1 [⟨.symbol ';', 2⟩, ⟨.symbol '?', 3⟩] rfl
    rwa [DecidedBy, unaccepted] at decided
  · have accepted : result (parse 3
        (start ((printedSeven ++ [⟨.symbol '.', 2⟩]) ++ []) .empty)) =
          .ok ⟨.statement (.print (.number 7)), true⟩ := rfl
    have ended : (stateAfter (parse 3
        (start ((printedSeven ++ [⟨.symbol '.', 2⟩]) ++ []) .empty))).stream.tokens = [] := rfl
    have settled := (parse_decided_by_next_token ended).2 (by rw [accepted]; rfl)
    have decided := settled [⟨.symbol '?', 3⟩]
    rwa [DecidedBy, accepted] at decided

end PlZero.Parser
