import PlZero.Proofs.Marks

/-!
# Periods

No derivation of a block holds a period. So if a program is read at all, it ends at
the first period of the token string, and the block is all that is before it.
-/

namespace PlZero

set_option autoImplicit false

def Token.isPeriod (token : Token) : Bool := token.isSymbol '.'

def beforePeriod (tokens : List LocatedToken) : List LocatedToken :=
  tokens.takeWhile fun located => !located.token.isPeriod

def fromPeriod (tokens : List LocatedToken) : List LocatedToken :=
  tokens.dropWhile fun located => !located.token.isPeriod

theorem split_at_period {tokens : List LocatedToken}
    (period : ∃ located ∈ tokens, located.token = .symbol '.') :
    ∃ line rest, fromPeriod tokens = ⟨.symbol '.', line⟩ :: rest ∧
      tokens = beforePeriod tokens ++ ⟨.symbol '.', line⟩ :: rest := by
  induction tokens with
  | nil =>
    obtain ⟨located, member, _⟩ := period
    cases member
  | cons head tail ih =>
    unfold beforePeriod fromPeriod
    cases isPeriod : head.token.isPeriod with
    | true =>
      obtain ⟨token, line⟩ := head
      obtain rfl : token = .symbol '.' := Token.isSymbol_iff.mp isPeriod
      refine ⟨line, tail, ?_, ?_⟩
      · rw [List.dropWhile_cons_of_neg (by simp [isPeriod])]
      · rw [List.takeWhile_cons_of_neg (by simp [isPeriod])]
        rfl
    | false =>
      have later : ∃ located ∈ tail, located.token = .symbol '.' := by
        obtain ⟨located, member, same⟩ := period
        rcases List.mem_cons.mp member with rfl | inside
        · rw [same] at isPeriod
          cases isPeriod
        · exact ⟨located, inside, same⟩
      obtain ⟨line, rest, from_, whole⟩ := ih later
      refine ⟨line, rest, ?_, ?_⟩
      · rw [List.dropWhile_cons_of_pos (by simp [isPeriod])]
        exact from_
      · rw [List.takeWhile_cons_of_pos (by simp [isPeriod])]
        exact congrArg (head :: ·) whole

def PeriodFree (tokens : List LocatedToken) : Prop :=
  ∀ located ∈ tokens, located.token ≠ .symbol '.'

theorem beforePeriod_append {tokens : List LocatedToken} (free : PeriodFree tokens) (line : Nat)
    (rest : List LocatedToken) : beforePeriod (tokens ++ ⟨.symbol '.', line⟩ :: rest) = tokens := by
  have passed : ∀ located ∈ tokens, (!located.token.isPeriod) = true := by
    intro located member
    rw [Bool.not_eq_true', Bool.eq_false_iff]
    exact fun isPeriod => free located member (Token.isSymbol_iff.mp isPeriod)
  rw [beforePeriod, List.takeWhile_append_of_pos passed, List.takeWhile_cons_of_neg,
    List.append_nil]
  simp [Token.isPeriod, Token.isSymbol]

theorem periodFree_of_marks {marks : List Mark}
    (free : MadeOf (fun mark => PeriodFree mark.tokens) marks) : PeriodFree (tokensOf marks) := by
  intro located member
  obtain ⟨mark, inside, own⟩ := List.mem_flatMap.mp member
  exact free mark inside located own

theorem block_periodFree (height : Nat) (marks : List Mark) (block : Block)
    (derived : IsBlock height marks block) : PeriodFree (tokensOf marks) := by
  have named (name : String) (line : Nat) : PeriodFree [⟨.identifier name, line⟩] := by
    simp [PeriodFree, Token.identifier]
  have ordinary : Ordinary fun mark => PeriodFree mark.tokens := {
    plain := fun located other => by simp [PeriodFree, Mark.tokens, other]
    use := fun _ name line => named name line }
  have border : PeriodFree [] := by simp [PeriodFree]
  have free := block_consistsOf ordinary (fun _ name line => named name line) border border height
  exact periodFree_of_marks (free marks block derived)

end PlZero
