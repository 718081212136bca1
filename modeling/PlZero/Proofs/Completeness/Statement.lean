import PlZero.Proofs.Completeness.Expression

/-!
# Derived statements are read

A statement may be empty, so what follows one decides whether it is read at all.
Only a semicolon, a period and `END` ever follow a statement in a program. None of
them begins a statement or goes on with an expression.
-/

namespace PlZero.Parser

set_option autoImplicit false

def EndsStatement (token : Token) : Prop :=
  token = .symbol ';' ∨ token = .symbol '.' ∨ ∃ text, token = .word text Keyword.endKw.id

theorem endsStatement_semicolon : EndsStatement (.symbol ';') := .inl rfl

theorem endsStatement_period : EndsStatement (.symbol '.') := .inr (.inl rfl)

theorem endsStatement_end (text : String) : EndsStatement (.word text Keyword.endKw.id) :=
  .inr (.inr ⟨text, rfl⟩)

theorem endsExpression_of_endsStatement {token : Token} (ends : EndsStatement token) :
    EndsExpression token := by
  intro additive
  obtain rfl | rfl | ⟨text, rfl⟩ := ends
  · cases additive <;> rfl
  · cases additive <;> rfl
  · rfl

theorem follows_keyword {inner next : Parser Statement} {value : Parser Expression}
    {keyword : Keyword} (text : String) (line : Nat) {marks : List Mark} {statement : Statement}
    {rest : List LocatedToken}
    (takes : keywordStatement keyword inner value = advance >>= fun _ => next)
    (inside : Follows next marks statement rest) :
    Follows (statementBody inner value) (.keyword keyword text line :: marks) statement rest := by
  have reserved : (Token.word text keyword.id).keyword? = some keyword :=
    Token.keyword?_eq_some_iff.mpr ⟨text, rfl⟩
  apply follows_taking _ inside
  intro state tail tokens
  rw [statementBody, peek_then tokens]
  simp only [Option.bind_some, Token.identifier?_eq_none_of_keyword? reserved, reserved, takes]
  exact advance_then tokens _

/-- What a production does at a token that ends statements, an empty statement does. -/
theorem statementBody_of_end (inner : Parser Statement) (value : Parser Expression)
    {state : State} (ends : Ahead EndsStatement state.stream.tokens) :
    statementBody inner value state = .ok .pass state := by
  rw [statementBody, bind_apply, peek?_apply]
  unfold TokenStream.peek?
  cases tokens : state.stream.tokens with
  | nil => rfl
  | cons head tail =>
    have last : EndsStatement head.token := ends head (by rw [tokens]; rfl)
    rw [List.head?_cons, Option.map_some]
    obtain same | same | ⟨text, same⟩ := last <;> rw [same] <;> rfl

theorem follows_target (usage : Usage) {name : String} {line : Nat} (rest : List LocatedToken) :
    Follows (target (checkOf usage)) [.use usage name line] name rest := by
  apply follows_same rfl _ (follows_use_then usage name line (follows_pure name rest))
  intro state tail tokens
  rw [target, peek_then tokens]
  rfl

section Bodies

variable {inner : Parser Statement} {value : Parser Expression}
variable {grammar : Grammar Statement} {values : Grammar Expression}

theorem group_follows (near : Local inner) (inside : Completes inner grammar EndsStatement)
    {first others : List Mark} {statement : Statement} {statements : List Statement}
    (endText : String) (endLine : Nat) (rest : List LocatedToken) (one : grammar first statement)
    (more : Repeated (Led ';' grammar) others statements) :
    Follows (group inner) (first ++ (others ++ [.keyword .endKw endText endLine]))
      (.sequence (statement :: statements)) rest := by
  have follower {marks : List Mark} {values : List Statement}
      (items : Repeated (Led ';' grammar) marks values) :
      Ahead EndsStatement
        (tokensOf marks ++ (tokensOf [.keyword .endKw endText endLine] ++ rest)) := by
    have ended : Ahead EndsStatement (tokensOf [.keyword .endKw endText endLine] ++ rest) :=
      ahead_cons _ (endsStatement_end endText)
    apply ahead_of_repeated _ ended items
    intro marks value item
    obtain ⟨line, one⟩ := item
    exact ⟨_, _, rfl, endsStatement_semicolon⟩
  have members : Follows (many (after ';' inner)) others statements
      (tokensOf [.keyword .endKw endText endLine] ++ rest) := by
    rw [after_eq_begun]
    apply follows_many (fun _ => near) (ahead_cons _ rfl) _ more
    intro marks value item
    obtain ⟨line, one⟩ := item
    exact ⟨_, (), _, rfl, rfl, fun _ _ items => inside _ _ _ one (follower items)⟩
  have begun : Follows inner first statement
      (tokensOf (others ++ [.keyword .endKw endText endLine]) ++ rest) := by
    apply inside _ _ _ one
    rw [tokensOf_append, List.append_assoc]
    exact follower more
  apply follows_bind _ begun
  apply follows_bind _ members
  exact follows_return (follows_expectKeyword .endKw endText endLine .missingEnd rest) _

theorem guarded_follows (result : Expression → Statement → Statement) (separator : Keyword)
    (missing : Violation) (inside : Completes inner grammar EndsStatement)
    (tests : Completes (condition value) (IsCondition values) EndsExpression)
    {guard marks : List Mark} {condition : Expression} {body : Statement} (text : String)
    (line : Nat) {rest : List LocatedToken} (ahead : Ahead EndsStatement rest)
    (test : IsCondition values guard condition) (one : grammar marks body) :
    Follows (do
        let guard ← Parser.condition value
        expectKeyword separator missing
        return result guard (← inner))
      (guard ++ .keyword separator text line :: marks) (result condition body) rest := by
  have guarded := tests _ _ (tokensOf (.keyword separator text line :: marks) ++ rest) test
    (ahead_cons _ (endsExpression_of_word _ _))
  apply follows_bind _ guarded
  apply follows_then (follows_expectKeyword separator text line missing _)
  exact follows_return (inside _ _ _ one ahead) (result condition)

theorem statement_body_completes (near : Local inner)
    (inside : Completes inner grammar EndsStatement)
    (computes : Completes value values EndsExpression)
    (tests : Completes (condition value) (IsCondition values) EndsExpression) :
    Completes (statementBody inner value) (IsStatementBody grammar values) EndsStatement := by
  intro marks statement rest derived ahead
  have endsValue : Ahead EndsExpression rest :=
    ahead_mono ahead fun _ => endsExpression_of_endsStatement
  cases derived with
  | empty =>
    intro base scope around state table tokens
    rw [statementBody_of_end inner value (by rw [tokens]; exact ahead)]
    exact ⟨scope, state, rfl, rfl, table, tokens⟩
  | @assign marks assigned name line equals one =>
    have computed := follows_then (follows_expectSymbol '=' equals .missingAssign _)
      (follows_return (computes _ _ _ one endsValue) (Statement.assign name))
    apply follows_same rfl _ (follows_use_then .integer name line computed)
    intro state tail tokens
    rw [statementBody, peek_then tokens]
    rfl
  | call text line name nameLine =>
    apply follows_keyword text line rfl
    exact follows_return (follows_target .procedure rest) Statement.call
  | read text line name nameLine =>
    apply follows_keyword text line rfl
    exact follows_return (follows_target .integer rest) Statement.read
  | print text line one =>
    apply follows_keyword text line rfl
    exact follows_return (computes _ _ _ one endsValue) Statement.print
  | group text line endText endLine one more =>
    apply follows_keyword text line rfl
    exact group_follows near inside endText endLine rest one more
  | ifThen text line thenText thenLine test one =>
    apply follows_keyword text line rfl
    exact guarded_follows Statement.ifThen .thenKw .missingThen inside tests thenText thenLine ahead
      test one
  | whileDo text line doText doLine test one =>
    apply follows_keyword text line rfl
    exact guarded_follows Statement.whileDo .doKw .missingDo inside tests doText doLine ahead
      test one
  | pass text line =>
    apply follows_keyword text line rfl
    exact follows_pure Statement.pass rest

end Bodies

theorem statement_completes (levels : Nat) :
    Completes (statement levels) (IsStatement levels) EndsStatement := by
  induction levels with
  | zero => exact fun _ _ _ derived => derived.elim
  | succ levels ih =>
    intro marks value rest derived ahead
    apply follows_nested
    exact statement_body_completes (local_statement levels) ih (expression_completes levels)
      (condition_completes levels) _ _ _ derived ahead

end PlZero.Parser
