import PlZero.Proofs.Soundness.Expression

/-!
# Read statements are derived

A statement that fails can be brought to an end with empty statements, numbers and
the reserved words that are missing. Where no statement begins, an empty one is
read, and it is for the caller to fail at the token there.
-/

namespace PlZero.Parser

set_option autoImplicit false

def IsTarget (usage : Usage) : Grammar String :=
  fun marks name => ∃ line, marks = [.use usage name line]

theorem sound_target (usage : Usage) :
    Sound (target (checkOf usage)) (IsTarget usage) (IsTarget usage) := by
  apply sound_peek
  intro head?
  cases named : head?.bind Token.identifier? with
  | none => exact sound_fail _ _ ⟨_, "", 0, rfl⟩ _
  | some name =>
    obtain ⟨token, rfl, isName⟩ := Option.bind_eq_some_iff.mp named
    obtain rfl := Token.identifier?_eq_some_iff.mp isName
    have within : (Used usage name (Nothing name)).Within (IsTarget usage) := by
      intro marks tree derived
      obtain ⟨line, _, rfl, rfl, rfl⟩ := derived
      exact ⟨line, rfl⟩
    exact soundOn_within (soundOn_use (sound_pure name)) within within

theorem sound_many_after {α : Type} (char : Char) {item : Parser α} {exact wide : Grammar α}
    (near : Local item) (inside : Sound item exact wide) :
    Sound (many (after char item)) (Repeated (Led char exact)) (Repeated (Led char wide)) := by
  have within (grammar : Grammar α) (token : Token) (choice : Unit)
      (selected : chosen (fun token => token.isSymbol char) token = some choice) :
      (Taken token grammar).Within (Led char grammar) := by
    intro marks value derived
    obtain ⟨line, inside, rfl, one⟩ := derived
    rw [Token.isSymbol_iff.mp (test_of_chosen selected)]
    exact .mk line one
  rw [after_eq_begun]
  apply sound_many
  · intro choice
    exact near
  · intro choice
    exact inside
  · exact within exact
  · exact within wide

section Bodies

variable {grammar : Grammar Statement}
variable {inner : Parser Statement} {value : Parser Expression}
variable {exact wide : Grammar Statement} {exactly widely : Grammar Expression}

def IsGroup (grammar : Grammar Statement) : Grammar Statement :=
  fun marks value => ∃ first others endText endLine statement statements,
    marks = first ++ (others ++ [.keyword .endKw endText endLine]) ∧ grammar first statement ∧
      Repeated (Led ';' grammar) others statements ∧
      value = .sequence (statement :: statements)

theorem group_within (grammar : Grammar Statement) :
    (Sequenced grammar fun first => Sequenced (Repeated (Led ';' grammar)) fun others =>
      Mapped (fun _ => .sequence (first :: others)) (TakenKeyword .endKw)).Within
      (IsGroup grammar) := by
  intro marks tree derived
  obtain ⟨first, _, statement, rfl, one, others, _, statements, rfl, more, _, ⟨endText, endLine,
    rfl⟩, rfl⟩ := derived
  exact ⟨first, others, endText, endLine, statement, statements, rfl, one, more, rfl⟩

theorem sound_group (near : Local inner) (inside : Sound inner exact wide) :
    Sound (group inner) (IsGroup exact) (IsGroup wide) := by
  have ended (members : List Statement) := sound_return (sound_expectKeyword .endKw .missingEnd)
    fun _ => Statement.sequence members
  have possible (members : List Statement) := mapped_inhabited (takenKeyword_inhabited .endKw)
    fun _ => Statement.sequence members
  apply sound_within _ (group_within exact) (group_within wide)
  apply sound_bind inside
  · intro first
    apply sound_bind (sound_many_after ';' near inside)
    · intro others
      exact ended (first :: others)
    · intro others
      exact possible (first :: others)
  · intro first
    apply sequenced_inhabited (repeated_inhabited _)
    intro others
    exact possible (first :: others)

theorem assign_within (values : Grammar Expression) (name : String) :
    (Used .integer name (Sequenced (Taken (.symbol '=') (Nothing ())) fun _ =>
      Mapped (.assign name) values)).Within (IsStatementBody grammar values) := by
  intro marks tree derived
  obtain ⟨line, _, rfl, _, late, _, rfl, ⟨equals, _, rfl, rfl, _⟩, assigned, one, rfl⟩ := derived
  exact .assign name line equals one

theorem sound_assignment (name : String) (computes : Sound value exactly widely)
    (possible : widely.Inhabited) :
    SoundOn (some (.identifier name)) (assignment name value) (IsStatementBody exact exactly)
      (IsStatementBody wide widely) := by
  apply soundOn_within _ (assign_within exactly name) (assign_within widely name)
  apply soundOn_use
  apply sound_bind (sound_expectSymbol '=' .missingAssign)
  · intro equals
    exact sound_return computes (Statement.assign name)
  · intro equals
    exact mapped_inhabited possible (Statement.assign name)

theorem call_within (values : Grammar Expression) (text : String) :
    (Taken (.word text Keyword.callKw.id) (Mapped .call (IsTarget .procedure))).Within
      (IsStatementBody grammar values) := by
  intro marks tree derived
  obtain ⟨line, _, rfl, name, ⟨nameLine, rfl⟩, rfl⟩ := derived
  exact .call text line name nameLine

theorem read_within (values : Grammar Expression) (text : String) :
    (Taken (.word text Keyword.readKw.id) (Mapped .read (IsTarget .integer))).Within
      (IsStatementBody grammar values) := by
  intro marks tree derived
  obtain ⟨line, _, rfl, name, ⟨nameLine, rfl⟩, rfl⟩ := derived
  exact .read text line name nameLine

theorem print_within (values : Grammar Expression) (text : String) :
    (Taken (.word text Keyword.printKw.id) (Mapped .print values)).Within
      (IsStatementBody grammar values) := by
  intro marks tree derived
  obtain ⟨line, _, rfl, printed, one, rfl⟩ := derived
  exact .print text line one

theorem begin_within (values : Grammar Expression) (text : String) :
    (Taken (.word text Keyword.beginKw.id) (IsGroup grammar)).Within
      (IsStatementBody grammar values) := by
  intro marks tree derived
  obtain ⟨line, _, rfl, first, others, endText, endLine, statement, statements, rfl, one, more,
    rfl⟩ := derived
  exact .group text line endText endLine one more

/-- A condition, a reserved word and a statement, put together to one. -/
def Guarded (separator : Keyword) (result : Expression → Statement → Statement)
    (values : Grammar Expression) (grammar : Grammar Statement) : Grammar Statement :=
  Sequenced (IsCondition values) fun guard =>
    Sequenced (TakenKeyword separator) fun _ => Mapped (result guard) grammar

theorem sound_guarded (separator : Keyword) (missing : Violation)
    (result : Expression → Statement → Statement) (inside : Sound inner exact wide)
    (computes : Sound value exactly widely) (someInside : wide.Inhabited)
    (someValue : widely.Inhabited) :
    Sound (do
        let guard ← condition value
        expectKeyword separator missing
        return result guard (← inner))
      (Guarded separator result exactly exact) (Guarded separator result widely wide) := by
  have someBody (guard : Expression) := mapped_inhabited someInside (result guard)
  apply sound_bind (sound_condition computes someValue)
  · intro guard
    apply sound_bind (sound_expectKeyword separator missing)
    · intro word
      exact sound_return inside (result guard)
    · intro word
      exact someBody guard
  · intro guard
    exact sequenced_inhabited (takenKeyword_inhabited separator) fun word => someBody guard

theorem if_within (values : Grammar Expression) (text : String) :
    (Taken (.word text Keyword.ifKw.id) (Guarded .thenKw .ifThen values grammar)).Within
      (IsStatementBody grammar values) := by
  intro marks tree derived
  obtain ⟨line, _, rfl, guard, _, condition, rfl, test, _, _, _, rfl, ⟨thenText, thenLine, rfl⟩,
    body, one, rfl⟩ := derived
  exact .ifThen text line thenText thenLine test one

theorem while_within (values : Grammar Expression) (text : String) :
    (Taken (.word text Keyword.whileKw.id) (Guarded .doKw .whileDo values grammar)).Within
      (IsStatementBody grammar values) := by
  intro marks tree derived
  obtain ⟨line, _, rfl, guard, _, condition, rfl, test, _, _, _, rfl, ⟨doText, doLine, rfl⟩, body,
    one, rfl⟩ := derived
  exact .whileDo text line doText doLine test one

theorem pass_within (values : Grammar Expression) (text : String) :
    (Taken (.word text Keyword.passKw.id) (Nothing .pass)).Within
      (IsStatementBody grammar values) := by
  intro marks tree derived
  obtain ⟨line, _, rfl, rfl, rfl⟩ := derived
  exact .pass text line

theorem empty_within (values : Grammar Expression) :
    (Nothing Statement.pass).Within (IsStatementBody grammar values) := by
  intro marks tree derived
  obtain ⟨rfl, rfl⟩ := derived
  exact .empty

theorem sound_keyword_statement (near : Local inner) (inside : Sound inner exact wide)
    (computes : Sound value exactly widely) (someInside : wide.Inhabited)
    (someValue : widely.Inhabited) (keyword : Keyword) (text : String) :
    SoundOn (some (.word text keyword.id)) (keywordStatement keyword inner value)
      (IsStatementBody exact exactly) (IsStatementBody wide widely) := by
  cases keyword
  case callKw =>
    apply soundOn_within _ (call_within exactly text) (call_within widely text)
    exact soundOn_taking (sound_return (sound_target .procedure) Statement.call)
  case readKw =>
    apply soundOn_within _ (read_within exactly text) (read_within widely text)
    exact soundOn_taking (sound_return (sound_target .integer) Statement.read)
  case printKw =>
    apply soundOn_within _ (print_within exactly text) (print_within widely text)
    exact soundOn_taking (sound_return computes Statement.print)
  case beginKw =>
    apply soundOn_within _ (begin_within exactly text) (begin_within widely text)
    exact soundOn_taking (sound_group near inside)
  case ifKw =>
    apply soundOn_within _ (if_within exactly text) (if_within widely text)
    apply soundOn_taking
    exact sound_guarded .thenKw .missingThen Statement.ifThen inside computes someInside someValue
  case whileKw =>
    apply soundOn_within _ (while_within exactly text) (while_within widely text)
    apply soundOn_taking
    exact sound_guarded .doKw .missingDo Statement.whileDo inside computes someInside someValue
  case passKw =>
    apply soundOn_within _ (pass_within exactly text) (pass_within widely text)
    exact soundOn_taking (sound_pure Statement.pass)
  all_goals
    apply soundOn_within _ (empty_within exactly) (empty_within widely)
    exact sound_pure Statement.pass _

theorem sound_statement_body (near : Local inner) (inside : Sound inner exact wide)
    (computes : Sound value exactly widely) (someInside : wide.Inhabited)
    (someValue : widely.Inhabited) :
    Sound (statementBody inner value) (IsStatementBody exact exactly)
      (IsStatementBody wide widely) := by
  apply sound_peek
  intro head?
  cases named : head?.bind Token.identifier? with
  | some name =>
    obtain ⟨token, rfl, isName⟩ := Option.bind_eq_some_iff.mp named
    obtain rfl := Token.identifier?_eq_some_iff.mp isName
    exact sound_assignment name computes someValue
  | none =>
    cases reserved : head?.bind Token.keyword? with
    | none =>
      apply soundOn_within _ (empty_within exactly) (empty_within widely)
      exact sound_pure Statement.pass _
    | some keyword =>
      obtain ⟨token, rfl, isKeyword⟩ := Option.bind_eq_some_iff.mp reserved
      obtain ⟨text, rfl⟩ := Token.keyword?_eq_some_iff.mp isKeyword
      exact sound_keyword_statement near inside computes someInside someValue keyword text

end Bodies

theorem statement_inhabited (height : Nat) : (IsStatement (height + 1)).Inhabited :=
  ⟨_, _, .empty⟩

theorem sound_statement (levels : Nat) :
    Sound (statement levels) (IsStatement levels) (IsStatement (levels + 2)) := by
  induction levels with
  | zero =>
    intro head? base scope around state table head form
    cases form
  | succ levels ih =>
    apply sound_nested
    exact sound_statement_body (local_statement levels) ih (sound_expression levels)
      (statement_inhabited _) (expression_inhabited _)

end PlZero.Parser
