import PlZero.Proofs.Completeness.Statement

/-!
# Derived blocks are read

The parts of a block are told apart by the reserved words that lead them, so each
part has to be followed by none of the words that would lengthen it. A block is
read in a scope of its own, and the pass over the names opens and closes one too:
both come back to the scopes that were open before, or both fail inside.
-/

namespace PlZero.Parser

set_option autoImplicit false

variable {α : Type}

def Unled (keywords : List Keyword) (token : Token) : Prop :=
  ∀ keyword, token.keyword? = some keyword → keyword ∉ keywords

theorem unled_of_unreserved {token : Token} {keywords : List Keyword}
    (unreserved : token.keyword? = none) : Unled keywords token := by
  intro keyword reserved
  rw [unreserved] at reserved
  cases reserved

theorem unled_of_word (text : String) {keyword : Keyword} {keywords : List Keyword}
    (other : keyword ∉ keywords) : Unled keywords (.word text keyword.id) := by
  intro reserved found
  rw [Token.keyword?_eq_some_iff.mpr ⟨text, rfl⟩] at found
  cases found
  exact other

theorem unled_mono {token : Token} {few many : List Keyword} (fewer : few ⊆ many)
    (unled : Unled many token) : Unled few token :=
  fun keyword reserved member => unled keyword reserved (fewer member)

theorem isKeyword_of_unled {token : Token} {keyword : Keyword} {keywords : List Keyword}
    (unled : Unled keywords token) (member : keyword ∈ keywords) :
    token.isKeyword keyword.id = false := by
  rw [Bool.eq_false_iff]
  intro leads
  exact unled keyword (Token.keyword?_eq_some_iff.mpr (Token.isKeyword_iff.mp leads)) member

def partKeywords : List Keyword := [.varKw, .constKw, .procedureKw]

theorem unled_of_endsStatement {token : Token} (ends : EndsStatement token) :
    Unled partKeywords token := by
  obtain rfl | rfl | ⟨text, rfl⟩ := ends
  · exact unled_of_unreserved rfl
  · exact unled_of_unreserved rfl
  · exact unled_of_word text (by decide)

theorem ahead_of_statement {levels : Nat} {marks : List Mark} {value : Statement}
    {rest : List LocatedToken} (derived : IsStatement levels marks value)
    (ahead : Ahead EndsStatement rest) : Ahead (Unled partKeywords) (tokensOf marks ++ rest) := by
  cases levels with
  | zero => exact derived.elim
  | succ levels =>
    cases derived with
    | empty => exact ahead_mono ahead fun _ => unled_of_endsStatement
    | assign name line equals one => exact ahead_cons _ (unled_of_unreserved rfl)
    | call text | read text | print text | group text | ifThen text | whileDo text | pass text =>
      exact ahead_cons _ (unled_of_word text (by decide))

theorem ahead_of_procedures {inner : Grammar Block} {marks : List Mark}
    {declared : List (String × Block)} {rest : List LocatedToken}
    (procedures : Repeated (IsProcedure inner) marks declared)
    (ahead : Ahead (Unled partKeywords) rest) :
    Ahead (Unled [.varKw, .constKw]) (tokensOf marks ++ rest) := by
  have fewer : Ahead (Unled [.varKw, .constKw]) rest :=
    ahead_mono ahead fun _ => unled_mono (by decide)
  apply ahead_of_repeated _ fewer procedures
  intro marks value procedure
  obtain ⟨text, line, name, nameLine, opening, closing, one⟩ := procedure
  exact ⟨_, _, rfl, unled_of_word text (by decide)⟩

theorem ahead_of_declarationPart {keyword : Keyword} {keywords : List Keyword}
    {item : Grammar Unit} {marks : List Mark} {rest : List LocatedToken}
    (part : IsDeclarationPart keyword item marks ()) (other : keyword ∉ keywords)
    (ahead : Ahead (Unled keywords) rest) : Ahead (Unled keywords) (tokensOf marks ++ rest) := by
  cases part with
  | absent => exact ahead
  | present text => exact ahead_cons _ (unled_of_word text other)

theorem unselected_of_unled {keyword : Keyword} {state : State}
    (ahead : Ahead (Unled [keyword]) state.stream.tokens) :
    (state.stream.peek?.any fun token => token.isKeyword keyword.id) = false := by
  unfold TokenStream.peek?
  cases tokens : state.stream.tokens with
  | nil => rfl
  | cons head tail =>
    rw [tokens] at ahead
    exact isKeyword_of_unled (ahead head rfl) (List.mem_singleton.mpr rfl)

theorem declarationPart_absent {keyword : Keyword} (item : Parser Unit) {state : State}
    (ahead : Ahead (Unled [keyword]) state.stream.tokens) :
    declarationPart keyword item state = .ok () state := by
  rw [declarationPart, bind_apply, atKeyword_apply, unselected_of_unled ahead]
  rfl

theorem procedures_absent (inner : Parser Block) {state : State}
    (ahead : Ahead (Unled [.procedureKw]) state.stream.tokens) :
    many (procedure? inner) state = .ok [] state := by
  rw [procedure_eq_begun]
  apply many_none
  have absent := unselected_of_unled ahead
  cases head : state.stream.peek? with
  | none => rfl
  | some token =>
    rw [head, Option.any_some] at absent
    rw [Option.bind_some, chosen, absent]
    rfl

/-- Where no word leads another part, a block is its statement. -/
theorem blockBody_of_unled (inner : Parser Block) (final : Parser Statement) {state : State}
    (ahead : Ahead (Unled partKeywords) state.stream.tokens) :
    blockBody inner final state = (do return Block.statement (← final)) state := by
  have unled (keyword : Keyword) (member : keyword ∈ partKeywords) :
      Ahead (Unled [keyword]) state.stream.tokens :=
    ahead_mono ahead fun _ => unled_mono (by simpa using member)
  rw [blockBody, bind_apply, declarationPart_absent _ (unled .varKw (by decide))]
  simp only
  rw [bind_apply, declarationPart_absent _ (unled .constKw (by decide))]
  simp only
  rw [bind_apply, procedures_absent _ (unled .procedureKw (by decide))]
  rfl

theorem variable_completes : Completes variableName IsVariable fun _ => True := by
  intro marks value rest derived _
  obtain ⟨name, line⟩ := derived
  have declared := follows_return (follows_declare .var name line .missingName rest) fun _ => ()
  simpa [bind_assoc, variableName] using declared

theorem number_follows (value : Int) (line : Nat) (rest : List LocatedToken) :
    Follows (do
      if (← peek?).any fun token => token.number?.isSome then advance else fail .constantNotNumber)
      [.plain ⟨.number value, line⟩] () rest := by
  apply follows_same rfl _ (follows_advance _ rest)
  intro state tail tokens
  rw [peek_then tokens]
  rfl

theorem constant_completes : Completes constantDefinition IsConstant fun _ => True := by
  intro marks value rest derived _
  obtain ⟨name, line, equals, number, numberLine⟩ := derived
  have declared := follows_then (follows_declare .const name line .missingName _)
    (follows_then (follows_expectSymbol '=' equals .missingAssign _)
      (number_follows number numberLine rest))
  simpa [bind_assoc, constantDefinition] using declared

theorem declaration_part_completes {keyword : Keyword} {item : Parser Unit}
    {grammar : Grammar Unit} (near : Local item) (reads : Completes item grammar fun _ => True) :
    Completes (declarationPart keyword item) (IsDeclarationPart keyword grammar)
      (Unled [keyword]) := by
  intro marks value rest derived ahead
  cases derived with
  | absent =>
    intro base scope around state table tokens
    have whole : state.stream.tokens = rest := tokens
    rw [← whole] at ahead
    rw [declarationPart_absent item ahead]
    exact ⟨scope, state, rfl, rfl, table, tokens⟩
  | @present first others units text line closing one more =>
    have tail : Follows (discard (many (after ',' item))) others ()
        (tokensOf [.symbol ';' closing] ++ rest) := by
      rw [discard_eq_bind, after_eq_begun]
      apply follows_return
      apply follows_many (fun _ => near) (ahead_cons _ rfl) _ more
      intro marks value item
      obtain ⟨line, one⟩ := item
      exact ⟨_, (), _, rfl, rfl, fun _ _ _ => reads _ _ _ one fun _ _ => trivial⟩
    have list := follows_then (reads _ _ _ one fun _ _ => trivial)
      (follows_then tail (follows_expectSymbol ';' closing .missingDeclarationSeparator rest))
    apply follows_taking _ list
    intro state tail tokens
    rw [declarationPart_eq_advance, bind_apply, atKeyword_apply, peek?_of_tokens tokens,
      Option.any_some, Token.isKeyword_iff.mpr ⟨text, rfl⟩]
    exact advance_then tokens _

/-- Over the tokens of some marks with a rest after them, a production agrees with the pass over
the names, and the scopes and the table that it began with are there again after it. -/
def Spans (production : Parser α) (marks : List Mark) (value : α)
    (rest : List LocatedToken) : Prop :=
  ∀ (base : SymbolTable) (scopes : Scopes) (state : State),
    state.table = base.extend scopes → state.stream.tokens = tokensOf marks ++ rest →
      match Scopes.pass base.lookup? scopes marks with
      | .ok last => last = scopes ∧ ∃ after, production state = .ok value after ∧
          after.table = state.table ∧ after.stream.tokens = rest
      | .error finding => ∃ after, production state = .error finding.fault after ∧
          after.stream.tokens = tokensOf finding.unread ++ rest

theorem follows_of_spans {production : Parser α} {marks : List Mark} {value : α}
    {rest : List LocatedToken} (spans : Spans production marks value rest) :
    Follows production marks value rest := by
  intro base scope around state table tokens
  have inside := spans base (scope :: around) state table tokens
  cases passed : Scopes.pass base.lookup? (scope :: around) marks with
  | error finding =>
    rw [passed] at inside
    exact inside
  | ok last =>
    rw [passed] at inside
    obtain ⟨same, after, outcome, kept, left⟩ := inside
    exact ⟨scope, after, same, outcome, by rw [kept, table, same], left⟩

theorem spans_nested {production : Parser α} {marks : List Mark} {value : α}
    {rest : List LocatedToken} (inside : Spans production marks value rest) :
    Spans (nested production) marks value rest := by
  intro base scopes state table tokens
  have deeper := inside base scopes { state with depth := state.depth + 1 } table tokens
  rw [nested_apply]
  cases passed : Scopes.pass base.lookup? scopes marks with
  | error finding =>
    rw [passed] at deeper
    obtain ⟨after, outcome, left⟩ := deeper
    rw [outcome]
    exact ⟨_, rfl, left⟩
  | ok last =>
    rw [passed] at deeper
    obtain ⟨same, after, outcome, kept, left⟩ := deeper
    rw [outcome]
    exact ⟨same, _, rfl, kept, left⟩

theorem spans_inScope {production : Parser α} {marks : List Mark} {value : α}
    {rest : List LocatedToken} (framed : Framed production)
    (inside : Follows production marks value rest) :
    Spans (inScope production) (.enter :: (marks ++ [.leave])) value rest := by
  intro base scopes state table tokens
  have opened : state.entered.table = base.extend ([] :: scopes) := by
    rw [← base.enterScope_extend, ← table]
    rfl
  rw [tokensOf_bordered] at tokens
  have inner := inside base [] scopes state.entered opened tokens
  rw [inScope_eq_withTable framed, Scopes.pass_bordered]
  cases passed : Scopes.pass base.lookup? ([] :: scopes) marks with
  | error finding =>
    rw [passed] at inner
    obtain ⟨after, outcome, left⟩ := inner
    rw [outcome]
    exact ⟨_, rfl, by rw [tokensOf_append]; simpa [Mark.tokens, withTable] using left⟩
  | ok last =>
    rw [passed] at inner
    obtain ⟨scope, after, rfl, outcome, _, left⟩ := inner
    rw [outcome]
    exact ⟨rfl, _, rfl, rfl, left⟩

section Bodies

variable {inner : Parser Block} {grammar : Grammar Block} {rest : List LocatedToken}

theorem procedure_body_follows (inside : Completes inner grammar EndsStatement)
    {marks : List Mark} {body : Block} (name : String) (nameLine opening closing : Nat)
    (one : grammar marks body) :
    Follows (procedureBody inner)
      (.declare .procedure name nameLine :: .symbol ';' opening :: (marks ++ [.symbol ';' closing]))
      (name, body) rest := by
  have told : Follows (tell (.procedureDeclared name nameLine)) [] ()
      (tokensOf (marks ++ [.symbol ';' closing]) ++ rest) :=
    fun _ scope _ _ table tokens => ⟨scope, _, rfl, rfl, table, tokens⟩
  have bodyEnds : Ahead EndsStatement (tokensOf [.symbol ';' closing] ++ rest) :=
    ahead_cons _ endsStatement_semicolon
  have closed := follows_return
    (follows_expectSymbol ';' closing .missingDeclarationSeparator rest) fun _ => (name, body)
  have bodied := follows_bind (fun body => do
    expectSymbol ';' .missingDeclarationSeparator
    return (name, body)) (inside _ _ _ one bodyEnds) closed
  have opened := follows_then (follows_expectSymbol ';' opening .missingDeclarationSeparator _)
    (follows_then told bodied)
  have declared := follows_bind (fun (declared : String × Nat) => do
    expectSymbol ';' .missingDeclarationSeparator
    tell (.procedureDeclared declared.1 declared.2)
    let body ← inner
    expectSymbol ';' .missingDeclarationSeparator
    return (declared.1, body)) (follows_declare .procedure name nameLine .missingName _) opened
  simpa [bind_assoc, procedureBody] using declared

theorem procedures_follow (near : Local inner) (inside : Completes inner grammar EndsStatement)
    (ahead : Ahead (Unled partKeywords) rest) {marks : List Mark}
    {declared : List (String × Block)} (derived : Repeated (IsProcedure grammar) marks declared) :
    Follows (many (procedure? inner)) marks declared rest := by
  rw [procedure_eq_begun]
  have stops : Ahead (fun token =>
      chosen (fun token => token.isKeyword Keyword.procedureKw.id) token = none) rest :=
    ahead_mono ahead fun token unled =>
      if_neg (ne_true_of_eq_false (isKeyword_of_unled unled (by decide)))
  apply follows_many (fun _ => local_procedureBody near) stops _ derived
  intro marks value procedure
  obtain ⟨text, line, name, nameLine, opening, closing, one⟩ := procedure
  refine ⟨_, (), _, rfl, if_pos (Token.isKeyword_iff.mpr ⟨text, rfl⟩), ?_⟩
  intro others values more
  exact procedure_body_follows inside name nameLine opening closing one

theorem block_body_completes {levels : Nat} (near : Local inner)
    (inside : Completes inner grammar EndsStatement) :
    Completes (blockBody inner (statement levels)) (IsBlockBody grammar (IsStatement levels))
      EndsStatement := by
  intro marks value rest derived ahead
  cases derived with
  | @mk variableMarks constants procedures marks declared final first second third last =>
    have beforeStatement := ahead_of_statement last ahead
    have beforeProcedures := ahead_of_procedures third beforeStatement
    have unvaried : Ahead (Unled [.varKw]) (tokensOf procedures ++ (tokensOf marks ++ rest)) :=
      ahead_mono beforeProcedures fun _ => unled_mono (by decide)
    have beforeConstants := ahead_of_declarationPart second (by decide) unvaried
    have final := follows_return (statement_completes levels _ _ _ last ahead)
      (Block.ofProcedures declared)
    apply follows_then
    · apply declaration_part_completes local_variableName variable_completes _ _ _ first
      simpa only [tokensOf_append, List.append_assoc] using beforeConstants
    · apply follows_then
      · apply declaration_part_completes local_constantDefinition constant_completes _ _ _ second
        rw [tokensOf_append, List.append_assoc]
        exact ahead_mono beforeProcedures fun _ => unled_mono (by decide)
      · exact follows_bind _ (procedures_follow near inside beforeStatement third) final

end Bodies

/-- A derived block is read whatever scopes are open around it. -/
theorem block_spans (levels : Nat) : ∀ marks value rest, IsBlock levels marks value →
    Ahead EndsStatement rest → Spans (block levels) marks value rest := by
  induction levels with
  | zero => exact fun _ _ _ derived => derived.elim
  | succ levels ih =>
    intro marks value rest derived ahead
    obtain ⟨inside⟩ := derived
    have completes : Completes (block levels) (IsBlock levels) EndsStatement :=
      fun marks value rest derived ahead => follows_of_spans (ih marks value rest derived ahead)
    apply spans_nested
    apply spans_inScope (framed_blockBody levels)
    exact block_body_completes (local_block levels) completes _ _ _ inside ahead

end PlZero.Parser
