import PlZero.Proofs.Scoping

/-!
# Lines play no part

A derivation stays one, of the same tree, when its tokens are given other lines, and
its names stay in order. So whether a string of tokens is derived, and whether the
rules about names hold, can be asked without any lines.
-/

namespace PlZero

set_option autoImplicit false

def Mark.unlined : Mark → Mark
  | plain located => plain ⟨located.token, 0⟩
  | declare kind name _ => declare kind name 0
  | use usage name _ => use usage name 0
  | enter => enter
  | leave => leave

/-- Two strings of marks that differ in their lines only. -/
def Alike (marks others : List Mark) : Prop := marks.map Mark.unlined = others.map Mark.unlined

theorem alike_nil {others : List Mark} (alike : Alike [] others) : others = [] :=
  List.map_eq_nil_iff.mp alike.symm

theorem alike_append {first second others : List Mark} (alike : Alike (first ++ second) others) :
    ∃ early late, others = early ++ late ∧ Alike first early ∧ Alike second late := by
  have split : others.map Mark.unlined = first.map Mark.unlined ++ second.map Mark.unlined := by
    rw [← List.map_append]
    exact alike.symm
  obtain ⟨early, late, rfl, one, other⟩ := List.map_eq_append_iff.mp split
  exact ⟨early, late, rfl, one.symm, other.symm⟩

theorem alike_cons {mark : Mark} {marks others : List Mark} (alike : Alike (mark :: marks) others) :
    ∃ first rest, others = first :: rest ∧ mark.unlined = first.unlined ∧ Alike marks rest := by
  obtain ⟨first, rest, rfl, one, other⟩ := List.map_eq_cons_iff.mp alike.symm
  exact ⟨first, rest, rfl, one.symm, other.symm⟩

theorem alike_plain {token : Token} {line : Nat} {marks others : List Mark}
    (alike : Alike (.plain ⟨token, line⟩ :: marks) others) :
    ∃ line rest, others = .plain ⟨token, line⟩ :: rest ∧ Alike marks rest := by
  obtain ⟨first, rest, rfl, same, further⟩ := alike_cons alike
  cases first with
  | plain located =>
    obtain ⟨token, other⟩ := located
    cases same
    exact ⟨other, rest, rfl, further⟩
  | declare | use | enter | leave => cases same

theorem alike_declare {kind : SymbolKind} {name : String} {line : Nat} {marks others : List Mark}
    (alike : Alike (.declare kind name line :: marks) others) :
    ∃ line rest, others = .declare kind name line :: rest ∧ Alike marks rest := by
  obtain ⟨first, rest, rfl, same, further⟩ := alike_cons alike
  cases first with
  | declare own text other =>
    cases same
    exact ⟨other, rest, rfl, further⟩
  | plain | use | enter | leave => cases same

theorem alike_use {usage : Usage} {name : String} {line : Nat} {marks others : List Mark}
    (alike : Alike (.use usage name line :: marks) others) :
    ∃ line rest, others = .use usage name line :: rest ∧ Alike marks rest := by
  obtain ⟨first, rest, rfl, same, further⟩ := alike_cons alike
  cases first with
  | use own text other =>
    cases same
    exact ⟨other, rest, rfl, further⟩
  | plain | declare | enter | leave => cases same

theorem alike_enter {marks others : List Mark} (alike : Alike (.enter :: marks) others) :
    ∃ rest, others = .enter :: rest ∧ Alike marks rest := by
  obtain ⟨first, rest, rfl, same, further⟩ := alike_cons alike
  cases first with
  | enter => exact ⟨rest, rfl, further⟩
  | plain | declare | use | leave => cases same

theorem alike_leave {marks others : List Mark} (alike : Alike (.leave :: marks) others) :
    ∃ rest, others = .leave :: rest ∧ Alike marks rest := by
  obtain ⟨first, rest, rfl, same, further⟩ := alike_cons alike
  cases first with
  | leave => exact ⟨rest, rfl, further⟩
  | plain | declare | use | enter => cases same

def Grammar.IgnoresLines {α : Type} (grammar : Grammar α) : Prop :=
  ∀ marks others value, grammar marks value → Alike marks others → grammar others value

section Grammars

variable {α : Type}

theorem repeated_ignores_lines {item : Grammar α} (ignores : item.IgnoresLines) :
    (Repeated item).IgnoresLines := by
  intro marks others value derived alike
  induction derived generalizing others with
  | none =>
    obtain rfl := alike_nil alike
    exact .none
  | more one rest ih =>
    obtain ⟨early, late, rfl, alikeOne, alikeRest⟩ := alike_append alike
    exact .more (ignores _ _ _ one alikeOne) (ih _ alikeRest)

theorem led_ignores_lines {item : Grammar α} (char : Char) (ignores : item.IgnoresLines) :
    (Led char item).IgnoresLines := by
  intro marks others value derived alike
  obtain ⟨line, one⟩ := derived
  obtain ⟨line, rest, rfl, further⟩ := alike_plain alike
  exact .mk line (ignores _ _ _ one further)

variable {inner : Grammar Expression}

theorem factor_ignores_lines (ignores : inner.IgnoresLines) : (IsFactor inner).IgnoresLines := by
  intro marks others value derived alike
  cases derived with
  | name name line =>
    obtain ⟨line, _, rfl, nothing⟩ := alike_use alike
    obtain rfl := alike_nil nothing
    exact .name name line
  | number value line =>
    obtain ⟨line, _, rfl, nothing⟩ := alike_plain alike
    obtain rfl := alike_nil nothing
    exact .number value line
  | bracketed opening closing inside =>
    obtain ⟨opening, _, rfl, further⟩ := alike_plain alike
    obtain ⟨middle, _, rfl, alikeInside, last⟩ := alike_append further
    obtain ⟨closing, _, rfl, nothing⟩ := alike_plain last
    obtain rfl := alike_nil nothing
    exact .bracketed opening closing (ignores _ _ _ inside alikeInside)

theorem operation_ignores_lines (additive : Bool) (ignores : inner.IgnoresLines) :
    (IsOperation additive inner).IgnoresLines := by
  intro marks others value derived alike
  obtain ⟨operator, line, rank, one⟩ := derived
  obtain ⟨line, _, rfl, further⟩ := alike_plain alike
  exact .mk operator line rank (ignores _ _ _ one further)

theorem term_ignores_lines (ignores : inner.IgnoresLines) : (IsTerm inner).IgnoresLines := by
  intro marks others value derived alike
  obtain ⟨one, more⟩ := derived
  obtain ⟨early, late, rfl, alikeOne, alikeMore⟩ := alike_append alike
  have factors := factor_ignores_lines ignores
  have operations := repeated_ignores_lines (operation_ignores_lines false factors)
  exact .mk (factors _ _ _ one alikeOne) (operations _ _ _ more alikeMore)

theorem expressionBody_ignores_lines (ignores : inner.IgnoresLines) :
    (IsExpressionBody inner).IgnoresLines := by
  have terms := term_ignores_lines ignores
  have operations := repeated_ignores_lines (operation_ignores_lines true terms)
  intro marks others value derived alike
  cases derived with
  | plain one more =>
    obtain ⟨early, late, rfl, alikeOne, alikeMore⟩ := alike_append alike
    exact .plain (terms _ _ _ one alikeOne) (operations _ _ _ more alikeMore)
  | signed line one more =>
    obtain ⟨line, _, rfl, further⟩ := alike_plain alike
    obtain ⟨early, late, rfl, alikeOne, alikeMore⟩ := alike_append further
    exact .signed line (terms _ _ _ one alikeOne) (operations _ _ _ more alikeMore)

theorem expression_ignores_lines (height : Nat) : (IsExpression height).IgnoresLines := by
  induction height with
  | zero => exact fun _ _ _ derived => derived.elim
  | succ height ih => exact expressionBody_ignores_lines ih

theorem condition_ignores_lines (ignores : inner.IgnoresLines) :
    (IsCondition inner).IgnoresLines := by
  intro marks others value derived alike
  cases derived with
  | odd text line one =>
    obtain ⟨line, _, rfl, further⟩ := alike_plain alike
    exact .odd text line (ignores _ _ _ one further)
  | relation stands one other =>
    obtain ⟨early, _, rfl, alikeOne, further⟩ := alike_append alike
    obtain ⟨line, _, rfl, alikeOther⟩ := alike_plain further
    exact .relation stands (ignores _ _ _ one alikeOne) (ignores _ _ _ other alikeOther)

theorem statement_ignores_lines (height : Nat) : (IsStatement height).IgnoresLines := by
  induction height with
  | zero => exact fun _ _ _ derived => derived.elim
  | succ height ih =>
    have values := expression_ignores_lines height
    have tests := condition_ignores_lines values
    intro marks others value derived alike
    cases derived with
    | empty =>
      obtain rfl := alike_nil alike
      exact .empty
    | assign name line equals one =>
      obtain ⟨line, _, rfl, further⟩ := alike_use alike
      obtain ⟨equals, _, rfl, alikeOne⟩ := alike_plain further
      exact .assign name line equals (values _ _ _ one alikeOne)
    | call text line name nameLine =>
      obtain ⟨line, _, rfl, further⟩ := alike_plain alike
      obtain ⟨nameLine, _, rfl, nothing⟩ := alike_use further
      obtain rfl := alike_nil nothing
      exact .call text line name nameLine
    | read text line name nameLine =>
      obtain ⟨line, _, rfl, further⟩ := alike_plain alike
      obtain ⟨nameLine, _, rfl, nothing⟩ := alike_use further
      obtain rfl := alike_nil nothing
      exact .read text line name nameLine
    | print text line one =>
      obtain ⟨line, _, rfl, further⟩ := alike_plain alike
      exact .print text line (values _ _ _ one further)
    | group text line endText endLine one more =>
      have members := repeated_ignores_lines (led_ignores_lines ';' ih)
      obtain ⟨line, _, rfl, further⟩ := alike_plain alike
      obtain ⟨early, _, rfl, alikeOne, following⟩ := alike_append further
      obtain ⟨late, _, rfl, alikeMore, last⟩ := alike_append following
      obtain ⟨endLine, _, rfl, nothing⟩ := alike_plain last
      obtain rfl := alike_nil nothing
      exact .group text line endText endLine (ih _ _ _ one alikeOne) (members _ _ _ more alikeMore)
    | ifThen text line thenText thenLine test one =>
      obtain ⟨line, _, rfl, further⟩ := alike_plain alike
      obtain ⟨guard, _, rfl, alikeTest, following⟩ := alike_append further
      obtain ⟨thenLine, _, rfl, alikeOne⟩ := alike_plain following
      exact .ifThen text line thenText thenLine (tests _ _ _ test alikeTest) (ih _ _ _ one alikeOne)
    | whileDo text line doText doLine test one =>
      obtain ⟨line, _, rfl, further⟩ := alike_plain alike
      obtain ⟨guard, _, rfl, alikeTest, following⟩ := alike_append further
      obtain ⟨doLine, _, rfl, alikeOne⟩ := alike_plain following
      exact .whileDo text line doText doLine (tests _ _ _ test alikeTest) (ih _ _ _ one alikeOne)
    | pass text line =>
      obtain ⟨line, _, rfl, nothing⟩ := alike_plain alike
      obtain rfl := alike_nil nothing
      exact .pass text line

theorem variable_ignores_lines : IsVariable.IgnoresLines := by
  intro marks others value derived alike
  obtain ⟨name, line⟩ := derived
  obtain ⟨line, _, rfl, nothing⟩ := alike_declare alike
  obtain rfl := alike_nil nothing
  exact .mk name line

theorem constant_ignores_lines : IsConstant.IgnoresLines := by
  intro marks others value derived alike
  obtain ⟨name, line, equals, number, numberLine⟩ := derived
  obtain ⟨line, _, rfl, further⟩ := alike_declare alike
  obtain ⟨equals, _, rfl, last⟩ := alike_plain further
  obtain ⟨numberLine, _, rfl, nothing⟩ := alike_plain last
  obtain rfl := alike_nil nothing
  exact .mk name line equals number numberLine

theorem declarationPart_ignores_lines {keyword : Keyword} {item : Grammar Unit}
    (ignores : item.IgnoresLines) : (IsDeclarationPart keyword item).IgnoresLines := by
  intro marks others value derived alike
  cases derived with
  | absent =>
    obtain rfl := alike_nil alike
    exact .absent
  | present text line closing one more =>
    have items := repeated_ignores_lines (led_ignores_lines ',' ignores)
    obtain ⟨line, _, rfl, further⟩ := alike_plain alike
    obtain ⟨early, _, rfl, alikeOne, following⟩ := alike_append further
    obtain ⟨late, _, rfl, alikeMore, last⟩ := alike_append following
    obtain ⟨closing, _, rfl, nothing⟩ := alike_plain last
    obtain rfl := alike_nil nothing
    exact .present text line closing (ignores _ _ _ one alikeOne) (items _ _ _ more alikeMore)

theorem procedure_ignores_lines {inner : Grammar Block} (ignores : inner.IgnoresLines) :
    (IsProcedure inner).IgnoresLines := by
  intro marks others value derived alike
  obtain ⟨text, line, name, nameLine, opening, closing, one⟩ := derived
  obtain ⟨line, _, rfl, named⟩ := alike_plain alike
  obtain ⟨nameLine, _, rfl, opened⟩ := alike_declare named
  obtain ⟨opening, _, rfl, further⟩ := alike_plain opened
  obtain ⟨inside, _, rfl, alikeOne, last⟩ := alike_append further
  obtain ⟨closing, _, rfl, nothing⟩ := alike_plain last
  obtain rfl := alike_nil nothing
  exact .mk text line name nameLine opening closing (ignores _ _ _ one alikeOne)

theorem block_ignores_lines (height : Nat) : (IsBlock height).IgnoresLines := by
  induction height with
  | zero => exact fun _ _ _ derived => derived.elim
  | succ height ih =>
    have procedures := repeated_ignores_lines (procedure_ignores_lines ih)
    intro marks others value derived alike
    obtain ⟨first, second, third, last⟩ := derived
    obtain ⟨_, rfl, entered⟩ := alike_enter alike
    obtain ⟨_, _, rfl, inside, left⟩ := alike_append entered
    obtain ⟨_, rfl, nothing⟩ := alike_leave left
    obtain rfl := alike_nil nothing
    obtain ⟨_, _, rfl, alikeFirst, afterFirst⟩ := alike_append inside
    obtain ⟨_, _, rfl, alikeSecond, afterSecond⟩ := alike_append afterFirst
    obtain ⟨_, _, rfl, alikeThird, alikeLast⟩ := alike_append afterSecond
    exact .mk (.mk (declarationPart_ignores_lines variable_ignores_lines _ _ _ first alikeFirst)
      (declarationPart_ignores_lines constant_ignores_lines _ _ _ second alikeSecond)
      (procedures _ _ _ third alikeThird)
      (statement_ignores_lines height _ _ _ last alikeLast))

end Grammars

/-- Tokens that differ in their lines only from those of some marks are the tokens of marks that
differ in their lines only. -/
theorem alike_of_tokens (marks : List Mark) (tokens : List LocatedToken)
    (same : tokens.map LocatedToken.token = (tokensOf marks).map LocatedToken.token) :
    ∃ others, Alike marks others ∧ tokensOf others = tokens := by
  induction marks generalizing tokens with
  | nil => exact ⟨[], rfl, (List.map_eq_nil_iff.mp same).symm⟩
  | cons mark marks ih =>
    cases mark with
    | plain located =>
      obtain ⟨⟨token, line⟩, rest, rfl, rfl, further⟩ := List.map_eq_cons_iff.mp same
      obtain ⟨others, alike, rfl⟩ := ih rest further
      exact ⟨.plain ⟨located.token, line⟩ :: others, congrArg (Mark.unlined _ :: ·) alike, rfl⟩
    | declare kind name line =>
      obtain ⟨⟨token, line⟩, rest, rfl, rfl, further⟩ := List.map_eq_cons_iff.mp same
      obtain ⟨others, alike, rfl⟩ := ih rest further
      exact ⟨.declare kind name line :: others, congrArg (Mark.declare kind name 0 :: ·) alike, rfl⟩
    | use usage name line =>
      obtain ⟨⟨token, line⟩, rest, rfl, rfl, further⟩ := List.map_eq_cons_iff.mp same
      obtain ⟨others, alike, rfl⟩ := ih rest further
      exact ⟨.use usage name line :: others, congrArg (Mark.use usage name 0 :: ·) alike, rfl⟩
    | enter =>
      obtain ⟨others, alike, rfl⟩ := ih tokens same
      exact ⟨.enter :: others, congrArg (Mark.enter :: ·) alike, rfl⟩
    | leave =>
      obtain ⟨others, alike, rfl⟩ := ih tokens same
      exact ⟨.leave :: others, congrArg (Mark.leave :: ·) alike, rfl⟩

theorem block_of_tokens {height : Nat} {marks : List Mark} {block : Block}
    (derived : IsBlock height marks block) {tokens : List LocatedToken}
    (same : tokens.map LocatedToken.token = (tokensOf marks).map LocatedToken.token) :
    ∃ others, IsBlock height others block ∧ tokensOf others = tokens := by
  obtain ⟨others, alike, spelled⟩ := alike_of_tokens marks tokens same
  exact ⟨others, block_ignores_lines height marks others block derived alike, spelled⟩

namespace Scopes

def unlined (scopes : Scopes) : Scopes :=
  scopes.map fun scope => scope.map fun symbol => { symbol with line := 0 }

theorem lookup?_unlined (outer : String → Option SymbolKind) (scopes : Scopes) (name : String) :
    lookup? outer scopes.unlined name = lookup? outer scopes name := by
  unfold lookup? unlined
  rw [← List.map_flatten, List.find?_map, Function.comp_def]
  cases scopes.flatten.find? fun symbol => symbol.name == name <;> rfl

theorem headD_unlined (scopes : Scopes) :
    scopes.unlined.headD [] = (scopes.headD []).map fun symbol => { symbol with line := 0 } := by
  cases scopes <;> rfl

theorem fault?_unlined (outer : String → Option SymbolKind) (scopes : Scopes) (mark : Mark) :
    fault? outer scopes.unlined mark.unlined = none ↔ fault? outer scopes mark = none := by
  cases mark with
  | declare kind name line =>
    simp only [Mark.unlined, fault?, headD_unlined, List.any_map, Function.comp_def]
    split <;> simp
  | use usage name line =>
    simp only [Mark.unlined, fault?, lookup?_unlined, Option.map_eq_none_iff]
  | plain | enter | leave => exact Iff.rfl

theorem after_unlined (scopes : Scopes) (mark : Mark) :
    (scopes.after mark).unlined = scopes.unlined.after mark.unlined := by
  cases mark with
  | declare kind name line => cases scopes <;> rfl
  | leave => cases scopes <;> rfl
  | plain | use | enter => rfl

theorem afterAll_unlined (scopes : Scopes) (marks : List Mark) :
    (scopes.afterAll marks).unlined = scopes.unlined.afterAll (marks.map Mark.unlined) := by
  induction marks generalizing scopes with
  | nil => rfl
  | cons mark marks ih =>
    have step := ih (scopes.after mark)
    rw [after_unlined] at step
    exact step

end Scopes

/-- Marks are in order if others are that differ in their lines only. -/
theorem obeysScoping_of_alike {outer : String → Option SymbolKind} {marks others : List Mark}
    (alike : Alike marks others) (inOrder : ObeysScoping outer marks) :
    ObeysScoping outer others := by
  intro before mark rest split
  rw [split] at alike
  obtain ⟨early, late, rfl, alikeBefore, alikeLate⟩ := alike_append alike.symm
  obtain ⟨own, _, rfl, same, _⟩ := alike_cons alikeLate
  have found := inOrder early own _ rfl
  rw [← Scopes.fault?_unlined, ← same, Scopes.afterAll_unlined, ← alikeBefore,
    ← Scopes.afterAll_unlined, Scopes.fault?_unlined] at found
  exact found

end PlZero
