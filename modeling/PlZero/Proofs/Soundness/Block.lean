import PlZero.Proofs.Soundness.Statement

/-!
# Read blocks are derived

The parts of a block come one after the other, each derived on its own. What was
declared inside is gone with the scope of the block, in the table and for the pass
over the names.
-/

namespace PlZero.Parser

set_option autoImplicit false

variable {α : Type}

theorem sound_variableName : Sound variableName IsVariable IsVariable := by
  have within : (Mapped (fun _ => ()) (Declared .var)).Within IsVariable := by
    intro marks tree derived
    obtain ⟨⟨name, line⟩, rfl, rfl⟩ := derived
    exact .mk name line
  have declared := sound_return (sound_declare .var .missingName) fun _ => ()
  refine sound_within ?_ within within
  simpa [bind_assoc, variableName] using declared

def IsNumber : Grammar Unit := fun marks _ => ∃ value line, marks = [.plain ⟨.number value, line⟩]

theorem number_inhabited : IsNumber.Inhabited := ⟨_, (), 0, 0, rfl⟩

theorem sound_number :
    Sound (do
      if (← peek?).any fun token => token.number?.isSome then advance else fail .constantNotNumber)
      IsNumber IsNumber := by
  apply sound_peek
  intro head?
  cases tested : head?.any fun token => token.number?.isSome with
  | false => exact sound_fail _ _ number_inhabited _
  | true =>
    obtain ⟨token, rfl, isNumber⟩ := (Option.any_eq_true _ _).mp tested
    cases token with
    | number value =>
      have within : (Taken (.number value) (Nothing ())).Within IsNumber := by
        intro marks tree derived
        obtain ⟨line, _, rfl, rfl, _⟩ := derived
        exact ⟨value, line, rfl⟩
      exact soundOn_within (soundOn_advance _) within within
    | word text id => cases isNumber
    | symbol char => cases isNumber

theorem constant_within :
    (Sequenced (Declared .const) fun _ =>
      Sequenced (Taken (.symbol '=') (Nothing ())) fun _ => IsNumber).Within IsConstant := by
  intro marks tree derived
  obtain ⟨_, _, ⟨name, line⟩, rfl, rfl, _, _, _, rfl, ⟨equals, _, rfl, rfl, _⟩, value, valueLine,
    rfl⟩ := derived
  exact .mk name line equals value valueLine

theorem sound_constantDefinition : Sound constantDefinition IsConstant IsConstant := by
  have valued := sound_bind (sound_expectSymbol '=' .missingAssign) (fun _ => sound_number)
    fun _ => number_inhabited
  have declared := sound_bind (sound_declare .const .missingName) (fun _ => valued)
    fun _ => sequenced_inhabited (taken_inhabited (nothing_inhabited ())) fun _ => number_inhabited
  refine sound_within ?_ constant_within constant_within
  simpa [bind_assoc, constantDefinition] using declared

theorem part_within (keyword : Keyword) (item : Grammar Unit) (text : String) :
    (Taken (.word text keyword.id) (Sequenced item fun _ =>
      Sequenced (Mapped (fun _ => ()) (Repeated (Led ',' item))) fun _ =>
        Taken (.symbol ';') (Nothing ()))).Within (IsDeclarationPart keyword item) := by
  intro marks tree derived
  obtain ⟨line, _, rfl, first, _, _, rfl, one, others, _, _, rfl, ⟨units, more, _⟩, ⟨closing, _,
    rfl, rfl, _⟩⟩ := derived
  exact .present text line closing one more

theorem sound_declarationPart (keyword : Keyword) {item : Parser Unit} {grammar : Grammar Unit}
    (near : Local item) (inside : Sound item grammar grammar) :
    Sound (declarationPart keyword item) (IsDeclarationPart keyword grammar)
      (IsDeclarationPart keyword grammar) := by
  have absent : (Nothing ()).Within (IsDeclarationPart keyword grammar) := by
    intro marks tree derived
    obtain ⟨rfl, _⟩ := derived
    exact .absent
  have closing : (Taken (.symbol ';') (Nothing ())).Inhabited :=
    taken_inhabited (nothing_inhabited ())
  have others : Sound (discard (many (after ',' item)))
      (Mapped (fun _ => ()) (Repeated (Led ',' grammar)))
      (Mapped (fun _ => ()) (Repeated (Led ',' grammar))) := by
    rw [discard_eq_bind]
    exact sound_return (sound_many_after ',' near inside) fun _ => ()
  have list := sound_bind inside
    (fun _ => sound_bind others (fun _ => sound_expectSymbol ';' .missingDeclarationSeparator)
      fun _ => closing)
    fun _ => sequenced_inhabited (mapped_inhabited (repeated_inhabited _) _) fun _ => closing
  have within := part_within keyword grammar
  rw [declarationPart_eq_advance]
  apply sound_atKeyword
  · intro text
    exact soundOn_within (soundOn_taking list) (within text) (within text)
  · exact sound_within (sound_pure ()) absent absent

section Bodies

variable {inner : Parser Block} {exact wide : Grammar Block}

theorem sound_tell (name : String) (line : Nat) :
    Sound (tell (.procedureDeclared name line)) (Nothing ()) (Nothing ()) :=
  fun _ _ scope _ _ table _ => ⟨[], scope, ⟨rfl, rfl⟩, ⟨rfl, rfl⟩, rfl, rfl, table⟩

def IsProcedureBody (grammar : Grammar Block) : Grammar (String × Block) :=
  fun marks declared => ∃ nameLine opening closing inside,
    marks = .declare .procedure declared.1 nameLine :: .symbol ';' opening ::
      (inside ++ [.symbol ';' closing]) ∧ grammar inside declared.2

theorem procedure_body_within (grammar : Grammar Block) :
    (Sequenced (Declared .procedure) fun declared =>
      Sequenced (Taken (.symbol ';') (Nothing ())) fun _ => Sequenced (Nothing ()) fun _ =>
        Sequenced grammar fun body =>
          Mapped (fun _ => (declared.1, body)) (Taken (.symbol ';') (Nothing ()))).Within
      (IsProcedureBody grammar) := by
  intro marks tree derived
  obtain ⟨_, _, ⟨name, nameLine⟩, rfl, rfl, _, _, _, rfl, ⟨opening, _, rfl, rfl, _⟩, _, _, _, rfl,
    ⟨rfl, _⟩, inside, _, body, rfl, one, _, ⟨closing, _, rfl, rfl, _⟩, rfl⟩ := derived
  exact ⟨nameLine, opening, closing, inside, rfl, one⟩

theorem procedure_within (grammar : Grammar Block) (token : Token) (choice : Unit)
    (selected : chosen (fun token => token.isKeyword Keyword.procedureKw.id) token = some choice) :
    (Taken token (IsProcedureBody grammar)).Within (IsProcedure grammar) := by
  intro marks declared derived
  obtain ⟨line, _, rfl, nameLine, opening, closing, inside, rfl, one⟩ := derived
  obtain ⟨text, rfl⟩ := Token.isKeyword_iff.mp (test_of_chosen selected)
  exact .mk text line declared.1 nameLine opening closing one

theorem sound_procedureBody (inside : Sound inner exact wide) (possible : wide.Inhabited) :
    Sound (procedureBody inner) (IsProcedureBody exact) (IsProcedureBody wide) := by
  have semicolon : (Taken (.symbol ';') (Nothing ())).Inhabited :=
    taken_inhabited (nothing_inhabited ())
  have closed (name : String) (body : Block) := sound_return
    (sound_expectSymbol ';' .missingDeclarationSeparator) fun _ => (name, body)
  have bodied (name : String) := sound_bind inside (closed name)
    fun body => mapped_inhabited semicolon fun _ => (name, body)
  have someBody (name : String) := sequenced_inhabited possible
    fun body => mapped_inhabited semicolon fun _ => (name, body)
  have told (name : String) (line : Nat) := sound_bind (sound_tell name line)
    (fun _ => bodied name) fun _ => someBody name
  have someTold (name : String) := sequenced_inhabited (nothing_inhabited ()) fun _ => someBody name
  have declared := sound_bind (sound_declare .procedure .missingName)
    (fun declared => sound_bind (sound_expectSymbol ';' .missingDeclarationSeparator)
      (fun _ => told declared.1 declared.2) fun _ => someTold declared.1)
    fun declared => sequenced_inhabited semicolon fun _ => someTold declared.1
  refine sound_within ?_ (procedure_body_within exact) (procedure_body_within wide)
  simpa [bind_assoc, procedureBody] using declared

theorem sound_procedures (near : Local inner) (inside : Sound inner exact wide)
    (possible : wide.Inhabited) :
    Sound (many (procedure? inner)) (Repeated (IsProcedure exact))
      (Repeated (IsProcedure wide)) := by
  rw [procedure_eq_begun]
  apply sound_many
  · intro choice
    exact local_procedureBody near
  · intro choice
    exact sound_procedureBody inside possible
  · exact procedure_within exact
  · exact procedure_within wide

theorem block_body_within (grammar : Grammar Block) (statements : Grammar Statement) :
    (Sequenced (IsDeclarationPart .varKw IsVariable) fun _ =>
      Sequenced (IsDeclarationPart .constKw IsConstant) fun _ =>
        Sequenced (Repeated (IsProcedure grammar)) fun procedures =>
          Mapped (.ofProcedures procedures) statements).Within
      (IsBlockBody grammar statements) := by
  intro marks tree derived
  obtain ⟨variableMarks, _, _, rfl, first, constants, _, _, rfl, second, procedures, last,
    declared, rfl, third, final, one, rfl⟩ := derived
  exact .mk first second third one

theorem sound_block_body {statement : Parser Statement} {exactly widely : Grammar Statement}
    (near : Local inner) (inside : Sound inner exact wide) (ended : Sound statement exactly widely)
    (someInside : wide.Inhabited) (someEnd : widely.Inhabited) :
    Sound (blockBody inner statement) (IsBlockBody exact exactly) (IsBlockBody wide widely) := by
  have final (procedures : List (String × Block)) :=
    sound_return ended (Block.ofProcedures procedures)
  have someFinal (procedures : List (String × Block)) :=
    mapped_inhabited someEnd (Block.ofProcedures procedures)
  have third := sound_bind (sound_procedures near inside someInside) final someFinal
  have someThird := sequenced_inhabited (repeated_inhabited (IsProcedure wide)) someFinal
  have someSecond : (Sequenced (IsDeclarationPart .constKw IsConstant) fun _ => _).Inhabited :=
    sequenced_inhabited ⟨_, _, .absent⟩ fun _ => someThird
  apply sound_within _ (block_body_within exact exactly) (block_body_within wide widely)
  apply sound_bind (sound_declarationPart .varKw local_variableName sound_variableName)
  · intro declaredVariables
    apply sound_bind
      (sound_declarationPart .constKw local_constantDefinition sound_constantDefinition)
    · intro declaredConstants
      exact third
    · intro declaredConstants
      exact someThird
  · intro declaredVariables
    exact someSecond

end Bodies

/-- All runs of a production from any scopes are accounted for, and leave the table as it was. -/
def SoundAnywhere (production : Parser α) (exact wide : Grammar α) : Prop :=
  ∀ (base : SymbolTable) (scopes : Scopes) (state : State), state.table = base.extend scopes →
    match production state with
    | .ok value after => ∃ marks, exact marks value ∧ wide marks value ∧
        state.stream.tokens = tokensOf marks ++ after.stream.tokens ∧
        Scopes.pass base.lookup? scopes marks = .ok scopes ∧ after.table = state.table
    | .error fault after => fault.concernsForm = true → Begins wide state after

theorem sound_of_anywhere {production : Parser α} {exact wide : Grammar α}
    (sound : SoundAnywhere production exact wide) : Sound production exact wide := by
  intro head? base scope around state table head
  have inside := sound base (scope :: around) state table
  cases outcome : production state with
  | error fault after =>
    rw [outcome] at inside
    exact inside
  | ok value after =>
    rw [outcome] at inside
    obtain ⟨marks, exactly, widely, split, passed, kept⟩ := inside
    exact ⟨marks, scope, exactly, widely, split, passed, by rw [kept, table]⟩

theorem anywhere_nested {production : Parser α} {exact wide : Grammar α}
    (inside : SoundAnywhere production exact wide) :
    SoundAnywhere (nested production) exact wide := by
  intro base scopes state table
  have deeper := inside base scopes { state with depth := state.depth + 1 } table
  rw [nested_apply]
  cases outcome : production { state with depth := state.depth + 1 } with
  | ok value after | error fault after =>
    rw [outcome] at deeper
    exact deeper

theorem anywhere_inScope {production : Parser α} {exact wide : Grammar α}
    (framed : Framed production) (inside : Sound production exact wide) :
    SoundAnywhere (inScope production) (Bordered exact) (Bordered wide) := by
  intro base scopes state table
  have opened : state.entered.table = base.extend ([] :: scopes) := by
    rw [← base.enterScope_extend, ← table]
    rfl
  have inner := inside _ base [] scopes state.entered opened rfl
  rw [inScope_eq_withTable framed]
  cases outcome : production state.entered with
  | error fault after =>
    rw [outcome] at inner
    intro form
    obtain ⟨marks, value, taken, ahead, derived, split, tokens⟩ := inner form
    exact ⟨_, value, taken, ahead, .mk derived, (tokensOf_bordered marks).trans split, tokens⟩
  | ok value after =>
    rw [outcome] at inner
    obtain ⟨marks, last, exactly, widely, split, passed, _⟩ := inner
    refine ⟨_, .mk exactly, .mk widely, by rw [tokensOf_bordered]; exact split, ?_, rfl⟩
    rw [Scopes.pass_bordered, passed]
    rfl

theorem block_inhabited (height : Nat) : (IsBlock (height + 2)).Inhabited :=
  ⟨_, _, .mk (.mk .absent .absent .none .empty)⟩

/-- A derivation of what was read uses no more levels than there were, and two levels more are
enough to complete what was begun. -/
theorem sound_block (levels : Nat) :
    SoundAnywhere (block levels) (IsBlock levels) (IsBlock (levels + 2)) := by
  induction levels with
  | zero =>
    intro base scopes state table form
    cases form
  | succ levels ih =>
    apply anywhere_nested
    apply anywhere_inScope (framed_blockBody levels)
    exact sound_block_body (local_block levels) (sound_of_anywhere ih) (sound_statement levels)
      (block_inhabited levels) (statement_inhabited _)

end PlZero.Parser
