import PlZero.Proofs.ProcedureScope
import PlZero.Proofs.Soundness.Block
import PlZero.Proofs.Telling

/-!
# What is told of a derivation

The marks of a derivation say by themselves what is told while they are read. Entering a
block tells how many scopes are open then, the declaration of a procedure tells its name
and its line, and nothing else is told of. A block that is read tells just what the marks
say that it took: its declarations and its statement are silent, and each of its procedures
tells its head and then what its body tells.
-/

namespace PlZero

set_option autoImplicit false

namespace Mark

def depthAfter (depth : Nat) : Mark → Nat
  | enter => depth + 1
  | leave => depth - 1
  | _ => depth

/-- What is told of a mark where so many scopes are open before it. -/
def told? (depth : Nat) : Mark → Option Event
  | enter => some (.blockEntered (depth + 1))
  | declare .procedure name line => some (.procedureDeclared name line)
  | _ => none

end Mark

def depthAfterAll (depth : Nat) (marks : List Mark) : Nat := marks.foldl Mark.depthAfter depth

def toldOf (depth : Nat) : List Mark → List Event
  | [] => []
  | mark :: rest => (mark.told? depth).toList ++ toldOf (mark.depthAfter depth) rest

@[simp] theorem depthAfterAll_append (depth : Nat) (first second : List Mark) :
    depthAfterAll depth (first ++ second) = depthAfterAll (depthAfterAll depth first) second :=
  List.foldl_append

theorem toldOf_append (depth : Nat) (first second : List Mark) :
    toldOf depth (first ++ second) =
      toldOf depth first ++ toldOf (depthAfterAll depth first) second := by
  induction first generalizing depth with
  | nil => rfl
  | cons mark first ih =>
    rw [List.cons_append, toldOf, ih, toldOf, List.append_assoc]
    rfl

theorem depthAfterAll_bordered (depth : Nat) (marks : List Mark) :
    depthAfterAll depth (.enter :: (marks ++ [.leave])) = depthAfterAll (depth + 1) marks - 1 :=
  depthAfterAll_append (depth + 1) marks [.leave]

theorem toldOf_bordered (depth : Nat) (marks : List Mark) :
    toldOf depth (.enter :: (marks ++ [.leave])) =
      .blockEntered (depth + 1) :: toldOf (depth + 1) marks := by
  have entered : toldOf depth (.enter :: (marks ++ [.leave])) =
      .blockEntered (depth + 1) :: toldOf (depth + 1) (marks ++ [.leave]) := rfl
  rw [entered, toldOf_append]
  simp [toldOf, Mark.told?]

theorem Mark.IsData.depthAfter {mark : Mark} (isData : mark.IsData) (depth : Nat) :
    mark.depthAfter depth = depth := by
  cases mark <;> first | rfl | exact isData.elim

theorem Mark.IsData.told? {mark : Mark} (isData : mark.IsData) (depth : Nat) :
    mark.told? depth = none := by
  cases mark with
  | declare kind name line => cases kind <;> first | rfl | exact isData.elim
  | enter => exact isData.elim
  | _ => rfl

theorem depthAfterAll_data {marks : List Mark} (isData : MadeOf Mark.IsData marks) (depth : Nat) :
    depthAfterAll depth marks = depth := by
  induction marks with
  | nil => rfl
  | cons mark marks ih =>
    obtain ⟨one, others⟩ := madeOf_cons.mp isData
    rw [depthAfterAll, List.foldl_cons, one.depthAfter]
    exact ih others

theorem toldOf_data {marks : List Mark} (isData : MadeOf Mark.IsData marks) (depth : Nat) :
    toldOf depth marks = [] := by
  induction marks with
  | nil => rfl
  | cons mark marks ih =>
    obtain ⟨one, others⟩ := madeOf_cons.mp isData
    rw [toldOf, one.told?, one.depthAfter, ih others]
    rfl

namespace Parser

variable {α β σ : Type}

theorem ok_of_bind {first : Parser α} {next : α → Parser β} {state after : State} {value : β}
    (ran : (first >>= next) state = .ok value after) :
    ∃ inner middle, first state = .ok inner middle ∧ next inner middle = .ok value after := by
  rw [bind_apply] at ran
  cases outcome : first state with
  | error fault last =>
    rw [outcome] at ran
    cases ran
  | ok inner middle =>
    rw [outcome] at ran
    exact ⟨inner, middle, rfl, ran⟩

/-- Between two states these marks were read, and what they say was told. -/
structure Tale (state after : State) (marks : List Mark) : Prop where
  tokens : state.stream.tokens = tokensOf marks ++ after.stream.tokens
  depth : after.table.depth = depthAfterAll state.table.depth marks
  log : after.log = (toldOf state.table.depth marks).reverse ++ state.log

theorem Tale.trans {state middle after : State} {first second : List Mark}
    (early : Tale state middle first) (late : Tale middle after second) :
    Tale state after (first ++ second) where
  tokens := by rw [early.tokens, late.tokens, tokensOf_append, List.append_assoc]
  depth := by rw [late.depth, early.depth, depthAfterAll_append]
  log := by
    rw [late.log, early.log, early.depth, toldOf_append, List.reverse_append, List.append_assoc]

/-- Some scope is open, and what is declared now goes into it. -/
def HasScope (state : State) : Prop := ∃ base scope, state.table = SymbolTable.extend base [scope]

/-- A production that succeeds inside a scope tells what the marks say that it reads. -/
def Narrates (production : Parser α) (grammar : Grammar α) : Prop :=
  ∀ state value after, HasScope state → production state = .ok value after →
    ∃ marks, grammar marks value ∧ Tale state after marks ∧ HasScope after

abbrev Silent (production : Parser α) : Prop :=
  ∀ head?, Tells (fun _ => False) head? production

theorem log_of_silent {production : Parser α} (silent : Silent production) {state after : State}
    {value : α} (ran : production state = .ok value after) : after.log = state.log := by
  obtain ⟨news, none, log⟩ := (silent _).adds state rfl
  rw [ran] at log
  obtain rfl : news = [] := List.eq_nil_iff_forall_not_mem.mpr none
  exact log

theorem depth_of_silent {production : Parser α} (silent : Silent production) {state after : State}
    {value : α} (ran : production state = .ok value after) :
    after.table.depth = state.table.depth := by
  have kept := (silent none).framed state
  rw [ran] at kept
  exact congrArg List.length kept.markers

theorem narrates_within {production : Parser α} {grammar wider : Grammar α}
    (narrates : Narrates production grammar) (within : grammar.Within wider) :
    Narrates production wider := by
  intro state value after open_ ran
  obtain ⟨marks, derived, further⟩ := narrates state value after open_ ran
  exact ⟨marks, within _ _ derived, further⟩

theorem narrates_bind {first : Parser α} {next : α → Parser β} {grammar : Grammar α}
    {following : α → Grammar β} (early : Narrates first grammar)
    (late : ∀ value, Narrates (next value) (following value)) :
    Narrates (first >>= next) (Sequenced grammar following) := by
  intro state value after inside ran
  obtain ⟨inner, middle, ranFirst, ranNext⟩ := ok_of_bind ran
  obtain ⟨marks, one, tale, inside⟩ := early state inner middle inside ranFirst
  obtain ⟨more, other, further, inside⟩ := late inner middle value after inside ranNext
  exact ⟨marks ++ more, ⟨marks, more, inner, rfl, one, other⟩, tale.trans further, inside⟩

theorem narrates_return {production : Parser α} {grammar : Grammar α}
    (narrates : Narrates production grammar) (result : α → β) :
    Narrates (production >>= fun value => pure (result value)) (Mapped result grammar) := by
  intro state value after inside ran
  obtain ⟨inner, middle, ranFirst, ranNext⟩ := ok_of_bind ran
  cases ranNext
  obtain ⟨marks, one, tale, inside⟩ := narrates state inner after inside ranFirst
  exact ⟨marks, ⟨inner, one, rfl⟩, tale, inside⟩

/-- What is silent and declares no procedure tells what its marks say, namely nothing. -/
theorem narrates_silent {production : Parser α} {exact wide : Grammar α}
    (sound : Sound production exact wide) (silent : Silent production)
    (isData : exact.ConsistsOf Mark.IsData) : Narrates production exact := by
  rintro state value after ⟨base, scope, table⟩ ran
  have accounted := sound _ base scope [] state table rfl
  rw [ran] at accounted
  obtain ⟨marks, last, derived, _, split, _, left⟩ := accounted
  have data := isData marks value derived
  refine ⟨marks, derived, ⟨split, ?_, ?_⟩, base, last, left⟩
  · rw [depthAfterAll_data data, depth_of_silent silent ran]
  · rw [toldOf_data data, log_of_silent silent ran]
    rfl

theorem narrates_expectSymbol (char : Char) (broken : Violation)
    (arises : ∀ {head?}, broken.arisesAt head? = true) :
    Narrates (expectSymbol char broken) (Taken (.symbol char) (Nothing ())) := by
  refine narrates_silent (sound_expectSymbol char broken)
    ((tells_quiet _).expect_symbol char arises) ?_
  rintro marks value ⟨line, _, rfl, rfl, _⟩
  exact madeOf_cons.mpr ⟨trivial, madeOf_nil⟩

/-- A loop tells of its rounds one after the other. -/
theorem narrates_many {select : Token → Option σ} {body : σ → Parser α} {item : Grammar α}
    {inside : σ → Grammar α} (near : ∀ choice, Local (body choice))
    (each : ∀ choice, Narrates (body choice) (inside choice))
    (within : ∀ token choice, select token = some choice →
      (Taken token (inside choice)).Within item) :
    Narrates (many (begun select body)) (Repeated item) := by
  intro state values after opened ran
  induction state using loop_induction select near generalizing values with
  | stop state found =>
    rw [many_none select body found] at ran
    cases ran
    exact ⟨[], .none, ⟨rfl, rfl, rfl⟩, opened⟩
  | round state head tail choice tokens selected ih =>
    rw [many_some near tokens selected] at ran
    obtain ⟨value, middle, ranBody, ranMore⟩ := ok_of_bind ran
    obtain ⟨others, last, ranOthers, ended⟩ := ok_of_bind ranMore
    cases ended
    have taken : Tale state { state with stream := ⟨tail, head.line⟩ } [.plain head] :=
      ⟨tokens, rfl, rfl⟩
    have begun : HasScope { state with stream := ⟨tail, head.line⟩ } := opened
    obtain ⟨marks, one, tale, between⟩ := each choice _ value middle begun ranBody
    obtain ⟨more, rest, further, closed⟩ := ih value middle ranBody others between ranOthers
    have first : item ([.plain head] ++ marks) value :=
      within head.token choice selected _ _ ⟨head.line, marks, rfl, one⟩
    exact ⟨_, .more first rest, (taken.trans tale).trans further, closed⟩

section Blocks

variable {inner : Parser Block} {grammar : Grammar Block}

/-- The head of a procedure without its reserved word. What is declared is told after the
semicolon. -/
def procedureHead : Parser (String × Nat) := do
  let declared ← declareName .procedure
  expectSymbol ';' .missingDeclarationSeparator
  tell (.procedureDeclared declared.1 declared.2)
  return declared

def IsProcedureHead : Grammar (String × Nat) := fun marks declared =>
  ∃ opening, marks = [.declare .procedure declared.1 declared.2, .symbol ';' opening]

theorem procedureBody_eq_head (inner : Parser Block) :
    procedureBody inner = (procedureHead >>= fun declared => do
      let body ← inner
      expectSymbol ';' .missingDeclarationSeparator
      return (declared.1, body)) := by
  simp [procedure_eq_declareName, procedureHead]

theorem narrates_procedureHead : Narrates procedureHead IsProcedureHead := by
  rintro state declared after ⟨base, scope, table⟩ ran
  obtain ⟨own, middle, ranDeclare, ranRest⟩ := ok_of_bind ran
  obtain ⟨_, last, ranSymbol, ended⟩ := ok_of_bind ranRest
  cases ended
  have silent : Silent (declareName .procedure) := (tells_quiet _).declare .procedure
  have accounted : Accounts base scope [] (Declared .procedure) (Declared .procedure) state
      (declareName .procedure state) :=
    sound_declare .procedure .missingName _ base scope [] state table rfl
  rw [ranDeclare] at accounted
  obtain ⟨_, grown, rfl, _, split, _, left⟩ := accounted
  obtain ⟨_, ⟨opening, _, rfl, rfl, _⟩, tale, opened⟩ :=
    narrates_expectSymbol ';' .missingDeclarationSeparator rfl middle () last ⟨base, grown, left⟩
      ranSymbol
  refine ⟨_, ⟨opening, rfl⟩, ⟨?_, ?_, ?_⟩, opened⟩
  · rw [split, tale.tokens]
    rfl
  · exact tale.depth.trans (depth_of_silent silent ranDeclare)
  · have before : last.log = middle.log := tale.log
    simp only [before, log_of_silent silent ranDeclare]
    rfl

theorem procedure_of_head (grammar : Grammar Block) :
    (Sequenced IsProcedureHead fun declared =>
      Sequenced grammar fun body =>
        Mapped (fun _ => (declared.1, body)) (Taken (.symbol ';') (Nothing ()))).Within
      (IsProcedureBody grammar) := by
  intro marks tree derived
  obtain ⟨_, _, ⟨name, nameLine⟩, rfl, ⟨opening, rfl⟩, inside, _, body, rfl, one, _,
    ⟨closing, _, rfl, rfl, _⟩, rfl⟩ := derived
  exact ⟨nameLine, opening, closing, inside, rfl, one⟩

theorem narrates_procedureBody (inside : Narrates inner grammar) :
    Narrates (procedureBody inner) (IsProcedureBody grammar) := by
  rw [procedureBody_eq_head]
  refine narrates_within ?_ (procedure_of_head grammar)
  refine narrates_bind narrates_procedureHead fun declared => ?_
  refine narrates_bind inside fun body => ?_
  exact narrates_return (narrates_expectSymbol ';' .missingDeclarationSeparator rfl) _

theorem narrates_procedures (near : Local inner) (inside : Narrates inner grammar) :
    Narrates (many (procedure? inner)) (Repeated (IsProcedure grammar)) := by
  rw [procedure_eq_begun]
  exact narrates_many (fun _ => local_procedureBody near)
    (fun _ => narrates_procedureBody inside) (procedure_within grammar)

theorem narrates_declarationPart (keyword : Keyword) {item : Parser Unit} {units : Grammar Unit}
    (near : Local item) (sound : Sound item units units) (silent : Silent item)
    (isData : units.ConsistsOf Mark.IsData) :
    Narrates (declarationPart keyword item) (IsDeclarationPart keyword units) :=
  narrates_silent (sound_declarationPart keyword near sound)
    ((tells_quiet _).declaration_part keyword silent)
    (declarationPart_consistsOf Mark.data_ordinary keyword isData)

theorem narrates_statement (levels : Nat) : Narrates (statement levels) (IsStatement levels) :=
  narrates_silent (sound_statement levels) ((tells_quietDescent _).statement levels)
    (statement_consistsOf Mark.data_ordinary levels)

theorem narrates_blockBody (levels : Nat) (near : Local inner) (inside : Narrates inner grammar) :
    Narrates (blockBody inner (statement levels)) (IsBlockBody grammar (IsStatement levels)) := by
  refine narrates_within ?_ (block_body_within grammar (IsStatement levels))
  have variablePart := narrates_declarationPart .varKw local_variableName sound_variableName
    (tells_quiet _).variable_name (variable_consistsOf fun _ _ => trivial)
  have constantPart := narrates_declarationPart .constKw local_constantDefinition
    sound_constantDefinition (tells_quiet _).constant_definition
    (constant_consistsOf Mark.data_ordinary fun _ _ => trivial)
  refine narrates_bind variablePart fun _ => narrates_bind constantPart fun _ => ?_
  exact narrates_bind (narrates_procedures near inside) fun declared =>
    narrates_return (narrates_statement levels) (Block.ofProcedures declared)

/-- A production that succeeds anywhere tells what its marks say and leaves the table as it was. -/
def NarratesAnywhere (production : Parser α) (grammar : Grammar α) : Prop :=
  ∀ state value after, production state = .ok value after →
    ∃ marks, grammar marks value ∧ Tale state after marks ∧ after.table = state.table

theorem narrates_of_anywhere {production : Parser α} {grammar : Grammar α}
    (narrates : NarratesAnywhere production grammar) : Narrates production grammar := by
  rintro state value after ⟨base, scope, table⟩ ran
  obtain ⟨marks, derived, tale, kept⟩ := narrates state value after ran
  exact ⟨marks, derived, tale, base, scope, kept.trans table⟩

theorem narrates_nested {production : Parser α} {grammar : Grammar α}
    (inside : NarratesAnywhere production grammar) :
    NarratesAnywhere (nested production) grammar := by
  intro state value after ran
  rw [nested_apply] at ran
  cases outcome : production { state with depth := state.depth + 1 } with
  | error fault last =>
    rw [outcome] at ran
    cases ran
  | ok own last =>
    rw [outcome] at ran
    cases ran
    obtain ⟨marks, derived, tale, kept⟩ := inside _ value last outcome
    exact ⟨marks, derived, ⟨tale.tokens, tale.depth, tale.log⟩, kept⟩

theorem narrates_inScope {production : Parser α} {grammar : Grammar α} (framed : Framed production)
    (inside : Narrates production grammar) :
    NarratesAnywhere (inScope production) (Bordered grammar) := by
  intro state value after ran
  rw [inScope_eq_withTable framed] at ran
  cases outcome : production state.entered with
  | error fault last =>
    rw [outcome] at ran
    cases ran
  | ok own last =>
    rw [outcome] at ran
    cases ran
    obtain ⟨marks, derived, tale, _⟩ :=
      inside state.entered value last ⟨state.table, [], rfl⟩ outcome
    have kept := framed state.entered
    rw [outcome] at kept
    have inner : last.table.depth = state.table.depth + 1 := congrArg List.length kept.markers
    have depth : last.table.depth = depthAfterAll (state.table.depth + 1) marks := tale.depth
    refine ⟨_, .mk derived, ⟨?_, ?_, ?_⟩, rfl⟩
    · rw [tokensOf_bordered]
      exact tale.tokens
    · rw [depthAfterAll_bordered, ← depth, inner]
      rfl
    · rw [toldOf_bordered, List.reverse_cons, List.append_assoc]
      exact tale.log

end Blocks

/-- A block tells what the marks say that it reads, whatever is open around it. -/
theorem narrates_block (levels : Nat) : NarratesAnywhere (block levels) (IsBlock levels) := by
  induction levels with
  | zero =>
    intro state value after ran
    cases ran
  | succ levels ih =>
    apply narrates_nested
    apply narrates_inScope (framed_blockBody levels)
    exact narrates_blockBody levels (local_block levels) (narrates_of_anywhere ih)

end Parser

end PlZero
