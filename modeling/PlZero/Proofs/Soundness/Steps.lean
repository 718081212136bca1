import PlZero.Proofs.Lookahead
import PlZero.Proofs.Scoping

/-!
# What is read is derived, step by step

What a production takes off the stream on the way to its value is derived by the
grammar and obeys the rules about names. If it fails over the form of the program,
what it took until then is the beginning of a derivation. That derivation may
have to go on with parts for which no level was left, so it comes from a grammar of
its own, a wider one. Both are carried through the steps together.
-/

namespace PlZero

set_option autoImplicit false

/-- A rule of form was broken, not one about what a name stands for. -/
def Fault.concernsForm : Fault → Bool
  | violation .doubleDeclaration _ _ => false
  | violation .notProcedure _ _ => false
  | violation .notInteger _ _ => false
  | violation .undeclared _ name? => name?.isNone
  | violation _ _ _ => true
  | _ => false

def Nothing {α : Type} (value : α) : Grammar α := fun marks found => marks = [] ∧ found = value

def Sequenced {α β : Type} (first : Grammar α) (next : α → Grammar β) : Grammar β :=
  fun marks last => ∃ early late value, marks = early ++ late ∧ first early value ∧
    next value late last

def Taken {α : Type} (token : Token) (next : Grammar α) : Grammar α :=
  fun marks value => ∃ line inside, marks = .plain ⟨token, line⟩ :: inside ∧ next inside value

def Used {α : Type} (usage : Usage) (name : String) (next : Grammar α) : Grammar α :=
  fun marks value => ∃ line inside, marks = .use usage name line :: inside ∧ next inside value

def Mapped {α β : Type} (result : α → β) (grammar : Grammar α) : Grammar β :=
  fun marks last => ∃ value, grammar marks value ∧ last = result value

def Declared (kind : SymbolKind) : Grammar (String × Nat) :=
  fun marks declared => marks = [.declare kind declared.1 declared.2]

def Grammar.Inhabited {α : Type} (grammar : Grammar α) : Prop := ∃ marks value, grammar marks value

namespace Parser

variable {α β σ : Type}

/-- What a production took between two states is the beginning of a derivation. -/
def Begins (wide : Grammar α) (state after : State) : Prop :=
  ∃ marks value taken ahead, wide marks value ∧ tokensOf marks = taken ++ ahead ∧
    state.stream.tokens = taken ++ after.stream.tokens

/-- A run from inside some scopes is accounted for by a derivation. -/
def Accounts (base : SymbolTable) (scope : List Symbol) (around : Scopes)
    (exact wide : Grammar α) (state : State) : EStateM.Result Fault State α → Prop
  | .ok value after => ∃ marks last, exact marks value ∧ wide marks value ∧
      state.stream.tokens = tokensOf marks ++ after.stream.tokens ∧
      Scopes.pass base.lookup? (scope :: around) marks = .ok (last :: around) ∧
      after.table = base.extend (last :: around)
  | .error fault after => fault.concernsForm = true → Begins wide state after

/-- All runs of a production that find this token at the head are accounted for. -/
def SoundOn (head? : Option Token) (production : Parser α) (exact wide : Grammar α) : Prop :=
  ∀ (base : SymbolTable) (scope : List Symbol) (around : Scopes) (state : State),
    state.table = base.extend (scope :: around) → state.stream.peek? = head? →
      Accounts base scope around exact wide state (production state)

def Sound (production : Parser α) (exact wide : Grammar α) : Prop :=
  ∀ head?, SoundOn head? production exact wide

theorem nothing_inhabited (value : α) : (Nothing value).Inhabited := ⟨[], value, rfl, rfl⟩

theorem mapped_inhabited {grammar : Grammar α} (inside : grammar.Inhabited) (result : α → β) :
    (Mapped result grammar).Inhabited := by
  obtain ⟨marks, value, derived⟩ := inside
  exact ⟨marks, result value, value, derived, rfl⟩

theorem repeated_inhabited (item : Grammar α) : (Repeated item).Inhabited := ⟨[], [], .none⟩

theorem taken_inhabited {token : Token} {grammar : Grammar α} (inside : grammar.Inhabited) :
    (Taken token grammar).Inhabited := by
  obtain ⟨marks, value, derived⟩ := inside
  exact ⟨_, value, 0, marks, rfl, derived⟩

theorem sequenced_inhabited {first : Grammar α} {next : α → Grammar β} (one : first.Inhabited)
    (other : ∀ value, (next value).Inhabited) : (Sequenced first next).Inhabited := by
  obtain ⟨early, value, derived⟩ := one
  obtain ⟨late, last, following⟩ := other value
  exact ⟨_, last, early, late, value, rfl, derived, following⟩

theorem accounts_within {base : SymbolTable} {scope : List Symbol} {around : Scopes}
    {exact wide exact' wide' : Grammar α} {state : State} {result : EStateM.Result Fault State α}
    (accounted : Accounts base scope around exact wide state result)
    (exactly : exact.Within exact') (widely : wide.Within wide') :
    Accounts base scope around exact' wide' state result := by
  cases result with
  | ok value after =>
    obtain ⟨marks, last, one, other, further⟩ := accounted
    exact ⟨marks, last, exactly _ _ one, widely _ _ other, further⟩
  | error fault after =>
    intro form
    obtain ⟨marks, value, taken, ahead, one, further⟩ := accounted form
    exact ⟨marks, value, taken, ahead, widely _ _ one, further⟩

theorem soundOn_within {head? : Option Token} {production : Parser α}
    {exact wide exact' wide' : Grammar α} (sound : SoundOn head? production exact wide)
    (exactly : exact.Within exact') (widely : wide.Within wide') :
    SoundOn head? production exact' wide' :=
  fun base scope around state table head =>
    accounts_within (sound base scope around state table head) exactly widely

theorem sound_within {production : Parser α} {exact wide exact' wide' : Grammar α}
    (sound : Sound production exact wide) (exactly : exact.Within exact')
    (widely : wide.Within wide') : Sound production exact' wide' :=
  fun head? => soundOn_within (sound head?) exactly widely

theorem sound_pure (value : α) : Sound (pure value) (Nothing value) (Nothing value) := by
  intro head? base scope around state table head
  exact ⟨[], scope, ⟨rfl, rfl⟩, ⟨rfl, rfl⟩, rfl, rfl, table⟩

/-- A failure takes nothing, and nothing is the beginning of any derivation. -/
theorem sound_fail (broken : Violation) (exact : Grammar α) {wide : Grammar α}
    (possible : wide.Inhabited) : Sound (fail broken) exact wide := by
  intro head? base scope around state table head form
  obtain ⟨marks, value, derived⟩ := possible
  exact ⟨marks, value, [], tokensOf marks, derived, rfl, rfl⟩

theorem accounts_bind {base : SymbolTable} {scope : List Symbol} {around : Scopes} {state : State}
    {first : Parser α} {next : α → Parser β} {exact wide : Grammar α}
    {exactNext wideNext : α → Grammar β}
    (one : Accounts base scope around exact wide state (first state))
    (other : ∀ value middle last, first state = .ok value middle →
      middle.table = base.extend (last :: around) →
        Accounts base last around (exactNext value) (wideNext value) middle (next value middle))
    (possible : ∀ value, (wideNext value).Inhabited) :
    Accounts base scope around (Sequenced exact exactNext) (Sequenced wide wideNext) state
      ((first >>= next) state) := by
  rw [bind_apply]
  cases outcome : first state with
  | error fault after =>
    rw [outcome] at one
    intro form
    obtain ⟨marks, value, taken, ahead, derived, split, tokens⟩ := one form
    obtain ⟨more, last, others⟩ := possible value
    refine ⟨marks ++ more, last, taken, ahead ++ tokensOf more, ⟨_, _, value, rfl, derived, others⟩,
      ?_, tokens⟩
    rw [tokensOf_append, split, List.append_assoc]
  | ok value middle =>
    rw [outcome] at one
    obtain ⟨marks, inner, exactly, widely, split, passed, table⟩ := one
    have late := other value middle inner outcome table
    simp only
    cases result : next value middle with
    | error fault after =>
      rw [result] at late
      intro form
      obtain ⟨more, last, taken, ahead, derived, splitMore, tokens⟩ := late form
      refine ⟨marks ++ more, last, tokensOf marks ++ taken, ahead,
        ⟨_, _, value, rfl, widely, derived⟩, ?_, ?_⟩
      · rw [tokensOf_append, splitMore, List.append_assoc]
      · rw [split, tokens, List.append_assoc]
    | ok last after =>
      rw [result] at late
      obtain ⟨more, final, exactlyMore, widelyMore, splitMore, passedMore, tableMore⟩ := late
      refine ⟨marks ++ more, final, ⟨_, _, value, rfl, exactly, exactlyMore⟩,
        ⟨_, _, value, rfl, widely, widelyMore⟩, ?_, ?_, tableMore⟩
      · rw [split, splitMore, tokensOf_append, List.append_assoc]
      · rw [Scopes.pass_append, passed]
        exact passedMore

theorem soundOn_bind {head? : Option Token} {first : Parser α} {next : α → Parser β}
    {exact wide : Grammar α} {exactNext wideNext : α → Grammar β}
    (one : SoundOn head? first exact wide)
    (other : ∀ value, Sound (next value) (exactNext value) (wideNext value))
    (possible : ∀ value, (wideNext value).Inhabited) :
    SoundOn head? (first >>= next) (Sequenced exact exactNext) (Sequenced wide wideNext) := by
  intro base scope around state table head
  apply accounts_bind (one base scope around state table head)
  · intro value middle last _ table
    exact other value _ base last around middle table rfl
  · exact possible

theorem sound_bind {first : Parser α} {next : α → Parser β}
    {exact wide : Grammar α} {exactNext wideNext : α → Grammar β} (one : Sound first exact wide)
    (other : ∀ value, Sound (next value) (exactNext value) (wideNext value))
    (possible : ∀ value, (wideNext value).Inhabited) :
    Sound (first >>= next) (Sequenced exact exactNext) (Sequenced wide wideNext) :=
  fun head? => soundOn_bind (one head?) other possible

theorem accounts_return {base : SymbolTable} {scope : List Symbol} {around : Scopes}
    {state : State} {production : Parser α} {exact wide : Grammar α}
    (one : Accounts base scope around exact wide state (production state)) (result : α → β) :
    Accounts base scope around (Mapped result exact) (Mapped result wide) state
      ((production >>= fun value => pure (result value)) state) := by
  have within (grammar : Grammar α) :
      (Sequenced grammar fun value => Nothing (result value)).Within (Mapped result grammar) := by
    intro marks tree derived
    obtain ⟨early, _, value, rfl, derived, rfl, rfl⟩ := derived
    exact ⟨value, by rwa [List.append_nil], rfl⟩
  apply accounts_within _ (within exact) (within wide)
  apply accounts_bind one
  · intro value middle last _ table
    exact sound_pure _ _ base last around middle table rfl
  · intro value
    exact nothing_inhabited (result value)

theorem sound_return {production : Parser α} {exact wide : Grammar α}
    (one : Sound production exact wide) (result : α → β) :
    Sound (production >>= fun value => pure (result value)) (Mapped result exact)
      (Mapped result wide) :=
  fun head? base scope around state table head =>
    accounts_return (one head? base scope around state table head) result

theorem sound_peek {next : Option Token → Parser α} {exact wide : Grammar α}
    (each : ∀ head?, SoundOn head? (next head?) exact wide) :
    Sound (peek? >>= next) exact wide := by
  intro head? base scope around state table head
  rw [bind_apply, peek?_apply]
  exact each _ base scope around state table rfl

theorem soundOn_taking {token : Token} {next : Parser α} {exact wide : Grammar α}
    (inside : Sound next exact wide) :
    SoundOn (some token) (advance >>= fun _ => next) (Taken token exact) (Taken token wide) := by
  intro base scope around state table head
  obtain ⟨line, tail, tokens⟩ := tokens_of_peek? head
  have further := inside _ base scope around { state with stream := ⟨tail, line⟩ } table rfl
  rw [bind_apply, advance_apply, tokens]
  simp only
  cases result : next { state with stream := ⟨tail, line⟩ } with
  | error fault after =>
    rw [result] at further
    intro form
    obtain ⟨marks, value, taken, ahead, derived, split, rest⟩ := further form
    refine ⟨.plain ⟨token, line⟩ :: marks, value, ⟨token, line⟩ :: taken, ahead,
      ⟨line, marks, rfl, derived⟩, ?_, ?_⟩
    · exact congrArg (⟨token, line⟩ :: ·) split
    · rw [tokens]
      exact congrArg (⟨token, line⟩ :: ·) rest
  | ok value after =>
    rw [result] at further
    obtain ⟨marks, last, exactly, widely, split, passed, left⟩ := further
    refine ⟨.plain ⟨token, line⟩ :: marks, last, ⟨line, marks, rfl, exactly⟩,
      ⟨line, marks, rfl, widely⟩, ?_, passed, left⟩
    rw [tokens]
    exact congrArg (⟨token, line⟩ :: ·) split

theorem soundOn_advance (token : Token) :
    SoundOn (some token) advance (Taken token (Nothing ())) (Taken token (Nothing ())) := by
  have taking : SoundOn (some token) (advance >>= fun _ => pure ())
      (Taken token (Nothing ())) (Taken token (Nothing ())) := soundOn_taking (sound_pure ())
  rwa [bind_pure_unit] at taking

theorem sound_atSymbol {char : Char} {next : Bool → Parser α} {exact wide : Grammar α}
    (found : SoundOn (some (.symbol char)) (next true) exact wide)
    (other : Sound (next false) exact wide) : Sound (atSymbol char >>= next) exact wide := by
  intro head? base scope around state table head
  rw [bind_apply, atSymbol_apply]
  cases tested : state.stream.peek?.any fun token => token.isSymbol char with
  | false => exact other head? base scope around state table head
  | true =>
    obtain ⟨token, isHead, isChar⟩ := (Option.any_eq_true _ _).mp tested
    rw [Token.isSymbol_iff.mp isChar] at isHead
    exact found base scope around state table isHead

theorem sound_atKeyword {keyword : Keyword} {next : Bool → Parser α} {exact wide : Grammar α}
    (found : ∀ text, SoundOn (some (.word text keyword.id)) (next true) exact wide)
    (other : Sound (next false) exact wide) : Sound (atKeyword keyword >>= next) exact wide := by
  intro head? base scope around state table head
  rw [bind_apply, atKeyword_apply]
  cases tested : state.stream.peek?.any fun token => token.isKeyword keyword.id with
  | false => exact other head? base scope around state table head
  | true =>
    obtain ⟨token, isHead, isWord⟩ := (Option.any_eq_true _ _).mp tested
    obtain ⟨text, rfl⟩ := Token.isKeyword_iff.mp isWord
    exact found text base scope around state table isHead

theorem sound_expectSymbol (char : Char) (broken : Violation) :
    Sound (expectSymbol char broken) (Taken (.symbol char) (Nothing ()))
      (Taken (.symbol char) (Nothing ())) :=
  sound_atSymbol (soundOn_advance _) (sound_fail broken _ (taken_inhabited (nothing_inhabited ())))

def TakenKeyword (keyword : Keyword) : Grammar Unit :=
  fun marks _ => ∃ text line, marks = [.keyword keyword text line]

theorem takenKeyword_inhabited (keyword : Keyword) : (TakenKeyword keyword).Inhabited :=
  ⟨_, (), "", 0, rfl⟩

theorem sound_expectKeyword (keyword : Keyword) (broken : Violation) :
    Sound (expectKeyword keyword broken) (TakenKeyword keyword) (TakenKeyword keyword) := by
  have within (text : String) :
      (Taken (.word text keyword.id) (Nothing ())).Within (TakenKeyword keyword) := by
    intro marks value derived
    obtain ⟨line, inside, rfl, rfl, _⟩ := derived
    exact ⟨text, line, rfl⟩
  apply sound_atKeyword
  · intro text
    exact soundOn_within (soundOn_advance _) (within text) (within text)
  · exact sound_fail broken _ (takenKeyword_inhabited keyword)

theorem concernsForm_of_usage {usage : Usage} {kind? : Option SymbolKind} {broken : Violation}
    (violated : usage.violation? kind? = some broken) (line : Nat) (name : String) :
    (Fault.violation broken line (some name)).concernsForm = false := by
  cases usage <;> rcases kind? with _ | (_ | _ | _) <;> cases violated <;> rfl

theorem soundOn_use {usage : Usage} {name : String} {next : Parser α} {exact wide : Grammar α}
    (inside : Sound next exact wide) :
    SoundOn (some (.identifier name)) (do checkOf usage name; advance; next)
      (Used usage name exact) (Used usage name wide) := by
  intro base scope around state table head
  obtain ⟨line, tail, tokens⟩ := tokens_of_peek? head
  have meaning : state.table.lookup? name =
      Scopes.lookup? base.lookup? (scope :: around) name := by
    rw [table, base.lookup?_extend]
  rw [bind_apply]
  cases judged : usage.violation? (state.table.lookup? name) with
  | some broken =>
    obtain ⟨after, outcome, _, _⟩ := checkOf_violation tokens judged
    rw [outcome]
    intro form
    rw [concernsForm_of_usage judged] at form
    cases form
  | none =>
    rw [checkOf_clean judged]
    have taking : SoundOn (some (.identifier name)) (advance >>= fun _ => next)
        (Taken (.identifier name) exact) (Taken (.identifier name) wide) := soundOn_taking inside
    have further := taking base scope around state table head
    simp only
    cases result : (advance >>= fun _ => next) state with
    | error fault after =>
      rw [result] at further
      intro form
      obtain ⟨marks, value, taken, ahead, ⟨line, inside, rfl, derived⟩, split⟩ := further form
      exact ⟨.use usage name line :: inside, value, taken, ahead,
        ⟨line, inside, rfl, derived⟩, split⟩
    | ok value after =>
      rw [result] at further
      obtain ⟨marks, last, ⟨line, inside, rfl, exactly⟩, ⟨other, same, equal, widely⟩, split,
        passed, left⟩ := further
      obtain ⟨_, rfl⟩ := List.cons.inj equal
      have inOrder :
          Scopes.fault? base.lookup? (scope :: around) (.use usage name line) = none := by
        simp only [Scopes.fault?, ← meaning, judged, Option.map_none]
      refine ⟨.use usage name line :: inside, last, ⟨line, inside, rfl, exactly⟩,
        ⟨line, inside, rfl, widely⟩, split, ?_, left⟩
      rw [Scopes.pass, inOrder]
      exact passed

theorem sound_declare (kind : SymbolKind) (broken : Violation) :
    Sound (do let (name, line) ← expectName broken; declare name kind line; return (name, line))
      (Declared kind) (Declared kind) := by
  intro head? base scope around state table _
  cases named : state.stream.peek?.bind Token.identifier? with
  | none =>
    rw [bind_apply, expectName_refused named]
    intro form
    exact ⟨_, ("", 0), [], _, rfl, rfl, rfl⟩
  | some name =>
    obtain ⟨⟨token, line⟩, tail, tokens, isName⟩ := head_of_selected named
    obtain rfl : token = .identifier name := Token.identifier?_eq_some_iff.mp isName
    rw [bind_apply, expectName_taken tokens]
    simp only [bind_apply, declare_apply, table, base.declare_extend]
    by_cases doubled : (scope.any fun symbol => symbol.name == name) = true
    · simp only [if_pos doubled]
      intro form
      cases form
    · simp only [if_neg doubled]
      refine ⟨[.declare kind name line], _, rfl, rfl, tokens, ?_, rfl⟩
      rw [Scopes.pass, Scopes.fault?_declare, if_neg doubled]
      rfl

theorem sound_nested {production : Parser α} {exact wide : Grammar α}
    (inside : Sound production exact wide) : Sound (nested production) exact wide := by
  intro head? base scope around state table head
  have deeper := inside head? base scope around { state with depth := state.depth + 1 } table head
  rw [nested_apply]
  cases outcome : production { state with depth := state.depth + 1 } with
  | ok value after | error fault after =>
    rw [outcome] at deeper
    exact deeper

theorem repeated_of_sequenced {item one : Grammar α} (within : one.Within item) :
    (Sequenced one fun value => Mapped (value :: ·) (Repeated item)).Within (Repeated item) := by
  intro marks tree derived
  obtain ⟨early, late, value, rfl, first, values, more, rfl⟩ := derived
  exact .more (within _ _ first) more

/-- A loop takes items one after the other. It fails inside an item, after which a derivation
may end. -/
theorem sound_many {select : Token → Option σ} {body : σ → Parser α} {item wideItem : Grammar α}
    {exact wide : σ → Grammar α} (near : ∀ choice, Local (body choice))
    (each : ∀ choice, Sound (body choice) (exact choice) (wide choice))
    (exactly : ∀ token choice, select token = some choice →
      (Taken token (exact choice)).Within item)
    (widely : ∀ token choice, select token = some choice →
      (Taken token (wide choice)).Within wideItem) :
    Sound (many (begun select body)) (Repeated item) (Repeated wideItem) := by
  intro head? base scope around state table head
  clear head
  induction state using loop_induction select near generalizing scope with
  | stop state found =>
    rw [many_none select body found]
    exact ⟨[], scope, .none, .none, rfl, rfl, table⟩
  | round state head tail choice tokens selected ih =>
    have unrolled : many (begun select body) state =
        ((advance >>= fun _ => body choice) >>= fun value =>
          many (begun select body) >>= fun values => pure (value :: values)) state := by
      rw [many_some near tokens selected, bind_assoc, advance_then tokens]
    rw [unrolled]
    have first := soundOn_taking (each choice) base scope around state table
      (peek?_of_tokens tokens)
    apply accounts_within _ (repeated_of_sequenced (exactly head.token choice selected))
      (repeated_of_sequenced (widely head.token choice selected))
    apply accounts_bind first
    · intro value middle last outcome table
      rw [advance_then tokens] at outcome
      exact accounts_return (ih value middle outcome last table) (value :: ·)
    · intro value
      exact mapped_inhabited (repeated_inhabited wideItem) (value :: ·)

end Parser

end PlZero
