import PlZero.Proofs.Frame

/-!
# What a production does not look at

A production looks at the tokens, the line of the stream, the table and the depth. It
does not look at what was told before, nor at the line that the stream remembers while a
token is still at hand. Runs from two states that differ in these only end alike: with
the same value or fault, in two such states again.
-/

namespace PlZero.Parser

set_option autoImplicit false

variable {α β σ : Type}

structure Indistinct (first second : State) : Prop where
  tokens : first.stream.tokens = second.stream.tokens
  line : first.stream.line = second.stream.line
  table : first.table = second.table
  depth : first.depth = second.depth

theorem Indistinct.peek? {first second : State} (same : Indistinct first second) :
    first.stream.peek? = second.stream.peek? := by
  rw [TokenStream.peek?, TokenStream.peek?, same.tokens]

inductive EndAlike : EStateM.Result Fault State α → EStateM.Result Fault State α → Prop where
  | ok {after after' : State} (value : α) (same : Indistinct after after') :
      EndAlike (.ok value after) (.ok value after')
  | error {after after' : State} (fault : Fault) (same : Indistinct after after') :
      EndAlike (.error fault after) (.error fault after')

/-- From states that are not told apart, two parsers end alike. -/
def Indifferent (production other : Parser α) : Prop :=
  ∀ first second, Indistinct first second → EndAlike (production first) (other second)

theorem indifferent_pure (value : α) : Indifferent (pure value) (pure value) :=
  fun _ _ same => .ok value same

theorem indifferent_bind {first first' : Parser α} {next next' : α → Parser β}
    (early : Indifferent first first') (late : ∀ value, Indifferent (next value) (next' value)) :
    Indifferent (first >>= next) (first' >>= next') := by
  intro state other same
  have alike := early state other same
  rw [bind_apply, bind_apply]
  generalize first state = outcome, first' other = outcome' at alike ⊢
  cases alike with
  | ok value same => exact late value _ _ same
  | error fault same => exact .error fault same

theorem indifferent_peek : Indifferent peek? peek? := by
  intro first second same
  rw [peek?_apply, peek?_apply, same.peek?]
  exact .ok _ same

theorem indifferent_line : Indifferent line line := by
  intro first second same
  rw [line_apply, line_apply, same.line]
  exact .ok _ same

theorem indifferent_advance : Indifferent advance advance := by
  intro first second same
  rw [advance_apply, advance_apply, ← same.tokens]
  cases first.stream.tokens with
  | nil => exact .error _ same
  | cons head rest => exact .ok () ⟨rfl, rfl, same.table, same.depth⟩

theorem indifferent_fail (broken : Violation) :
    Indifferent (fail broken : Parser α) (fail broken) := by
  intro first second same
  rw [fail_apply, fail_apply, same.peek?, same.line]
  exact .error _ ⟨same.tokens, same.line, same.table, same.depth⟩

theorem indifferent_tell (event event' : Event) : Indifferent (tell event) (tell event') :=
  fun _ _ same => .ok () ⟨same.tokens, same.line, same.table, same.depth⟩

theorem indifferent_declare (name : String) (kind : SymbolKind) (line : Nat) :
    Indifferent (declare name kind line) (declare name kind line) := by
  intro first second same
  rw [declare_apply, declare_apply, ← same.table]
  cases first.table.declare name kind line with
  | ok table => exact .ok () ⟨same.tokens, same.line, rfl, same.depth⟩
  | error fault => exact .error fault ⟨same.tokens, same.line, rfl, same.depth⟩

theorem indifferent_resolve (name : String) : Indifferent (resolve name) (resolve name) := by
  intro first second same
  rw [resolve_apply, resolve_apply, ← same.table, same.line]
  cases first.table.lookup? name with
  | some kind => exact .ok kind same
  | none => exact .error _ ⟨same.tokens, same.line, rfl, same.depth⟩

theorem indifferent_tooDeep : Indifferent (tooDeep : Parser α) tooDeep := by
  intro first second same
  rw [tooDeep_apply, tooDeep_apply, same.depth, same.line]
  exact .error _ same

theorem indifferent_nested {production other : Parser α} (inside : Indifferent production other) :
    Indifferent (nested production) (nested other) := by
  intro first second same
  have alike := inside { first with depth := first.depth + 1 }
    { second with depth := second.depth + 1 }
    ⟨same.tokens, same.line, same.table, congrArg (· + 1) same.depth⟩
  rw [nested_apply, nested_apply]
  generalize production _ = outcome, other _ = outcome' at alike ⊢
  cases alike with
  | ok value last =>
    exact .ok value ⟨last.tokens, last.line, last.table, congrArg (· - 1) last.depth⟩
  | error fault last =>
    exact .error fault ⟨last.tokens, last.line, last.table, congrArg (· - 1) last.depth⟩

theorem indifferent_inScope {production other : Parser α} (inside : Indifferent production other) :
    Indifferent (inScope production) (inScope other) := by
  intro first second same
  have alike := inside first.entered second.entered
    ⟨same.tokens, same.line, congrArg SymbolTable.enterScope same.table, same.depth⟩
  rw [inScope_eq_closed, inScope_eq_closed]
  generalize production _ = outcome, other _ = outcome' at alike ⊢
  cases alike with
  | @ok after after' value last | @error after after' fault last =>
    simp only [closed, ← last.table]
    cases after.table.leaveScope with
    | ok table => constructor; exact ⟨last.tokens, last.line, rfl, last.depth⟩
    | error underflow => constructor; exact last

theorem indifferent_manyWithin {item? other? : Parser (Option α)}
    (inside : Indifferent item? other?) (bound : List LocatedToken) :
    Indifferent (manyWithin item? bound) (manyWithin other? bound) := by
  induction bound with
  | nil => exact indifferent_pure []
  | cons first bound ih =>
    apply indifferent_bind inside
    intro value?
    cases value? with
    | none => exact indifferent_pure []
    | some value => exact indifferent_bind ih fun _ => indifferent_pure _

theorem indifferent_many (select : Token → Option σ) {body body' : σ → Parser α}
    (inside : ∀ choice, Indifferent (body choice) (body' choice)) :
    Indifferent (many (begun select body)) (many (begun select body')) := by
  have item : Indifferent (begun select body) (begun select body') := by
    refine indifferent_bind indifferent_peek fun head? => ?_
    cases head?.bind select with
    | none => exact indifferent_pure none
    | some choice =>
      exact indifferent_bind indifferent_advance fun _ =>
        indifferent_bind (inside choice) fun _ => indifferent_pure _
  intro first second same
  rw [many_apply, many_apply, same.tokens]
  exact indifferent_manyWithin item second.stream.tokens first second same

theorem indifferent_steps : Steps Indifferent where
  pure := indifferent_pure
  bind := indifferent_bind
  peek := indifferent_peek
  line := indifferent_line
  advance := indifferent_advance
  fail := indifferent_fail
  tell _ _ := indifferent_tell _ _
  declare := indifferent_declare
  resolve := indifferent_resolve
  nested := indifferent_nested
  inScope := indifferent_inScope
  many := indifferent_many

theorem indifferent_block (levels : Nat) : Indifferent (block levels) (block levels) :=
  (indifferent_steps.descent indifferent_tooDeep).block levels none

/-- A state may be consulted as a whole if what is done with it does not tell it from others. -/
theorem indifferent_get {next next' : State → Parser α}
    (inside : ∀ first second, Indistinct first second →
      Indifferent (next first) (next' second)) :
    Indifferent (get >>= next) (get >>= next') :=
  fun first second same => inside first second same first second same

theorem indifferent_period : Indifferent period period := by
  have atPeriod : Indifferent (atSymbol '.') (atSymbol '.') :=
    indifferent_bind indifferent_peek fun _ => indifferent_pure _
  refine indifferent_bind atPeriod fun found => ?_
  cases found with
  | false => exact indifferent_pure false
  | true =>
    refine indifferent_bind indifferent_advance fun _ => indifferent_get ?_
    intro first second same
    have left : first.stream.length = second.stream.length := congrArg List.length same.tokens
    simp only [left]
    split
    · exact indifferent_bind (indifferent_tell _ _) fun _ => indifferent_pure true
    · exact indifferent_pure true

theorem indifferent_parse (limit : Nat) : Indifferent (parse limit) (parse limit) := by
  refine indifferent_get fun first second same => ?_
  rw [same.depth]
  refine indifferent_bind (indifferent_tell _ _) fun _ => ?_
  refine indifferent_bind (indifferent_block _) fun block => ?_
  refine indifferent_bind indifferent_period fun accepted => ?_
  exact indifferent_bind (indifferent_tell _ _) fun _ => indifferent_pure _

end PlZero.Parser
