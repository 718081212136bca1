import PlZero.Proofs.Lookahead
import PlZero.Proofs.Scoping

/-!
# What a failure blames

A production fails over the token at the head of the stream, over the nesting at that
place, or over a name that it has just taken and that is declared already. In the first
two cases the fault names the head and its line, and nothing is taken between the fault
and the end of the run, through however many productions it travels. In the last case
the name is the token taken last, and what comes after it has no part in the failure.
No other fault arises: a token is taken only where there is one, and a scope is left
only where one is open.
-/

namespace PlZero.Parser

set_option autoImplicit false

variable {α β σ : Type}

/-- What the fault of a production is about, when it fails between two states and at most
`limit` levels may be open. -/
inductive Blame (production : Parser α) (limit : Nat) (state after : State) : Fault → Prop where
  | head (broken : Violation) (arises : broken.arisesAtHead = true) :
      Blame production limit state after
        (.violation broken after.stream.line (after.stream.peek?.bind Token.identifier?))
  | nesting : Blame production limit state after (.nestingTooDeep limit after.stream.line)
  | name (before : List LocatedToken) (name : String) (line : Nat)
      (split : state.stream.tokens = before ++ ⟨.identifier name, line⟩ :: after.stream.tokens)
      (alone : ∀ rest, production (state.withTokens (before ++ ⟨.identifier name, line⟩ :: rest)) =
        leaving rest (production state)) :
      Blame production limit state after (.violation .doubleDeclaration line (some name))

def BlamesAt (production : Parser α) (levels : Nat) (state : State) : Prop :=
  ∀ fault after, production state = .error fault after →
    Blame production (state.depth + levels) state after fault

/-- With so many levels left and this token at the head, every failure of a production blames one
of the three. -/
structure Blames (levels : Nat) (head? : Option Token) (production : Parser α) : Prop where
  near : Local production
  framed : Framed production
  blames : ∀ state, state.stream.peek? = head? → BlamesAt production levels state

/-- A failure blames the same after more has been taken before it, and in whatever way it is passed
on, as long as the stream is left alone. -/
theorem Blame.passed {production : Parser α} {other : Parser β} {limit : Nat}
    {state after start last : State} {fault : Fault}
    (blame : Blame production limit state after fault) (taken : List LocatedToken)
    (failed : production state = .error fault after)
    (failedOther : other start = .error fault last)
    (split : start.stream.tokens = taken ++ state.stream.tokens)
    (stream : last.stream = after.stream)
    (same : ∀ tokens rest, tokens.head? = state.stream.tokens.head? →
      production (state.withTokens tokens) = .error fault (after.withTokens rest) →
        other (start.withTokens (taken ++ tokens)) = .error fault (last.withTokens rest)) :
    Blame other limit start last fault := by
  cases blame with
  | head broken arises =>
    rw [← stream]
    exact .head broken arises
  | nesting =>
    rw [← stream]
    exact .nesting
  | name before name line named alone =>
    refine .name (taken ++ before) name line ?_ fun rest => ?_
    · rw [split, named, stream, List.append_assoc]
    · have agree : (before ++ ⟨.identifier name, line⟩ :: rest).head? =
          state.stream.tokens.head? := by
        rw [named]
        cases before <;> rfl
      have here := alone rest
      rw [failed] at here
      rw [List.append_assoc, same _ rest agree here, failedOther]
      rfl

theorem blamesAt_pure (value : α) (levels : Nat) (state : State) :
    BlamesAt (pure value) levels state := by
  intro fault after failed
  cases failed

theorem blamesAt_bind {first : Parser α} {next : α → Parser β} {levels : Nat} {state : State}
    (near : Local first) (framed : Framed first) (early : BlamesAt first levels state)
    (late : ∀ value middle, first state = .ok value middle →
      BlamesAt (next value) levels middle) :
    BlamesAt (first >>= next) levels state := by
  intro fault after failed
  have result := failed
  rw [bind_apply] at failed
  cases outcome : first state with
  | error own last =>
    rw [outcome] at failed
    cases failed
    refine (early _ _ outcome).passed [] outcome result rfl rfl ?_
    intro tokens rest _ stopped
    rw [List.nil_append, bind_apply, stopped]
  | ok value middle =>
    rw [outcome] at failed
    obtain ⟨consumed, split, same⟩ := near state
    have kept := framed state
    rw [outcome] at split same kept
    have depth : middle.depth = state.depth := kept.depth
    rw [← depth]
    refine (late value middle outcome fault after failed).passed consumed failed result split rfl ?_
    intro tokens rest agree stopped
    rw [bind_apply, same tokens agree]
    exact stopped

theorem blames_pure (value : α) (levels : Nat) (head? : Option Token) :
    Blames levels head? (pure value : Parser α) where
  near := local_pure value
  framed := frame_chained.leads_pure value
  blames state _ := blamesAt_pure value levels state

theorem blames_bind {first : Parser α} {next : α → Parser β} {levels : Nat} {head? : Option Token}
    (early : Blames levels head? first) (late : ∀ value head?, Blames levels head? (next value)) :
    Blames levels head? (first >>= next) where
  near := local_bind early.near fun value => (late value none).near
  framed := framed_bind early.framed fun value => (late value none).framed
  blames state head := blamesAt_bind early.near early.framed (early.blames state head)
    fun value middle _ => (late value _).blames middle rfl

theorem blames_peek {next : Option Token → Parser α} {levels : Nat}
    (each : ∀ head?, Blames levels head? (next head?)) (head? : Option Token) :
    Blames levels head? (peek? >>= next) where
  near := local_bind local_steps.peek fun head? => (each head?).near
  framed := framed_bind framed_steps.peek fun head? => (each head?).framed
  blames state _ := by
    refine blamesAt_bind local_steps.peek framed_steps.peek (fun _ _ failed => by cases failed) ?_
    intro value middle outcome
    cases outcome
    exact (each _).blames state rfl

theorem blames_advance (levels : Nat) (token : Token) : Blames levels (some token) advance where
  near := local_advance
  framed := framed_advance
  blames state head fault after failed := by
    obtain ⟨line, tail, tokens⟩ := tokens_of_peek? head
    rw [advance_apply, tokens] at failed
    cases failed

theorem blamesAt_fail {broken : Violation} (arises : broken.arisesAtHead = true) (levels : Nat)
    (state : State) : BlamesAt (fail broken : Parser α) levels state := by
  intro fault after failed
  cases failed
  exact .head broken arises

theorem blames_check (usage : Usage) (name : String) (levels : Nat) :
    Blames levels (some (.identifier name)) (do checkOf usage name; advance) where
  near := by
    cases usage
    · exact local_steps.congruence.integer name
    · exact local_steps.congruence.procedure name
  framed := by
    cases usage
    · exact framed_steps.congruence.integer name
    · exact framed_steps.congruence.procedure name
  blames state head fault after failed := by
    obtain ⟨line, tail, tokens⟩ := tokens_of_peek? head
    rw [bind_apply] at failed
    cases judged : usage.violation? (state.table.lookup? name) with
    | none =>
      rw [checkOf_clean judged] at failed
      simp only [advance_apply, tokens] at failed
      cases failed
    | some broken =>
      obtain ⟨last, outcome, stream, _⟩ := checkOf_violation tokens judged
      have arises : broken.arisesAtHead = true := by
        revert judged
        cases usage <;> rcases state.table.lookup? name with _ | (_ | _ | _) <;> rintro ⟨⟩ <;> rfl
      rw [outcome] at failed
      cases failed
      have blame : Blame (do checkOf usage name; advance) (state.depth + levels) state after
          (.violation broken after.stream.line (after.stream.peek?.bind Token.identifier?)) :=
        .head broken arises
      rw [stream, TokenStream.line, TokenStream.peek?, tokens] at blame
      exact blame

theorem declare_refused {table : SymbolTable} {name : String} {kind : SymbolKind} {line : Nat}
    {fault : Fault} (refused : table.declare name kind line = .error fault) :
    fault = .violation .doubleDeclaration line (some name) := by
  unfold SymbolTable.declare at refused
  split at refused
  · cases refused
    rfl
  · cases refused

theorem declareName_taken {name : String} {line : Nat} {tail : List LocatedToken} {state : State}
    (tokens : state.stream.tokens = ⟨.identifier name, line⟩ :: tail) (kind : SymbolKind) :
    declareName kind state =
      match state.table.declare name kind line with
      | .ok table => .ok (name, line) { state with stream := ⟨tail, line⟩, table := table }
      | .error fault =>
        .error fault
          { state with
            stream := ⟨tail, line⟩
            log := .doubleDeclaration name line :: state.log } := by
  rw [declareName, bind_apply, expectName_taken tokens]
  simp only [bind_apply, declare_apply]
  cases state.table.declare name kind line <;> rfl

theorem blames_declareName (kind : SymbolKind) (levels : Nat) (head? : Option Token) :
    Blames levels head? (declareName kind) where
  near := local_steps.congruence.declare kind none
  framed := framed_steps.congruence.declare kind none
  blames state _ fault after failed := by
    cases named : state.stream.peek?.bind Token.identifier? with
    | none =>
      rw [declareName, bind_apply, expectName_refused named, fail_apply] at failed
      cases failed
      exact .head .missingName rfl
    | some name =>
      obtain ⟨⟨token, line⟩, tail, tokens, isName⟩ := head_of_selected named
      obtain rfl : token = .identifier name := Token.identifier?_eq_some_iff.mp isName
      have result := declareName_taken tokens kind
      rw [failed] at result
      cases declared : state.table.declare name kind line with
      | ok table =>
        rw [declared] at result
        cases result
      | error own =>
        rw [declared] at result
        cases result
        rw [declare_refused declared]
        refine .name [] name line tokens fun rest => ?_
        have spelled : (state.withTokens ([] ++ ⟨.identifier name, line⟩ :: rest)).stream.tokens =
            ⟨.identifier name, line⟩ :: rest := rfl
        rw [declareName_taken spelled, declareName_taken tokens]
        simp only [State.withTokens, declared]
        rfl

theorem blames_nested {production : Parser α} {levels : Nat} {head? : Option Token}
    (inside : Blames levels head? production) : Blames (levels + 1) head? (nested production) where
  near := local_nested inside.near
  framed := framed_nested inside.framed
  blames state head fault after failed := by
    have result := failed
    rw [nested_apply] at failed
    cases outcome : production { state with depth := state.depth + 1 } with
    | ok value last =>
      rw [outcome] at failed
      cases failed
    | error own last =>
      rw [outcome] at failed
      cases failed
      have blame := inside.blames { state with depth := state.depth + 1 } head _ _ outcome
      rw [Nat.add_right_comm, Nat.add_assoc] at blame
      refine blame.passed [] outcome result rfl rfl ?_
      intro tokens rest _ stopped
      have deeper : production { state.withTokens tokens with depth := state.depth + 1 } =
          .error fault (last.withTokens rest) := stopped
      rw [List.nil_append, nested_apply]
      simp only [State.withTokens] at deeper ⊢
      rw [deeper]

theorem blames_inScope {production : Parser α} {levels : Nat} {head? : Option Token}
    (inside : Blames levels head? production) : Blames levels head? (inScope production) where
  near := local_inScope inside.near
  framed := framed_inScope inside.framed
  blames state head fault after failed := by
    have result := failed
    rw [inScope_eq_withTable inside.framed] at failed
    cases outcome : production state.entered with
    | ok value last =>
      rw [outcome] at failed
      cases failed
    | error own last =>
      rw [outcome] at failed
      cases failed
      have blame := inside.blames state.entered head _ _ outcome
      refine blame.passed [] outcome result rfl rfl ?_
      intro tokens rest _ stopped
      have deeper : production (state.withTokens tokens).entered =
          .error fault (last.withTokens rest) := stopped
      rw [List.nil_append, inScope_eq_withTable inside.framed, deeper]
      rfl

theorem blamesAt_many (select : Token → Option σ) {body : σ → Parser α} {levels : Nat}
    (inside : ∀ choice head?, Blames levels head? (body choice)) (state : State) :
    BlamesAt (many (begun select body)) levels state := by
  have near choice := (inside choice none).near
  have framed choice := (inside choice none).framed
  induction state using loop_induction select near with
  | stop state found =>
    intro fault after failed
    rw [many_none select body found] at failed
    cases failed
  | round state head tail choice tokens selected ih =>
    have further : BlamesAt (do return (← body choice) :: (← many (begun select body))) levels
        { state with stream := ⟨tail, head.line⟩ } := by
      apply blamesAt_bind (near choice) (framed choice) ((inside choice _).blames _ rfl)
      intro value middle outcome
      exact blamesAt_bind (local_many select near) (framed_many select framed)
        (ih value middle outcome) fun values last _ => blamesAt_pure _ levels last
    intro fault after failed
    have result := failed
    rw [many_some near tokens selected] at failed
    refine (further fault after failed).passed [head] failed result tokens rfl ?_
    intro other rest _ stopped
    rw [List.singleton_append, many_some near rfl selected]
    exact stopped

theorem blames_many (select : Token → Option σ) {body : σ → Parser α} {levels : Nat}
    (inside : ∀ choice head?, Blames levels head? (body choice)) (head? : Option Token) :
    Blames levels head? (many (begun select body)) where
  near := local_many select fun choice => (inside choice none).near
  framed := framed_many select fun choice => (inside choice none).framed
  blames state _ := blamesAt_many select inside state

theorem blames_descent :
    Descent fun levels head? _ production _ => Blames levels head? production where
  inside levels := {
    pure := fun value => blames_pure value levels
    bind := blames_bind
    peek := blames_peek
    advance := blames_advance levels
    fail := fun arises =>
      ⟨local_fail _, framed_steps.fail _, fun state _ =>
        blamesAt_fail (Violation.arisesAtHead_of_arisesAt arises) levels state⟩
    tell := fun name line _ =>
      ⟨local_steps.tell name line, framed_steps.tell name line,
        fun _ _ _ _ failed => by cases failed⟩
    declare := fun kind => blames_declareName kind levels
    integer := fun name => blames_check .integer name levels
    procedure := fun name => blames_check .procedure name levels
    many := fun select _ _ inside => blames_many select inside }
  deep _ := ⟨local_tooDeep, framed_tooDeep, fun state _ fault after failed => by
    cases failed
    exact .nesting⟩
  nested inside head? := blames_nested (inside head?)
  inScope inside head? := blames_inScope (inside head?)

/-- Whatever a block fails over, it blames the head, the nesting there, or the name taken last. -/
theorem blamesAt_block (levels : Nat) (state : State) : BlamesAt (block levels) levels state :=
  (blames_descent.block levels _).blames state rfl

end PlZero.Parser
