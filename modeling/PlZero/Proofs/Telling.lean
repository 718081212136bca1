import PlZero.Proofs.Blame

/-!
# What a descent tells

A production adds to what was told and takes nothing of it back. If it fails, what it
told last is the fault that it failed over, in words that depend on the fault alone. Any
level and any scope that is closed on the way out tells nothing more. What it told before
does not depend on the outcome: a block tells that it was entered and which procedures
are declared in it, and everything else is silent as long as it succeeds.
-/

namespace PlZero

set_option autoImplicit false

/-- What is told of a fault. Only broken rules are told of, a name that is declared twice and one
that is not declared in words of their own. -/
def Fault.told? : Fault → Option Event
  | .violation .doubleDeclaration line name? => name?.map fun name => .doubleDeclaration name line
  | .violation .undeclared _ (some name) => some (.undeclared name)
  | .violation broken line _ => some (.violation broken line)
  | _ => none

theorem Fault.told?_of_arises {broken : Violation} {head? : Option Token}
    (arises : broken.arisesAt head? = true) (line : Nat) :
    (violation broken line (head?.bind Token.identifier?)).told? =
      some (.violation broken line) := by
  cases broken with
  | doubleDeclaration => cases arises
  | undeclared =>
    have unnamed : head?.bind Token.identifier? = none := Option.isNone_iff_eq_none.mp arises
    rw [unnamed]
    rfl
  | _ => rfl

namespace Parser

variable {α β σ : Type}

def lastWord : EStateM.Result Fault State α → List Event
  | .ok _ _ => []
  | .error fault _ => fault.told?.toList

/-- A production that began in this state has told some events of a kind, and then its fault if
it failed. -/
def Adds (told : Event → Prop) (state : State) (result : EStateM.Result Fault State α) : Prop :=
  ∃ news, (∀ event ∈ news, told event) ∧
    (stateAfter result).log = lastWord result ++ (news ++ state.log)

/-- A production that finds this token at the head tells events of a kind only. -/
structure Tells (told : Event → Prop) (head? : Option Token) (production : Parser α) : Prop where
  framed : Framed production
  adds : ∀ state, state.stream.peek? = head? → Adds told state (production state)

variable {told : Event → Prop}

theorem adds_silent {state : State} {result : EStateM.Result Fault State α}
    (same : (stateAfter result).log = lastWord result ++ state.log) : Adds told state result :=
  ⟨[], List.forall_mem_nil _, same⟩

theorem adds_fail {state : State} {broken : Violation}
    (arises : broken.arisesAt state.stream.peek? = true) :
    Adds told state ((fail broken : Parser α) state) := by
  apply adds_silent
  rw [fail_apply, lastWord, Fault.told?_of_arises arises]
  rfl

theorem adds_bind {first : Parser α} {next : α → Parser β} {state : State}
    (early : Adds told state (first state))
    (late : ∀ value middle, first state = .ok value middle → Adds told middle (next value middle)) :
    Adds told state ((first >>= next) state) := by
  obtain ⟨news, kind, log⟩ := early
  rw [bind_apply]
  cases outcome : first state with
  | error fault after =>
    rw [outcome] at log
    exact ⟨news, kind, log⟩
  | ok value middle =>
    rw [outcome] at log
    obtain ⟨more, moreKind, moreLog⟩ := late value middle outcome
    refine ⟨more ++ news, List.forall_mem_append.mpr ⟨moreKind, kind⟩, ?_⟩
    have between : middle.log = news ++ state.log := log
    rw [moreLog, between, List.append_assoc]

theorem adds_tell {event : Event} (own : told event) (state : State) :
    Adds told state (tell event state) :=
  ⟨[event], List.forall_mem_singleton.mpr own, rfl⟩

theorem adds_advance (state : State) : Adds told state (advance state) := by
  apply adds_silent
  rw [advance_apply]
  cases state.stream.tokens <;> rfl

theorem adds_expectName (state : State) : Adds told state (expectName .missingName state) := by
  cases named : state.stream.peek?.bind Token.identifier? with
  | none =>
    rw [expectName_refused named]
    exact adds_fail rfl
  | some name =>
    obtain ⟨⟨token, line⟩, tail, tokens, isName⟩ := head_of_selected named
    obtain rfl : token = .identifier name := Token.identifier?_eq_some_iff.mp isName
    rw [expectName_taken tokens]
    exact adds_silent rfl

/-- A name is told of before its declaration is refused. -/
theorem adds_declare (name : String) (kind : SymbolKind) (line : Nat) (state : State) :
    Adds told state (declare name kind line state) := by
  apply adds_silent
  rw [declare_apply]
  cases declared : state.table.declare name kind line with
  | ok table => rfl
  | error fault =>
    rw [declare_refused declared]
    rfl

theorem adds_resolve (name : String) (state : State) :
    Adds told state (resolve name state) := by
  apply adds_silent
  rw [resolve_apply]
  cases state.table.lookup? name <;> rfl

theorem adds_checkOf (usage : Usage) (name : String) (state : State) :
    Adds told state (checkOf usage name state) := by
  cases usage with
  | integer | procedure =>
    refine adds_bind (adds_resolve name state) fun kind middle _ => ?_
    split
    · exact adds_fail rfl
    · exact adds_silent rfl

theorem tells_pure (value : α) (head? : Option Token) :
    Tells told head? (pure value : Parser α) :=
  ⟨frame_chained.leads_pure value, fun _ _ => adds_silent rfl⟩

theorem tells_bind {first : Parser α} {next : α → Parser β} {head? : Option Token}
    (early : Tells told head? first) (late : ∀ value head?, Tells told head? (next value)) :
    Tells told head? (first >>= next) where
  framed := framed_bind early.framed fun value => (late value none).framed
  adds state head := adds_bind (early.adds state head) fun value middle _ =>
    (late value _).adds middle rfl

theorem tells_peek {next : Option Token → Parser α}
    (each : ∀ head?, Tells told head? (next head?)) (head? : Option Token) :
    Tells told head? (peek? >>= next) where
  framed := framed_bind framed_steps.peek fun head? => (each head?).framed
  adds state _ := by
    rw [bind_apply, peek?_apply]
    exact (each _).adds state rfl

theorem tells_advance (head? : Option Token) : Tells told head? advance :=
  ⟨framed_advance, fun state _ => adds_advance state⟩

theorem tells_fail {broken : Violation} {head? : Option Token}
    (arises : broken.arisesAt head? = true) : Tells told head? (fail broken : Parser α) where
  framed := framed_steps.fail broken
  adds _ head := adds_fail (head ▸ arises)

theorem tells_tell (name : String) (line : Nat) (own : told (.procedureDeclared name line))
    (head? : Option Token) : Tells told head? (tell (.procedureDeclared name line)) where
  framed := framed_steps.tell name line
  adds state _ := adds_tell own state

theorem tells_declareName (kind : SymbolKind) (head? : Option Token) :
    Tells told head? (declareName kind) where
  framed := framed_steps.congruence.declare kind none
  adds state _ := adds_bind (adds_expectName state) fun _ middle _ =>
    adds_bind (adds_declare _ kind _ middle) fun _ _ _ => adds_silent rfl

theorem tells_check (usage : Usage) (name : String) (head? : Option Token) :
    Tells told head? (do checkOf usage name; advance) where
  framed := by
    cases usage
    · exact framed_steps.congruence.integer name
    · exact framed_steps.congruence.procedure name
  adds state _ := adds_bind (adds_checkOf usage name state) fun _ middle _ => adds_advance middle

theorem tells_nested {production : Parser α} {head? : Option Token}
    (inside : Tells told head? production) : Tells told head? (nested production) where
  framed := framed_nested inside.framed
  adds state head := by
    obtain ⟨news, kind, log⟩ := inside.adds { state with depth := state.depth + 1 } head
    refine ⟨news, kind, ?_⟩
    rw [nested_apply]
    cases outcome : production { state with depth := state.depth + 1 } with
    | ok value after | error fault after =>
      rw [outcome] at log
      exact log

/-- A scope tells that it was entered, and nothing when it is left, for it can be left always. -/
theorem tells_inScope {production : Parser α} {head? : Option Token}
    (entered : ∀ scopes, told (.blockEntered scopes)) (inside : Tells told head? production) :
    Tells told head? (inScope production) where
  framed := framed_inScope inside.framed
  adds state head := by
    obtain ⟨news, kind, log⟩ := inside.adds state.entered head
    refine ⟨news ++ [.blockEntered state.table.enterScope.depth], ?_, ?_⟩
    · exact List.forall_mem_append.mpr ⟨kind, List.forall_mem_singleton.mpr (entered _)⟩
    · rw [inScope_eq_withTable inside.framed, List.append_assoc]
      cases outcome : production state.entered with
      | ok value after | error fault after =>
        rw [outcome] at log
        exact log

theorem tells_manyWithin {item? : Parser (Option α)} (inside : ∀ head?, Tells told head? item?)
    (bound : List LocatedToken) (head? : Option Token) :
    Tells told head? (manyWithin item? bound) := by
  induction bound generalizing head? with
  | nil => exact tells_pure [] head?
  | cons first bound ih =>
    refine tells_bind (inside head?) fun value? head? => ?_
    cases value? with
    | none => exact tells_pure [] head?
    | some value => exact tells_bind (ih head?) fun _ => tells_pure _

theorem tells_many (select : Token → Option σ) {body : σ → Parser α}
    (inside : ∀ choice head?, Tells told head? (body choice)) (head? : Option Token) :
    Tells told head? (many (begun select body)) := by
  have item : ∀ head?, Tells told head? (begun select body) := by
    refine tells_peek fun head? => ?_
    cases head?.bind select with
    | none => exact tells_pure none head?
    | some choice =>
      exact tells_bind (tells_advance head?) fun _ head? =>
        tells_bind (inside choice head?) fun _ => tells_pure _
  refine ⟨framed_many select fun choice => (inside choice none).framed, fun state head => ?_⟩
  rw [many_apply]
  exact (tells_manyWithin item _ head?).adds state head

theorem tells_tooDeep (head? : Option Token) : Tells told head? (tooDeep : Parser α) :=
  ⟨framed_tooDeep, fun _ _ => adds_silent rfl⟩

/-- What tells nothing as it goes tells events of any kind, even of none. -/
theorem tells_quiet (told : Event → Prop) :
    QuietCongruence fun head? _ production _ => Tells told head? production where
  pure := tells_pure
  bind := tells_bind
  peek := tells_peek
  advance token := tells_advance (some token)
  fail := tells_fail
  declare := tells_declareName
  integer name := tells_check .integer name _
  procedure name := tells_check .procedure name _
  many select _ _ inside := tells_many select inside

theorem tells_quietDescent (told : Event → Prop) :
    QuietDescent fun _ head? _ production _ => Tells told head? production where
  inside _ := tells_quiet told
  deep := tells_tooDeep
  nested inside head? := tells_nested (inside head?)

theorem tells_descent (entered : ∀ scopes, told (.blockEntered scopes))
    (declared : ∀ name line, told (.procedureDeclared name line)) :
    Descent fun _ head? _ production _ => Tells told head? production where
  inside _ := { tells_quiet told with
    tell := fun name line => tells_tell name line (declared name line) }
  deep := tells_tooDeep
  nested inside head? := tells_nested (inside head?)
  inScope inside head? := tells_inScope entered (inside head?)

end Parser

end PlZero
