import PlZero.Proofs.Program
import PlZero.Proofs.Scoping

/-!
# What is seen of the surroundings

A program is read over a symbol table that it did not make. It sees no more of that
table than what a lookup gives for the names among its tokens. Which scopes are open in
it, where one of them ends, what else is bound there and on which lines, none of it
matters.

For this two runs are followed side by side. The scopes that a program opens lie as
segments on top of either table, and they are the same segments in both runs. A
declaration looks at the topmost segment only, so it fares alike. A lookup goes through
all segments and then to the table below. There the tables agree, since a name is looked
up only while it stands at the head.
-/

namespace PlZero

set_option autoImplicit false

def identifiers (tokens : List LocatedToken) : List String :=
  tokens.filterMap fun located => located.token.identifier?

namespace SymbolTable

/-- Two tables give the same for every name that stands among some tokens. -/
def AgreesOn (tokens : List LocatedToken) (base other : SymbolTable) : Prop :=
  ∀ name ∈ identifiers tokens, base.lookup? name = other.lookup? name

instance (tokens : List LocatedToken) (base other : SymbolTable) :
    Decidable (AgreesOn tokens base other) :=
  inferInstanceAs (Decidable (∀ name ∈ identifiers tokens, base.lookup? name = other.lookup? name))

section Agreement

variable {base other : SymbolTable}

theorem agreesOn_tail {head : LocatedToken} {rest : List LocatedToken}
    (agree : AgreesOn (head :: rest) base other) : AgreesOn rest base other := by
  intro name among
  have further : identifiers rest <:+ identifiers (head :: rest) :=
    (List.suffix_cons head rest).filterMap _
  exact agree name (further.mem among)

theorem lookup?_of_agreesOn {name : String} {line : Nat} {rest : List LocatedToken}
    (agree : AgreesOn (⟨.identifier name, line⟩ :: rest) base other) :
    base.lookup? name = other.lookup? name :=
  agree name List.mem_cons_self

theorem lookup?_extend_congr {name : String} (agree : base.lookup? name = other.lookup? name)
    (scopes : Scopes) : (base.extend scopes).lookup? name = (other.extend scopes).lookup? name := by
  rw [lookup?_extend, lookup?_extend, Scopes.lookup?, Scopes.lookup?, agree]

end Agreement

theorem leaveScope_extend (base : SymbolTable) (scope : List Symbol) (around : Scopes) :
    (base.extend (scope :: around)).leaveScope = .ok (base.extend around) := by
  simp [leaveScope, extend, entriesBefore]

end SymbolTable

namespace Parser

variable {α β σ : Type}

/-- Two runs end with the same value or the same fault, in states that are related. -/
inductive EndTogether (related : State → State → Prop) :
    EStateM.Result Fault State α → EStateM.Result Fault State α → Prop where
  | ok {after after' : State} (value : α) (last : related after after') :
      EndTogether related (.ok value after) (.ok value after')
  | error {after after' : State} (fault : Fault) (last : related after after') :
      EndTogether related (.error fault after) (.error fault after')

theorem endTogether_mono {related wider : State → State → Prop}
    (implies : ∀ after after', related after after' → wider after after')
    {outcome outcome' : EStateM.Result Fault State α}
    (together : EndTogether related outcome outcome') : EndTogether wider outcome outcome' := by
  cases together with
  | ok value last => exact .ok value (implies _ _ last)
  | error fault last => exact .error fault (implies _ _ last)

/-- A level is closed in both runs. -/
theorem endTogether_nested {related : State → State → Prop} {production production' : Parser α}
    (lowered : ∀ after after', related after after' →
      related { after with depth := after.depth - 1 } { after' with depth := after'.depth - 1 })
    {first second : State}
    (together : EndTogether related (production { first with depth := first.depth + 1 })
      (production' { second with depth := second.depth + 1 })) :
    EndTogether related (nested production first) (nested production' second) := by
  rw [nested_apply, nested_apply]
  generalize production _ = outcome, production' _ = outcome' at together ⊢
  cases together with
  | ok value last => exact .ok value (lowered _ _ last)
  | error fault last => exact .error fault (lowered _ _ last)

section TwoRuns

variable (base other : SymbolTable)

/-- The same scopes lie on two tables that agree on what can still be looked up. Apart from
these tables, only what was told may differ. -/
structure SameAbove (scopes : Scopes) (first second : State) : Prop where
  stream : first.stream = second.stream
  depth : first.depth = second.depth
  table : first.table = base.extend scopes
  otherTable : second.table = other.extend scopes
  agree : SymbolTable.AgreesOn first.stream.tokens base other

/-- A scope of the program is open, inside those that lie around it. -/
def SameInside (around : Scopes) (first second : State) : Prop :=
  ∃ scope, SameAbove base other (scope :: around) first second

/-- Two parsers that find this token at the head do not tell what their scopes lie on. -/
def BlindBelow (head? : Option Token) (production production' : Parser α) : Prop :=
  ∀ around first second, SameInside base other around first second →
    first.stream.peek? = head? →
      EndTogether (SameInside base other around) (production first) (production' second)

variable {base other : SymbolTable}

theorem sameAbove_atDepth {scopes : Scopes} {first second : State}
    (same : SameAbove base other scopes first second) (change : Nat → Nat) :
    SameAbove base other scopes { first with depth := change first.depth }
      { second with depth := change second.depth } :=
  ⟨same.stream, congrArg change same.depth, same.table, same.otherTable, same.agree⟩

theorem sameAbove_entered {scopes : Scopes} {first second : State}
    (same : SameAbove base other scopes first second) :
    SameAbove base other ([] :: scopes) first.entered second.entered where
  stream := same.stream
  depth := same.depth
  table := by
    rw [State.entered, same.table]
    exact base.enterScope_extend scopes
  otherTable := by
    rw [State.entered, same.otherTable]
    exact other.enterScope_extend scopes
  agree := same.agree

theorem blind_pure (value : α) (head? : Option Token) :
    BlindBelow base other head? (pure value) (pure value) :=
  fun _ _ _ same _ => .ok value same

theorem blind_bind {first first' : Parser α} {next next' : α → Parser β} {head? : Option Token}
    (early : BlindBelow base other head? first first')
    (late : ∀ value head?, BlindBelow base other head? (next value) (next' value)) :
    BlindBelow base other head? (first >>= next) (first' >>= next') := by
  intro around state state' same head
  have together := early around state state' same head
  rw [bind_apply, bind_apply]
  generalize first state = outcome, first' state' = outcome' at together ⊢
  cases together with
  | @ok middle middle' value last => exact late value _ around middle middle' last rfl
  | error fault last => exact .error fault last

theorem blind_peek {next next' : Option Token → Parser α}
    (inside : ∀ head?, BlindBelow base other head? (next head?) (next' head?))
    (head? : Option Token) : BlindBelow base other head? (peek? >>= next) (peek? >>= next') := by
  intro around first second same head
  obtain ⟨scope, above⟩ := same
  rw [bind_apply, bind_apply, peek?_apply, peek?_apply, ← above.stream]
  exact inside _ around first second ⟨scope, above⟩ rfl

theorem blind_line {next next' : Nat → Parser α}
    (inside : ∀ line head?, BlindBelow base other head? (next line) (next' line))
    (head? : Option Token) : BlindBelow base other head? (line >>= next) (line >>= next') := by
  intro around first second same head
  obtain ⟨scope, above⟩ := same
  rw [bind_apply, bind_apply, line_apply, line_apply, ← above.stream]
  exact inside _ _ around first second ⟨scope, above⟩ head

theorem blind_advance (head? : Option Token) : BlindBelow base other head? advance advance := by
  intro around first second same head
  obtain ⟨scope, above⟩ := same
  rw [advance_apply, advance_apply, ← above.stream]
  cases tokens : first.stream.tokens with
  | nil => exact .error _ ⟨scope, above⟩
  | cons taken rest =>
    have agree := above.agree
    rw [tokens] at agree
    exact .ok () ⟨scope, rfl, above.depth, above.table, above.otherTable,
      SymbolTable.agreesOn_tail agree⟩

theorem blind_fail (broken : Violation) (head? : Option Token) :
    BlindBelow base other head? (fail broken : Parser α) (fail broken) := by
  intro around first second same head
  obtain ⟨scope, above⟩ := same
  rw [fail_apply, fail_apply, ← above.stream]
  exact .error _ ⟨scope, rfl, above.depth, above.table, above.otherTable, above.agree⟩

theorem blind_tell (event : Event) (head? : Option Token) :
    BlindBelow base other head? (tell event) (tell event) := by
  intro around first second same head
  obtain ⟨scope, above⟩ := same
  exact .ok () ⟨scope, above.stream, above.depth, above.table, above.otherTable, above.agree⟩

/-- Whether a name is declared already depends on the innermost scope, which is the program's. -/
theorem blind_declare (name : String) (kind : SymbolKind) (line : Nat) (head? : Option Token) :
    BlindBelow base other head? (declare name kind line) (declare name kind line) := by
  intro around first second same head
  obtain ⟨scope, above⟩ := same
  rw [declare_apply, declare_apply, above.table, above.otherTable, base.declare_extend,
    other.declare_extend]
  by_cases bound : (scope.any fun symbol => symbol.name == name) = true
  · rw [if_pos bound, if_pos bound]
    exact .error _ ⟨scope, above.stream, above.depth, rfl, rfl, above.agree⟩
  · rw [if_neg bound, if_neg bound]
    exact .ok () ⟨_, above.stream, above.depth, rfl, rfl, above.agree⟩

theorem blind_declareName (kind : SymbolKind) (head? : Option Token) :
    BlindBelow base other head? (declareName kind) (declareName kind) := by
  have named : ∀ head?, BlindBelow base other head? (expectName .missingName)
      (expectName .missingName) := by
    refine blind_line fun line => blind_peek fun head? => ?_
    cases head?.bind Token.identifier? with
    | none => exact blind_fail .missingName head?
    | some name => exact blind_bind (blind_advance head?) fun _ => blind_pure _
  refine blind_bind (named head?) fun found head? => ?_
  exact blind_bind (blind_declare _ kind _ head?) fun _ => blind_pure _

/-- A name at the head is among the tokens, so the tables below agree on it. -/
theorem blind_resolve (name : String) :
    BlindBelow base other (some (.identifier name)) (resolve name) (resolve name) := by
  intro around first second same head
  obtain ⟨scope, above⟩ := same
  obtain ⟨line, rest, tokens⟩ := tokens_of_peek? head
  have agree : base.lookup? name = other.lookup? name := by
    apply SymbolTable.lookup?_of_agreesOn
    rw [← tokens]
    exact above.agree
  have lookups : first.table.lookup? name = second.table.lookup? name := by
    rw [above.table, above.otherTable]
    exact SymbolTable.lookup?_extend_congr agree (scope :: around)
  rw [resolve_apply, resolve_apply, ← lookups, ← above.stream]
  cases first.table.lookup? name with
  | some kind => exact .ok kind ⟨scope, above⟩
  | none => exact .error _ ⟨scope, rfl, above.depth, above.table, above.otherTable, above.agree⟩

theorem blind_checkOf (usage : Usage) (name : String) :
    BlindBelow base other (some (.identifier name)) (do checkOf usage name; advance)
      (do checkOf usage name; advance) := by
  have checked : BlindBelow base other (some (.identifier name)) (checkOf usage name)
      (checkOf usage name) := by
    cases usage with
    | integer | procedure =>
      refine blind_bind (blind_resolve name) fun kind head? => ?_
      split
      · exact blind_fail _ head?
      · exact blind_pure () head?
  exact blind_bind checked fun _ => blind_advance

theorem blind_manyWithin {item? item?' : Parser (Option α)}
    (inside : ∀ head?, BlindBelow base other head? item? item?') (bound : List LocatedToken)
    (head? : Option Token) :
    BlindBelow base other head? (manyWithin item? bound) (manyWithin item?' bound) := by
  induction bound generalizing head? with
  | nil => exact blind_pure [] head?
  | cons first bound ih =>
    refine blind_bind (inside head?) fun value? head? => ?_
    cases value? with
    | none => exact blind_pure [] head?
    | some value => exact blind_bind (ih head?) fun _ => blind_pure _

theorem blind_many (select : Token → Option σ) {body body' : σ → Parser α}
    (inside : ∀ choice head?, BlindBelow base other head? (body choice) (body' choice))
    (head? : Option Token) :
    BlindBelow base other head? (many (begun select body)) (many (begun select body')) := by
  have item : ∀ head?, BlindBelow base other head? (begun select body) (begun select body') := by
    refine blind_peek fun head? => ?_
    cases head?.bind select with
    | none => exact blind_pure none head?
    | some choice =>
      refine blind_bind (blind_advance head?) fun _ head? => ?_
      exact blind_bind (inside choice head?) fun _ => blind_pure _
  intro around first second same head
  obtain ⟨scope, above⟩ := same
  -- the tokens at hand bound the loop, and both runs have the same ones
  rw [many_apply, many_apply, ← above.stream]
  exact blind_manyWithin item first.stream.tokens head? around first second ⟨scope, above⟩ head

theorem blind_tooDeep (head? : Option Token) :
    BlindBelow base other head? (tooDeep : Parser α) tooDeep := by
  intro around first second same head
  obtain ⟨scope, above⟩ := same
  rw [tooDeep_apply, tooDeep_apply, ← above.stream, above.depth]
  exact .error _ ⟨scope, above⟩

theorem blind_nested {production production' : Parser α}
    (inside : ∀ head?, BlindBelow base other head? production production')
    (head? : Option Token) :
    BlindBelow base other head? (nested production) (nested production') := by
  intro around first second same head
  obtain ⟨scope, above⟩ := same
  apply endTogether_nested
  · rintro after after' ⟨scope, last⟩
    exact ⟨scope, sameAbove_atDepth last (· - 1)⟩
  · exact inside _ around _ _ ⟨scope, sameAbove_atDepth above (· + 1)⟩ rfl

/-- A scope goes onto the same scopes in both runs, none at all included, and leaves them. -/
theorem endTogether_inScope {production production' : Parser α}
    (inside : ∀ head?, BlindBelow base other head? production production')
    {scopes : Scopes} {first second : State} (same : SameAbove base other scopes first second) :
    EndTogether (SameAbove base other scopes) (inScope production first)
      (inScope production' second) := by
  have together := inside _ scopes first.entered second.entered ⟨[], sameAbove_entered same⟩ rfl
  rw [inScope_eq_closed, inScope_eq_closed]
  generalize production _ = outcome, production' _ = outcome' at together ⊢
  cases together with
  | ok value last | error fault last =>
    obtain ⟨scope, above⟩ := last
    simp only [closed, above.table, above.otherTable, SymbolTable.leaveScope_extend]
    constructor
    exact ⟨above.stream, above.depth, rfl, rfl, above.agree⟩

theorem blind_inScope {production production' : Parser α}
    (inside : ∀ head?, BlindBelow base other head? production production')
    (head? : Option Token) :
    BlindBelow base other head? (inScope production) (inScope production') := by
  intro around first second same head
  obtain ⟨scope, above⟩ := same
  exact endTogether_mono (fun _ _ last => ⟨scope, last⟩) (endTogether_inScope inside above)

theorem blind_descent :
    Descent fun _ head? _ production production' =>
      BlindBelow base other head? production production' where
  inside _ := {
    pure := blind_pure
    bind := blind_bind
    peek := blind_peek
    advance := fun token => blind_advance (some token)
    fail := fun _ => blind_fail _ _
    tell := fun _ _ => blind_tell _
    declare := blind_declareName
    integer := blind_checkOf .integer
    procedure := blind_checkOf .procedure
    many := blind_many }
  deep := blind_tooDeep
  nested := blind_nested
  inScope := blind_inScope

/-- A block opens a scope of its own, so it may as well be the outermost one. -/
theorem endTogether_block (levels : Nat) {scopes : Scopes} {first second : State}
    (same : SameAbove base other scopes first second) :
    EndTogether (SameAbove base other scopes) (block levels first) (block levels second) := by
  cases levels with
  | zero =>
    rw [block, tooDeep_apply, tooDeep_apply, ← same.stream, same.depth]
    exact .error _ same
  | succ levels =>
    have body : ∀ head?, BlindBelow base other head? (blockBody (block levels) (statement levels))
        (blockBody (block levels) (statement levels)) :=
      (blind_descent.inside levels).block_body (blind_descent.block levels)
        (blind_descent.statement levels)
    apply endTogether_nested
    · exact fun _ _ last => sameAbove_atDepth last (· - 1)
    · exact endTogether_inScope body (sameAbove_atDepth same (· + 1))

end TwoRuns

def SameStream (first second : State) : Prop := first.stream = second.stream

theorem endTogether_finish (block : Block) {first second : State}
    (same : SameStream first second) :
    EndTogether SameStream (finish block first) (finish block second) := by
  obtain ⟨line, rest, ahead⟩ | other := period_ahead_or_other first.stream.tokens
  · obtain ⟨after, outcome, left⟩ := finish_of_period block ahead
    obtain ⟨after', outcome', left'⟩ := finish_of_period block (same ▸ ahead)
    rw [outcome, outcome']
    exact .ok _ (left.trans left'.symm)
  · obtain ⟨after, outcome, left⟩ := finish_of_other block other
    obtain ⟨after', outcome', left'⟩ := finish_of_other block (same ▸ other)
    rw [outcome, outcome']
    exact .ok _ (left.trans (same.trans left'.symm))

section Calls

variable {tokens : List LocatedToken} {base other : SymbolTable}
variable (agree : SymbolTable.AgreesOn tokens base other)
include agree

theorem endTogether_parse (limit : Nat) :
    EndTogether SameStream (parse limit (start tokens base))
      (parse limit (start tokens other)) := by
  have same : SameAbove base other [] (fresh tokens base) (fresh tokens other) :=
    ⟨rfl, rfl, rfl, rfl, agree⟩
  have together := endTogether_block limit same
  rw [parse_apply, parse_apply, bind_apply, bind_apply]
  generalize block limit (fresh tokens base) = outcome,
    block limit (fresh tokens other) = outcome' at together ⊢
  cases together with
  | ok value last => exact endTogether_finish value last.stream
  | error fault last => exact .error fault last.stream

theorem endTogether_call (limit : Nat) (call : Call) :
    EndTogether SameStream (call.run limit (start tokens base))
      (call.run limit (start tokens other)) := by
  have together := endTogether_parse agree limit
  cases call with
  | parse => exact together
  | program =>
    rw [Call.run, parseProgram, bind_apply, bind_apply]
    generalize parse limit (start tokens base) = outcome,
      parse limit (start tokens other) = outcome' at together ⊢
    cases together with
    | error fault last => exact .error fault last
    | @ok after after' value last =>
      have stream : after.stream = after'.stream := last
      simp only
      split
      · exact .ok _ last
      · rw [fail_apply, fail_apply, ← stream]
        exact .error _ rfl

end Calls

/-- A call comes to the same over tables that agree on the names among the tokens, and it leaves
the same tokens. -/
theorem surroundings_seen_through_lookup (limit : Nat) (tokens : List LocatedToken)
    (base other : SymbolTable) (agree : SymbolTable.AgreesOn tokens base other) (call : Call) :
    result (call.run limit (start tokens base)) = result (call.run limit (start tokens other)) ∧
      (stateAfter (call.run limit (start tokens base))).stream =
        (stateAfter (call.run limit (start tokens other))).stream := by
  have together := endTogether_call agree limit call
  generalize call.run limit (start tokens base) = outcome,
    call.run limit (start tokens other) = outcome' at together ⊢
  cases together with
  | ok value last => exact ⟨rfl, last⟩
  | error fault last => exact ⟨rfl, last⟩

def callOfGo : List LocatedToken :=
  [⟨.keyword .varKw, 1⟩, ⟨.identifier "x", 1⟩, ⟨.symbol ';', 1⟩,
    ⟨.keyword .callKw, 2⟩, ⟨.identifier "go", 2⟩, ⟨.symbol '.', 2⟩, ⟨.keyword .passKw, 3⟩]

def rootOnly : SymbolTable := ⟨[⟨"x", .var, 2⟩, ⟨"go", .procedure, 1⟩], []⟩

/-- The same names with more of them, on other lines, and under two scopes, the inner one empty. -/
def underScopes : SymbolTable :=
  SymbolTable.extend ⟨[⟨"go", .procedure, 7⟩, ⟨"x", .const, 6⟩], []⟩
    [[], [⟨"x", .var, 9⟩, ⟨"spare", .const, 8⟩]]

theorem call_of_go_under_scopes :
    SymbolTable.AgreesOn callOfGo rootOnly underScopes ∧
      result (parseProgram 3 (start callOfGo underScopes)) = .ok (.statement (.call "go")) ∧
      (stateAfter (parseProgram 3 (start callOfGo underScopes))).stream.tokens =
        [⟨.keyword .passKw, 3⟩] := by
  have agree : SymbolTable.AgreesOn callOfGo rootOnly underScopes := by decide
  have seen := surroundings_seen_through_lookup 3 callOfGo rootOnly underScopes agree .program
  refine ⟨agree, seen.1.symm, ?_⟩
  have left := congrArg TokenStream.tokens seen.2
  exact left.symm

end Parser

end PlZero
