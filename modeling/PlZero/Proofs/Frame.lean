import PlZero.Proofs.Leads

/-!
# What a production leaves as it was

Declarations pile up on the bindings that were there, and every scope and level
that is opened is closed again on both ways out. So after a production the open
scopes and the depth are the old ones, and all bindings from before are still
there below the new ones. At the end of a scope this gives the old table back.
-/

namespace PlZero.Parser

set_option autoImplicit false

variable {α β σ : Type}

/-- The same scopes and levels are open, and bindings were added only. -/
structure Frame (before after : State) : Prop where
  markers : after.table.markers = before.table.markers
  entries : before.table.entries <:+ after.table.entries
  depth : after.depth = before.depth

theorem frame_chained : Chained Frame where
  same _ := ⟨rfl, List.suffix_refl _, rfl⟩
  joined early late :=
    ⟨late.markers.trans early.markers, early.entries.trans late.entries,
      late.depth.trans early.depth⟩

def Framed (production : Parser α) : Prop := Leads Frame production

theorem framed_bind {first : Parser α} {next : α → Parser β} (firstFramed : Framed first)
    (nextFramed : ∀ value, Framed (next value)) : Framed (first >>= next) :=
  frame_chained.leads_bind firstFramed nextFramed

theorem framed_advance : Framed advance := by
  intro state
  rw [advance_apply]
  cases state.stream.tokens <;> exact ⟨rfl, List.suffix_refl _, rfl⟩

theorem framed_declare (name : String) (kind : SymbolKind) (line : Nat) :
    Framed (declare name kind line) := by
  intro state
  rw [declare_apply]
  unfold SymbolTable.declare
  split
  · next table declared =>
    split at declared
    · cases declared
    · cases declared
      exact ⟨rfl, List.suffix_cons _ _, rfl⟩
  · exact ⟨rfl, List.suffix_refl _, rfl⟩

theorem framed_resolve (name : String) : Framed (resolve name) := by
  intro state
  rw [resolve_apply]
  cases state.table.lookup? name <;> exact ⟨rfl, List.suffix_refl _, rfl⟩

theorem framed_nested {production : Parser α} (inside : Framed production) :
    Framed (nested production) := by
  intro state
  have kept := inside { state with depth := state.depth + 1 }
  rw [nested_apply]
  cases outcome : production { state with depth := state.depth + 1 } with
  | ok value after | error fault after =>
    rw [outcome] at kept
    exact ⟨kept.markers, kept.entries, Nat.sub_eq_of_eq_add kept.depth⟩

def State.entered (state : State) : State :=
  { state with
    table := state.table.enterScope
    log := .blockEntered state.table.enterScope.depth :: state.log }

def closed : EStateM.Result Fault State α → EStateM.Result Fault State α
  | .ok value after =>
    match after.table.leaveScope with
    | .ok table => .ok value { after with table := table }
    | .error fault => .error fault after
  | .error fault after =>
    match after.table.leaveScope with
    | .ok table => .error fault { after with table := table }
    | .error underflow => .error underflow after

theorem inScope_eq_closed (production : Parser α) (state : State) :
    inScope production state = closed (production state.entered) :=
  inScope_apply production state

theorem leaveScope_of_frame {state after : State} (kept : Frame state.entered after) :
    after.table.leaveScope = .ok state.table := by
  obtain ⟨added, entries⟩ := kept.entries
  have markers : after.table.markers = state.table.entries.length :: state.table.markers :=
    kept.markers
  have inner : state.entered.table.entries = state.table.entries := rfl
  rw [inner] at entries
  unfold SymbolTable.leaveScope
  rw [markers]
  simp only [SymbolTable.entriesBefore, ← entries, List.length_append, Nat.add_sub_cancel,
    List.drop_left]

def withTable (table : SymbolTable) :
    EStateM.Result Fault State α → EStateM.Result Fault State α
  | .ok value after => .ok value { after with table := table }
  | .error fault after => .error fault { after with table := table }

theorem closed_of_frame {state : State} {result : EStateM.Result Fault State α}
    (kept : Frame state.entered (stateAfter result)) :
    closed result = withTable state.table result := by
  cases result with
  | ok value after | error fault after =>
    have left : after.table.leaveScope = .ok state.table := leaveScope_of_frame kept
    simp only [closed, left, withTable]

/-- A scope around a production that keeps the frame changes nothing in the table. -/
theorem inScope_eq_withTable {production : Parser α} (inside : Framed production)
    (state : State) :
    inScope production state = withTable state.table (production state.entered) := by
  rw [inScope_eq_closed, closed_of_frame (inside state.entered)]

theorem framed_inScope {production : Parser α} (inside : Framed production) :
    Framed (inScope production) := by
  intro state
  have kept := inside state.entered
  rw [inScope_eq_withTable inside]
  cases outcome : production state.entered with
  | ok value after | error fault after =>
    rw [outcome] at kept
    exact ⟨rfl, List.suffix_refl _, kept.depth⟩

theorem framed_many (select : Token → Option σ) {body : σ → Parser α}
    (inside : ∀ choice, Framed (body choice)) : Framed (many (begun select body)) :=
  frame_chained.leads_many framed_advance select inside

theorem framed_steps : Steps fun production _ => Framed production where
  pure := frame_chained.leads_pure
  bind := framed_bind
  peek := frame_chained.same
  line := frame_chained.same
  advance := framed_advance
  fail _ _ := ⟨rfl, List.suffix_refl _, rfl⟩
  tell _ _ _ := ⟨rfl, List.suffix_refl _, rfl⟩
  declare := framed_declare
  resolve := framed_resolve
  nested := framed_nested
  inScope := framed_inScope
  many select _ _ inside := framed_many select inside

theorem framed_tooDeep : Framed (tooDeep : Parser α) := frame_chained.same

theorem framed_expression (levels : Nat) : Framed (expression levels) :=
  (framed_steps.descent framed_tooDeep).expression levels none

theorem framed_statement (levels : Nat) : Framed (statement levels) :=
  (framed_steps.descent framed_tooDeep).statement levels none

theorem framed_block (levels : Nat) : Framed (block levels) :=
  (framed_steps.descent framed_tooDeep).block levels none

theorem framed_blockBody (levels : Nat) :
    Framed (blockBody (block levels) (statement levels)) :=
  @Congruence.block_body _ framed_steps.congruence _ (block levels) _ (statement levels)
    (fun _ => framed_block levels) (fun _ => framed_statement levels) none

end PlZero.Parser
