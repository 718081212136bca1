import PlZero.Proofs.ScopeStack

/-!
# Runs that leave what they entered

A table is given operations one after the other. From the moment at which a scope is entered its
marker stands in the table, and as long as it does, nothing below it is reached: a binding is put
on top, and each scope that is left began no deeper than the marker. So when that scope is left as
well, the table is the one from before, and no later answer tells that anything happened.
-/

namespace PlZero

set_option autoImplicit false

namespace SymbolTable

def after (table : SymbolTable) : List ScopeOperation → SymbolTable
  | [] => table
  | operation :: rest => (table.perform operation).2.after rest

/-- All tables on the way, from the first to the last. -/
def met (table : SymbolTable) : List ScopeOperation → List SymbolTable
  | [] => [table]
  | operation :: rest => table :: (table.perform operation).2.met rest

theorem after_append (table : SymbolTable) (first second : List ScopeOperation) :
    table.after (first ++ second) = (table.after first).after second := by
  induction first generalizing table with
  | nil => rfl
  | cons operation rest ih => exact ih (table.perform operation).2

theorem answers_append (table : SymbolTable) (first second : List ScopeOperation) :
    ScopeOperation.answers perform table (first ++ second) =
      ScopeOperation.answers perform table first ++
        ScopeOperation.answers perform (table.after first) second := by
  induction first generalizing table with
  | nil => rfl
  | cons operation rest ih =>
    have later := ih (table.perform operation).2
    simp only [List.cons_append, ScopeOperation.answers, after, later]

theorem mem_met_self (table : SymbolTable) (operations : List ScopeOperation) :
    table ∈ table.met operations := by
  cases operations <;> simp [met]

theorem after_mem_met (table : SymbolTable) (first second : List ScopeOperation) :
    table.after first ∈ table.met (first ++ second) := by
  induction first generalizing table with
  | nil => exact table.mem_met_self second
  | cons operation rest ih => exact List.mem_cons_of_mem table (ih (table.perform operation).2)

theorem mem_met_append {table visited : SymbolTable} {first second : List ScopeOperation}
    (member : visited ∈ table.met (first ++ second)) :
    visited ∈ table.met first ∨ visited ∈ (table.after first).met second := by
  induction first generalizing table with
  | nil => exact .inr member
  | cons operation rest ih =>
    simp only [List.cons_append, met, List.mem_cons] at member
    rcases member with same | later
    · left
      simp [met, same]
    · rcases ih later with early | late
      · exact .inl (List.mem_cons_of_mem table early)
      · exact .inr late

/-- A scope that was entered in the outer table is still open. Above its marker are those of the
scopes that were entered since and not left. -/
structure StandsIn (outer table : SymbolTable) : Prop where
  entries : outer.entries <:+ table.entries
  markers : ∃ opened, table.markers = opened ++ outer.enterScope.markers ∧
    ∀ marker ∈ opened, outer.entries.length ≤ marker

variable {outer table : SymbolTable}

theorem standsIn_entered (outer : SymbolTable) : outer.StandsIn outer.enterScope where
  entries := List.suffix_rfl
  markers := ⟨[], rfl, fun marker member => by cases member⟩

theorem StandsIn.entered (standing : outer.StandsIn table) : outer.StandsIn table.enterScope := by
  obtain ⟨opened, same, above⟩ := standing.markers
  refine ⟨standing.entries, table.entries.length :: opened, ?_, ?_⟩
  · simp only [enterScope, same, List.cons_append]
  · exact List.forall_mem_cons.mpr ⟨standing.entries.length_le, above⟩

theorem StandsIn.declared (standing : outer.StandsIn table) (symbol : Symbol) :
    outer.StandsIn { table with entries := symbol :: table.entries } where
  entries := standing.entries.trans (List.suffix_cons symbol table.entries)
  markers := standing.markers

/-- Going back to a marker that is not below the outer bindings keeps all of them. -/
theorem suffix_entriesBefore (older : outer.entries <:+ table.entries) {start : Nat}
    (above : outer.entries.length ≤ start) : outer.entries <:+ table.entriesBefore start := by
  have own := List.suffix_iff_eq_drop.mp older
  have fewer : table.entries.length - start ≤ table.entries.length - outer.entries.length := by
    omega
  rw [own]
  exact List.drop_suffix_drop_left table.entries fewer

/-- While the scope is open there is one to leave. Either it is that scope, and the outer table
comes back, or it is one that was entered since. -/
theorem StandsIn.left (standing : outer.StandsIn table) :
    ∃ inner, table.leaveScope = .ok inner ∧
      ((table.depth = outer.enterScope.depth ∧ inner = outer) ∨
        (outer.enterScope.depth < table.depth ∧ outer.StandsIn inner)) := by
  obtain ⟨opened, same, above⟩ := standing.markers
  have depths : table.depth = opened.length + outer.enterScope.depth := by
    rw [depth, same, List.length_append, depth]
  cases opened with
  | nil =>
    have back : table.entriesBefore outer.entries.length = outer.entries :=
      (List.suffix_iff_eq_drop.mp standing.entries).symm
    refine ⟨outer, ?_, .inl ⟨by simpa using depths, rfl⟩⟩
    simp only [leaveScope, same, List.nil_append, enterScope, back]
  | cons marker opened =>
    obtain ⟨own, others⟩ := List.forall_mem_cons.mp above
    simp only [leaveScope, same, List.cons_append]
    refine ⟨_, rfl, .inr ⟨?_, suffix_entriesBefore standing.entries own, opened, rfl, others⟩⟩
    rw [depths, List.length_cons]
    omega

theorem StandsIn.leave_done (standing : outer.StandsIn table) :
    (table.perform .leave).1 = .done := by
  obtain ⟨inner, outcome, _⟩ := standing.left
  simp only [perform, outcome, ScopeAnswer.ofChange]

/-- No operation reaches below the marker, unless it makes the table less deep than it was when the
scope had been entered. -/
theorem StandsIn.performed (standing : outer.StandsIn table) (operation : ScopeOperation)
    (within : outer.enterScope.depth ≤ (table.perform operation).2.depth) :
    outer.StandsIn (table.perform operation).2 := by
  cases operation with
  | enter => exact standing.entered
  | leave =>
    obtain ⟨inner, outcome, ⟨_, same⟩ | ⟨_, inside⟩⟩ := standing.left
    · rw [perform, outcome] at within
      simp only [ScopeAnswer.ofChange, same, depth, enterScope, List.length_cons] at within
      omega
    · rw [perform, outcome]
      exact inside
  | declare name kind line =>
    simp only [perform, declare]
    split
    · exact standing
    · exact standing.declared ⟨name, kind, line⟩
  | get | lookup | contains | currentScope | depth | size | isEmpty => exact standing

theorem StandsIn.met (standing : outer.StandsIn table) {operations : List ScopeOperation}
    (within : ∀ visited ∈ table.met operations, outer.enterScope.depth ≤ visited.depth) :
    ∀ visited ∈ table.met operations, outer.StandsIn visited := by
  induction operations generalizing table with
  | nil =>
    intro visited member
    rw [List.mem_singleton.mp member]
    exact standing
  | cons operation rest ih =>
    obtain ⟨_, later⟩ := List.forall_mem_cons.mp within
    have next := standing.performed operation (later _ (mem_met_self _ rest))
    exact List.forall_mem_cons.mpr ⟨standing, ih next later⟩

/-- After a scope was entered, the table is never less deep than it was then, and in the end it is
as deep again. -/
structure StaysInside (table : SymbolTable) (inner : List ScopeOperation) : Prop where
  within : ∀ visited ∈ table.enterScope.met inner, table.enterScope.depth ≤ visited.depth
  back : (table.enterScope.after inner).depth = table.enterScope.depth

variable {inner : List ScopeOperation}

theorem StaysInside.standing (inside : table.StaysInside inner)
    {before between : List ScopeOperation} (split : inner = before ++ between) :
    table.StandsIn (table.enterScope.after before) := by
  have reached := table.enterScope.after_mem_met before between
  rw [← split] at reached
  exact table.standsIn_entered.met inside.within _ reached

theorem StaysInside.left (inside : table.StaysInside inner) :
    (table.enterScope.after inner).leaveScope = .ok table := by
  have standing := inside.standing (List.append_nil inner).symm
  obtain ⟨left, outcome, ⟨_, same⟩ | ⟨deeper, _⟩⟩ := standing.left
  · rw [outcome, same]
  · have back := inside.back
    omega

theorem StaysInside.leave_done (inside : table.StaysInside inner)
    {before rest : List ScopeOperation} (split : inner ++ [.leave] = before ++ .leave :: rest) :
    ((table.enterScope.after before).perform .leave).1 = .done := by
  have lengths := congrArg List.length split
  simp only [List.length_append, List.length_cons, List.length_nil] at lengths
  have begins : before <+: inner ++ [.leave] := by
    rw [split]
    exact List.prefix_append before _
  have early : before <+: inner :=
    List.prefix_of_prefix_length_le begins (List.prefix_append inner _) (by omega)
  obtain ⟨between, same⟩ := early
  exact (inside.standing same.symm).leave_done

theorem StaysInside.entries_kept (inside : table.StaysInside inner) :
    ∀ visited ∈ table.enterScope.met (inner ++ [.leave]), table.entries <:+ visited.entries := by
  intro visited member
  rcases mem_met_append member with early | late
  · exact (table.standsIn_entered.met inside.within visited early).entries
  · simp only [met, perform, inside.left, ScopeAnswer.ofChange, List.mem_cons, List.not_mem_nil,
      or_false] at late
    rcases late with rfl | rfl
    · exact (inside.standing (List.append_nil inner).symm).entries
    · exact List.suffix_rfl

end SymbolTable

/-- Operations that begin by entering a scope, stay inside it and end by leaving it restore the
table, and every later operation is answered as without them. Each time a scope is left on the way
there is one to leave, and the bindings from before are always there. -/
theorem bracketed_run_restores_table (table : SymbolTable) (inner : List ScopeOperation)
    (inside : table.StaysInside inner) :
    let operations := .enter :: (inner ++ [.leave])
    table.after operations = table ∧
      (∀ later, ScopeOperation.answers SymbolTable.perform table (operations ++ later) =
        ScopeOperation.answers SymbolTable.perform table operations ++
          ScopeOperation.answers SymbolTable.perform table later) ∧
      (∀ before rest, operations = before ++ .leave :: rest →
        ((table.after before).perform .leave).1 = .done) ∧
      ∀ visited ∈ table.met operations, table.entries <:+ visited.entries := by
  intro operations
  have whole : table.after operations = table := by
    have parted : table.after operations = (table.enterScope.after inner).after [.leave] :=
      table.enterScope.after_append inner [.leave]
    rw [parted]
    simp only [SymbolTable.after, SymbolTable.perform, inside.left, ScopeAnswer.ofChange]
  refine ⟨whole, ?_, ?_, ?_⟩
  · intro later
    rw [SymbolTable.answers_append, whole]
  · intro before rest split
    cases before with
    | nil => exact ScopeOperation.noConfusion (List.cons.inj split).1
    | cons first before =>
      obtain ⟨rfl, others⟩ := List.cons.inj split
      exact inside.leave_done others
  · exact List.forall_mem_cons.mpr ⟨List.suffix_rfl, inside.entries_kept⟩

def hidingRun : List ScopeOperation :=
  [.declare "x" .procedure 2, .declare "x" .const 3, .enter, .declare "x" .const 4, .lookup "x",
    .leave, .currentScope]

theorem variable_found_after_hiding_run :
    let table : SymbolTable := ⟨[⟨"x", .var, 1⟩], []⟩
    table.StaysInside hidingRun ∧ table.after (.enter :: (hidingRun ++ [.leave])) = table ∧
      ScopeOperation.answers SymbolTable.perform table
          (.enter :: (hidingRun ++ [.leave]) ++ [.get "x"]) =
        [.done, .done, .failed (.violation .doubleDeclaration 3 (some "x")), .done, .done,
          .kind (some .const), .done, .symbols [⟨"x", .procedure, 2⟩], .done,
          .symbol (some ⟨"x", .var, 1⟩)] := by
  intro table
  have inside : table.StaysInside hidingRun := ⟨by decide, by decide⟩
  obtain ⟨restored, unseen, _⟩ := bracketed_run_restores_table table hidingRun inside
  refine ⟨inside, restored, ?_⟩
  rw [unseen]
  decide

end PlZero
