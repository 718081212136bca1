import PlZero.Proofs.Rendering.Derivation
import PlZero.Proofs.Scoping

/-!
# Written names are in order

The pass over the names of a written tree meets nothing. On the way into a block the
variables keep their one declaration, because no procedure has the name of a
variable, and each procedure that may be called keeps a binding as a procedure,
because what hides it is a procedure as well.
-/

namespace PlZero

set_option autoImplicit false

section Trees

variable {outer : String → Option SymbolKind} {scopes : Scopes}

theorem Expression.pass_marks (expression : Expression)
    (known : ∀ name ∈ expression.names, Scopes.Allows outer scopes .integer name) :
    Scopes.pass outer scopes expression.marks = .ok scopes := by
  induction expression with
  | number value => rfl
  | identifier name => exact Scopes.pass_use (known name (by simp [names])) 0 []
  | arithmetic operator left right ihLeft ihRight | relation comparison left right ihLeft ihRight =>
    simp only [names, List.mem_append] at known
    have first := ihLeft fun name member => known name (.inl member)
    have second := ihRight fun name member => known name (.inr member)
    simp [marks, Scopes.pass_append, first, second]
  | negate operand ih | odd operand ih =>
    have inside := ih known
    simp [marks, Scopes.pass_append, inside]

theorem Statement.pass_marks (statement : Statement)
    (known : ∀ name ∈ statement.usedNames, Scopes.Allows outer scopes .integer name)
    (callable : ∀ name ∈ statement.calls, Scopes.Allows outer scopes .procedure name) :
    Scopes.pass outer scopes statement.marks = .ok scopes := by
  induction statement with
  | ifThen condition body ih | whileDo condition body ih =>
    simp only [usedNames, List.mem_append] at known
    have test := condition.pass_marks fun name member => known name (.inl member)
    have inside := ih (fun name member => known name (.inr member)) callable
    simp [marks, Scopes.pass_append, test, inside]
  | assign name value =>
    simp only [usedNames, List.mem_cons] at known
    have assigned := value.pass_marks fun name member => known name (.inr member)
    rw [marks, Scopes.pass_use (known name (.inl rfl)), Scopes.pass_symbol, assigned]
  | pair first second ihFirst ihSecond =>
    simp only [usedNames, calls, List.mem_append] at known callable
    have early := ihFirst (fun name member => known name (.inl member))
      fun name member => callable name (.inl member)
    have late := ihSecond (fun name member => known name (.inr member))
      fun name member => callable name (.inr member)
    simp [marks, Scopes.pass_append, early, late]
  | call name =>
    rw [marks, Scopes.pass_keyword, Scopes.pass_use (callable name (by simp [calls])),
      Scopes.pass_nil]
  | read name =>
    rw [marks, Scopes.pass_keyword, Scopes.pass_use (known name (by simp [usedNames])),
      Scopes.pass_nil]
  | print value =>
    have printed := value.pass_marks known
    simp [marks, printed]
  | pass => rfl

end Trees

namespace Block

variable {outer : String → Option SymbolKind}

/-- In these scopes a block finds its variables and the procedures that are declared around it. -/
structure Fits (outer : String → Option SymbolKind) (block : Block) (declared : List String)
    (scopes : Scopes) : Prop where
  known : ∀ name ∈ block.usedNames, Scopes.Allows outer scopes .integer name
  callable : ∀ name ∈ declared, Scopes.Allows outer scopes .procedure name

/-- Declaring one more procedure, which is no variable, keeps what a block needs. -/
theorem Fits.declared {block : Block} {names : List String} {scope : List Symbol} {around : Scopes}
    (fits : block.Fits outer names (scope :: around)) {name : String}
    (other : name ∉ block.usedNames) (line : Nat) :
    block.Fits outer (name :: names) ((⟨name, .procedure, line⟩ :: scope) :: around) where
  known used member := by
    have different : name ≠ used := fun same => other (same ▸ member)
    rw [Scopes.Allows, Scopes.lookup?_declared, if_neg different]
    exact fits.known used member
  callable called member := by
    rw [Scopes.Allows, Scopes.lookup?_declared]
    by_cases same : name = called
    · rw [if_pos same]
      rfl
    · rw [if_neg same]
      rcases List.mem_cons.mp member with rfl | earlier
      · exact (same rfl).elim
      · exact fits.callable called earlier

theorem Fits.part {block part : Block} {names : List String} {scopes : Scopes}
    (fits : block.Fits outer names scopes) (fewer : part.usedNames ⊆ block.usedNames) :
    part.Fits outer names scopes where
  known name member := fits.known name (fewer member)
  callable := fits.callable

theorem Fits.entered {block : Block} {names : List String} {scopes : Scopes}
    (fits : block.Fits outer names scopes) : block.Fits outer names ([] :: scopes) where
  known := fits.known
  callable := fits.callable

theorem pass_marks {block : Block} {declared : List String} {scope : List Symbol} {around : Scopes}
    (fits : block.Fits outer declared (scope :: around)) (calls : block.CallsDeclared declared)
    (distinct : block.HasDistinctProcedures)
    (disjoint : ∀ name ∈ block.usedNames, name ∉ block.procedureNames)
    (fresh : ∀ name ∈ block.procedures.map Prod.fst, name ∉ scope.map Symbol.name) :
    ∃ last, Scopes.pass outer (scope :: around) block.marks = .ok (last :: around) := by
  induction block generalizing declared scope around with
  | statement final =>
    have callable : ∀ name ∈ final.calls,
        Scopes.Allows outer (scope :: around) .procedure name :=
      fun name member => fits.callable name (calls name member)
    exact ⟨scope, final.pass_marks fits.known callable⟩
  | procedure name body rest ihBody ihRest =>
    simp only [usedNames, procedureNames, List.mem_append, List.mem_cons, not_or] at disjoint
    simp only [procedures, List.map_cons, List.mem_cons, forall_eq_or_imp] at fresh
    have noVariable : name ∉ (procedure name body rest).usedNames := by
      intro member
      exact (disjoint name (List.mem_append.mp member)).1 rfl
    have further := fits.declared noVariable 0
    have bodyFits := (further.part (List.subset_append_left body.usedNames rest.usedNames)).entered
    have restFits := further.part (List.subset_append_right body.usedNames rest.usedNames)
    obtain ⟨inner, bodyPass⟩ := ihBody bodyFits calls.1 distinct.2.1
      (fun used member => (disjoint used (.inl member)).2.1) (fun _ _ => List.not_mem_nil)
    have freshLater : ∀ other ∈ rest.procedures.map Prod.fst,
        other ∉ (⟨name, .procedure, 0⟩ :: scope : List Symbol).map Symbol.name := by
      intro other member
      simp only [List.map_cons, List.mem_cons, not_or]
      exact ⟨fun same => distinct.1 (same ▸ member), fresh.2 other member⟩
    obtain ⟨last, restPass⟩ := ihRest restFits calls.2 distinct.2.2
      (fun used member => (disjoint used (.inr member)).2.2) freshLater
    have bordered : Scopes.pass outer ((⟨name, .procedure, 0⟩ :: scope) :: around)
        (.enter :: (body.marks ++ [.leave])) =
          .ok ((⟨name, .procedure, 0⟩ :: scope) :: around) := by
      rw [Scopes.pass_bordered, bodyPass]
      rfl
    refine ⟨last, Scopes.pass_then ?_ restPass⟩
    rw [Scopes.pass_keyword, Scopes.pass_declare fresh.1, Scopes.pass_symbol]
    exact Scopes.pass_then bordered rfl

theorem procedureNames_of_procedures (block : Block) :
    ∀ name ∈ block.procedures.map Prod.fst, name ∈ block.procedureNames := by
  induction block with
  | statement final => exact fun name member => by cases member
  | procedure name body rest _ ih =>
    intro other member
    rcases List.mem_cons.mp member with rfl | later
    · exact List.mem_cons_self
    · exact List.mem_cons_of_mem _ (List.mem_append_right _ (ih other later))

end Block

section Declarations

variable {outer : String → Option SymbolKind} {scope middle last : List Symbol} {around : Scopes}

/-- Declaring these names as variables leads from one innermost scope to the other: they are usable,
as is all that was, and no other name is bound. -/
structure Binds (outer : String → Option SymbolKind) (around : Scopes) (names : List String)
    (scope last : List Symbol) : Prop where
  usable : ∀ used, used ∈ names ∨ Scopes.Allows outer (scope :: around) .integer used →
    Scopes.Allows outer (last :: around) .integer used
  bound : ∀ name ∈ last.map Symbol.name, name ∈ names ∨ name ∈ scope.map Symbol.name

theorem binds_none (scope : List Symbol) : Binds outer around [] scope scope where
  usable _ given := given.resolve_left List.not_mem_nil
  bound _ := .inr

theorem binds_one (scope : List Symbol) (name : String) (line : Nat) :
    Binds outer around [name] scope (⟨name, .var, line⟩ :: scope) where
  usable used given := by
    rw [Scopes.Allows, Scopes.lookup?_declared]
    by_cases same : name = used
    · rw [if_pos same]
      rfl
    · rw [if_neg same]
      apply given.resolve_left
      intro member
      exact same (List.mem_singleton.mp member).symm
  bound other member := by
    rcases List.mem_cons.mp member with same | before
    · exact .inl (List.mem_singleton.mpr same)
    · exact .inr before

theorem binds_append {first second : List String} (early : Binds outer around first scope middle)
    (late : Binds outer around second middle last) :
    Binds outer around (first ++ second) scope last where
  usable used given := by
    apply late.usable
    rcases given with member | before
    · rcases List.mem_append.mp member with inFirst | inSecond
      · exact .inr (early.usable used (.inl inFirst))
      · exact .inl inSecond
    · exact .inr (early.usable used (.inr before))
  bound name member := by
    rcases late.bound name member with inSecond | inside
    · exact .inl (List.mem_append_right first inSecond)
    · rcases early.bound name inside with inFirst | before
      · exact .inl (List.mem_append_left second inFirst)
      · exact .inr before

theorem pass_further_names (outer : String → Option SymbolKind) (scope : List Symbol)
    (names : List String) (once : names.Nodup) (around : Scopes)
    (fresh : ∀ name ∈ names, name ∉ scope.map Symbol.name) :
    ∃ last, Scopes.pass outer (scope :: around)
        (names.flatMap fun name => [.symbol ',' 0, .declare .var name 0]) = .ok (last :: around) ∧
      Binds outer around names scope last := by
  induction names generalizing scope with
  | nil => exact ⟨scope, rfl, binds_none scope⟩
  | cons name names ih =>
    obtain ⟨notLater, onceLater⟩ := List.nodup_cons.mp once
    obtain ⟨own, others⟩ := List.forall_mem_cons.mp fresh
    obtain ⟨last, passed, binds⟩ := ih _ onceLater (Scopes.fresh_behind notLater others .var 0)
    refine ⟨last, ?_, binds_append (binds_one scope name 0) binds⟩
    rw [List.flatMap_cons]
    simp only [List.cons_append, List.nil_append]
    rw [Scopes.pass_symbol, Scopes.pass_declare own]
    exact passed

/-- A declaration of names, each of them once, binds them as variables and binds no others. -/
theorem pass_declaration (outer : String → Option SymbolKind) (names : List String)
    (once : names.Nodup) (around : Scopes) :
    ∃ last, Scopes.pass outer ([] :: around) (declarationMarks names) = .ok (last :: around) ∧
      Binds outer around names [] last := by
  cases names with
  | nil => exact ⟨[], rfl, binds_none []⟩
  | cons first others =>
    obtain ⟨notLater, onceLater⟩ := List.nodup_cons.mp once
    have freshLater := @Scopes.fresh_behind [] first others notLater
      (fun _ _ => List.not_mem_nil) .var 0
    obtain ⟨last, passed, binds⟩ :=
      pass_further_names outer [⟨first, .var, 0⟩] others onceLater around freshLater
    refine ⟨last, ?_, binds_append (binds_one [] first 0) binds⟩
    rw [declarationMarks, Scopes.pass_keyword, Scopes.pass_declare List.not_mem_nil]
    exact Scopes.pass_then passed rfl

end Declarations

/-- The names of a tree that can be written are in order, with its variables declared once. -/
theorem marks_obey_scoping {block : Block} (renderable : block.IsRenderable)
    {order : List String} (once : order.Nodup)
    (all : ∀ name, name ∈ order ↔ name ∈ block.usedNames)
    (outer : String → Option SymbolKind) :
    ObeysScoping outer (block.programMarks order) := by
  obtain ⟨scope, declared, binds⟩ := pass_declaration outer order once []
  have fits : block.Fits outer [] (scope :: []) := {
    known := fun name member => binds.usable name (.inl ((all name).mpr member))
    callable := fun name member => by cases member }
  have fresh : ∀ name ∈ block.procedures.map Prod.fst, name ∉ scope.map Symbol.name := by
    intro name isProcedure isBound
    have declaredOnce := (binds.bound name isBound).resolve_right List.not_mem_nil
    exact renderable.disjoint name ((all name).mp declaredOnce)
      (block.procedureNames_of_procedures name isProcedure)
  obtain ⟨last, passed⟩ := Block.pass_marks fits renderable.declared renderable.distinct
    renderable.disjoint fresh
  refine obeysScoping_iff_pass.mpr ⟨[], ?_⟩
  rw [Block.programMarks, Scopes.pass_bordered, Scopes.pass_then declared passed]
  rfl

end PlZero
