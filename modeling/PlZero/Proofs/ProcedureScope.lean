import PlZero.Proofs.Marks
import PlZero.Proofs.Scoping
import PlZero.Proofs.Shape

/-!
# Procedures in scope

A tree does not tell which variables there were, but the scopes do: at every point of
a derivation that is in order, the names that stand for procedures are among those of
the procedures around that point and before it. So a call goes to one of these. In one
block no two procedures have the same name, because both are declared in its scope.
-/

namespace PlZero

set_option autoImplicit false

namespace Mark

def IsFlat : Mark → Prop
  | plain _ | use .. => True
  | _ => False

def IsData : Mark → Prop
  | plain _ | use .. | declare .var .. | declare .const .. => True
  | _ => False

theorem flat_ordinary : Ordinary IsFlat := ⟨fun _ _ => trivial, fun _ _ _ => trivial⟩

theorem data_ordinary : Ordinary IsData := ⟨fun _ _ => trivial, fun _ _ _ => trivial⟩

end Mark

namespace Scopes

variable {outer : String → Option SymbolKind}

def ProceduresAmong (outer : String → Option SymbolKind) (scopes : Scopes)
    (known : List String) : Prop :=
  ∀ name, lookup? outer scopes name = some .procedure → name ∈ known

theorem procedure_of_allowed {scopes : Scopes} {name : String}
    (allowed : Allows outer scopes .procedure name) :
    lookup? outer scopes name = some .procedure := by
  unfold Allows at allowed
  cases found : lookup? outer scopes name with
  | none =>
    rw [found] at allowed
    cases allowed
  | some kind =>
    rw [found] at allowed
    cases kind <;> cases allowed
    rfl

theorem ProceduresAmong.declared {scope : List Symbol} {around : Scopes} {known : List String}
    (among : ProceduresAmong outer (scope :: around) known) (name : String) (line : Nat) :
    ProceduresAmong outer ((⟨name, .procedure, line⟩ :: scope) :: around) (name :: known) := by
  intro other found
  rw [lookup?_declared] at found
  by_cases same : name = other
  · exact List.mem_cons.mpr (.inl same.symm)
  · rw [if_neg same] at found
    exact List.mem_cons_of_mem _ (among other found)

theorem ProceduresAmong.dataDeclared {scope : List Symbol} {around : Scopes} {known : List String}
    (among : ProceduresAmong outer (scope :: around) known) {kind : SymbolKind}
    (isData : kind ≠ .procedure) (name : String) (line : Nat) :
    ProceduresAmong outer ((⟨name, kind, line⟩ :: scope) :: around) known := by
  intro other found
  rw [lookup?_declared] at found
  by_cases same : name = other
  · rw [if_pos same] at found
    exact (isData (Option.some.inj found)).elim
  · rw [if_neg same] at found
    exact among other found

/-- Flat marks leave the scopes as they are, and each use among them is allowed there. -/
theorem clean_flat {scopes last : Scopes} {marks : List Mark} (flat : MadeOf Mark.IsFlat marks)
    (clean : pass outer scopes marks = .ok last) :
    last = scopes ∧ ∀ usage name line, .use usage name line ∈ marks →
      Allows outer scopes usage name := by
  induction marks with
  | nil =>
    cases clean
    exact ⟨rfl, fun _ _ _ member => by cases member⟩
  | cons mark marks ih =>
    obtain ⟨one, others⟩ := madeOf_cons.mp flat
    obtain ⟨inOrder, further⟩ := clean_cons clean
    have kept : scopes.after mark = scopes := by
      cases mark <;> first | rfl | exact one.elim
    rw [kept] at further
    obtain ⟨same, allowed⟩ := ih others further
    refine ⟨same, fun usage name line member => ?_⟩
    rcases List.mem_cons.mp member with rfl | later
    · exact allows_of_use inOrder
    · exact allowed usage name line later

/-- Declarations of variables and constants add to the innermost scope, and no procedures. -/
theorem clean_data {scope : List Symbol} {around last : Scopes} {marks : List Mark}
    {known : List String} (isData : MadeOf Mark.IsData marks)
    (among : ProceduresAmong outer (scope :: around) known)
    (clean : pass outer (scope :: around) marks = .ok last) :
    ∃ grown, last = grown :: around ∧ ProceduresAmong outer (grown :: around) known := by
  induction marks generalizing scope with
  | nil =>
    cases clean
    exact ⟨scope, rfl, among⟩
  | cons mark marks ih =>
    obtain ⟨one, others⟩ := madeOf_cons.mp isData
    obtain ⟨_, further⟩ := clean_cons clean
    cases mark with
    | plain located | use usage name line => exact ih others among further
    | declare kind name line =>
      have data : kind ≠ .procedure := by
        rintro rfl
        exact one
      exact ih others (among.dataDeclared data name line) further
    | enter | leave => exact one.elim

end Scopes

section Calls

theorem Statement.calls_sequence (statements : List Statement) :
    (sequence statements).calls = statements.flatMap calls := by
  induction statements using sequence.induct with
  | case1 => rfl
  | case2 last => simp [sequence]
  | case3 first next rest ih => simp [sequence, calls, ih]

/-- Each name that a statement calls is used as a procedure in its derivation. -/
theorem statement_calls (height : Nat) : ∀ marks statement, IsStatement height marks statement →
    ∀ name ∈ statement.calls, ∃ line, .use .procedure name line ∈ marks := by
  induction height with
  | zero => exact fun _ _ derived => derived.elim
  | succ height ih =>
    intro marks statement derived name member
    cases derived with
    | call text line called nameLine =>
      obtain rfl := List.mem_singleton.mp member
      exact ⟨nameLine, by simp⟩
    | group text line endText endLine one more =>
      rw [Statement.calls_sequence, List.flatMap_cons, List.mem_append] at member
      rcases member with early | late
      · obtain ⟨usedLine, used⟩ := ih _ _ one name early
        exact ⟨usedLine, by simp [used]⟩
      · obtain ⟨other, inside, called⟩ := List.mem_flatMap.mp late
        obtain ⟨part, derived, within⟩ := repeated_parts more other inside
        cases derived with
        | mk separator one =>
          obtain ⟨usedLine, used⟩ := ih _ _ one name called
          have further := within (List.mem_cons_of_mem _ used)
          exact ⟨usedLine, by simp [further]⟩
    | ifThen text line thenText thenLine test one | whileDo text line doText doLine test one =>
      obtain ⟨usedLine, used⟩ := ih _ _ one name member
      exact ⟨usedLine, by simp [used]⟩
    | empty | assign | read | print | pass => cases member

end Calls

/-- A production leaves the scopes as they were where it is in order, and what it derives goes with
the procedures that are known. -/
def Grammar.GoesWith {α : Type} (grammar : Grammar α) (outer : String → Option SymbolKind)
    (fits : List String → α → Prop) : Prop :=
  ∀ marks value scopes last known, grammar marks value → Scopes.ProceduresAmong outer scopes known →
    Scopes.pass outer scopes marks = .ok last → last = scopes ∧ fits known value

variable {outer : String → Option SymbolKind}

theorem statement_goesWith (height : Nat) :
    (IsStatement height).GoesWith outer fun known final => ∀ name ∈ final.calls, name ∈ known := by
  intro marks final scopes last known derived among clean
  have flat := statement_consistsOf Mark.flat_ordinary height marks final derived
  obtain ⟨same, allowed⟩ := Scopes.clean_flat flat clean
  refine ⟨same, fun name member => ?_⟩
  obtain ⟨line, used⟩ := statement_calls height marks final derived name member
  exact among name (Scopes.procedure_of_allowed (allowed .procedure name line used))

/-- Calls only go to known procedures, and no block has two procedures of one name. -/
structure Block.IsScoped (known : List String) (block : Block) : Prop where
  calls : block.CallsDeclared known
  distinct : block.HasDistinctProcedures

theorem procedures_goWith {inner : Grammar Block} {statement : Grammar Statement}
    (inside : inner.GoesWith outer Block.IsScoped)
    (ended : statement.GoesWith outer fun known final => ∀ name ∈ final.calls, name ∈ known)
    {procedures marks : List Mark} {declared : List (String × Block)} {final : Statement}
    (third : Repeated (IsProcedure inner) procedures declared) (one : statement marks final)
    {scope : List Symbol} {around last : Scopes} {known : List String}
    (among : Scopes.ProceduresAmong outer (scope :: around) known)
    (clean : Scopes.pass outer (scope :: around) (procedures ++ marks) = .ok last) :
    last.tail = around ∧ (Block.ofProcedures declared final).IsScoped known ∧
      ∀ name ∈ declared.map Prod.fst, name ∉ scope.map Symbol.name := by
  induction third generalizing scope known with
  | none =>
    obtain ⟨rfl, calls⟩ := ended _ _ _ _ _ one among clean
    exact ⟨rfl, ⟨calls, trivial⟩, fun name member => by cases member⟩
  | @more _ _ _ values first others ih =>
    cases first with
    | mk text line name nameLine opening closing derived =>
      simp only [List.append_assoc, List.cons_append, List.nil_append, Scopes.pass_keyword]
        at clean
      obtain ⟨unbound, further⟩ := Scopes.clean_cons clean
      have further : Scopes.pass outer ((⟨name, .procedure, nameLine⟩ :: scope) :: around) _ =
          .ok last := further
      rw [Scopes.pass_symbol] at further
      obtain ⟨middle, bodyClean, restClean⟩ := Scopes.clean_append further
      have grown := among.declared name nameLine
      obtain ⟨rfl, body⟩ := inside _ _ _ _ _ derived grown bodyClean
      obtain ⟨closed, rest, restFresh⟩ := ih grown restClean
      have fresh := Scopes.fresh_of_declare unbound
      simp only [List.map_cons, List.mem_cons, not_or] at restFresh
      have once : name ∉ (Block.ofProcedures values final).procedures.map Prod.fst := by
        rw [Block.procedures_ofProcedures]
        exact fun member => (restFresh name member).1 rfl
      have isScoped : (Block.ofProcedures ((name, _) :: values) final).IsScoped known :=
        ⟨⟨body.calls, rest.calls⟩, once, body.distinct, rest.distinct⟩
      refine ⟨closed, isScoped, ?_⟩
      exact List.forall_mem_cons.mpr ⟨fresh, fun other member => (restFresh other member).2⟩

theorem block_goesWith (height : Nat) : (IsBlock height).GoesWith outer Block.IsScoped := by
  induction height with
  | zero => exact fun _ _ _ _ _ derived => derived.elim
  | succ height inside =>
    intro marks block scopes last known derived among clean
    obtain ⟨first, second, third, one⟩ := derived
    obtain ⟨inner, inOrder, rfl⟩ := Scopes.clean_bordered clean
    have firstMarks := declarationPart_consistsOf Mark.data_ordinary .varKw
      (variable_consistsOf fun _ _ => trivial) _ _ first
    have secondMarks := declarationPart_consistsOf Mark.data_ordinary .constKw
      (constant_consistsOf Mark.data_ordinary fun _ _ => trivial) _ _ second
    obtain ⟨_, ofVariables, inOrder⟩ := Scopes.clean_append inOrder
    obtain ⟨_, rfl, among⟩ := Scopes.clean_data firstMarks among ofVariables
    obtain ⟨_, ofConstants, inOrder⟩ := Scopes.clean_append inOrder
    obtain ⟨_, rfl, among⟩ := Scopes.clean_data secondMarks among ofConstants
    obtain ⟨closed, isScoped, _⟩ :=
      procedures_goWith inside (statement_goesWith height) third one among inOrder
    exact ⟨closed, isScoped⟩

end PlZero
