import PlZero.Proofs.Lexical
import PlZero.Proofs.Marks

/-!
# Derived trees are formed

Over tokens that can be written, the grammar derives only trees of the shape that its
productions show: tests where conditions belong and arithmetic elsewhere, numbers that
are not negative, and names that are names.
-/

namespace PlZero

set_option autoImplicit false

variable {α : Type}

def Mark.IsLexical (mark : Mark) : Prop := AreLexical mark.tokens

theorem madeOf_lexical {marks : List Mark} (lexical : AreLexical (tokensOf marks)) :
    MadeOf Mark.IsLexical marks :=
  fun mark member located own => lexical located (List.mem_flatMap.mpr ⟨mark, member, own⟩)

theorem Mark.isName_of_use {usage : Usage} {name : String} {line : Nat}
    (lexical : (Mark.use usage name line).IsLexical) : IsName name :=
  isName_of_lexical (lexical _ List.mem_cons_self)

theorem Mark.isName_of_declare {kind : SymbolKind} {name : String} {line : Nat}
    (lexical : (Mark.declare kind name line).IsLexical) : IsName name :=
  isName_of_lexical (lexical _ List.mem_cons_self)

/-- All that is derived over tokens that can be written has some form. -/
def Grammar.Forms (grammar : Grammar α) (formed : α → Prop) : Prop :=
  ∀ marks value, grammar marks value → MadeOf Mark.IsLexical marks → formed value

theorem repeated_forms {item : Grammar α} {formed : α → Prop} (each : item.Forms formed) :
    (Repeated item).Forms fun values => ∀ value ∈ values, formed value := by
  intro marks values derived lexical
  induction derived with
  | none => exact fun value member => by cases member
  | more one others ih =>
    obtain ⟨early, late⟩ := madeOf_append.mp lexical
    exact List.forall_mem_cons.mpr ⟨each _ _ one early, ih late⟩

theorem led_forms {item : Grammar α} {formed : α → Prop} (char : Char)
    (each : item.Forms formed) : (Led char item).Forms formed := by
  intro marks value derived lexical
  cases derived with
  | mk line one => exact each _ _ one (madeOf_cons.mp lexical).2

section Expressions

variable {inner : Grammar Expression}

theorem factor_forms (inside : inner.Forms Expression.IsArithmetic) :
    (IsFactor inner).Forms Expression.IsArithmetic := by
  intro marks value derived lexical
  cases derived with
  | name name line => exact Mark.isName_of_use (madeOf_cons.mp lexical).1
  | number value line => exact (madeOf_cons.mp lexical).1 _ List.mem_cons_self
  | bracketed opening closing one =>
    exact inside _ _ one (madeOf_append.mp (madeOf_cons.mp lexical).2).1

theorem operation_forms (additive : Bool) (inside : inner.Forms Expression.IsArithmetic) :
    (IsOperation additive inner).Forms fun operation => operation.2.IsArithmetic := by
  intro marks value derived lexical
  cases derived with
  | mk operator line rank one => exact inside _ _ one (madeOf_cons.mp lexical).2

theorem applyAll_isArithmetic {left : Expression}
    {operations : List (ArithmeticOperator × Expression)} (one : left.IsArithmetic)
    (each : ∀ operation ∈ operations, operation.2.IsArithmetic) :
    (Parser.applyAll left operations).IsArithmetic :=
  applyAll_keeps one fun operation member _ before => ⟨before, each operation member⟩

theorem term_forms (inside : inner.Forms Expression.IsArithmetic) :
    (IsTerm inner).Forms Expression.IsArithmetic := by
  have factors := factor_forms inside
  intro marks value derived lexical
  cases derived with
  | mk one more =>
    obtain ⟨early, late⟩ := madeOf_append.mp lexical
    have operations := repeated_forms (operation_forms false factors) _ _ more late
    exact applyAll_isArithmetic (factors _ _ one early) operations

theorem expression_forms (height : Nat) :
    (IsExpression height).Forms Expression.IsArithmetic := by
  induction height with
  | zero => exact fun _ _ derived => derived.elim
  | succ height inside =>
    have terms := term_forms inside
    have further := repeated_forms (operation_forms true terms)
    intro marks value derived lexical
    cases derived with
    | plain one more =>
      obtain ⟨early, late⟩ := madeOf_append.mp lexical
      exact applyAll_isArithmetic (terms _ _ one early) (further _ _ more late)
    | @signed _ _ left _ line one more =>
      obtain ⟨early, late⟩ := madeOf_append.mp (madeOf_cons.mp lexical).2
      have unsigned : left.IsArithmetic := terms _ _ one early
      have negated : left.negate.IsArithmetic := unsigned
      exact applyAll_isArithmetic negated (further _ _ more late)

theorem condition_forms (inside : inner.Forms Expression.IsArithmetic) :
    (IsCondition inner).Forms Expression.IsTest := by
  intro marks value derived lexical
  cases derived with
  | odd text line one => exact inside _ _ one (madeOf_cons.mp lexical).2
  | relation stands one other =>
    obtain ⟨early, late⟩ := madeOf_append.mp lexical
    exact ⟨inside _ _ one early, inside _ _ other (madeOf_cons.mp late).2⟩

end Expressions

theorem Statement.sequence_isFormed {statements : List Statement}
    (each : ∀ statement ∈ statements, statement.IsFormed) : (sequence statements).IsFormed := by
  induction statements using sequence.induct with
  | case1 => trivial
  | case2 last => exact each last List.mem_cons_self
  | case3 first next rest ih =>
    obtain ⟨one, others⟩ := List.forall_mem_cons.mp each
    exact ⟨one, ih others⟩

theorem statement_forms (height : Nat) : (IsStatement height).Forms Statement.IsFormed := by
  induction height with
  | zero => exact fun _ _ derived => derived.elim
  | succ height inside =>
    have values := expression_forms height
    intro marks value derived lexical
    cases derived with
    | empty => trivial
    | assign name line equals one =>
      obtain ⟨target, late⟩ := madeOf_cons.mp lexical
      exact ⟨Mark.isName_of_use target, values _ _ one (madeOf_cons.mp late).2⟩
    | call text line name nameLine | read text line name nameLine =>
      exact Mark.isName_of_use (madeOf_cons.mp (madeOf_cons.mp lexical).2).1
    | print text line one => exact values _ _ one (madeOf_cons.mp lexical).2
    | group text line endText endLine one more =>
      obtain ⟨early, late⟩ := madeOf_append.mp (madeOf_cons.mp lexical).2
      apply Statement.sequence_isFormed
      refine List.forall_mem_cons.mpr ⟨inside _ _ one early, ?_⟩
      exact repeated_forms (led_forms ';' inside) _ _ more (madeOf_append.mp late).1
    | ifThen text line thenText thenLine test one | whileDo text line doText doLine test one =>
      obtain ⟨early, late⟩ := madeOf_append.mp (madeOf_cons.mp lexical).2
      exact ⟨condition_forms values _ _ test early, inside _ _ one (madeOf_cons.mp late).2⟩
    | pass text line => trivial

theorem procedure_forms {inner : Grammar Block} (inside : inner.Forms Block.IsFormed) :
    (IsProcedure inner).Forms fun declared => IsName declared.1 ∧ declared.2.IsFormed := by
  intro marks value derived lexical
  cases derived with
  | mk text line name nameLine opening closing one =>
    simp only [madeOf_cons, madeOf_append] at lexical
    obtain ⟨_, named, _, body, _⟩ := lexical
    exact ⟨Mark.isName_of_declare named, inside _ _ one body⟩

theorem Block.ofProcedures_isFormed {procedures : List (String × Block)} {final : Statement}
    (each : ∀ declared ∈ procedures, IsName declared.1 ∧ declared.2.IsFormed)
    (last : final.IsFormed) : (ofProcedures procedures final).IsFormed := by
  induction procedures with
  | nil => exact last
  | cons declared procedures ih =>
    obtain ⟨one, others⟩ := List.forall_mem_cons.mp each
    exact ⟨one.1, one.2, ih others⟩

/-- A block that is derived over tokens that can be written is formed. -/
theorem block_forms (height : Nat) : (IsBlock height).Forms Block.IsFormed := by
  induction height with
  | zero => exact fun _ _ derived => derived.elim
  | succ height inside =>
    intro marks value derived lexical
    obtain ⟨first, second, third, last⟩ := derived
    simp only [madeOf_cons, madeOf_append] at lexical
    obtain ⟨_, ⟨_, _, procedures, final⟩, _⟩ := lexical
    exact Block.ofProcedures_isFormed (repeated_forms (procedure_forms inside) _ _ third procedures)
      (statement_forms height _ _ last final)

end PlZero
