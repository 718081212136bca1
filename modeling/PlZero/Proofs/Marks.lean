import PlZero.Proofs.Grammar

/-!
# What derivations are made of

The marks of a derivation are of a few kinds only. Statements and expressions are
tokens and uses of names; declarations and borders come with blocks. The period is not
among the tokens. What holds of these kinds of marks holds of every mark of a
derivation, and what a repetition derives is derived in parts.
-/

namespace PlZero

set_option autoImplicit false

variable {α : Type} {good : Mark → Prop}

def MadeOf (good : Mark → Prop) (marks : List Mark) : Prop := ∀ mark ∈ marks, good mark

@[simp] theorem madeOf_nil : MadeOf good [] := by simp [MadeOf]

@[simp] theorem madeOf_cons {mark : Mark} {marks : List Mark} :
    MadeOf good (mark :: marks) ↔ good mark ∧ MadeOf good marks := List.forall_mem_cons

@[simp] theorem madeOf_append {first second : List Mark} :
    MadeOf good (first ++ second) ↔ MadeOf good first ∧ MadeOf good second :=
  List.forall_mem_append

def Grammar.ConsistsOf (grammar : Grammar α) (good : Mark → Prop) : Prop :=
  ∀ marks value, grammar marks value → MadeOf good marks

structure Ordinary (good : Mark → Prop) : Prop where
  plain : ∀ located, located.token ≠ .symbol '.' → good (.plain located)
  use : ∀ usage name line, good (.use usage name line)

theorem Ordinary.keyword (ordinary : Ordinary good) (keyword : Keyword) (text : String)
    (line : Nat) : good (.keyword keyword text line) :=
  ordinary.plain _ fun period => by cases period

theorem Ordinary.symbol (ordinary : Ordinary good) {char : Char} (other : char ≠ '.')
    (line : Nat) : good (.symbol char line) :=
  ordinary.plain _ fun period => other (Token.symbol.inj period)

theorem repeated_consistsOf {item : Grammar α} (each : item.ConsistsOf good) :
    (Repeated item).ConsistsOf good := by
  intro marks values derived
  induction derived with
  | none => exact madeOf_nil
  | more one others ih => exact madeOf_append.mpr ⟨each _ _ one, ih⟩

theorem repeated_parts {item : Grammar α} {marks : List Mark} {values : List α}
    (derived : Repeated item marks values) :
    ∀ value ∈ values, ∃ part, item part value ∧ part ⊆ marks := by
  induction derived with
  | none => exact fun value member => by cases member
  | @more first rest value values one others ih =>
    intro other member
    rcases List.mem_cons.mp member with rfl | later
    · exact ⟨first, one, List.subset_append_left first rest⟩
    · obtain ⟨part, derived, within⟩ := ih other later
      exact ⟨part, derived, List.subset_append_of_subset_right first within⟩

/-- What operations keep, one applied after the other, holds after all of them. -/
theorem applyAll_keeps {kept : Expression → Prop} {left : Expression}
    {operations : List (ArithmeticOperator × Expression)} (begun : kept left)
    (each : ∀ operation ∈ operations, ∀ before, kept before →
      kept (.arithmetic operation.1 before operation.2)) :
    kept (Parser.applyAll left operations) := by
  induction operations generalizing left with
  | nil => exact begun
  | cons operation operations ih =>
    obtain ⟨own, others⟩ := List.forall_mem_cons.mp each
    exact ih (own left begun) others

theorem led_consistsOf {item : Grammar α} {char : Char} (ordinary : Ordinary good)
    (other : char ≠ '.') (each : item.ConsistsOf good) : (Led char item).ConsistsOf good := by
  intro marks value derived
  cases derived with
  | mk line one => exact madeOf_cons.mpr ⟨ordinary.symbol other line, each _ _ one⟩

section Expressions

variable {inner : Grammar Expression}

theorem factor_consistsOf (ordinary : Ordinary good) (inside : inner.ConsistsOf good) :
    (IsFactor inner).ConsistsOf good := by
  intro marks value derived
  cases derived with
  | name name line => simp [ordinary.use]
  | number value line => simp [ordinary.plain]
  | bracketed opening closing one => simp [ordinary.symbol, inside _ _ one]

theorem operation_consistsOf (ordinary : Ordinary good) (additive : Bool)
    (inside : inner.ConsistsOf good) : (IsOperation additive inner).ConsistsOf good := by
  intro marks value derived
  cases derived with
  | mk operator line rank one =>
    have other : operator.char ≠ '.' := by cases operator <;> decide
    exact madeOf_cons.mpr ⟨ordinary.symbol other line, inside _ _ one⟩

theorem term_consistsOf (ordinary : Ordinary good) (inside : inner.ConsistsOf good) :
    (IsTerm inner).ConsistsOf good := by
  have factors := factor_consistsOf ordinary inside
  intro marks value derived
  cases derived with
  | mk one more =>
    have operations := repeated_consistsOf (operation_consistsOf ordinary false factors)
    exact madeOf_append.mpr ⟨factors _ _ one, operations _ _ more⟩

theorem expression_consistsOf (ordinary : Ordinary good) (height : Nat) :
    (IsExpression height).ConsistsOf good := by
  induction height with
  | zero => exact fun _ _ derived => derived.elim
  | succ height inside =>
    have terms := term_consistsOf ordinary inside
    have operations := repeated_consistsOf (operation_consistsOf ordinary true terms)
    intro marks value derived
    cases derived with
    | plain one more =>
      exact madeOf_append.mpr ⟨terms _ _ one, operations _ _ more⟩
    | signed line one more =>
      refine madeOf_cons.mpr ⟨ordinary.symbol (by decide) line, ?_⟩
      exact madeOf_append.mpr ⟨terms _ _ one, operations _ _ more⟩

theorem condition_consistsOf (ordinary : Ordinary good) (inside : inner.ConsistsOf good) :
    (IsCondition inner).ConsistsOf good := by
  intro marks value derived
  cases derived with
  | odd text line one =>
    exact madeOf_cons.mpr ⟨ordinary.keyword .oddKw text line, inside _ _ one⟩
  | relation stands one other =>
    refine madeOf_append.mpr ⟨inside _ _ one, ?_⟩
    refine madeOf_cons.mpr ⟨ordinary.plain _ ?_, inside _ _ other⟩
    intro period
    rw [period] at stands
    cases stands

end Expressions

theorem statement_consistsOf (ordinary : Ordinary good) (height : Nat) :
    (IsStatement height).ConsistsOf good := by
  induction height with
  | zero => exact fun _ _ derived => derived.elim
  | succ height inside =>
    have values := expression_consistsOf ordinary height
    intro marks value derived
    cases derived with
    | empty => exact madeOf_nil
    | assign name line equals one =>
      simp [ordinary.use, ordinary.symbol, values _ _ one]
    | call text line name nameLine => simp [ordinary.keyword, ordinary.use]
    | read text line name nameLine => simp [ordinary.keyword, ordinary.use]
    | print text line one => simp [ordinary.keyword, values _ _ one]
    | group text line endText endLine one more =>
      have others := repeated_consistsOf (led_consistsOf ordinary (by decide : ';' ≠ '.') inside)
      simp [ordinary.keyword, inside _ _ one, others _ _ more]
    | ifThen text line thenText thenLine test one | whileDo text line doText doLine test one =>
      have guards := condition_consistsOf ordinary values
      simp [ordinary.keyword, guards _ _ test, inside _ _ one]
    | pass text line => simp [ordinary.keyword]

section Blocks

theorem declarationPart_consistsOf (ordinary : Ordinary good) (keyword : Keyword)
    {item : Grammar Unit} (each : item.ConsistsOf good) :
    (IsDeclarationPart keyword item).ConsistsOf good := by
  intro marks value derived
  cases derived with
  | absent => exact madeOf_nil
  | present text line closing one more =>
    have others := repeated_consistsOf (led_consistsOf ordinary (by decide : ',' ≠ '.') each)
    simp [ordinary.keyword, ordinary.symbol, each _ _ one, others _ _ more]

theorem variable_consistsOf (declared : ∀ name line, good (.declare .var name line)) :
    IsVariable.ConsistsOf good := by
  intro marks value derived
  cases derived with
  | mk name line => simp [declared]

theorem constant_consistsOf (ordinary : Ordinary good)
    (declared : ∀ name line, good (.declare .const name line)) : IsConstant.ConsistsOf good := by
  intro marks value derived
  cases derived with
  | mk name line equals number numberLine => simp [ordinary.symbol, ordinary.plain, declared]

theorem procedure_consistsOf {inner : Grammar Block} (ordinary : Ordinary good)
    (declared : ∀ name line, good (.declare .procedure name line))
    (inside : inner.ConsistsOf good) : (IsProcedure inner).ConsistsOf good := by
  intro marks value derived
  cases derived with
  | mk text line name nameLine opening closing one =>
    simp [ordinary.keyword, ordinary.symbol, declared, inside _ _ one]

theorem block_consistsOf (ordinary : Ordinary good)
    (declared : ∀ kind name line, good (.declare kind name line)) (enter : good .enter)
    (leave : good .leave) (height : Nat) : (IsBlock height).ConsistsOf good := by
  induction height with
  | zero => exact fun _ _ derived => derived.elim
  | succ height inside =>
    have firstMarks :=
      declarationPart_consistsOf ordinary .varKw (variable_consistsOf (declared .var))
    have secondMarks :=
      declarationPart_consistsOf ordinary .constKw (constant_consistsOf ordinary (declared .const))
    have thirdMarks :=
      repeated_consistsOf (procedure_consistsOf ordinary (declared .procedure) inside)
    intro marks value derived
    obtain ⟨first, second, third, last⟩ := derived
    simp [enter, leave, firstMarks _ _ first, secondMarks _ _ second,
      thirdMarks _ _ third, statement_consistsOf ordinary height _ _ last]

end Blocks

end PlZero
