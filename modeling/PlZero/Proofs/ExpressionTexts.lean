import PlZero.Proofs.Rendering.Reading
import PlZero.Proofs.Shape

/-!
# Expressions are told apart by their texts

Arithmetic is shown with brackets around each operation, a sign in front of its operand and
numbers that are not negative. So the first character tells a sign and an operation from a name
or a number, and what is shown ends where it ends, whatever comes after it, as long as no word
can go on there. A test is shown without brackets, but its comparison stands behind a blank where
arithmetic is over, and `ODD` is no name.
-/

namespace PlZero

set_option autoImplicit false

/-- No word or number that comes before goes on here. -/
def PartsWords (rest : List Char) : Prop := ∀ next ∈ rest.head?, next.isAlphanum = false

theorem partsWords_nil : PartsWords [] := fun _ member => by cases member

theorem partsWords_cons {mark : Char} (other : mark.isAlphanum = false) (rest : List Char) :
    PartsWords (mark :: rest) := by
  rintro next ⟨⟩
  exact other

theorem IsName.isSolid {name : String} (isName : IsName name) : IsSolid name := by
  obtain ⟨first, tail, spelled, letter, others, _⟩ := isName
  exact IsWord.isSolid ⟨first, tail, spelled, letter, others⟩

theorem isSolid_number {value : Int} (natural : 0 ≤ value) : IsSolid (toString value) := by
  obtain ⟨number, rfl⟩ := Int.eq_ofNat_of_zero_le natural
  refine ⟨by rw [toList_toString]; exact Nat.toDigits_ne_nil, ?_⟩
  rw [toList_toString]
  intro char member
  have digit := Nat.isDigit_of_mem_toDigits (by decide) (by decide) member
  rw [Char.isAlphanum, digit, Bool.or_true]

theorem partsWords_blank (rest : List Char) : PartsWords (' ' :: rest) :=
  partsWords_cons (by decide) rest

/-- What is solid ends at the first mark behind it. -/
theorem IsSolid.determined {first second : String} (one : IsSolid first) (other : IsSolid second)
    {rest left : List Char} (parted : PartsWords rest) (alsoParted : PartsWords left)
    (same : first.toList ++ rest = second.toList ++ left) : first = second ∧ rest = left := by
  obtain ⟨chars, behind⟩ :=
    Lexeme.runs_determined one.inside other.inside parted alsoParted same
  exact ⟨String.toList_inj.mp chars, behind⟩

theorem IsSolid.begins {text : String} (solid : IsSolid text) :
    ∃ first tail, text.toList = first :: tail ∧ first.isAlphanum = true := by
  cases spelled : text.toList with
  | nil => exact (solid.nonempty spelled).elim
  | cons first tail =>
    exact ⟨first, tail, rfl, solid.inside first (by rw [spelled]; exact List.mem_cons_self)⟩

theorem IsSolid.not_parting {text : String} (solid : IsSolid text) (rest : List Char) :
    ¬ PartsWords (text.toList ++ rest) := by
  intro parted
  obtain ⟨first, tail, spelled, inside⟩ := solid.begins
  rw [parted first (by rw [spelled]; rfl)] at inside
  cases inside

namespace Expression

def token? : Expression → Option Token
  | number value => some (.number value)
  | identifier name => some (.identifier name)
  | _ => none

theorem eq_of_token? {first second : Expression} {token : Token} (one : first.token? = some token)
    (other : second.token? = some token) : first = second := by
  cases first <;> cases second <;> cases one <;> cases other <;> rfl

theorem keyword?_of_token? {leaf : Expression} {token : Token} (own : leaf.token? = some token) :
    token.keyword? = none := by
  cases leaf <;> cases own <;> rfl

/-- A name or a number is solid and is read back. -/
theorem leaf_reads {leaf : Expression} (arithmetic : leaf.IsArithmetic) {token : Token}
    (own : leaf.token? = some token) :
    IsSolid leaf.text ∧ reading? leaf.text = some token := by
  cases leaf with
  | number value =>
    cases own
    exact ⟨isSolid_number arithmetic.1, reading?_number arithmetic.1 arithmetic.2⟩
  | identifier name =>
    cases own
    exact ⟨IsName.isSolid arithmetic, reading?_name arithmetic⟩
  | _ => cases own

theorem toList_arithmetic (operator : ArithmeticOperator) (left right : Expression) :
    (arithmetic operator left right).text.toList =
      '(' :: (left.text.toList ++ ' ' :: operator.char :: ' ' :: (right.text.toList ++ [')'])) := by
  simp [text]

theorem toList_negate (operand : Expression) :
    (negate operand).text.toList = '-' :: operand.text.toList := by
  simp [text]

/-- A sign and an operation are shown with a mark in front. -/
theorem operation_parts {operation : Expression} (arithmetic : operation.IsArithmetic)
    (inner : operation.token? = none) (rest : List Char) :
    PartsWords (operation.text.toList ++ rest) := by
  cases operation with
  | arithmetic operator left right =>
    rw [toList_arithmetic]
    exact partsWords_cons (by decide) _
  | negate operand =>
    rw [toList_negate]
    exact partsWords_cons (by decide) _
  | number | identifier => cases inner
  | relation | odd => exact arithmetic.elim

/-- The text of a name or a number goes with no other arithmetic, whatever comes behind. -/
theorem leaf_determined {leaf other : Expression} (one : leaf.IsArithmetic)
    (two : other.IsArithmetic) {token : Token} (own : leaf.token? = some token)
    {rest left : List Char} (parted : PartsWords rest) (alsoParted : PartsWords left)
    (same : leaf.text.toList ++ rest = other.text.toList ++ left) :
    leaf = other ∧ rest = left := by
  obtain ⟨solid, reads⟩ := leaf_reads one own
  cases inner : other.token? with
  | none =>
    have parts := operation_parts two inner left
    rw [← same] at parts
    exact (solid.not_parting rest parts).elim
  | some token =>
    obtain ⟨alsoSolid, alsoReads⟩ := leaf_reads two inner
    obtain ⟨texts, behind⟩ := solid.determined alsoSolid parted alsoParted same
    rw [texts, alsoReads] at reads
    cases reads
    exact ⟨eq_of_token? own inner, behind⟩

/-- The text of arithmetic determines it and where it ends, whatever comes behind. -/
theorem arithmetic_determined {first second : Expression} (one : first.IsArithmetic)
    (two : second.IsArithmetic) {rest left : List Char} (parted : PartsWords rest)
    (alsoParted : PartsWords left)
    (same : first.text.toList ++ rest = second.text.toList ++ left) :
    first = second ∧ rest = left := by
  have closing (behind : List Char) : PartsWords (')' :: behind) :=
    partsWords_cons (by decide) behind
  induction first generalizing second rest left with
  | number value => exact leaf_determined one two rfl parted alsoParted same
  | identifier name => exact leaf_determined one two rfl parted alsoParted same
  | relation | odd => exact one.elim
  | negate operand ih =>
    cases second with
    | number | identifier =>
      exact (leaf_determined two one rfl alsoParted parted same.symm).imp Eq.symm Eq.symm
    | relation | odd => exact two.elim
    | arithmetic operator left right =>
      rw [toList_arithmetic, toList_negate] at same
      cases same
    | negate other =>
      rw [toList_negate, toList_negate] at same
      have signed : other.IsArithmetic := two
      obtain ⟨rfl, behind⟩ := ih one signed parted alsoParted (List.cons.inj same).2
      exact ⟨rfl, behind⟩
  | arithmetic operator left right ihLeft ihRight =>
    cases second with
    | number | identifier =>
      exact (leaf_determined two one rfl alsoParted parted same.symm).imp Eq.symm Eq.symm
    | relation | odd => exact two.elim
    | negate other =>
      rw [toList_arithmetic, toList_negate] at same
      cases same
    | arithmetic other first second =>
      simp only [toList_arithmetic, List.cons_append, List.append_assoc, List.cons.injEq,
        true_and] at same
      -- the left operand ends at a blank and the right one at the bracket
      obtain ⟨rfl, afterLeft⟩ := ihLeft one.1 two.1 (partsWords_blank _) (partsWords_blank _) same
      simp only [List.cons.injEq, true_and] at afterLeft
      obtain ⟨chars, afterOperator⟩ := afterLeft
      obtain ⟨rfl, afterRight⟩ := ihRight one.2 two.2 (closing _) (closing _) afterOperator
      have operators : some operator = some other := by
        rw [← ArithmeticOperator.ofChar?_char operator, chars, ArithmeticOperator.ofChar?_char]
      cases operators
      exact ⟨rfl, (List.cons.inj afterRight).2⟩

theorem arithmetic_of_chars {first second : Expression} (one : first.IsArithmetic)
    (two : second.IsArithmetic) (same : first.text.toList = second.text.toList) :
    first = second := by
  have chars : first.text.toList ++ [] = second.text.toList ++ [] := by rw [same]
  exact (arithmetic_determined one two partsWords_nil partsWords_nil chars).1

theorem toList_relation (comparison : Comparison) (left right : Expression) :
    (relation comparison left right).text.toList =
      left.text.toList ++ ' ' :: (comparison.text.toList ++ ' ' :: right.text.toList) := by
  simp [text]

theorem toList_odd (operand : Expression) :
    (odd operand).text.toList = "ODD".toList ++ ' ' :: operand.text.toList := by
  simp [text]

/-- No arithmetic is shown like the word that begins a test. -/
theorem arithmetic_not_odd {value : Expression} (arithmetic : value.IsArithmetic)
    {rest left : List Char} (parted : PartsWords rest)
    (same : value.text.toList ++ rest = "ODD".toList ++ ' ' :: left) : False := by
  have solid : IsSolid "ODD" := Keyword.spelling_isSolid .oddKw
  cases inner : value.token? with
  | none =>
    have parts := operation_parts arithmetic inner rest
    rw [same] at parts
    exact solid.not_parting _ parts
  | some token =>
    obtain ⟨alsoSolid, reads⟩ := leaf_reads arithmetic inner
    obtain ⟨texts, _⟩ := alsoSolid.determined solid parted (partsWords_blank _) same
    have reserved : reading? "ODD" = some (.keyword .oddKw) := by decide
    rw [texts, reserved] at reads
    cases reads
    cases keyword?_of_token? inner

theorem arithmetic_not_test {value test : Expression} (arithmetic : value.IsArithmetic)
    (isTest : test.IsTest) (same : value.text = test.text) : False := by
  have chars : value.text.toList ++ [] = test.text.toList := by rw [same, List.append_nil]
  cases test with
  | relation comparison left right =>
    rw [toList_relation] at chars
    obtain ⟨_, behind⟩ :=
      arithmetic_determined arithmetic isTest.1 partsWords_nil (partsWords_blank _) chars
    cases behind
  | odd operand =>
    rw [toList_odd] at chars
    exact arithmetic_not_odd arithmetic partsWords_nil chars
  | _ => exact isTest.elim

/-- Comparisons end at the blank behind them. -/
theorem comparison_determined {first second : Comparison} {rest left : List Char}
    (same : first.text.toList ++ ' ' :: rest = second.text.toList ++ ' ' :: left) :
    first = second ∧ rest = left := by
  cases first <;> cases second <;> simp_all [Comparison.text]

theorem test_of_text {first second : Expression} (one : first.IsTest) (two : second.IsTest)
    (same : first.text = second.text) : first = second := by
  have chars : first.text.toList = second.text.toList := by rw [same]
  cases first with
  | relation comparison left right =>
    cases second with
    | relation other first second =>
      rw [toList_relation, toList_relation] at chars
      obtain ⟨rfl, afterLeft⟩ :=
        arithmetic_determined one.1 two.1 (partsWords_blank _) (partsWords_blank _) chars
      obtain ⟨rfl, afterComparison⟩ := comparison_determined (List.cons.inj afterLeft).2
      rw [arithmetic_of_chars one.2 two.2 afterComparison]
    | odd operand =>
      rw [toList_relation, toList_odd] at chars
      exact (arithmetic_not_odd one.1 (partsWords_blank _) chars).elim
    | _ => exact two.elim
  | odd operand =>
    cases second with
    | relation comparison left right =>
      rw [toList_relation, toList_odd] at chars
      exact (arithmetic_not_odd two.1 (partsWords_blank _) chars.symm).elim
    | odd other =>
      rw [toList_odd, toList_odd] at chars
      have operands := (List.cons.inj (List.append_cancel_left chars)).2
      rw [arithmetic_of_chars one two operands]
    | _ => exact two.elim
  | _ => exact one.elim

theorem arithmetic_in_line {value : Expression} (arithmetic : value.IsArithmetic) :
    '\n' ∉ value.text.toList := by
  induction value with
  | number value => exact (isSolid_number arithmetic.1).lacks (by decide)
  | identifier name => exact (IsName.isSolid arithmetic).lacks (by decide)
  | arithmetic operator left right ihLeft ihRight =>
    have char : '\n' ≠ operator.char := by cases operator <;> decide
    simp [toList_arithmetic, ihLeft arithmetic.1, ihRight arithmetic.2, char]
  | negate operand ih =>
    have inner := ih arithmetic
    simp [toList_negate, inner]
  | relation | odd => exact arithmetic.elim

theorem test_in_line {test : Expression} (isTest : test.IsTest) : '\n' ∉ test.text.toList := by
  cases test with
  | relation comparison left right =>
    have comparing : '\n' ∉ comparison.text.toList := by cases comparison <;> decide
    simp [toList_relation, arithmetic_in_line isTest.1, arithmetic_in_line isTest.2, comparing]
  | odd operand =>
    have inner := arithmetic_in_line isTest
    simp [toList_odd, inner]
  | _ => exact isTest.elim

/-- Two conditions or pieces of arithmetic with one text are the same. -/
theorem eq_of_text {first second : Expression} (one : first.IsArithmetic ∨ first.IsTest)
    (two : second.IsArithmetic ∨ second.IsTest) (same : first.text = second.text) :
    first = second := by
  rcases one with arithmetic | test <;> rcases two with alsoArithmetic | alsoTest
  · exact arithmetic_of_chars arithmetic alsoArithmetic (by rw [same])
  · exact (arithmetic_not_test arithmetic alsoTest same).elim
  · exact (arithmetic_not_test alsoArithmetic test same.symm).elim
  · exact test_of_text test alsoTest same

end Expression

end PlZero
