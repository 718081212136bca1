import PlZero.Proofs.LineEnds
import PlZero.Proofs.MaximalMunch

/-!
# Numbers that are too large

Every lexeme can be read but one kind: a run of digits whose value exceeds the largest
number. So a scan fails exactly if the split of its text holds such a run, and it fails at the
first one, on the line on which it stands. The text behind the run can be any other text that
does not go on with a digit, since the split before it stays what it was.
-/

namespace PlZero

set_option autoImplicit false

namespace Lexeme

/-- The value of a run of digits, each digit weighed by its place. -/
def placeValue : List Char → Nat
  | [] => 0
  | digit :: rest => (digit.toNat - '0'.toNat) * Nat.pow 10 rest.length + placeValue rest

structure IsTooLarge (lexeme : List Char) : Prop where
  nonempty : lexeme ≠ []
  decimal : ∀ char ∈ lexeme, char.isDigit = true
  exceeds : maxNumber < placeValue lexeme

theorem isTooLarge_iff {lexeme : List Char} :
    IsTooLarge lexeme ↔
      lexeme ≠ [] ∧ lexeme.all Char.isDigit = true ∧ maxNumber < placeValue lexeme := by
  rw [List.all_eq_true]
  constructor
  · exact fun large => ⟨large.nonempty, large.decimal, large.exceeds⟩
  · exact fun ⟨nonempty, decimal, exceeds⟩ => ⟨nonempty, decimal, exceeds⟩

instance (lexeme : List Char) : Decidable (IsTooLarge lexeme) :=
  decidable_of_iff _ isTooLarge_iff.symm

theorem decimalValue_eq_placeValue (digits : List Char) :
    decimalValue digits = placeValue digits := by
  induction digits with
  | nil => rfl
  | cons digit rest ih =>
    have value : decimalValue rest = Nat.ofDigitChars 10 rest 0 := rfl
    rw [decimalValue, Nat.ofDigitChars_cons, Nat.ofDigitChars_eq_ofDigitChars_zero, ← value, ih,
      placeValue, Nat.pow_eq, Nat.mul_zero, Nat.zero_add, Nat.mul_comm]

theorem placeValue_zeros (zeros : Nat) (digits : List Char) :
    placeValue (List.replicate zeros '0' ++ digits) = placeValue digits := by
  induction zeros with
  | zero => rfl
  | succ zeros ih =>
    rw [List.replicate_succ, List.cons_append, placeValue, ih, Nat.sub_self, Nat.zero_mul,
      Nat.zero_add]

/-- Zeros in front of a run of digits make no difference. -/
theorem isTooLarge_zeros (zeros : Nat) (digits : List Char) :
    IsTooLarge (List.replicate zeros '0' ++ digits) ↔ IsTooLarge digits := by
  have value := placeValue_zeros zeros digits
  constructor
  · intro large
    have exceeds := large.exceeds
    rw [value] at exceeds
    refine ⟨?_, fun char member => large.decimal char (List.mem_append_right _ member), exceeds⟩
    rintro rfl
    cases exceeds
  · intro large
    refine ⟨fun empty => large.nonempty (List.append_eq_nil_iff.mp empty).2, ?_, ?_⟩
    · intro char member
      rcases List.mem_append.mp member with front | behind
      · rw [(List.mem_replicate.mp front).2]
        rfl
      · exact large.decimal char behind
    · rw [value]
      exact large.exceeds

theorem IsTooLarge.whole {lexeme : List Char} (large : IsTooLarge lexeme) :
    isWhole lexeme = true :=
  isWhole_of_standsFor (.number large.nonempty large.decimal)

/-- Only what begins with a digit can be too large. -/
theorem not_isTooLarge {first : Char} {tail : List Char} (noDigit : first.isDigit = false) :
    ¬ IsTooLarge (first :: tail) := by
  intro large
  have digit := large.decimal first List.mem_cons_self
  rw [noDigit] at digit
  cases digit

/-- A whole lexeme cannot be read exactly if it is a run of digits that is too large. -/
theorem token?_eq_none_iff {lexeme : List Char} (whole : isWhole lexeme = true) :
    token? lexeme = none ↔ IsTooLarge lexeme := by
  cases form_of_whole whole with
  | @word first tail letter others =>
    have noDigit : first.isDigit = false := by
      rw [Bool.eq_false_iff]
      intro digit
      rw [isAlpha_of_digit digit] at letter
      cases letter
    simp [token?, letter, not_isTooLarge noDigit]
  | @number first tail noLetter digit others =>
    have decimal : ∀ char ∈ first :: tail, char.isDigit = true :=
      List.forall_mem_cons.mpr ⟨digit, others⟩
    simp only [token?, noLetter, digit, if_true, Bool.false_eq_true, if_false,
      decimalValue_eq_placeValue]
    constructor
    · intro unread
      refine ⟨List.cons_ne_nil first tail, decimal, Nat.lt_of_not_le fun bounded => ?_⟩
      rw [if_pos bounded] at unread
      cases unread
    · intro large
      exact if_neg (Nat.not_le.mpr large.exceeds)
  | single visible noLetter noDigit => simp [token?, noLetter, noDigit, not_isTooLarge noDigit]
  | comparison visible noLetter noDigit starts =>
    simp [token?, noLetter, noDigit, not_isTooLarge noDigit]

/-- Behind a run of digits only a digit would be taken into it. -/
theorem IsTooLarge.endsBefore {digits rest : List Char} (large : IsTooLarge digits)
    (stops : ∀ next ∈ rest.head?, next.isDigit = false) : EndsBefore digits rest := by
  obtain ⟨first, tail, rfl⟩ := List.exists_cons_of_ne_nil large.nonempty
  have digit := large.decimal first List.mem_cons_self
  simpa [EndsBefore, runsOn, isAlpha_of_digit digit, digit] using stops

end Lexeme

namespace Layout

variable {before after : List Piece} {piece : Piece} {trailing : List Char}

/-- A text up to one of its lexemes, this lexeme, and what comes behind it. -/
theorem chars_split (before : List Piece) (piece : Piece) (after : List Piece)
    (trailing : List Char) :
    (Layout.mk (before ++ piece :: after) trailing).chars =
      (Layout.mk before piece.blanks).chars ++ piece.lexeme ++
        (Layout.mk after trailing).chars := by
  simp [chars]

/-- What comes behind a lexeme may be exchanged, as long as it does not lengthen that lexeme. -/
theorem arePieces_exchanged {others : List Piece} {ending : List Char}
    (nonempty : piece.lexeme ≠ []) (spaced : ArePieces trailing (before ++ piece :: after))
    (ends : Lexeme.EndsBefore piece.lexeme (Layout.mk others ending).chars)
    (further : ArePieces ending others) : ArePieces ending (before ++ piece :: others) := by
  induction before with
  | nil => exact ⟨spaced.1, ends, further⟩
  | cons first before ih =>
    obtain ⟨blanks, endsToo, rest⟩ := spaced
    refine ⟨blanks, ?_, ih rest⟩
    -- the next character is the same, since a lexeme is still to come
    have head : (Layout.mk (before ++ piece :: others) ending).chars.head? =
        (Layout.mk (before ++ piece :: after) trailing).chars.head? := by
      obtain ⟨char, tail, lexeme⟩ := List.exists_cons_of_ne_nil nonempty
      simp [chars_split, lexeme]
    intro next isNext
    exact endsToo next (head ▸ isNext)

end Layout

namespace Scan

structure FailsAt (scan : Scan) (digits : List Char) (line : Nat) : Prop where
  result : scan.result = .error (.invalidNumber (String.ofList digits) line)
  line : scan.line = line

theorem result_cons (token : LocatedToken) (scan : Scan) :
    (cons token scan).result = scan.result.map (token :: ·) := by
  obtain ⟨tokens, line, fault?⟩ := scan
  cases fault? <;> rfl

theorem failsAt_cons {scan : Scan} {digits : List Char} {line : Nat}
    (fails : scan.FailsAt digits line) (token : LocatedToken) :
    (cons token scan).FailsAt digits line where
  result := by
    rw [result_cons, fails.result]
    rfl
  line := fails.line

/-- A scan fails as soon as one piece cannot be read. -/
theorem failed_ofPieces (line : Nat) (trailing : List Char) {pieces : List Piece}
    (whole : ∀ piece ∈ pieces, Lexeme.isWhole piece.lexeme = true) :
    (∃ fault, (ofPieces line trailing pieces).result = .error fault) ↔
      ∃ piece ∈ pieces, Lexeme.IsTooLarge piece.lexeme := by
  induction pieces generalizing line with
  | nil => simp [ofPieces, result]
  | cons piece rest ih =>
    obtain ⟨one, others⟩ := List.forall_mem_cons.mp whole
    simp only [List.mem_cons, exists_eq_or_imp]
    rw [ofPieces, ← ih (lineAfter line (Text.lineEnds piece.blanks)) others,
      ← Lexeme.token?_eq_none_iff one]
    cases Lexeme.token? piece.lexeme with
    | none => simp [result]
    | some token =>
      rw [result_cons]
      cases (ofPieces (lineAfter line (Text.lineEnds piece.blanks)) trailing rest).result <;>
        simp [Except.map]

/-- The first piece that cannot be read ends the scan. Its line counts the line ends of all the
text before it, as no lexeme holds one. -/
theorem ofPieces_failsAt (line : Nat) (trailing : List Char) {before after : List Piece}
    {piece : Piece} (whole : ∀ earlier ∈ before, Lexeme.isWhole earlier.lexeme = true)
    (small : ∀ earlier ∈ before, ¬ Lexeme.IsTooLarge earlier.lexeme)
    (large : Lexeme.IsTooLarge piece.lexeme) :
    (ofPieces line trailing (before ++ piece :: after)).FailsAt piece.lexeme
      (lineAfter line (Text.lineEnds (Layout.mk before piece.blanks).chars)) := by
  induction before generalizing line with
  | nil =>
    rw [List.nil_append, ofPieces, (Lexeme.token?_eq_none_iff large.whole).mpr large]
    exact ⟨rfl, rfl⟩
  | cons first before ih =>
    obtain ⟨one, others⟩ := List.forall_mem_cons.mp whole
    obtain ⟨isSmall, areSmall⟩ := List.forall_mem_cons.mp small
    rw [Layout.lineEnds_cons one, lineAfter_add, List.cons_append, ofPieces]
    cases own : Lexeme.token? first.lexeme with
    | none => exact absurd ((Lexeme.token?_eq_none_iff one).mp own) isSmall
    | some token => exact failsAt_cons (ih _ others areSmall) _

/-- The end of a scan at a number that is too large does not depend on what comes behind it. -/
theorem ofChars_failsAt (line : Nat) {trailing : List Char} {before after : List Piece}
    {piece : Piece} (spaced : Layout.ArePieces trailing (before ++ piece :: after))
    (whole : ∀ earlier ∈ before, Lexeme.isWhole earlier.lexeme = true)
    (small : ∀ earlier ∈ before, ¬ Lexeme.IsTooLarge earlier.lexeme)
    (large : Lexeme.IsTooLarge piece.lexeme) {rest : List Char}
    (stops : ∀ next ∈ rest.head?, next.isDigit = false) :
    (ofChars line ((Layout.mk before piece.blanks).chars ++ piece.lexeme ++ rest)).FailsAt
      piece.lexeme (lineAfter line (Text.lineEnds (Layout.mk before piece.blanks).chars)) := by
  obtain ⟨_, munched⟩ := Layout.isMunched_ofChars rest
  have behind : (Layout.mk (Layout.ofChars rest).pieces (Layout.ofChars rest).trailing).chars =
      rest := Layout.chars_ofChars rest
  have spacedToo : Layout.ArePieces (Layout.ofChars rest).trailing
      (before ++ piece :: (Layout.ofChars rest).pieces) := by
    apply Layout.arePieces_exchanged large.nonempty spaced _ munched.arePieces
    rw [behind]
    exact large.endsBefore stops
  have wholeToo : ∀ own ∈ before ++ piece :: (Layout.ofChars rest).pieces,
      Lexeme.isWhole own.lexeme = true :=
    List.forall_mem_append.mpr ⟨whole, List.forall_mem_cons.mpr ⟨large.whole, munched.whole⟩⟩
  have layout := Layout.ofChars_pieces spacedToo wholeToo
  rw [Layout.chars_split, behind] at layout
  rw [ofChars, layout]
  exact ofPieces_failsAt line _ whole small large

end Scan

def oneTooMany : String := "v99999999999999999999\r\n0009223372036854775807-0009223372036854775808"

end PlZero
