import PlZero.Proofs.Lexical

/-!
# Line ends and the lines of tokens

A line ends at each line feed, and at each carriage return that no line feed follows. The
line ends of two texts add up when they are joined, unless the join brings such a pair
together. No lexeme holds a line end, so the line ends among the blanks of a layout are
those of its text, and no line that a scan reports lies outside the text as long as there
are line numbers left. A scan of a text in memory from its first line never runs out of them.
-/

namespace PlZero

set_option autoImplicit false

namespace Text

def endsLine (char : Char) (next? : Option Char) : Bool :=
  char == '\n' || (char == '\r' && next? != some '\n')

theorem lineEnds_cons (char : Char) (rest : List Char) :
    lineEnds (char :: rest) = (if endsLine char rest.head? then 1 else 0) + lineEnds rest := by
  unfold endsLine
  by_cases feed : char = '\n'
  · subst feed
    simp [lineEnds, Nat.add_comm]
  · by_cases carriage : char = '\r'
    · subst carriage
      cases rest with
      | nil => simp [lineEnds]
      | cons next rest =>
        by_cases pair : next = '\n'
        · subst pair
          simp [lineEnds]
        · simp [lineEnds, pair, Nat.add_comm]
    · simp [lineEnds, feed, carriage]

/-- The line ends of joined texts add up where the join makes no pair. -/
theorem lineEnds_append {first second : List Char}
    (apart : first.getLast? = some '\r' → second.head? ≠ some '\n') :
    lineEnds (first ++ second) = lineEnds first + lineEnds second := by
  induction first with
  | nil => simp [lineEnds]
  | cons char rest ih =>
    have head : endsLine char (rest ++ second).head? = endsLine char rest.head? := by
      cases rest with
      | cons next rest => rfl
      | nil =>
        by_cases carriage : char = '\r'
        · subst carriage
          have noFeed : (second.head? != some '\n') = true := bne_iff_ne.mpr (apart rfl)
          simp [endsLine, noFeed]
        · simp [endsLine, beq_false_of_ne carriage]
    have further : lineEnds (rest ++ second) = lineEnds rest + lineEnds second := by
      apply ih
      intro last
      exact apart (by rw [List.getLast?_cons, last]; rfl)
    rw [List.cons_append, lineEnds_cons, lineEnds_cons char, head, further, Nat.add_assoc]

theorem lineEnds_of_visible {chars : List Char}
    (visible : ∀ char ∈ chars, isBlank char = false) : lineEnds chars = 0 := by
  induction chars with
  | nil => rfl
  | cons char rest ih =>
    obtain ⟨here, further⟩ := List.forall_mem_cons.mp visible
    have other : endsLine char rest.head? = false := by
      rw [Bool.eq_false_iff]
      intro ends
      simp only [endsLine, Bool.or_eq_true, Bool.and_eq_true, beq_iff_eq] at ends
      rcases ends with rfl | ⟨rfl, _⟩ <;> cases here
    rw [lineEnds_cons, other, ih further]
    rfl

/-- A lexeme does not begin with the second half of a pair. -/
theorem head?_ne_feed {lexeme : List Char} (nonempty : lexeme ≠ [])
    (visible : ∀ char ∈ lexeme, isBlank char = false) (rest : List Char) :
    (lexeme ++ rest).head? ≠ some '\n' := by
  obtain ⟨first, tail, rfl⟩ := List.exists_cons_of_ne_nil nonempty
  intro feed
  cases feed
  cases visible '\n' List.mem_cons_self

/-- Between blanks and what comes after it, a lexeme neither ends a line nor parts a pair. -/
theorem lineEnds_around {blanks lexeme rest : List Char} (nonempty : lexeme ≠ [])
    (visible : ∀ char ∈ lexeme, isBlank char = false) :
    lineEnds (blanks ++ lexeme ++ rest) = lineEnds blanks + lineEnds rest := by
  have before := head?_ne_feed nonempty visible rest
  have behind : lexeme.getLast? ≠ some '\r' := by
    intro carriage
    cases visible '\r' (List.mem_of_getLast? carriage)
  rw [List.append_assoc, lineEnds_append fun _ => before,
    lineEnds_append fun carriage => absurd carriage behind, lineEnds_of_visible visible,
    Nat.zero_add]

/-- Every text in memory has less than `2 ^ 63` bytes, since its size has to fit in a signed word. -/
def FitsInMemory (source : String) : Prop := source.utf8ByteSize < Nat.pow 2 63

theorem lineEnds_le_size (chars : List Char) :
    lineEnds chars ≤ (String.ofList chars).utf8ByteSize := by
  induction chars with
  | nil => exact Nat.zero_le _
  | cons char rest ih =>
    have one : (if endsLine char rest.head? then 1 else 0) ≤ char.utf8Size := by
      have positive := char.utf8Size_pos
      split <;> omega
    rw [lineEnds_cons, String.ofList_cons, String.utf8ByteSize_append, String.utf8ByteSize_singleton]
    exact Nat.add_le_add one ih

/-- Line numbers do not run out within a text. -/
theorem lines_fit {source : String} (inMemory : FitsInMemory source) :
    firstLine + lineEnds source.toList < lineNumbers := by
  have most := lineEnds_le_size source.toList
  rw [String.ofList_toList] at most
  calc
    firstLine + lineEnds source.toList ≤ firstLine + source.utf8ByteSize :=
      Nat.add_le_add_left most _
    _ < firstLine + Nat.pow 2 63 := Nat.add_lt_add_left inMemory _
    _ ≤ lineNumbers := by decide

end Text

/-- The line ends of a layout are those among its blanks. -/
theorem Layout.lineEnds_cons {piece : Piece} (whole : Lexeme.isWhole piece.lexeme = true)
    (rest : List Piece) (trailing : List Char) :
    Text.lineEnds (Layout.mk (piece :: rest) trailing).chars =
      Text.lineEnds piece.blanks + Text.lineEnds (Layout.mk rest trailing).chars := by
  have joined : (Layout.mk (piece :: rest) trailing).chars =
      piece.blanks ++ piece.lexeme ++ (Layout.mk rest trailing).chars :=
    Layout.chars_cons piece ⟨rest, trailing⟩
  rw [joined, Text.lineEnds_around (Lexeme.nonempty_of_whole whole)
    (Lexeme.visible_of_whole whole)]

namespace Scan

/-- A scan stops at nothing but a number that is too large. -/
theorem fault?_ofPieces {line : Nat} {trailing : List Char} {pieces : List Piece} {fault : Fault}
    (found : (ofPieces line trailing pieces).fault? = some fault) :
    ∃ digits here, fault = .invalidNumber digits here := by
  induction pieces generalizing line with
  | nil => cases found
  | cons piece rest ih =>
    rw [ofPieces] at found
    cases read : Lexeme.token? piece.lexeme with
    | none =>
      rw [read] at found
      cases found
      exact ⟨_, _, rfl⟩
    | some token =>
      rw [read] at found
      exact ih found

/-- Every line of a scan, also that of a fault, is one of these. -/
structure StaysWithin (first last : Nat) (scan : Scan) : Prop where
  tokens : ∀ located ∈ scan.tokens, first ≤ located.line ∧ located.line ≤ last
  fault : ∀ fault, scan.fault? = some fault →
    ∃ digits line, fault = .invalidNumber digits line ∧ first ≤ line ∧ line ≤ last

theorem ofPieces_staysWithin (line : Nat) (trailing : List Char) {pieces : List Piece}
    (whole : ∀ piece ∈ pieces, Lexeme.isWhole piece.lexeme = true)
    (fits : line + Text.lineEnds (Layout.mk pieces trailing).chars < lineNumbers) :
    (ofPieces line trailing pieces).StaysWithin line
      (line + Text.lineEnds (Layout.mk pieces trailing).chars) := by
  induction pieces generalizing line with
  | nil =>
    constructor
    · intro located member
      cases member
    · intro fault found
      cases found
  | cons piece rest ih =>
    obtain ⟨one, others⟩ := List.forall_mem_cons.mp whole
    rw [Layout.lineEnds_cons one, ← Nat.add_assoc] at fits ⊢
    have reached := lineAfter_of_fits (Nat.lt_of_le_of_lt (Nat.le_add_right _ _) fits)
    rw [ofPieces, reached]
    have further := ih _ others fits
    have begun : line ≤ line + Text.lineEnds piece.blanks := Nat.le_add_right _ _
    generalize line + Text.lineEnds piece.blanks = here at further begun ⊢
    cases read : Lexeme.token? piece.lexeme with
    | none =>
      constructor
      · intro located member
        cases member
      · intro fault found
        cases found
        exact ⟨_, here, rfl, begun, Nat.le_add_right _ _⟩
    | some token =>
      constructor
      · refine List.forall_mem_cons.mpr ⟨⟨begun, Nat.le_add_right _ _⟩, ?_⟩
        intro located member
        have bounds := further.tokens located member
        exact ⟨Nat.le_trans begun bounds.1, bounds.2⟩
      · intro fault found
        obtain ⟨digits, last, same, lower, upper⟩ := further.fault fault found
        exact ⟨digits, last, same, Nat.le_trans begun lower, upper⟩

/-- No line of a scan lies outside the text, as long as the line numbers last. -/
theorem ofSource_staysWithin {line : Nat} {source : String}
    (fits : line + Text.lineEnds source.toList < lineNumbers) :
    (ofSource line source).StaysWithin line (line + Text.lineEnds source.toList) := by
  rw [← Layout.chars_ofChars source.toList] at fits ⊢
  exact ofPieces_staysWithin line _ (Layout.pieces_are_whole source.toList) fits

end Scan

end PlZero
