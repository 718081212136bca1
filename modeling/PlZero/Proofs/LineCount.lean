import Mathlib.Data.Nat.Count
import PlZero.Proofs.LargeNumbers

/-!
# Lines by counting places

Whether a line ends at a place of a text is told by the character there and, for a carriage
return, by the next one. The line of a token is found by counting such places: all of those
before the lexeme, whatever blanks and lexemes they lie among. The line that a scan reaches is
found in the same way, by counting to the end of the text or to the number that ended the scan.
What is kept of such a count is a line number, so behind the largest one it begins again at zero.
-/

namespace PlZero

set_option autoImplicit false

namespace Text

/-- A line ends at each line feed, and at each carriage return that no line feed follows. -/
def EndsLineAt (chars : List Char) (place : Nat) : Prop :=
  chars[place]? = some '\n' ∨ (chars[place]? = some '\r' ∧ chars[place + 1]? ≠ some '\n')

instance (chars : List Char) : DecidablePred (EndsLineAt chars) := fun _ => instDecidableOr

def lineEndsBefore (chars : List Char) (place : Nat) : Nat := Nat.count (EndsLineAt chars) place

theorem endsLineAt_zero (char : Char) (rest : List Char) :
    EndsLineAt (char :: rest) 0 ↔ endsLine char rest.head? = true := by
  simp [EndsLineAt, endsLine, List.head?_eq_getElem?]

theorem endsLineAt_append (above rest : List Char) (place : Nat) :
    EndsLineAt (above ++ rest) (above.length + place) ↔ EndsLineAt rest place := by
  have here : (above ++ rest)[above.length + place]? = rest[place]? := by
    rw [List.getElem?_append_right (Nat.le_add_right _ _), Nat.add_sub_cancel_left]
  have next : (above ++ rest)[above.length + place + 1]? = rest[place + 1]? := by
    rw [Nat.add_assoc, List.getElem?_append_right (Nat.le_add_right _ _), Nat.add_sub_cancel_left]
  rw [EndsLineAt, EndsLineAt, here, next]

theorem lineEndsBefore_end (chars : List Char) :
    lineEndsBefore chars chars.length = lineEnds chars := by
  induction chars with
  | nil => rfl
  | cons char rest ih =>
    have later : (fun place => EndsLineAt (char :: rest) (place + 1)) = EndsLineAt rest := by
      funext place
      have shifted := endsLineAt_append [char] rest place
      rw [List.length_singleton, Nat.add_comm 1 place] at shifted
      exact propext shifted
    rw [lineEndsBefore, List.length_cons, Nat.count_succ', lineEnds_cons]
    simp only [later, endsLineAt_zero]
    rw [Nat.add_comm]
    exact congrArg _ ih

/-- Up to a place where no pair is parted, the lines that end are those of the text so far. -/
theorem lineEndsBefore_append {above rest : List Char} (apart : rest.head? ≠ some '\n') :
    lineEndsBefore (above ++ rest) above.length = lineEnds above := by
  have whole := lineEndsBefore_end (above ++ rest)
  have later : (fun place => EndsLineAt (above ++ rest) (above.length + place)) =
      EndsLineAt rest := by
    funext place
    exact propext (endsLineAt_append above rest place)
  rw [lineEnds_append fun _ => apart, ← lineEndsBefore_end rest, lineEndsBefore,
    List.length_append, Nat.count_add] at whole
  simp only [later] at whole
  exact Nat.add_right_cancel whole

end Text

/-- What a whole lexeme is read as is what it stands for. -/
theorem Lexeme.standsFor_of_read {lexeme : List Char} {token : Token}
    (whole : isWhole lexeme = true) (read : token? lexeme = some token) :
    StandsFor lexeme token := by
  obtain ⟨other, stands⟩ := standsFor_of_whole whole
  rcases token?_of_standsFor stands with same | ⟨unread, _⟩
  · rw [read] at same
    cases same
    exact stands
  · rw [read] at unread
    cases unread

namespace Layout

/-- Where the text of a piece's lexeme begins, in a text that begins with some other pieces. -/
def placeAfter (before : List Piece) (piece : Piece) : Nat :=
  (Layout.mk before piece.blanks).chars.length

/-- Among whole lexemes, the lines that end before one of them are those of the text above it. -/
theorem lineEndsBefore_placeAfter {before after : List Piece} {piece : Piece}
    {trailing chars : List Char} (whole : Lexeme.isWhole piece.lexeme = true)
    (text : (Layout.mk (before ++ piece :: after) trailing).chars = chars) :
    Text.lineEndsBefore chars (placeAfter before piece) =
      Text.lineEnds (Layout.mk before piece.blanks).chars := by
  rw [← text, chars_split, List.append_assoc]
  apply Text.lineEndsBefore_append
  exact Text.head?_ne_feed (Lexeme.nonempty_of_whole whole) (Lexeme.visible_of_whole whole) _

end Layout

namespace Scan

/-- Each token is read from the piece of its index, on the line that the text above counts up to. -/
theorem piece_of_token (line : Nat) (trailing : List Char) {pieces : List Piece}
    (whole : ∀ piece ∈ pieces, Lexeme.isWhole piece.lexeme = true) {index : Nat}
    {located : LocatedToken}
    (found : (ofPieces line trailing pieces).tokens[index]? = some located) :
    ∃ before piece after, pieces = before ++ piece :: after ∧ before.length = index ∧
      Lexeme.token? piece.lexeme = some located.token ∧
      located.line = lineAfter line (Text.lineEnds (Layout.mk before piece.blanks).chars) := by
  induction pieces generalizing line index with
  | nil => cases found
  | cons first rest ih =>
    obtain ⟨one, others⟩ := List.forall_mem_cons.mp whole
    rw [ofPieces] at found
    cases read : Lexeme.token? first.lexeme with
    | none =>
      rw [read] at found
      cases found
    | some token =>
      rw [read] at found
      cases index with
      | zero =>
        cases found
        exact ⟨[], first, rest, rfl, rfl, read, rfl⟩
      | succ index =>
        obtain ⟨before, piece, after, rfl, position, stands, reached⟩ := ih _ others found
        refine ⟨first :: before, piece, after, rfl, congrArg (· + 1) position, stands, ?_⟩
        rw [reached, Layout.lineEnds_cons one, lineAfter_add]

/-- A scan that comes to its end has read every piece, and reaches the line that the whole text
counts up to. -/
theorem ofPieces_finishes (line : Nat) (trailing : List Char) {pieces : List Piece}
    (whole : ∀ piece ∈ pieces, Lexeme.isWhole piece.lexeme = true)
    {located : List LocatedToken}
    (finished : (ofPieces line trailing pieces).result = .ok located) :
    located = (ofPieces line trailing pieces).tokens ∧
      (ofPieces line trailing pieces).fault? = none ∧
      (ofPieces line trailing pieces).line =
        lineAfter line (Text.lineEnds (Layout.mk pieces trailing).chars) := by
  induction pieces generalizing line located with
  | nil =>
    cases finished
    exact ⟨rfl, rfl, rfl⟩
  | cons first rest ih =>
    obtain ⟨one, others⟩ := List.forall_mem_cons.mp whole
    rw [Layout.lineEnds_cons one, lineAfter_add]
    rw [ofPieces] at finished ⊢
    cases read : Lexeme.token? first.lexeme with
    | none =>
      rw [read] at finished
      cases finished
    | some token =>
      rw [read] at finished
      simp only [result_cons] at finished
      cases further :
          (ofPieces (lineAfter line (Text.lineEnds first.blanks)) trailing rest).result with
      | error fault =>
        rw [further] at finished
        cases finished
      | ok tokens =>
        rw [further] at finished
        cases finished
        obtain ⟨rfl, unharmed, reached⟩ := ih _ others further
        exact ⟨rfl, unharmed, reached⟩

/-- A scan that fails does so at the first run of digits that is too large. -/
theorem ofPieces_stops (line : Nat) (trailing : List Char) {pieces : List Piece}
    (whole : ∀ piece ∈ pieces, Lexeme.isWhole piece.lexeme = true) {fault : Fault}
    (failed : (ofPieces line trailing pieces).result = .error fault) :
    ∃ before piece after, pieces = before ++ piece :: after ∧
      Lexeme.IsTooLarge piece.lexeme ∧
      (∀ earlier ∈ before, ¬ Lexeme.IsTooLarge earlier.lexeme) ∧
      (ofPieces line trailing pieces).FailsAt piece.lexeme
        (lineAfter line (Text.lineEnds (Layout.mk before piece.blanks).chars)) := by
  obtain ⟨some, inside, large⟩ := (failed_ofPieces line trailing whole).mp ⟨fault, failed⟩
  have found : (pieces.find? fun piece => Lexeme.IsTooLarge piece.lexeme).isSome = true :=
    List.find?_isSome.mpr ⟨some, inside, decide_eq_true large⟩
  obtain ⟨piece, first⟩ := Option.isSome_iff_exists.mp found
  obtain ⟨own, before, after, rfl, earlier⟩ := List.find?_eq_some_iff_append.mp first
  have isLarge : Lexeme.IsTooLarge piece.lexeme := of_decide_eq_true own
  have areSmall : ∀ earlier ∈ before, ¬ Lexeme.IsTooLarge earlier.lexeme := by
    intro other member
    simpa using earlier other member
  have wholeBefore := (List.forall_mem_append.mp whole).1
  exact ⟨before, piece, after, rfl, isLarge, areSmall,
    ofPieces_failsAt line trailing wholeBefore areSmall isLarge⟩

end Scan

/-- Three names, with a carriage return, a pair and a next-line character between the first two, and
a line feed before a carriage return after them. -/
def mixedEnds : String := "a\r\r\n\u0085b\n\r c"

end PlZero
