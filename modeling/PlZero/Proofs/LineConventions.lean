import PlZero.Program
import PlZero.Proofs.LineEnds
import PlZero.Proofs.MaximalMunch

/-!
# Line conventions

A line may end in a line feed, in a carriage return, or in the two together. A text in which
all of them are written as line feeds has the same lexemes, since line ends stand among the
blanks, and it has as many line ends before each of them. So it is scanned alike and read
alike.
-/

namespace PlZero

set_option autoImplicit false

namespace Text

/-- Each carriage return and the line feed right after it become one line feed. -/
def joinPairs : List Char → List Char
  | [] => []
  | '\r' :: '\n' :: rest => '\n' :: joinPairs rest
  | char :: rest => char :: joinPairs rest

def feedOfReturn (char : Char) : Char := if char = '\r' then '\n' else char

/-- First the pairs become line feeds, and then the carriage returns that are left. -/
def withFeeds (chars : List Char) : List Char := (joinPairs chars).map feedOfReturn

/-- A source text with a line feed at the end of each line. -/
def unified (source : String) : String := String.ofList (withFeeds source.toList)

/-- A carriage return before a line feed is dropped, and every other one becomes a line feed. -/
theorem withFeeds_cons (char : Char) (rest : List Char) :
    withFeeds (char :: rest) =
      if char = '\r' ∧ rest.head? = some '\n' then withFeeds rest
      else feedOfReturn char :: withFeeds rest := by
  by_cases pair : char = '\r' ∧ rest.head? = some '\n'
  · obtain ⟨rfl, feed⟩ := pair
    obtain ⟨others, rfl⟩ := List.head?_eq_some_iff.mp feed
    simp [withFeeds, joinPairs]
  · have joined : joinPairs (char :: rest) = char :: joinPairs rest := by
      rw [joinPairs]
      intro others carriage feed
      exact pair ⟨carriage, by rw [feed]; rfl⟩
    rw [if_neg pair, withFeeds, joined, List.map_cons, withFeeds]

example : unified "a\r\n\n\r\r\nb\r" = "a\n\n\n\nb\n" := by decide +kernel

theorem feedOfReturn_of_ne {char : Char} (other : char ≠ '\r') : feedOfReturn char = char :=
  if_neg other

theorem withFeeds_of_no_return {chars : List Char} (other : ∀ char ∈ chars, char ≠ '\r') :
    withFeeds chars = chars := by
  induction chars with
  | nil => rfl
  | cons char rest ih =>
    obtain ⟨here, further⟩ := List.forall_mem_cons.mp other
    rw [withFeeds_cons, if_neg fun pair => here pair.1, feedOfReturn_of_ne here, ih further]

theorem head?_withFeeds (chars : List Char) :
    (withFeeds chars).head? = chars.head?.map feedOfReturn := by
  cases chars with
  | nil => rfl
  | cons char rest =>
    rw [withFeeds_cons]
    split
    · next pair =>
      obtain ⟨rfl, feed⟩ := pair
      obtain ⟨others, rfl⟩ := List.head?_eq_some_iff.mp feed
      rw [withFeeds_cons, if_neg (by simp)]
      rfl
    · rfl

/-- Joined texts may be rewritten apart where the join makes no pair. -/
theorem withFeeds_append {first second : List Char}
    (apart : first.getLast? = some '\r' → second.head? ≠ some '\n') :
    withFeeds (first ++ second) = withFeeds first ++ withFeeds second := by
  induction first with
  | nil => rfl
  | cons char rest ih =>
    have further : withFeeds (rest ++ second) = withFeeds rest ++ withFeeds second := by
      apply ih
      intro last
      exact apart (by rw [List.getLast?_cons, last]; rfl)
    have pairs : (char = '\r' ∧ (rest ++ second).head? = some '\n') ↔
        (char = '\r' ∧ rest.head? = some '\n') := by
      cases rest with
      | cons next rest => rfl
      | nil =>
        constructor
        · rintro ⟨rfl, feed⟩
          exact absurd feed (apart rfl)
        · rintro ⟨_, feed⟩
          cases feed
    rw [List.cons_append, withFeeds_cons, withFeeds_cons, further]
    simp only [pairs]
    split <;> rfl

theorem lineEnds_withFeeds (chars : List Char) : lineEnds (withFeeds chars) = lineEnds chars := by
  induction chars with
  | nil => rfl
  | cons char rest ih =>
    rw [withFeeds_cons, lineEnds_cons]
    by_cases carriage : char = '\r'
    · subst carriage
      by_cases pair : rest.head? = some '\n'
      · simp [pair, endsLine, ih]
      · simp [pair, endsLine, ih, lineEnds_cons, feedOfReturn]
    · simp [carriage, endsLine, ih, lineEnds_cons, feedOfReturn]

theorem withFeeds_blank {blanks : List Char} (allBlank : ∀ char ∈ blanks, isBlank char = true) :
    ∀ char ∈ withFeeds blanks, isBlank char = true := by
  induction blanks with
  | nil => exact allBlank
  | cons char rest ih =>
    obtain ⟨here, further⟩ := List.forall_mem_cons.mp allBlank
    rw [withFeeds_cons]
    split
    · exact ih further
    · refine List.forall_mem_cons.mpr ⟨?_, ih further⟩
      unfold feedOfReturn
      split
      · rfl
      · exact here

end Text

/-- A blank is not taken into a lexeme, whichever it is. -/
theorem Lexeme.endsBefore_withFeeds {lexeme after : List Char} (ends : EndsBefore lexeme after) :
    EndsBefore lexeme (Text.withFeeds after) := by
  intro next isNext
  rw [Text.head?_withFeeds] at isNext
  obtain ⟨own, isOwn, rfl⟩ := Option.map_eq_some_iff.mp isNext
  by_cases carriage : own = '\r'
  · subst carriage
    exact endsBefore_blank lexeme [] rfl '\n' rfl
  · rw [Text.feedOfReturn_of_ne carriage]
    exact ends own isOwn

def Piece.withFeeds (piece : Piece) : Piece := ⟨Text.withFeeds piece.blanks, piece.lexeme⟩

namespace Layout

def withFeeds (layout : Layout) : Layout :=
  ⟨layout.pieces.map Piece.withFeeds, Text.withFeeds layout.trailing⟩

theorem chars_withFeeds (trailing : List Char) {pieces : List Piece}
    (whole : ∀ piece ∈ pieces, Lexeme.isWhole piece.lexeme = true) :
    (withFeeds ⟨pieces, trailing⟩).chars = Text.withFeeds (Layout.mk pieces trailing).chars := by
  induction pieces with
  | nil => rfl
  | cons piece rest ih =>
    obtain ⟨one, others⟩ := List.forall_mem_cons.mp whole
    have visible := Lexeme.visible_of_whole one
    have noReturn : ∀ char ∈ piece.lexeme, char ≠ '\r' := by
      rintro char member rfl
      cases visible '\r' member
    have behind : piece.lexeme.getLast? ≠ some '\r' :=
      fun last => noReturn '\r' (List.mem_of_getLast? last) rfl
    have before : (piece.lexeme ++ (Layout.mk rest trailing).chars).head? ≠ some '\n' := by
      obtain ⟨first, tail, lexeme⟩ := List.exists_cons_of_ne_nil (Lexeme.nonempty_of_whole one)
      rw [lexeme] at visible ⊢
      intro feed
      cases feed
      cases visible '\n' List.mem_cons_self
    have split : (Layout.mk (piece :: rest) trailing).chars =
        piece.blanks ++ (piece.lexeme ++ (Layout.mk rest trailing).chars) := by
      rw [← List.append_assoc]
      exact chars_cons piece ⟨rest, trailing⟩
    have own : (withFeeds ⟨piece :: rest, trailing⟩).chars =
        Text.withFeeds piece.blanks ++ piece.lexeme ++ (withFeeds ⟨rest, trailing⟩).chars :=
      chars_cons piece.withFeeds (withFeeds ⟨rest, trailing⟩)
    rw [own, ih others, split, Text.withFeeds_append fun _ => before,
      Text.withFeeds_append fun last => absurd last behind, Text.withFeeds_of_no_return noReturn,
      List.append_assoc]

theorem arePieces_withFeeds {trailing : List Char} {pieces : List Piece}
    (spaced : ArePieces trailing pieces)
    (whole : ∀ piece ∈ pieces, Lexeme.isWhole piece.lexeme = true) :
    ArePieces (Text.withFeeds trailing) (pieces.map Piece.withFeeds) := by
  induction pieces with
  | nil => exact Text.withFeeds_blank spaced
  | cons piece rest ih =>
    obtain ⟨blanks, ends, further⟩ := spaced
    obtain ⟨_, others⟩ := List.forall_mem_cons.mp whole
    refine ⟨Text.withFeeds_blank blanks, ?_, ih further others⟩
    have behind : Lexeme.EndsBefore piece.lexeme (withFeeds ⟨rest, trailing⟩).chars := by
      rw [chars_withFeeds trailing others]
      exact Lexeme.endsBefore_withFeeds ends
    exact behind

/-- The layout of the rewritten text is the layout of the text with its blanks rewritten. -/
theorem ofChars_withFeeds (chars : List Char) :
    ofChars (Text.withFeeds chars) = (ofChars chars).withFeeds := by
  obtain ⟨tokens, munched⟩ := isMunched_ofChars chars
  have whole := munched.whole
  have again := ofChars_pieces (arePieces_withFeeds munched.arePieces whole) (by
    intro piece member
    obtain ⟨own, isOwn, rfl⟩ := List.mem_map.mp member
    exact whole own isOwn)
  have text : (withFeeds (ofChars chars)).chars = Text.withFeeds chars :=
    (chars_withFeeds _ whole).trans (congrArg Text.withFeeds (chars_ofChars chars))
  rw [← text]
  exact again

end Layout

namespace Scan

theorem ofPieces_withFeeds (line : Nat) (trailing : List Char) (pieces : List Piece) :
    ofPieces line (Text.withFeeds trailing) (pieces.map Piece.withFeeds) =
      ofPieces line trailing pieces := by
  induction pieces generalizing line with
  | nil => rw [List.map_nil, ofPieces, ofPieces, Text.lineEnds_withFeeds]
  | cons piece rest ih =>
    rw [List.map_cons, ofPieces, ofPieces]
    simp only [Piece.withFeeds, Text.lineEnds_withFeeds, ih]

theorem ofSource_unified (line : Nat) (source : String) :
    ofSource line (Text.unified source) = ofSource line source := by
  unfold ofSource ofChars
  rw [Text.unified, String.toList_ofList, Layout.ofChars_withFeeds]
  exact ofPieces_withFeeds line _ _

end Scan

/-- It makes no difference in which way the lines of a text end, neither to its scan from any line
on nor to what it is read as. -/
theorem line_convention_is_free (source : String) :
    (∀ line, Scan.ofSource line (Text.unified source) = Scan.ofSource line source) ∧
      ∀ limit, check limit (Text.unified source) = check limit source := by
  have same (line : Nat) := Scan.ofSource_unified line source
  refine ⟨same, ?_⟩
  intro limit
  rw [check, check, same]

end PlZero
