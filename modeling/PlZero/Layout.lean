import PlZero.Lexeme

/-!
# Layouts

A text as a chain of lexemes, each with the blanks before it, and the blanks at
the end. Every text has one layout that takes the longest lexeme at each point,
and putting its parts together again gives the text back.
-/

namespace PlZero

set_option autoImplicit false

structure Piece where
  blanks : List Char
  lexeme : List Char
  deriving DecidableEq, Repr

structure Layout where
  pieces : List Piece
  trailing : List Char
  deriving DecidableEq, Repr

namespace Layout

def cons (piece : Piece) (layout : Layout) : Layout :=
  ⟨piece :: layout.pieces, layout.trailing⟩

def chars (layout : Layout) : List Char :=
  layout.pieces.flatMap (fun piece => piece.blanks ++ piece.lexeme) ++ layout.trailing

/-- Whatever is cut off after the blanks leaves a shorter text. -/
theorem length_after_lexeme_lt {chars rest : List Char} {first : Char}
    (visible : chars.dropWhile Text.isBlank = first :: rest) :
    (Lexeme.cut first rest).2.length < chars.length := by
  have shorter := Lexeme.length_cut_snd_le first rest
  have dropped := (List.dropWhile_sublist Text.isBlank (l := chars)).length_le
  rw [visible, List.length_cons] at dropped
  omega

def ofChars (chars : List Char) : Layout :=
  match visible : chars.dropWhile Text.isBlank with
  | [] => ⟨[], chars.takeWhile Text.isBlank⟩
  | first :: rest =>
    have _ := length_after_lexeme_lt visible
    cons ⟨chars.takeWhile Text.isBlank, (Lexeme.cut first rest).1⟩
      (ofChars (Lexeme.cut first rest).2)
termination_by chars.length

theorem ofChars_of_blank {chars : List Char} (blank : chars.dropWhile Text.isBlank = []) :
    ofChars chars = ⟨[], chars.takeWhile Text.isBlank⟩ := by
  rw [ofChars]
  split
  · rfl
  · next visible => rw [blank] at visible; contradiction

theorem ofChars_of_visible {chars rest : List Char} {first : Char}
    (visible : chars.dropWhile Text.isBlank = first :: rest) :
    ofChars chars = cons ⟨chars.takeWhile Text.isBlank, (Lexeme.cut first rest).1⟩
      (ofChars (Lexeme.cut first rest).2) := by
  rw [ofChars]
  split
  · next blank => rw [visible] at blank; contradiction
  · next found =>
    rw [visible] at found
    obtain ⟨rfl, rfl⟩ := List.cons.inj found
    rfl

theorem chars_cons (piece : Piece) (layout : Layout) :
    (cons piece layout).chars = piece.blanks ++ piece.lexeme ++ layout.chars := by
  simp [cons, chars]

/-- Nothing of a text is lost in its layout. -/
theorem chars_ofChars (chars : List Char) : (ofChars chars).chars = chars := by
  induction chars using ofChars.induct with
  | case1 chars blank =>
    have all := List.takeWhile_append_dropWhile (p := Text.isBlank) (l := chars)
    rw [blank, List.append_nil] at all
    rw [ofChars_of_blank blank]
    simpa [Layout.chars] using all
  | case2 chars first rest visible _ ih =>
    have all := List.takeWhile_append_dropWhile (p := Text.isBlank) (l := chars)
    rw [visible] at all
    rw [ofChars_of_visible visible, chars_cons, ih, List.append_assoc, Lexeme.cut_append, all]

end Layout

end PlZero
