import PlZero.Command.Report
import PlZero.Proofs.Lexical

/-!
# What a report prints

A report is printed line by line. That a check succeeded is said in the last line, and no
listing of tokens says it before: of the characters of that line there is always one that
the line of a token cannot hold. So a check that fails never says so, whatever it lists.
-/

namespace PlZero

set_option autoImplicit false

/-- What holds no mark, but runs through a text around a mark, is on one side of it. -/
theorem infix_of_around {α : Type} {inner before after : List α} {mark : α}
    (unmarked : mark ∉ inner) (inside : inner <:+: before ++ mark :: after) :
    inner <:+: before ∨ inner <:+: after := by
  have marked {first second : List α} (whole : inner = first ++ mark :: second) : False :=
    unmarked (by rw [whole]; exact List.mem_append_right first List.mem_cons_self)
  rcases List.infix_append_iff.mp inside with left | right | ⟨first, second, whole, ends, begins⟩
  · exact .inl left
  · rcases List.infix_cons_iff.mp right with begins | later
    · rcases List.prefix_cons_iff.mp begins with rfl | ⟨tail, whole, _⟩
      · exact .inl List.nil_infix
      · have whole : inner = [] ++ mark :: tail := whole
        exact (marked whole).elim
    · exact .inr later
  · rcases List.prefix_cons_iff.mp begins with rfl | ⟨tail, rfl, _⟩
    · rw [whole, List.append_nil]
      exact .inl ends.isInfix
    · exact (marked whole).elim

namespace Command

def printed (lines : List String) : List Char := lines.flatMap fun line => line.toList ++ ['\n']

def success : String := "Successful!"

/-- What is printed and spans no lines is in one of the lines. -/
theorem infix_of_printed {inner : List Char} (nonempty : inner ≠ []) (oneLine : '\n' ∉ inner)
    {lines : List String} (inside : inner <:+: printed lines) :
    ∃ line ∈ lines, inner <:+: line.toList := by
  induction lines with
  | nil => exact absurd (List.infix_nil.mp inside) nonempty
  | cons line rest ih =>
    have split : printed (line :: rest) = line.toList ++ '\n' :: printed rest := by
      simp [printed]
    rw [split] at inside
    rcases infix_of_around oneLine inside with here | later
    · exact ⟨line, List.mem_cons_self, here⟩
    · obtain ⟨found, member, holds⟩ := ih later
      exact ⟨found, List.mem_cons_of_mem line member, holds⟩

/-- A line that lacks a character of the last line does not say that there was no fault. -/
def LacksSuccess (line : String) : Prop := ∃ char ∈ success.toList, char ∉ line.toList

theorem not_printed_of_lacks {lines : List String} (lacks : ∀ line ∈ lines, LacksSuccess line) :
    ¬ success.toList <:+: printed lines := by
  intro inside
  obtain ⟨line, member, holds⟩ := infix_of_printed (by decide) (by decide) inside
  obtain ⟨char, said, absent⟩ := lacks line member
  exact absent (holds.subset said)

theorem mem_padLeft {width : Nat} {text : String} {char : Char}
    (member : char ∈ (padLeft width text).toList) : char = ' ' ∨ char ∈ text.toList := by
  rw [padLeft, String.toList_append, String.toList_ofList] at member
  rcases List.mem_append.mp member with blank | inside
  · exact .inl (List.eq_of_mem_replicate blank)
  · exact .inr inside

theorem not_mem_append {char : Char} {first second : String}
    (one : char ∉ first.toList) (other : char ∉ second.toList) :
    char ∉ (first ++ second).toList := by
  rw [String.toList_append]
  exact List.not_mem_append one other

/-- A number is written with digits. -/
theorem not_mem_toString {char : Char} (noDigit : char.isDigit = false) (number : Nat) :
    char ∉ (toString number).toList := by
  have digits : (toString number).toList = Nat.toDigits 10 number := Nat.toList_repr
  rw [digits]
  intro member
  rw [Nat.isDigit_of_mem_toDigits (by decide) (by decide) member] at noDigit
  cases noDigit

/-- A number and a word are written without the mark at the end of the last line. A symbol
is not the letter after the first one, and is written without it. -/
theorem tokenText_lacks {token : Token} (lexical : token.IsLexical) :
    '!' ∉ token.text.toList ∨ 'u' ∉ token.text.toList := by
  cases token with
  | number value =>
    left
    obtain ⟨number, rfl⟩ := Int.eq_ofNat_of_zero_le lexical.1
    have digits : '!' ∉ (toString (number : Int)).toList := not_mem_toString rfl number
    exact not_mem_append (not_mem_append (by decide) digits) (by decide)
  | word text id =>
    left
    have letters : '!' ∉ text.toList := lexical.1.isSolid.lacks rfl
    have digits : '!' ∉ (toString id).toList := not_mem_toString rfl id
    simp only [Token.text]
    split
    · exact not_mem_append (not_mem_append (by decide) letters) (by decide)
    · have named : '!' ∉ ("Keyword(" ++ text ++ ", ").toList :=
        not_mem_append (not_mem_append (by decide) letters) (by decide)
      exact not_mem_append (not_mem_append named digits) (by decide)
  | symbol char =>
    right
    have other : 'u' ≠ char := by
      rintro rfl
      cases lexical.2
    have own : 'u' ∉ (String.singleton char).toList := by simpa using other
    exact not_mem_append (not_mem_append (by decide) own) (by decide)

theorem tokenLine_lacks {located : LocatedToken} (lexical : located.token.IsLexical) :
    LacksSuccess ("  " ++ padLeft 4 (toString located.line) ++ "  " ++ located.token.text) := by
  have before {char : Char} (visible : char ≠ ' ') (noDigit : char.isDigit = false) :
      char ∉ ("  " ++ padLeft 4 (toString located.line) ++ "  ").toList := by
    have blanks : char ∉ "  ".toList := by simpa using visible
    have number : char ∉ (padLeft 4 (toString located.line)).toList := by
      intro member
      rcases mem_padLeft member with blank | inside
      · exact visible blank
      · exact not_mem_toString noDigit located.line inside
    exact not_mem_append (not_mem_append blanks number) blanks
  rcases tokenText_lacks lexical with absent | absent
  · exact ⟨'!', by decide, not_mem_append (before (by decide) rfl) absent⟩
  · exact ⟨'u', by decide, not_mem_append (before (by decide) rfl) absent⟩

/-- A listing of tokens that come from a text does not say that there was no fault. -/
theorem tokenLines_lack {tokens : List LocatedToken} (lexical : AreLexical tokens) :
    ∀ line ∈ tokenLines tokens, LacksSuccess line := by
  refine List.forall_mem_append.mpr ⟨?_, ?_⟩
  · have above : LacksSuccess "" := ⟨'!', by decide, by decide⟩
    have title : LacksSuccess " Tokens:" := ⟨'!', by decide, by decide⟩
    exact List.forall_mem_cons.mpr ⟨above, List.forall_mem_singleton.mpr title⟩
  · intro line member
    obtain ⟨located, inside, rfl⟩ := List.mem_map.mp member
    exact tokenLine_lacks (lexical located inside)

end Command

end PlZero
