import PlZero.Proofs.LineEnds
import PlZero.Proofs.MaximalMunch

/-!
# Joined texts

Texts may be scanned one after the other, each from the line that the one before it has
reached, or they may be put together with a blank between them and scanned as one. It
comes to the same, as long as the blank ends no line: no lexeme goes on behind it, and
the line ends on its two sides are counted apart. A fault in one text is the end of it in
both cases.
-/

namespace PlZero

set_option autoImplicit false

namespace Text

structure IsGap (char : Char) : Prop where
  blank : isBlank char = true
  noFeed : char ≠ '\n'
  noReturn : char ≠ '\r'

theorem takeWhile_of_blank {chars : List Char} (blank : chars.dropWhile isBlank = []) :
    chars.takeWhile isBlank = chars := by
  have all := List.takeWhile_append_dropWhile (p := isBlank) (l := chars)
  rwa [blank, List.append_nil] at all

/-- The line ends on the two sides of a gap never make a pair. -/
theorem lineEnds_gap {gap : Char} (isGap : IsGap gap) (first : List Char) :
    lineEnds (first ++ [gap]) = lineEnds first := by
  have apart : first.getLast? = some '\r' → [gap].head? ≠ some '\n' := by
    intro _ feed
    exact isGap.noFeed (Option.some.inj feed)
  have none : lineEnds [gap] = 0 := by
    rw [lineEnds_cons]
    simp [endsLine, isGap.noFeed, isGap.noReturn, lineEnds]
  rw [lineEnds_append apart, none, Nat.add_zero]

end Text

/-- A lexeme that is cut off before a gap does not depend on what comes after the gap. -/
theorem Lexeme.cut_append_gap {gap : Char} (isGap : Text.IsGap gap) {first : Char}
    (visible : Text.isBlank first = false) (rest second : List Char) :
    cut first (rest ++ gap :: second) =
      ((cut first rest).1, (cut first rest).2 ++ gap :: second) := by
  have whole := isWhole_cut visible rest
  have ends : EndsBefore (cut first rest).1 ((cut first rest).2 ++ gap :: second) := by
    cases left : (cut first rest).2 with
    | nil => exact endsBefore_blank _ second isGap.blank
    | cons next after =>
      have own := endsBefore_cut first rest
      rw [left] at own
      exact own
  have all := cut_append first rest
  generalize (cut first rest).1 = lexeme, (cut first rest).2 = left at whole ends all ⊢
  cases lexeme with
  | nil => cases whole
  | cons own tail =>
    obtain ⟨rfl, inside⟩ := List.cons.inj all
    have rejoined : rest ++ gap :: second = tail ++ (left ++ gap :: second) := by
      rw [← inside]
      exact List.append_assoc tail left _
    rw [rejoined]
    exact cut_of_whole whole ends

namespace Scan

/-- Go on with another scan from the line that was reached. After a fault there is none. -/
def followedBy (scan : Scan) (next : Nat → Scan) : Scan :=
  match scan.fault? with
  | some _ => scan
  | none =>
    let more := next scan.line
    ⟨scan.tokens ++ more.tokens, more.line, more.fault?⟩

/-- Scan texts one after the other with one running line number, up to the first fault. -/
def ofSources (line : Nat) : List String → Scan
  | [] => ⟨[], line, none⟩
  | source :: others => (ofSource line source).followedBy fun reached => ofSources reached others

theorem cons_followedBy (token : LocatedToken) (scan : Scan) (next : Nat → Scan) :
    (cons token scan).followedBy next = cons token (scan.followedBy next) := by
  obtain ⟨tokens, line, fault?⟩ := scan
  cases fault? <;> rfl

theorem followedBy_nothing (scan : Scan) :
    scan.followedBy (fun reached => ⟨[], reached, none⟩) = scan := by
  obtain ⟨tokens, line, fault?⟩ := scan
  cases fault? with
  | none => simp only [followedBy, List.append_nil]
  | some fault => rfl

theorem followedBy_of_fault {scan : Scan} {fault : Fault} (failed : scan.result = .error fault)
    (next : Nat → Scan) : scan.followedBy next = scan := by
  obtain ⟨tokens, line, fault?⟩ := scan
  cases fault? with
  | none => cases failed
  | some own => rfl

theorem followedBy_of_tokens {scan : Scan} {tokens : List LocatedToken}
    (scanned : scan.result = .ok tokens) (next : Nat → Scan) :
    (scan.followedBy next).result = (next scan.line).result.map (tokens ++ ·) ∧
      (scan.followedBy next).line = (next scan.line).line := by
  obtain ⟨own, line, fault?⟩ := scan
  cases fault? with
  | some fault => cases scanned
  | none =>
    cases scanned
    refine ⟨?_, rfl⟩
    simp only [followedBy, result]
    cases (next line).fault? <;> rfl

theorem ofChars_of_blank (line : Nat) {chars : List Char}
    (blank : chars.dropWhile Text.isBlank = []) :
    ofChars line chars = ⟨[], lineAfter line (Text.lineEnds chars), none⟩ := by
  rw [ofChars, Layout.ofChars_of_blank blank, Text.takeWhile_of_blank blank]
  rfl

/-- The first lexeme of a text is read, and the scan goes on behind it. -/
theorem ofChars_of_visible (line : Nat) {chars rest : List Char} {first : Char}
    (visible : chars.dropWhile Text.isBlank = first :: rest) :
    ofChars line chars =
      let here := lineAfter line (Text.lineEnds (chars.takeWhile Text.isBlank))
      match Lexeme.token? (Lexeme.cut first rest).1 with
      | none => ⟨[], here, some (.invalidNumber (String.ofList (Lexeme.cut first rest).1) here)⟩
      | some token => cons ⟨token, here⟩ (ofChars here (Lexeme.cut first rest).2) := by
  rw [ofChars, Layout.ofChars_of_visible visible]
  rfl

/-- Blanks at the front of a text only move it down by the lines that end in them. -/
theorem ofChars_after_blanks (line : Nat) {blanks chars : List Char}
    (allBlank : ∀ char ∈ blanks, Text.isBlank char = true)
    (apart : blanks.getLast? ≠ some '\r') :
    ofChars line (blanks ++ chars) = ofChars (lineAfter line (Text.lineEnds blanks)) chars := by
  have dropped : (blanks ++ chars).dropWhile Text.isBlank = chars.dropWhile Text.isBlank :=
    List.dropWhile_append_of_pos allBlank
  have taken : (blanks ++ chars).takeWhile Text.isBlank =
      blanks ++ chars.takeWhile Text.isBlank := List.takeWhile_append_of_pos allBlank
  have sum (others : List Char) : lineAfter line (Text.lineEnds (blanks ++ others)) =
      lineAfter (lineAfter line (Text.lineEnds blanks)) (Text.lineEnds others) := by
    rw [Text.lineEnds_append fun carriage => absurd carriage apart, lineAfter_add]
  cases visible : chars.dropWhile Text.isBlank with
  | nil =>
    rw [ofChars_of_blank _ visible, ofChars_of_blank line (dropped.trans visible), sum]
  | cons first rest =>
    rw [ofChars_of_visible _ visible, ofChars_of_visible line (dropped.trans visible), taken, sum]

theorem ofChars_joined (line : Nat) {gap : Char} (isGap : Text.IsGap gap)
    (first second : List Char) :
    ofChars line (first ++ gap :: second) =
      (ofChars line first).followedBy fun reached => ofChars reached second := by
  induction first using Layout.ofChars.induct generalizing line with
  | case1 first blank =>
    -- there are only blanks, and with the gap they still are blanks in front of the second text
    have allBlank : ∀ char ∈ first ++ [gap], Text.isBlank char = true := by
      intro char member
      rcases List.mem_append.mp member with inFirst | isLast
      · exact Lexeme.all_of_takeWhile (Text.takeWhile_of_blank blank) char inFirst
      · rw [List.mem_singleton.mp isLast]
        exact isGap.blank
    have apart : (first ++ [gap]).getLast? ≠ some '\r' := by
      rw [List.getLast?_concat]
      intro carriage
      exact isGap.noReturn (Option.some.inj carriage)
    have split : first ++ gap :: second = (first ++ [gap]) ++ second := by simp
    rw [split, ofChars_after_blanks line allBlank apart, Text.lineEnds_gap isGap,
      ofChars_of_blank line blank]
    rfl
  | case2 first char rest visible _ ih =>
    -- the first lexeme is cut off before the gap, and the rest of the text goes on to it
    have notBlank : Text.isBlank char = false := by
      have stopped := List.head?_dropWhile_not Text.isBlank first
      rwa [visible] at stopped
    have split : first ++ gap :: second =
        first.takeWhile Text.isBlank ++ char :: (rest ++ gap :: second) := by
      have all := List.takeWhile_append_dropWhile (p := Text.isBlank) (l := first)
      rw [visible] at all
      rw [← List.cons_append, ← List.append_assoc, all]
    have inside : ∀ blank ∈ first.takeWhile Text.isBlank, Text.isBlank blank = true :=
      List.all_eq_true.mp List.all_takeWhile
    have boundary : ∀ next ∈ (char :: (rest ++ gap :: second)).head?,
        Text.isBlank next = false := by
      intro next isNext
      cases isNext
      exact notBlank
    obtain ⟨taken, dropped⟩ := Lexeme.takeWhile_of_boundary inside boundary
    rw [← split] at taken dropped
    rw [ofChars_of_visible line visible, ofChars_of_visible line dropped, taken,
      Lexeme.cut_append_gap isGap notBlank]
    cases Lexeme.token? (Lexeme.cut char rest).1 with
    | none => rfl
    | some token =>
      simp only [cons_followedBy]
      rw [ih]

theorem ofSource_joined (line : Nat) {gap : Char} (isGap : Text.IsGap gap)
    (first second : String) :
    ofSource line (first ++ String.singleton gap ++ second) =
      (ofSource line first).followedBy fun reached => ofSource reached second := by
  have chars : (first ++ String.singleton gap ++ second).toList =
      first.toList ++ gap :: second.toList := by simp
  unfold ofSource
  rw [chars]
  exact ofChars_joined line isGap first.toList second.toList

theorem ofSource_intercalate (line : Nat) {gap : Char} (isGap : Text.IsGap gap)
    (sources : List String) :
    ofSource line ((String.singleton gap).intercalate sources) = ofSources line sources := by
  induction sources generalizing line with
  | nil =>
    rw [String.intercalate_nil]
    exact ofChars_of_blank line rfl
  | cons source others ih =>
    cases others with
    | nil =>
      rw [String.intercalate_singleton]
      exact (followedBy_nothing _).symm
    | cons next others =>
      rw [String.intercalate_cons_cons, ofSource_joined line isGap, ofSources]
      exact congrArg _ (funext ih)

end Scan

/-- Two texts with a gap between them are scanned as the first one and then, from the line that was
reached, the second one, unless the first one has a fault. So texts joined by gaps are scanned as
they are one after the other. -/
theorem joined_texts_scan_in_turn (line : Nat) {gap : Char} (isGap : Text.IsGap gap) :
    (∀ first second : String,
      let early := Scan.ofSource line first
      let late := Scan.ofSource early.line second
      let joined := Scan.ofSource line (first ++ String.singleton gap ++ second)
      (∀ fault, early.result = .error fault →
        joined.result = .error fault ∧ joined.line = early.line) ∧
      ∀ tokens, early.result = .ok tokens →
        joined.result = late.result.map (tokens ++ ·) ∧ joined.line = late.line) ∧
    ∀ sources : List String,
      Scan.ofSource line ((String.singleton gap).intercalate sources) =
        Scan.ofSources line sources := by
  constructor
  · intro first second early late joined
    have whole : joined = early.followedBy fun reached => Scan.ofSource reached second :=
      Scan.ofSource_joined line isGap first second
    constructor
    · intro fault failed
      rw [whole, Scan.followedBy_of_fault failed]
      exact ⟨failed, rfl⟩
    · intro tokens scanned
      rw [whole]
      exact Scan.followedBy_of_tokens scanned _
  · exact Scan.ofSource_intercalate line isGap

/-- A carriage return before a form feed and a line feed behind it end two lines. The text behind a
tab is not read when the number before it is too large. -/
theorem form_feed_and_tab_part_texts :
    (Scan.ofSource 1 "a=\r\x0c\n=b").result =
        .ok [⟨.identifier "a", 1⟩, ⟨.symbol '=', 1⟩, ⟨.symbol '=', 3⟩, ⟨.identifier "b", 3⟩] ∧
      (Scan.ofSource 1 "\n9223372036854775808\t7").result =
        .error (.invalidNumber "9223372036854775808" 2) := by
  constructor
  · have isGap : Text.IsGap '\x0c' := ⟨rfl, by decide, by decide⟩
    have early : Scan.ofSource 1 "a=\r" =
        ⟨[⟨.identifier "a", 1⟩, ⟨.symbol '=', 1⟩], 2, none⟩ := by decide +kernel
    have late : Scan.ofSource 2 "\n=b" =
        ⟨[⟨.symbol '=', 3⟩, ⟨.identifier "b", 3⟩], 3, none⟩ := by decide +kernel
    have joined := (joined_texts_scan_in_turn 1 isGap).1 "a=\r" "\n=b"
    simp only [early, late] at joined
    exact (joined.2 _ rfl).1
  · have isGap : Text.IsGap '\t' := ⟨rfl, by decide, by decide⟩
    have early : Scan.ofSource 1 "\n9223372036854775808" =
        ⟨[], 2, some (.invalidNumber "9223372036854775808" 2)⟩ := by decide +kernel
    have joined := (joined_texts_scan_in_turn 1 isGap).1 "\n9223372036854775808" "7"
    simp only [early] at joined
    exact (joined.1 _ rfl).1

end PlZero
