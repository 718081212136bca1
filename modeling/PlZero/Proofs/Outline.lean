import PlZero.Proofs.ExpressionTexts

/-!
# The outline that a printed tree shows

Each line of a printed tree is a heading at some depth: the start of a procedure or of a guarded
statement, or a whole statement without parts. What is one level further in below a heading
belongs to it. So a text shows an outline, headings with what is below each of them and what
comes next, and two formed trees have the same text exactly if they have the same outline. A
heading is told by its first word, since no name is a reserved word, and the depth of a line by
the blanks in front of it.
-/

namespace PlZero

set_option autoImplicit false

inductive Heading where
  | procedure (name : String)
  | ifThen (condition : Expression)
  | whileDo (condition : Expression)
  | assign (name : String) (value : Expression)
  | call (name : String)
  | read (name : String)
  | print (value : Expression)
  | pass
  deriving DecidableEq, Repr

namespace Heading

def keyword? : Heading → Option Keyword
  | procedure _ => some .procedureKw
  | ifThen _ => some .ifKw
  | whileDo _ => some .whileKw
  | assign .. => none
  | call _ => some .callKw
  | read _ => some .readKw
  | print _ => some .printKw
  | pass => some .passKw

def word : Heading → String
  | procedure _ => Keyword.procedureKw.spelling
  | ifThen _ => Keyword.ifKw.spelling
  | whileDo _ => Keyword.whileKw.spelling
  | assign name _ => name
  | call _ => Keyword.callKw.spelling
  | read _ => Keyword.readKw.spelling
  | print _ => Keyword.printKw.spelling
  | pass => Keyword.passKw.spelling

def rest : Heading → String
  | procedure name => " " ++ name ++ ";"
  | ifThen condition => " " ++ condition.text ++ " THEN"
  | whileDo condition => " " ++ condition.text ++ " DO"
  | assign _ value => " = " ++ value.text
  | call name => " " ++ name
  | read name => " " ++ name
  | print value => " " ++ value.text
  | pass => ""

def text (heading : Heading) : String := heading.word ++ heading.rest

def IsFormed : Heading → Prop
  | procedure name => IsName name
  | ifThen condition => condition.IsTest
  | whileDo condition => condition.IsTest
  | assign name value => IsName name ∧ value.IsArithmetic
  | call name => IsName name
  | read name => IsName name
  | print value => value.IsArithmetic
  | pass => True

theorem ofSpelling?_word {heading : Heading} (formed : heading.IsFormed) :
    Keyword.ofSpelling? heading.word = heading.keyword? := by
  cases heading with
  | assign name value =>
    obtain ⟨_, _, _, _, _, unreserved⟩ := formed.1
    exact unreserved
  | _ =>
    rw [word, Keyword.ofSpelling?_spelling]
    rfl

theorem word_isSolid {heading : Heading} (formed : heading.IsFormed) : IsSolid heading.word := by
  cases heading with
  | assign name value => exact formed.1.isSolid
  | _ =>
    rw [word]
    exact Keyword.spelling_isSolid _

theorem rest_parts (heading : Heading) : PartsWords heading.rest.toList := by
  cases heading with
  | pass => exact partsWords_nil
  | _ =>
    simp only [rest, String.toList_append, List.append_assoc]
    exact partsWords_cons (by decide) _

/-- Formed headings with one text are the same. -/
theorem eq_of_text {first second : Heading} (one : first.IsFormed) (two : second.IsFormed)
    (same : first.text = second.text) : first = second := by
  have chars : first.word.toList ++ first.rest.toList =
      second.word.toList ++ second.rest.toList := by
    rw [← String.toList_append, ← String.toList_append]
    exact congrArg String.toList same
  obtain ⟨words, rests⟩ := (word_isSolid one).determined (word_isSolid two) (rest_parts first)
    (rest_parts second) chars
  have kinds : first.keyword? = second.keyword? := by
    rw [← ofSpelling?_word one, ← ofSpelling?_word two, words]
  cases first with
  | procedure name | call name | read name =>
    cases second <;> cases kinds
    simpa [rest, String.toList_inj] using rests
  | ifThen condition | whileDo condition =>
    cases second <;> cases kinds
    have conditions := Expression.test_of_text one two
      (by simpa [rest, String.toList_inj] using rests)
    rw [conditions]
  | assign name value =>
    cases second <;> cases kinds
    have values := Expression.arithmetic_of_chars one.2 two.2 (by simpa [rest] using rests)
    cases words
    rw [values]
  | print value =>
    cases second <;> cases kinds
    have values := Expression.arithmetic_of_chars one two (by simpa [rest] using rests)
    rw [values]
  | pass =>
    cases second <;> cases kinds
    rfl

/-- The text of a heading stays in one line. -/
theorem text_in_line {heading : Heading} (formed : heading.IsFormed) :
    '\n' ∉ heading.text.toList := by
  have inWord := (word_isSolid formed).lacks (by decide : '\n'.isAlphanum = false)
  have inRest : '\n' ∉ heading.rest.toList := by
    cases heading with
    | procedure name | call name | read name => simp [rest, (IsName.isSolid formed).lacks]
    | ifThen condition | whileDo condition => simp [rest, Expression.test_in_line formed]
    | assign name value => simp [rest, Expression.arithmetic_in_line formed.2]
    | print value => simp [rest, Expression.arithmetic_in_line formed]
    | pass => decide
  rw [text, String.toList_append]
  exact List.not_mem_append inWord inRest

/-- The text of a heading does not begin with a blank. -/
theorem text_begins {heading : Heading} (formed : heading.IsFormed) :
    ∀ first ∈ heading.text.toList.head?, (first == ' ') = false := by
  obtain ⟨letter, tail, spelled, inside⟩ := (word_isSolid formed).begins
  rw [text, String.toList_append, spelled]
  rintro first ⟨⟩
  apply beq_eq_false_iff_ne.mpr
  rintro rfl
  cases inside

end Heading

theorem toList_indentation (depth : Nat) :
    (indentation depth).toList = List.replicate (4 * depth) ' ' := by
  induction depth with
  | zero => rfl
  | succ depth ih =>
    rw [indentation, List.replicate_succ, String.join_cons, String.toList_append, ← indentation, ih]
    rfl

structure Row where
  depth : Nat
  heading : Heading

namespace Row

def text (row : Row) : String := indentation row.depth ++ row.heading.text

/-- A line tells its depth and its heading. -/
theorem eq_of_text {first second : Row} (one : first.heading.IsFormed)
    (two : second.heading.IsFormed) (same : first.text = second.text) : first = second := by
  have chars : List.replicate (4 * first.depth) ' ' ++ first.heading.text.toList =
      List.replicate (4 * second.depth) ' ' ++ second.heading.text.toList := by
    rw [← toList_indentation, ← toList_indentation, ← String.toList_append,
      ← String.toList_append]
    exact congrArg String.toList same
  have blank (depth : Nat) : ∀ char ∈ List.replicate (4 * depth) ' ', (char == ' ') = true :=
    fun char member => beq_iff_eq.mpr (List.eq_of_mem_replicate member)
  obtain ⟨indentations, texts⟩ := Lexeme.runs_determined (blank _) (blank _)
    (Heading.text_begins one) (Heading.text_begins two) chars
  have widths := congrArg List.length indentations
  simp only [List.length_replicate] at widths
  have depths : first.depth = second.depth := by omega
  have headings := Heading.eq_of_text one two (String.toList_inj.mp texts)
  cases first
  cases second
  simp_all

theorem text_in_line {row : Row} (formed : row.heading.IsFormed) : '\n' ∉ row.text.toList := by
  rw [text, String.toList_append, toList_indentation]
  exact List.not_mem_append (by simp) (Heading.text_in_line formed)

end Row

theorem toList_joinLines_cons (line : String) (lines : List String) :
    (joinLines (line :: lines)).toList = line.toList ++ '\n' :: (joinLines lines).toList := by
  simp [joinLines]

/-- Lines without line ends in them end at the first one. -/
theorem line_determined {first second : String} (one : '\n' ∉ first.toList)
    (other : '\n' ∉ second.toList) {rest left : List Char}
    (same : first.toList ++ '\n' :: rest = second.toList ++ '\n' :: left) :
    first = second ∧ rest = left := by
  have inLine {line : String} (oneLine : '\n' ∉ line.toList) :
      ∀ char ∈ line.toList, (char != '\n') = true := by
    intro char member
    apply bne_iff_ne.mpr
    rintro rfl
    exact oneLine member
  have ended (behind : List Char) : ∀ next ∈ ('\n' :: behind).head?, (next != '\n') = false := by
    rintro next ⟨⟩
    rfl
  obtain ⟨texts, below⟩ :=
    Lexeme.runs_determined (inLine one) (inLine other) (ended rest) (ended left) same
  exact ⟨String.toList_inj.mp texts, (List.cons.inj below).2⟩

/-- Formed lines can be told from the text in which they stand below each other. -/
theorem rows_of_text {first second : List Row} (one : ∀ row ∈ first, row.heading.IsFormed)
    (two : ∀ row ∈ second, row.heading.IsFormed)
    (same : (joinLines (first.map Row.text)).toList = (joinLines (second.map Row.text)).toList) :
    first = second := by
  induction first generalizing second with
  | nil =>
    cases second with
    | nil => rfl
    | cons row rows =>
      rw [List.map_cons, toList_joinLines_cons] at same
      exact absurd same (by simp [joinLines])
  | cons row rows ih =>
    cases second with
    | nil =>
      rw [List.map_cons, toList_joinLines_cons] at same
      exact absurd same (by simp [joinLines])
    | cons other others =>
      obtain ⟨own, further⟩ := List.forall_mem_cons.mp one
      obtain ⟨alsoOwn, alsoFurther⟩ := List.forall_mem_cons.mp two
      rw [List.map_cons, List.map_cons, toList_joinLines_cons, toList_joinLines_cons] at same
      obtain ⟨texts, below⟩ :=
        line_determined (Row.text_in_line own) (Row.text_in_line alsoOwn) same
      rw [Row.eq_of_text own alsoOwn texts, ih further alsoFurther below]

/-- Headings below each other, each with what is further in below it. -/
inductive Outline where
  | nil
  | cons (heading : Heading) (below next : Outline)
  deriving DecidableEq, Repr

namespace Outline

def rows (depth : Nat) : Outline → List Row
  | nil => []
  | cons heading below next => ⟨depth, heading⟩ :: (below.rows (depth + 1) ++ next.rows depth)

def IsFormed : Outline → Prop
  | nil => True
  | cons heading below next => heading.IsFormed ∧ below.IsFormed ∧ next.IsFormed

theorem rows_formed {outline : Outline} (formed : outline.IsFormed) (depth : Nat) :
    ∀ row ∈ outline.rows depth, row.heading.IsFormed := by
  induction outline generalizing depth with
  | nil => exact fun row member => by cases member
  | cons heading below next ihBelow ihNext =>
    obtain ⟨own, inside, further⟩ := formed
    refine List.forall_mem_cons.mpr ⟨own, ?_⟩
    exact List.forall_mem_append.mpr ⟨ihBelow inside _, ihNext further _⟩

/-- Lines before which everything of this depth is over. -/
def IsOver (depth : Nat) (rest : List Row) : Prop := ∀ row ∈ rest.head?, row.depth < depth

theorem rows_isOver (outline : Outline) {depth : Nat} {rest : List Row} (ends : IsOver depth rest) :
    IsOver (depth + 1) (outline.rows depth ++ rest) := by
  cases outline with
  | nil => exact fun row isFirst => Nat.lt_succ_of_lt (ends row isFirst)
  | cons heading below next =>
    rintro row ⟨⟩
    exact Nat.lt_succ_self depth

/-- The lines of an outline determine it and where it ends. -/
theorem rows_determined {first second : Outline} {depth : Nat} {rest left : List Row}
    (ends : IsOver depth rest) (alsoEnds : IsOver depth left)
    (same : first.rows depth ++ rest = second.rows depth ++ left) :
    first = second ∧ rest = left := by
  induction first generalizing second depth rest left with
  | nil =>
    cases second with
    | nil => exact ⟨rfl, same⟩
    | cons heading below next =>
      have deeper := ends ⟨depth, heading⟩ (by rw [show rest = _ from same]; rfl)
      exact (Nat.lt_irrefl depth deeper).elim
  | cons heading below next ihBelow ihNext =>
    cases second with
    | nil =>
      have deeper := alsoEnds ⟨depth, heading⟩ (by rw [show left = _ from same.symm]; rfl)
      exact (Nat.lt_irrefl depth deeper).elim
    | cons other alsoBelow alsoNext =>
      simp only [rows, List.cons_append, List.append_assoc] at same
      obtain ⟨own, further⟩ := List.cons.inj same
      -- what is below ends where the next heading of this depth or of a smaller one begins
      obtain ⟨rfl, later⟩ :=
        ihBelow (rows_isOver next ends) (rows_isOver alsoNext alsoEnds) further
      obtain ⟨rfl, behind⟩ := ihNext ends alsoEnds later
      cases own
      exact ⟨rfl, behind⟩

end Outline

def Statement.outline (next : Outline) : Statement → Outline
  | ifThen condition body => .cons (.ifThen condition) (body.outline .nil) next
  | whileDo condition body => .cons (.whileDo condition) (body.outline .nil) next
  | assign name value => .cons (.assign name value) .nil next
  | pair first second => first.outline (second.outline next)
  | call name => .cons (.call name) .nil next
  | read name => .cons (.read name) .nil next
  | print value => .cons (.print value) .nil next
  | pass => .cons .pass .nil next

def Block.outline : Block → Outline
  | procedure name body rest => .cons (.procedure name) body.outline rest.outline
  | statement final => final.outline .nil

theorem Statement.outline_isFormed {statement : Statement} (formed : statement.IsFormed)
    {next : Outline} (further : next.IsFormed) : (statement.outline next).IsFormed := by
  induction statement generalizing next with
  | ifThen condition body ih | whileDo condition body ih =>
    exact ⟨formed.1, ih formed.2 trivial, further⟩
  | pair first second ihFirst ihSecond => exact ihFirst formed.1 (ihSecond formed.2 further)
  | assign | call | read | print | pass => exact ⟨formed, trivial, further⟩

theorem Block.outline_isFormed {block : Block} (formed : block.IsFormed) :
    block.outline.IsFormed := by
  induction block with
  | procedure name body rest ihBody ihRest =>
    exact ⟨formed.1, ihBody formed.2.1, ihRest formed.2.2⟩
  | statement final => exact Statement.outline_isFormed formed trivial

theorem Statement.lines_eq_rows (statement : Statement) (next : Outline) (depth : Nat) :
    ((statement.outline next).rows depth).map Row.text =
      statement.lines depth ++ (next.rows depth).map Row.text := by
  induction statement generalizing next depth with
  | ifThen condition body ih | whileDo condition body ih =>
    have inside := ih .nil (depth + 1)
    rw [Outline.rows, List.map_nil, List.append_nil] at inside
    rw [outline, Outline.rows, List.map_cons, List.map_append, inside, lines, List.cons_append]
    refine congrArg (List.cons · _) (String.toList_inj.mp ?_)
    simp [Row.text, Heading.text, Heading.word, Heading.rest, Keyword.spelling]
  | pair first second ihFirst ihSecond =>
    rw [outline, ihFirst, ihSecond, lines, List.append_assoc]
  | assign | call | read | print | pass =>
    rw [outline, Outline.rows, Outline.rows, List.nil_append, List.map_cons, lines,
      List.singleton_append]
    refine congrArg (List.cons · _) (String.toList_inj.mp ?_)
    simp [Row.text, Heading.text, Heading.word, Heading.rest, Keyword.spelling]

theorem Block.lines_eq_rows (block : Block) (depth : Nat) :
    (block.outline.rows depth).map Row.text = block.lines depth := by
  induction block generalizing depth with
  | procedure name body rest ihBody ihRest =>
    rw [outline, Outline.rows, List.map_cons, List.map_append, ihBody, ihRest, lines]
    refine congrArg (List.cons · _) (String.toList_inj.mp ?_)
    simp [Row.text, Heading.text, Heading.word, Heading.rest, Keyword.spelling]
  | statement final =>
    have whole := final.lines_eq_rows .nil depth
    rwa [Outline.rows, List.map_nil, List.append_nil] at whole

/-- Formed blocks have one text exactly if they show one outline. -/
theorem Block.text_eq_iff_outline {first second : Block} (one : first.IsFormed)
    (two : second.IsFormed) : first.text = second.text ↔ first.outline = second.outline := by
  have shown (block : Block) : block.text = joinLines ((block.outline.rows 0).map Row.text) := by
    rw [text, lines_eq_rows]
  constructor
  · intro same
    rw [shown, shown] at same
    have lines := rows_of_text (Outline.rows_formed (outline_isFormed one) 0)
      (Outline.rows_formed (outline_isFormed two) 0) (by rw [same])
    have ends : Outline.IsOver 0 [] := fun row member => by cases member
    have whole : first.outline.rows 0 ++ [] = second.outline.rows 0 ++ [] := by rw [lines]
    exact (Outline.rows_determined ends ends whole).1
  · intro same
    rw [shown, shown, same]

end PlZero
