import PlZero.Proofs.Lines
import PlZero.Proofs.Program
import PlZero.Proofs.Rendering.Names
import PlZero.Proofs.Rendering.Reading

/-!
# Written trees come back

Writing a tree as a program and reading the text gives the tree back, in whatever
way the lexemes are laid out with blanks and lines. The levels that are needed are
known from the tree, and there are never more of them than lexemes.
-/

namespace PlZero

set_option autoImplicit false

def Block.programTokens (block : Block) (order : List String) : List Token :=
  (tokensOf (block.programMarks order)).map LocatedToken.token ++ [.symbol '.']

theorem program_reads {block : Block} (formed : block.IsFormed) {order : List String}
    (areNames : ∀ name ∈ order, IsName name) :
    (block.program order).map reading? = (block.programTokens order).map some := by
  have inside : Reads (declarationLexemes order ++ block.lexemes)
      (block.programMarks order) :=
    reads_bordered (reads_append (reads_declaration areNames) (Block.reads_marks formed))
  have period : ["."].map reading? = [Token.symbol '.'].map some := rfl
  rw [Block.program, ← List.append_assoc, List.map_append, inside, period, Block.programTokens,
    List.map_append, List.map_map]
  rfl

/-- Any text with the lexemes of a written tree is scanned to its tokens, on some lines. -/
theorem scan_of_program {block : Block} (formed : block.IsFormed) {order : List String}
    (areNames : ∀ name ∈ order, IsName name) {layout : Layout} (spaced : layout.IsSpaced)
    (written : layout.pieces.map (fun piece => String.ofList piece.lexeme) =
      block.program order) (line : Nat) :
    ∃ located, (Scan.ofChars line layout.chars).result = .ok located ∧
      located.map LocatedToken.token = block.programTokens order := by
  have reads := program_reads formed areNames
  rw [← written, List.map_map] at reads
  have eachReads : ∀ piece ∈ layout.pieces,
      Lexeme.isWhole piece.lexeme = true ∧
        Lexeme.token? piece.lexeme = reading? (String.ofList piece.lexeme) := by
    intro piece member
    have inside : reading? (String.ofList piece.lexeme) ∈
        (block.programTokens order).map some := by
      rw [← reads]
      exact List.mem_map_of_mem member
    obtain ⟨token, _, same⟩ := List.mem_map.mp inside
    have known := reading?_eq_some same.symm
    rw [String.toList_ofList] at known
    exact ⟨known.1, known.2.trans same⟩
  have whole : ∀ piece ∈ layout.pieces, Lexeme.isWhole piece.lexeme = true :=
    fun piece member => (eachReads piece member).1
  have tokens : layout.pieces.map (fun piece => Lexeme.token? piece.lexeme) =
      (block.programTokens order).map some := by
    rw [← reads]
    exact List.map_congr_left fun piece member => (eachReads piece member).2
  obtain ⟨located, last, scanned, spelled⟩ := Scan.ofChars_tokens line spaced whole tokens
  rw [scanned]
  exact ⟨located, rfl, spelled⟩

/-- The tokens of a derivation with its names in order, and a period, are accepted on any lines. -/
theorem parse_on_any_lines (table : SymbolTable) {limit : Nat} {marks : List Mark} {block : Block}
    (derived : IsBlock limit marks block) (inOrder : ObeysScoping table.lookup? marks)
    {located : List LocatedToken}
    (spelled : located.map LocatedToken.token =
      (tokensOf marks).map LocatedToken.token ++ [.symbol '.']) :
    Parser.result (Parser.parse limit (Parser.start located table)) = .ok ⟨block, true⟩ := by
  obtain ⟨inside, last, rfl, same, period⟩ := List.map_eq_append_iff.mp spelled
  obtain ⟨⟨token, line⟩, rest, rfl, rfl, empty⟩ := List.map_eq_cons_iff.mp period
  obtain rfl := List.map_eq_nil_iff.mp empty
  obtain ⟨others, alike, rfl⟩ := alike_of_tokens _ inside same
  have again := block_ignores_lines limit _ others block derived alike
  obtain ⟨final, passed⟩ := obeysScoping_iff_pass.mp (obeysScoping_of_alike alike inOrder)
  have whole : tokensOf others ++ [⟨.symbol '.', line⟩] =
      tokensOf others ++ ⟨.symbol '.', line⟩ :: [] := rfl
  have read := Parser.parse_of_derived table again whole
  rw [passed] at read
  obtain ⟨after, outcome, _⟩ := read
  rw [outcome]
  rfl

/-- The tokens of a written tree are accepted on any lines, and they give the tree. -/
theorem parse_written_tokens {block : Block} (renderable : block.IsRenderable)
    {order : List String} (once : order.Nodup)
    (all : ∀ name, name ∈ order ↔ name ∈ block.usedNames) {limit : Nat}
    (enough : block.height ≤ limit) {located : List LocatedToken}
    (spelled : located.map LocatedToken.token = block.programTokens order) :
    Parser.result (Parser.parse limit (Parser.start located .empty)) = .ok ⟨block, true⟩ :=
  parse_on_any_lines .empty (block_of_formed renderable.formed order enough)
    (marks_obey_scoping renderable once all _) spelled

/-- A tree that is written as a program, with its lexemes in any spaced layout, is read back where
its height is allowed. As many levels as there are lexemes are always enough. -/
theorem check_written_tree {block : Block} (renderable : block.IsRenderable)
    {order : List String} (once : order.Nodup)
    (all : ∀ name, name ∈ order ↔ name ∈ block.usedNames) {layout : Layout}
    (spaced : layout.IsSpaced)
    (written : layout.pieces.map (fun piece => String.ofList piece.lexeme) =
      block.program order) :
    block.height ≤ (block.program order).length ∧
      ∀ limit, block.height ≤ limit →
        check limit (String.ofList layout.chars) = .ok ⟨block, true⟩ := by
  have areNames : ∀ name ∈ order, IsName name := by
    intro name member
    exact Block.usedNames_are_names renderable.formed name ((all name).mp member)
  constructor
  · have own := block.height_le_length
    simp only [Block.program, List.length_append, List.length_cons, List.length_nil]
    omega
  · intro limit enough
    obtain ⟨located, scanned, spelled⟩ :=
      scan_of_program renderable.formed areNames spaced written firstLine
    have accepted := parse_written_tokens renderable once all enough spelled
    rw [check, Scan.ofSource, String.toList_ofList, scanned]
    exact accepted

def spread (lexemes : List String) : Layout :=
  ⟨lexemes.map fun lexeme => ⟨[' '], lexeme.toList⟩, []⟩

theorem spread_isSpaced (lexemes : List String) : (spread lexemes).IsSpaced := by
  apply Layout.spaced_of_blanks
  · intro char member
    cases member
  · intro piece member
    obtain ⟨lexeme, _, rfl⟩ := List.mem_map.mp member
    refine ⟨List.cons_ne_nil _ _, ?_⟩
    intro char isBlank
    rw [List.mem_singleton.mp isBlank]
    rfl

theorem spread_lexemes (lexemes : List String) :
    (spread lexemes).pieces.map (fun piece => String.ofList piece.lexeme) = lexemes := by
  simp [spread, Function.comp_def]

theorem check_negative_printed :
    check 5 " VAR x ; BEGIN x = ( - 2 ) ; PRINT x END ." =
      .ok ⟨.statement (.pair (.assign "x" (.negate (.number 2))) (.print (.identifier "x"))),
        true⟩ := by
  have isX : IsName "x" := ⟨'x', [], rfl, rfl, by simp, rfl⟩
  have isTwo : (Expression.number 2).IsArithmetic := ⟨by decide, by decide⟩
  have renderable : (Block.statement (.pair (.assign "x" (.negate (.number 2)))
      (.print (.identifier "x")))).IsRenderable := {
    formed := ⟨⟨isX, isTwo⟩, isX⟩
    distinct := trivial
    declared := fun name member => by cases member
    disjoint := fun name _ member => by cases member }
  have all : ∀ name, name ∈ ["x"] ↔ name ∈ (Block.statement (.pair
      (.assign "x" (.negate (.number 2))) (.print (.identifier "x")))).usedNames := by
    simp [Block.usedNames, Statement.usedNames, Expression.names]
  have written := check_written_tree renderable (by decide) all (spread_isSpaced _)
    (spread_lexemes _)
  exact written.2 5 (by decide)

end PlZero
