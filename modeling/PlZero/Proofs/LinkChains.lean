import PlZero.Proofs.NestingLinks
import PlZero.Proofs.Program
import PlZero.Proofs.Rendering.Derivation

/-!
# What the nesting limit bounds in a tree

A limit bounds how many links that take a level come on one way down a tree. It bounds no others:
the procedures of one block, the members of one group and the operations that group to the left
can follow each other in any number under a limit of three levels. For each of these there is a
program with as many of them as wanted, and its tree is known from its derivation.
-/

namespace PlZero

set_option autoImplicit false

theorem repeated_map {α β : Type} {item : Grammar α} {marks : β → List Mark} {value : β → α}
    (each : ∀ index, item (marks index) (value index)) (indices : List β) :
    Repeated item (indices.flatMap marks) (indices.map value) := by
  induction indices with
  | nil => exact .none
  | cons index indices ih =>
    rw [List.flatMap_cons]
    exact .more (each index) ih

theorem madeOf_flatMap {β : Type} {good : Mark → Prop} {marks : β → List Mark}
    (each : ∀ index, MadeOf good (marks index)) (indices : List β) :
    MadeOf good (indices.flatMap marks) := by
  intro mark member
  obtain ⟨index, _, own⟩ := List.mem_flatMap.mp member
  exact each index mark own

/-- A token that is no name. -/
def Mark.IsPlain (mark : Mark) : Prop := ∃ located, mark = .plain located

@[simp] theorem Mark.plain_isPlain (located : LocatedToken) : (Mark.plain located).IsPlain :=
  ⟨located, rfl⟩

@[simp] theorem Mark.keyword_isPlain (keyword : Keyword) (text : String) (line : Nat) :
    (Mark.keyword keyword text line).IsPlain := ⟨_, rfl⟩

@[simp] theorem Mark.symbol_isPlain (char : Char) (line : Nat) : (Mark.symbol char line).IsPlain :=
  ⟨_, rfl⟩

theorem Scopes.pass_of_plain (outer : String → Option SymbolKind) (scopes : Scopes)
    {marks : List Mark} (plain : MadeOf Mark.IsPlain marks) :
    pass outer scopes marks = .ok scopes := by
  induction marks with
  | nil => rfl
  | cons mark marks ih =>
    obtain ⟨⟨located, rfl⟩, others⟩ := madeOf_cons.mp plain
    exact ih others

theorem ofProcedures_chain (declared : List (String × Block)) {final : Statement}
    (last : (Node.statement final).links = []) :
    (Node.block (.ofProcedures declared final)).Path
      (List.replicate declared.length .continuation ++ [.part]) := by
  induction declared with
  | nil => exact .down List.mem_cons_self (.leaf last)
  | cons one declared ih => exact .down (List.mem_cons_of_mem _ List.mem_cons_self) ih

theorem sequence_chain {last : Statement} (final : (Node.statement last).links = [])
    (others : List Statement) :
    (Node.statement (.sequence (others ++ [last]))).Path
      (List.replicate others.length .follower) := by
  induction others with
  | nil => exact .leaf final
  | cons first others ih =>
    have paired : Statement.sequence (first :: (others ++ [last])) =
        .pair first (.sequence (others ++ [last])) := by cases others <;> rfl
    rw [List.cons_append, paired]
    exact .down (List.mem_cons_of_mem _ List.mem_cons_self) ih

theorem applyAll_chain {operations : List (ArithmeticOperator × Expression)} {left : Expression}
    {path : List Link} (additive : ∀ operation ∈ operations, operation.1.isAdditive = true)
    (way : (Node.expression left).Path path) :
    (Node.expression (Parser.applyAll left operations)).Path
      (List.replicate operations.length .leftOperand ++ path) := by
  induction operations generalizing left path with
  | nil => exact way
  | cons operation operations ih =>
    obtain ⟨own, others⟩ := List.forall_mem_cons.mp additive
    have member : (.leftOperand, .expression left) ∈
        (Node.expression (.arithmetic operation.1 left operation.2)).links := by
      rw [Node.links, own]
      exact List.mem_cons_self
    have further := ih others (.down member way)
    rw [List.length_cons, List.replicate_succ', List.append_assoc]
    exact further

theorem parsed_of_derived {limit : Nat} (table : SymbolTable) {marks : List Mark} {value : Block}
    {last : Scopes} (derived : IsBlock limit marks value)
    (clean : Scopes.pass table.lookup? [] marks = .ok last) :
    ∃ tokens, Parser.result (Parser.parse limit (Parser.start tokens table)) =
      .ok ⟨value, true⟩ := by
  have spelled : tokensOf marks ++ [⟨.symbol '.', 1⟩] = tokensOf marks ++ ⟨.symbol '.', 1⟩ :: [] :=
    rfl
  have agreed := Parser.parse_of_derived table derived spelled
  rw [clean] at agreed
  obtain ⟨after, parsed, _⟩ := agreed
  exact ⟨_, congrArg Parser.result parsed⟩

theorem block_of_procedures {limit : Nat} {procedures marks : List Mark}
    {declared : List (String × Block)} {final : Statement}
    (third : Repeated (IsProcedure (IsBlock limit)) procedures declared)
    (last : IsStatement limit marks final) :
    IsBlock (limit + 1) (.enter :: ((procedures ++ marks) ++ [.leave]))
      (.ofProcedures declared final) :=
  Bordered.mk (IsBlockBody.mk .absent .absent third last)

/-- A program without declarations is its statement. -/
theorem parsed_of_statement {limit : Nat} (table : SymbolTable) {marks : List Mark}
    {value : Statement} (derived : IsStatement limit marks value)
    (plain : MadeOf Mark.IsPlain marks) :
    ∃ tokens, Parser.result (Parser.parse (limit + 1) (Parser.start tokens table)) =
      .ok ⟨.statement value, true⟩ := by
  apply parsed_of_derived table (block_of_procedures .none derived)
  rw [List.nil_append, Scopes.pass_bordered, Scopes.pass_of_plain table.lookup? [[]] plain]

def blankProcedureMarks (name : String) : List Mark :=
  [.keyword .procedureKw "PROCEDURE" 1, .declare .procedure name 1, .symbol ';' 1, .enter, .leave,
    .symbol ';' 1]

theorem pass_blankProcedures (outer : String → Option SymbolKind) (around : Scopes)
    (names : List String) (scope : List Symbol) (once : names.Nodup)
    (fresh : ∀ name ∈ names, name ∉ scope.map Symbol.name) :
    ∃ last, Scopes.pass outer (scope :: around) (names.flatMap blankProcedureMarks) =
      .ok (last :: around) := by
  induction names generalizing scope with
  | nil => exact ⟨scope, rfl⟩
  | cons name names ih =>
    obtain ⟨notLater, onceLater⟩ := List.nodup_cons.mp once
    obtain ⟨own, others⟩ := List.forall_mem_cons.mp fresh
    obtain ⟨last, passed⟩ := ih _ onceLater (Scopes.fresh_behind notLater others .procedure 1)
    refine ⟨last, ?_⟩
    rw [List.flatMap_cons, blankProcedureMarks]
    simp only [List.cons_append, List.nil_append]
    rw [Scopes.pass_keyword, Scopes.pass_declare own]
    exact passed

def numberedName (number : Nat) : String := String.ofList (List.replicate (number + 1) 'p')

theorem numberedName_injective : Function.Injective numberedName := by
  intro first second same
  have length := congrArg String.length same
  simpa [numberedName] using length

/-- Any number of links of one kind can follow each other in a tree that was read with as many
levels. -/
def ChainsWithin (limit : Nat) (link : Link) : Prop :=
  ∀ count, ∃ tokens block path,
    Parser.result (Parser.parse limit (Parser.start tokens .empty)) = .ok ⟨block, true⟩ ∧
    (Node.block block).Path path ∧ List.replicate count link <:+: path

theorem continuations_chain : ChainsWithin 3 .continuation := by
  intro count
  let names := (List.range count).map numberedName
  have once : names.Nodup := List.Pairwise.map numberedName
    (fun _ _ different same => different (numberedName_injective same)) List.nodup_range
  have blank : IsStatement 1 [] .pass := IsStatementBody.empty
  have each (name : String) :
      IsProcedure (IsBlock 2) (blankProcedureMarks name) (name, .statement .pass) :=
    .mk "PROCEDURE" 1 name 1 1 1 (block_of_procedures .none blank)
  have final : IsStatement 2 [] .pass := IsStatementBody.empty
  have derived := block_of_procedures (repeated_map each names) final
  obtain ⟨last, passed⟩ := pass_blankProcedures SymbolTable.empty.lookup? [] names [] once
    fun _ _ member => by cases member
  have clean : Scopes.pass SymbolTable.empty.lookup? []
      (.enter :: ((names.flatMap blankProcedureMarks ++ []) ++ [.leave])) = .ok [] := by
    rw [List.append_nil, Scopes.pass_bordered, passed]
    rfl
  obtain ⟨tokens, parsed⟩ := parsed_of_derived .empty derived clean
  have chain := ofProcedures_chain (names.map fun name => (name, .statement .pass))
    (rfl : (Node.statement .pass).links = [])
  rw [List.length_map, List.length_map, List.length_range] at chain
  exact ⟨tokens, _, _, parsed, chain, (List.prefix_append _ _).isInfix⟩

theorem followers_chain : ChainsWithin 3 .follower := by
  intro count
  have blank : IsStatement 1 [] .pass := IsStatementBody.empty
  have each (number : Nat) : Led ';' (IsStatement 1) [.symbol ';' 1] .pass := .mk 1 blank
  have members := repeated_map each (List.range count)
  have derived : IsStatement 2 _ _ := IsStatementBody.group "BEGIN" 1 "END" 1 blank members
  have plain : MadeOf Mark.IsPlain ((List.range count).flatMap fun _ => [.symbol ';' 1]) :=
    madeOf_flatMap (by simp) _
  obtain ⟨tokens, parsed⟩ := parsed_of_statement .empty derived (by simp [plain])
  have chain := sequence_chain (rfl : (Node.statement .pass).links = [])
    (List.replicate count .pass)
  rw [← List.replicate_succ', List.length_replicate] at chain
  rw [List.map_const', List.length_range] at parsed
  exact ⟨tokens, _, _, parsed, .down List.mem_cons_self chain, (List.suffix_cons _ _).isInfix⟩

theorem leftOperands_chain : ChainsWithin 3 .leftOperand := by
  intro count
  have one : IsTerm (IsExpression 0) [.plain ⟨.number 1, 1⟩] (.number 1) :=
    term_of_factor (.number 1 1)
  have each (number : Nat) : IsOperation true (IsTerm (IsExpression 0))
      [.symbol '+' 1, .plain ⟨.number 1, 1⟩] (.add, .number 1) := .mk .add 1 rfl one
  have operations := repeated_map each (List.range count)
  have derived : IsStatement 2 _ _ :=
    IsStatementBody.print "PRINT" 1 (IsExpressionBody.plain one operations)
  have plain : MadeOf Mark.IsPlain
      ((List.range count).flatMap fun _ => [.symbol '+' 1, .plain ⟨.number 1, 1⟩]) :=
    madeOf_flatMap (by simp) _
  obtain ⟨tokens, parsed⟩ := parsed_of_statement .empty derived (by simp [plain])
  have additive : ∀ operation ∈ (List.range count).map fun _ =>
      (ArithmeticOperator.add, Expression.number 1), operation.1.isAdditive = true := by
    simp [ArithmeticOperator.isAdditive]
  have chain := applyAll_chain additive (.leaf rfl : (Node.expression (.number 1)).Path [])
  rw [List.length_map, List.length_range] at chain
  refine ⟨tokens, _, _, parsed, .down List.mem_cons_self (.down List.mem_cons_self chain), ?_⟩
  exact ⟨[.part, .nesting], [], rfl⟩

namespace Parser

/-- A way down a tree that was read has fewer nesting links by two than there were levels. The
links that do not count come one after the other in any number under a limit of three. -/
theorem nesting_links_within_limit :
    (∀ limit tokens table outcome, result (parse limit (start tokens table)) = .ok outcome →
      ∀ path, (Node.block outcome.block).Path path → 2 + path.count .nesting ≤ limit) ∧
    ∀ link ∈ [Link.continuation, .follower, .leftOperand], ChainsWithin 3 link := by
  constructor
  · intro limit tokens table outcome parsed path way
    obtain ⟨after, ended⟩ := ok_of_result parsed
    obtain ⟨marks, _, derived, _⟩ := derived_of_parsed ended
    cases limit with
    | zero => exact derived.elim
    | succ limit =>
      have below := block_below limit marks _ derived path way
      omega
  · intro link free
    simp only [List.mem_cons, List.not_mem_nil, or_false] at free
    obtain rfl | rfl | rfl := free
    · exact continuations_chain
    · exact followers_chain
    · exact leftOperands_chain

def bracketedSum : List LocatedToken :=
  [⟨.keyword .printKw, 1⟩, ⟨.number 1, 1⟩, ⟨.symbol '*', 1⟩, ⟨.symbol '(', 1⟩, ⟨.number 2, 1⟩,
    ⟨.symbol '+', 1⟩, ⟨.number 3, 1⟩, ⟨.symbol ')', 1⟩]

/-- Four levels are read, and the way to the left end of the sum has the two nesting links that
they leave room for. -/
theorem nesting_links_of_bracketed_sum :
    let sum := Expression.arithmetic .add (.number 2) (.number 3)
    let tree := Block.statement (.print (.arithmetic .multiply (.number 1) sum))
    let path := [Link.part, .nesting, .nesting, .leftOperand]
    result (parse 4 (start bracketedSum .empty)) = .ok ⟨tree, false⟩ ∧
      (Node.block tree).Path path ∧ path.count .nesting = 2 ∧ 2 + path.count .nesting ≤ 4 := by
  intro sum tree path
  have parsed : result (parse 4 (start bracketedSum .empty)) = .ok ⟨tree, false⟩ := rfl
  have toLeft : (Node.expression sum).Path [.leftOperand] := .down List.mem_cons_self (.leaf rfl)
  have toSum : (Node.expression (.arithmetic .multiply (.number 1) sum)).Path
      [.nesting, .leftOperand] := .down (List.mem_cons_of_mem _ List.mem_cons_self) toLeft
  have way : (Node.block tree).Path path :=
    .down List.mem_cons_self (.down List.mem_cons_self toSum)
  have bounded := nesting_links_within_limit.1 4 bracketedSum .empty ⟨tree, false⟩ parsed path way
  exact ⟨parsed, way, rfl, bounded⟩

end Parser

end PlZero
