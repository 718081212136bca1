import PlZero.Proofs.Formed
import PlZero.Proofs.ProcedureScope
import PlZero.Proofs.Program
import PlZero.Syntax.Node

/-!
# What a tree that was read can be relied on for

Trees as a type admit more than what is ever read from a text. Of a tree that was read,
whether a period came after it or not, the following can be taken for granted.
Conditions stand where a statement is guarded, and nowhere else; no number is
negative; names are names; the procedures of a block have different names; and a call
goes to a procedure that is declared around it, in its block or further out, and not
later than the place where the call stands.
-/

namespace PlZero

set_option autoImplicit false

def Expression.IsProper : Expression → Prop
  | number value => 0 ≤ value
  | identifier name => IsName name
  | other => ∀ operand ∈ other.children, operand.isCondition = false

def Statement.IsProper : Statement → Prop
  | ifThen condition _ => condition.isCondition = true
  | whileDo condition _ => condition.isCondition = true
  | assign name value => IsName name ∧ value.isCondition = false
  | call name => IsName name
  | read name => IsName name
  | print value => value.isCondition = false
  | pair _ _ => True
  | pass => True

def Block.IsProper (block : Block) : Prop :=
  (block.procedures.map Prod.fst).Nodup ∧ ∀ name ∈ block.procedures.map Prod.fst, IsName name

def Node.IsProper : Node → Prop
  | block root => root.IsProper
  | statement root => root.IsProper
  | expression root => root.IsProper

section Expressions

theorem Expression.arithmetic_noCondition {expression : Expression}
    (arithmetic : expression.IsArithmetic) : expression.isCondition = false := by
  cases expression with
  | relation | odd => exact arithmetic.elim
  | _ => rfl

theorem Expression.isCondition_of_test {condition : Expression} (test : condition.IsTest) :
    condition.isCondition = true := by
  cases condition with
  | relation | odd => rfl
  | _ => exact test.elim

theorem Expression.operand_noCondition {operand : Expression} (one : operand.IsArithmetic) :
    ∀ other ∈ [operand], other.isCondition = false :=
  List.forall_mem_singleton.mpr (arithmetic_noCondition one)

theorem Expression.operands_noCondition {left right : Expression} (first : left.IsArithmetic)
    (second : right.IsArithmetic) : ∀ operand ∈ [left, right], operand.isCondition = false :=
  List.forall_mem_cons.mpr ⟨arithmetic_noCondition first, operand_noCondition second⟩

theorem Expression.isProper_of_formed {expression : Expression}
    (formed : expression.IsArithmetic ∨ expression.IsTest) : expression.IsProper := by
  cases expression with
  | number value => exact (formed.resolve_right id).1
  | identifier name => exact formed.resolve_right id
  | arithmetic operator left right =>
    obtain ⟨first, second⟩ := formed.resolve_right id
    exact operands_noCondition first second
  | relation comparison left right =>
    obtain ⟨first, second⟩ := formed.resolve_left id
    exact operands_noCondition first second
  | negate operand => exact operand_noCondition (formed.resolve_right id)
  | odd operand => exact operand_noCondition (formed.resolve_left id)

end Expressions

theorem Statement.isProper_of_formed {statement : Statement} (formed : statement.IsFormed) :
    statement.IsProper := by
  cases statement with
  | ifThen condition body | whileDo condition body =>
    exact Expression.isCondition_of_test formed.1
  | assign name value => exact ⟨formed.1, Expression.arithmetic_noCondition formed.2⟩
  | print value => exact Expression.arithmetic_noCondition formed
  | call name | read name => exact formed
  | pair | pass => trivial

namespace Block

theorem procedures_distinct {block : Block} (distinct : block.HasDistinctProcedures) :
    (block.procedures.map Prod.fst).Nodup := by
  induction block with
  | statement final => exact List.nodup_nil
  | procedure name body rest _ ih => exact List.nodup_cons.mpr ⟨distinct.1, ih distinct.2.2⟩

theorem procedures_are_names {block : Block} (formed : block.IsFormed) :
    ∀ name ∈ block.procedures.map Prod.fst, IsName name := by
  induction block with
  | statement final => exact fun name member => by cases member
  | procedure name body rest _ ih => exact List.forall_mem_cons.mpr ⟨formed.1, ih formed.2.2⟩

theorem isProper_of_formed {block : Block} (formed : block.IsFormed)
    (distinct : block.HasDistinctProcedures) : block.IsProper :=
  ⟨procedures_distinct distinct, procedures_are_names formed⟩

end Block

def Node.IsFormed : Node → Prop
  | block root => root.IsFormed ∧ root.HasDistinctProcedures
  | statement root => root.IsFormed
  | expression root => root.IsArithmetic ∨ root.IsTest

theorem Node.isProper_of_formed {node : Node} (formed : node.IsFormed) : node.IsProper := by
  cases node with
  | block root => exact Block.isProper_of_formed formed.1 formed.2
  | statement root => exact Statement.isProper_of_formed formed
  | expression root => exact Expression.isProper_of_formed formed

theorem Expression.preorder_formed {expression : Expression}
    (formed : expression.IsArithmetic ∨ expression.IsTest) :
    ∀ node ∈ expression.preorder, node.IsFormed := by
  induction expression with
  | number | identifier => exact List.forall_mem_singleton.mpr formed
  | arithmetic operator left right ihLeft ihRight =>
    obtain ⟨first, second⟩ := formed.resolve_right id
    refine List.forall_mem_cons.mpr ⟨formed, ?_⟩
    exact List.forall_mem_append.mpr ⟨ihLeft (.inl first), ihRight (.inl second)⟩
  | relation comparison left right ihLeft ihRight =>
    obtain ⟨first, second⟩ := formed.resolve_left id
    refine List.forall_mem_cons.mpr ⟨formed, ?_⟩
    exact List.forall_mem_append.mpr ⟨ihLeft (.inl first), ihRight (.inl second)⟩
  | negate operand ih =>
    exact List.forall_mem_cons.mpr ⟨formed, ih (.inl (formed.resolve_right id))⟩
  | odd operand ih =>
    exact List.forall_mem_cons.mpr ⟨formed, ih (.inl (formed.resolve_left id))⟩

theorem Statement.preorder_formed {statement : Statement} (formed : statement.IsFormed) :
    ∀ node ∈ statement.preorder, node.IsFormed := by
  induction statement with
  | ifThen condition body ih | whileDo condition body ih =>
    refine List.forall_mem_cons.mpr ⟨formed, ?_⟩
    exact List.forall_mem_append.mpr ⟨Expression.preorder_formed (.inr formed.1), ih formed.2⟩
  | assign name value =>
    exact List.forall_mem_cons.mpr ⟨formed, Expression.preorder_formed (.inl formed.2)⟩
  | pair first second ihFirst ihSecond =>
    refine List.forall_mem_cons.mpr ⟨formed, ?_⟩
    exact List.forall_mem_append.mpr ⟨ihFirst formed.1, ihSecond formed.2⟩
  | print value => exact List.forall_mem_cons.mpr ⟨formed, Expression.preorder_formed (.inl formed)⟩
  | call | read | pass => exact List.forall_mem_singleton.mpr formed

namespace Block

theorem preorder_formed {block : Block} (formed : block.IsFormed)
    (distinct : block.HasDistinctProcedures) : ∀ node ∈ block.preorder, node.IsFormed := by
  induction block with
  | statement final =>
    exact List.forall_mem_cons.mpr ⟨⟨formed, distinct⟩, Statement.preorder_formed formed⟩
  | procedure name body rest ihBody ihRest =>
    have inside := ihBody formed.2.1 distinct.2.1
    have further := ihRest formed.2.2 distinct.2.2
    refine List.forall_mem_cons.mpr ⟨⟨formed, distinct⟩, ?_⟩
    exact List.forall_mem_append.mpr ⟨inside, further⟩

theorem preorder_proper {block : Block} (formed : block.IsFormed)
    (distinct : block.HasDistinctProcedures) : ∀ node ∈ block.preorder, node.IsProper :=
  fun node member => Node.isProper_of_formed (preorder_formed formed distinct node member)

end Block

/-- A block that is parsed from tokens that can be written, over an empty table. -/
theorem block_of_parsed {limit : Nat} {tokens : List LocatedToken} {outcome : Outcome}
    {after : Parser.State} (lexical : AreLexical tokens)
    (parsed : Parser.parse limit (Parser.start tokens .empty) = .ok outcome after) :
    outcome.block.IsFormed ∧ outcome.block.IsScoped [] := by
  obtain ⟨marks, rest, derived, rfl, passed⟩ := Parser.derived_of_parsed parsed
  have inside : MadeOf Mark.IsLexical marks :=
    madeOf_lexical fun located member => lexical located (List.mem_append_left rest member)
  have nothing : Scopes.ProceduresAmong SymbolTable.empty.lookup? [] [] :=
    fun name found => by cases found
  exact ⟨block_forms limit marks _ derived inside,
    (block_goesWith limit marks _ [] [] [] derived nothing passed).2⟩

/-- A text that is read has tokens from which a parse gives its outcome. -/
theorem parsed_of_check {limit : Nat} {source : String} {outcome : Outcome}
    (checked : check limit source = .ok outcome) :
    ∃ tokens after, (Scan.ofSource firstLine source).result = .ok tokens ∧
      Parser.parse limit (Parser.start tokens .empty) = .ok outcome after := by
  unfold check at checked
  cases scanned : (Scan.ofSource firstLine source).result with
  | error fault =>
    rw [scanned] at checked
    cases checked
  | ok tokens =>
    rw [scanned] at checked
    obtain ⟨after, parsed⟩ := Parser.ok_of_result checked
    exact ⟨tokens, after, rfl, parsed⟩

theorem check_of_toOption {limit : Nat} {source : String} {outcome : Outcome}
    (found : (check limit source).toOption = some outcome) : check limit source = .ok outcome := by
  cases checked : check limit source with
  | error fault =>
    rw [checked] at found
    cases found
  | ok value =>
    rw [checked] at found
    exact congrArg Except.ok (Option.some.inj found)

/-- Every node of a tree that was read from a text is proper, and all calls in it go to procedures
that are declared there. -/
theorem check_gives_proper_tree {limit : Nat} {source : String} {outcome : Outcome}
    (checked : check limit source = .ok outcome) :
    (∀ node ∈ outcome.block.preorder, node.IsProper) ∧ outcome.block.CallsDeclared [] := by
  obtain ⟨tokens, after, scanned, parsed⟩ := parsed_of_check checked
  obtain ⟨formed, isScoped⟩ := block_of_parsed (Scan.result_isLexical scanned) parsed
  exact ⟨Block.preorder_proper formed isScoped.distinct, isScoped.calls⟩

def calledBack : String := "PROCEDURE p; PROCEDURE q; CALL p; CALL q; IF ODD 3 THEN CALL p"

def calledBackTree : Block :=
  .procedure "p" (.procedure "q" (.statement (.call "p")) (.statement (.call "q")))
    (.statement (.ifThen (.odd (.number 3)) (.call "p")))

theorem proper_tree_without_period :
    check 6 calledBack = .ok ⟨calledBackTree, false⟩ ∧
      (∀ node ∈ calledBackTree.preorder, node.IsProper) ∧ calledBackTree.CallsDeclared [] := by
  have found : (check 6 calledBack).toOption = some ⟨calledBackTree, false⟩ := by decide +kernel
  have checked : check 6 calledBack = .ok ⟨calledBackTree, false⟩ := check_of_toOption found
  exact ⟨checked, check_gives_proper_tree checked⟩

end PlZero
