import PlZero.Proofs.Outline
import PlZero.Proofs.ReadTrees

/-!
# A printed tree shows everything but how sequences are grouped

The members of a group stand below each other without a frame, however the pairs of the tree
lean. Regrouping makes all of them lean to the right, in what is guarded as well. A tree and its
regrouped form show the same outline, and the outline is enough to build the regrouped form. So
two trees that were read have the same text exactly if they are the same when regrouped.
-/

namespace PlZero

set_option autoImplicit false

namespace Statement

/-- The members of a group in source order, each with what it guards regrouped. -/
def regroupedMembers : Statement → List Statement
  | ifThen condition body => [ifThen condition (sequence body.regroupedMembers)]
  | whileDo condition body => [whileDo condition (sequence body.regroupedMembers)]
  | pair first second => first.regroupedMembers ++ second.regroupedMembers
  | other => [other]

/-- The statement with its groups leaning to the right at every depth. -/
def regrouped (statement : Statement) : Statement := sequence statement.regroupedMembers

def withRegroupedBody : Statement → Statement
  | ifThen condition body => ifThen condition body.regrouped
  | whileDo condition body => whileDo condition body.regrouped
  | other => other

/-- To regroup a statement is to flatten it and make one sequence of its members, after the same
is done for what they guard. -/
theorem regrouped_eq_flatten (statement : Statement) :
    statement.regrouped = sequence (statement.flatten.map withRegroupedBody) := by
  have members : statement.regroupedMembers = statement.flatten.map withRegroupedBody := by
    induction statement with
    | pair first second ihFirst ihSecond =>
      rw [regroupedMembers, ihFirst, ihSecond, flatten, List.map_append]
    | _ => rfl
  rw [regrouped, members]

theorem regroupedMembers_ne_nil (statement : Statement) : statement.regroupedMembers ≠ [] := by
  induction statement with
  | pair first second ihFirst _ => exact List.append_ne_nil_of_left_ne_nil ihFirst _
  | _ => exact List.cons_ne_nil _ _

/-- A sequence shows the outlines of its members one after the other. -/
theorem outline_sequence {statements : List Statement} (nonempty : statements ≠ [])
    (next : Outline) : (sequence statements).outline next =
      statements.foldr (fun member behind => member.outline behind) next := by
  induction statements using sequence.induct with
  | case1 => exact (nonempty rfl).elim
  | case2 last => rfl
  | case3 first second rest ih =>
    rw [sequence, outline, ih (List.cons_ne_nil _ _)]
    rfl

theorem outline_regroupedMembers (statement : Statement) (next : Outline) :
    statement.regroupedMembers.foldr (fun member behind => member.outline behind) next =
      statement.outline next := by
  induction statement generalizing next with
  | ifThen condition body ih | whileDo condition body ih =>
    have inside := outline_sequence body.regroupedMembers_ne_nil .nil
    rw [ih] at inside
    rw [regroupedMembers, List.foldr_cons, List.foldr_nil, outline, outline, inside]
  | pair first second ihFirst ihSecond =>
    rw [regroupedMembers, List.foldr_append, ihSecond, ihFirst, outline]
  | _ => rfl

theorem outline_regrouped (statement : Statement) (next : Outline) :
    statement.regrouped.outline next = statement.outline next := by
  rw [regrouped, outline_sequence statement.regroupedMembers_ne_nil, outline_regroupedMembers]

end Statement

/-- The statement that begins with a heading, around what is below it. No statement begins with the
heading of a procedure. -/
def Heading.statement (below : List Statement) : Heading → Statement
  | procedure _ => .pass
  | ifThen condition => .ifThen condition (.sequence below)
  | whileDo condition => .whileDo condition (.sequence below)
  | assign name value => .assign name value
  | call name => .call name
  | read name => .read name
  | print value => .print value
  | pass => .pass

namespace Outline

def statements : Outline → List Statement
  | nil => []
  | cons heading below next => heading.statement below.statements :: next.statements

def block : Outline → Block
  | cons (.procedure name) below next => .procedure name below.block next.block
  | other => .statement (.sequence other.statements)

theorem statements_outline (statement : Statement) (next : Outline) :
    (statement.outline next).statements = statement.regroupedMembers ++ next.statements := by
  induction statement generalizing next with
  | ifThen condition body ih | whileDo condition body ih =>
    have inside := ih .nil
    rw [statements, List.append_nil] at inside
    rw [Statement.outline, statements, inside]
    rfl
  | pair first second ihFirst ihSecond =>
    rw [Statement.outline, ihFirst, ihSecond, Statement.regroupedMembers, List.append_assoc]
  | _ => rfl

/-- The outline of a statement shows a block without procedures. -/
theorem block_outline_statement (statement : Statement) (next : Outline) :
    (statement.outline next).block =
      .statement (.sequence (statement.outline next).statements) := by
  induction statement generalizing next with
  | pair first second ihFirst _ => exact ihFirst _
  | _ => rfl

end Outline

namespace Block

/-- The block with all groups leaning to the right. -/
def regrouped : Block → Block
  | procedure name body rest => procedure name body.regrouped rest.regrouped
  | statement final => statement final.regrouped

theorem outline_regrouped (block : Block) : block.regrouped.outline = block.outline := by
  induction block with
  | procedure name body rest ihBody ihRest => rw [regrouped, outline, outline, ihBody, ihRest]
  | statement final => exact final.outline_regrouped .nil

/-- The outline is enough to build the regrouped block. -/
theorem block_outline (block : Block) : block.outline.block = block.regrouped := by
  induction block with
  | procedure name body rest ihBody ihRest =>
    rw [outline, Outline.block, ihBody, ihRest, regrouped]
  | statement final =>
    rw [outline, Outline.block_outline_statement, Outline.statements_outline, Outline.statements,
      List.append_nil]
    rfl

theorem outline_eq_iff_regrouped {first second : Block} :
    first.outline = second.outline ↔ first.regrouped = second.regrouped := by
  constructor
  · intro same
    rw [← block_outline, same, block_outline]
  · intro same
    rw [← outline_regrouped, same, outline_regrouped]

end Block

theorem formed_of_check {limit : Nat} {source : String} {outcome : Outcome}
    (checked : check limit source = .ok outcome) :
    outcome.block.IsFormed ∧ ∀ node ∈ outcome.block.preorder, node.IsFormed := by
  obtain ⟨tokens, after, scanned, parsed⟩ := parsed_of_check checked
  obtain ⟨formed, isScoped⟩ := block_of_parsed (Scan.result_isLexical scanned) parsed
  exact ⟨formed, Block.preorder_formed formed isScoped.distinct⟩

/-- Two trees that were read have the same text exactly if they are the same when regrouped, which is
to make one sequence of what each statement flattens to, at every depth. Two expressions in them with
the same text are the same. -/
theorem printed_trees_show_all_but_grouping {limit other : Nat} {source text : String}
    {outcome further : Outcome} (checked : check limit source = .ok outcome)
    (alsoChecked : check other text = .ok further) :
    (outcome.block.text = further.block.text ↔
      outcome.block.regrouped = further.block.regrouped) ∧
    (∀ statement : Statement, statement.regrouped =
      .sequence (statement.flatten.map Statement.withRegroupedBody)) ∧
    ∀ first second, .expression first ∈ outcome.block.preorder →
      .expression second ∈ further.block.preorder → first.text = second.text → first = second := by
  obtain ⟨formed, parts⟩ := formed_of_check checked
  obtain ⟨alsoFormed, alsoParts⟩ := formed_of_check alsoChecked
  refine ⟨?_, Statement.regrouped_eq_flatten, ?_⟩
  · rw [Block.text_eq_iff_outline formed alsoFormed, Block.outline_eq_iff_regrouped]
  · intro first second within alsoWithin same
    exact Expression.eq_of_text (parts _ within) (alsoParts _ alsoWithin) same

/-- Three members of which the first two are a group, and the same three with the last two as a
group. -/
def grouped : String × String :=
  ("WHILE ODD 1 DO BEGIN BEGIN PRINT 1; PRINT 2 END; PASS END.",
    "WHILE ODD 1 DO BEGIN PRINT 1; BEGIN PRINT 2; PASS END END")

def groupedTrees : Block × Block :=
  (.statement (.whileDo (.odd (.number 1))
      (.pair (.pair (.print (.number 1)) (.print (.number 2))) .pass)),
    .statement (.whileDo (.odd (.number 1))
      (.pair (.print (.number 1)) (.pair (.print (.number 2)) .pass))))

/-- Two trees are different, but they are the same when regrouped and so have the same text. -/
theorem grouped_trees_have_one_text :
    check 6 grouped.1 = .ok ⟨groupedTrees.1, true⟩ ∧
      check 6 grouped.2 = .ok ⟨groupedTrees.2, false⟩ ∧ groupedTrees.1 ≠ groupedTrees.2 ∧
      groupedTrees.1.regrouped = groupedTrees.2.regrouped ∧
      groupedTrees.1.text = groupedTrees.2.text := by
  have first : check 6 grouped.1 = .ok ⟨groupedTrees.1, true⟩ :=
    check_of_toOption (by decide +kernel)
  have second : check 6 grouped.2 = .ok ⟨groupedTrees.2, false⟩ :=
    check_of_toOption (by decide +kernel)
  have regrouped : groupedTrees.1.regrouped = groupedTrees.2.regrouped := rfl
  have texts := (printed_trees_show_all_but_grouping first second).1.mpr regrouped
  exact ⟨first, second, by decide, regrouped, texts⟩

end PlZero
