import Mathlib.Tactic.Abel
import PlZero.Proofs.ProcedureScope
import PlZero.Proofs.Visits

/-!
# Blocks as chains of procedures

A block is as good as the list of its procedures and its statement: either one can be had from the
other without loss. So whatever is told of a block by going down its chain can be told by going
through the list. The lines that it shows are those of its procedures, each with a heading and its
body further in, and then those of the statement; and its nodes are those of the bodies and of the
statement, with one block more for each link of the chain and one for its end.
-/

namespace PlZero

set_option autoImplicit false

namespace NodeCount

def plus (first second : NodeCount) : NodeCount where
  blocks := first.blocks + second.blocks
  statements := first.statements + second.statements
  expressions := first.expressions + second.expressions

instance : Add NodeCount := ⟨plus⟩

instance : Zero NodeCount := ⟨{}⟩

/-- Counts of several trees are added family by family. -/
instance : AddCommMonoid NodeCount where
  add_assoc first second third := by
    change plus (plus first second) third = plus first (plus second third)
    simp only [plus, Nat.add_assoc]
  zero_add count := by
    change plus {} count = count
    simp only [plus, Nat.zero_add]
  add_zero count := rfl
  add_comm first second := by
    change plus first second = plus second first
    simp only [plus, Nat.add_comm]
  nsmul := nsmulRec

def ofNodes (nodes : List Node) : NodeCount :=
  ⟨ofFamily .blocks nodes, ofFamily .statements nodes, ofFamily .expressions nodes⟩

theorem ofNodes_append (first second : List Node) :
    ofNodes (first ++ second) = ofNodes first + ofNodes second := by
  change _ = plus (ofNodes first) (ofNodes second)
  simp only [ofNodes, ofFamily_append, plus]

/-- So many blocks and nothing else. -/
def ofLinks (links : Nat) : NodeCount := { blocks := links }

theorem ofLinks_succ (links : Nat) : ofLinks (links + 1) = ofLinks links + ofLinks 1 := rfl

theorem ofBlock_procedure (name : String) (body rest : Block) :
    ofBlock (.procedure name body rest) = ofLinks 1 + (ofBlock body + ofBlock rest) :=
  calc ofBlock (.procedure name body rest)
    _ = ofNodes ([Node.block (.procedure name body rest)] ++ (body.preorder ++ rest.preorder)) :=
      ofNode_eq (.block (.procedure name body rest))
    _ = ofLinks 1 + (ofNodes body.preorder + ofNodes rest.preorder) := by
      rw [ofNodes_append, ofNodes_append]
      rfl
    _ = ofLinks 1 + (ofBlock body + ofBlock rest) := by
      rw [ofBlock, ofBlock, ofNode_eq, ofNode_eq]
      rfl

theorem ofBlock_statement (final : Statement) :
    ofBlock (.statement final) = ofLinks 1 + ofNode (.statement final) :=
  calc ofBlock (.statement final)
    _ = ofNodes ([Node.block (.statement final)] ++ final.preorder) :=
      ofNode_eq (.block (.statement final))
    _ = ofLinks 1 + ofNodes final.preorder := ofNodes_append _ _
    _ = ofLinks 1 + ofNode (.statement final) := by
      rw [ofNode_eq]
      rfl

end NodeCount

namespace Block

def procedureLines (depth : Nat) (declared : String × Block) : List String :=
  (indentation depth ++ "PROCEDURE " ++ declared.1 ++ ";") :: declared.2.lines (depth + 1)

theorem lines_eq_procedures (block : Block) (depth : Nat) :
    block.lines depth =
      block.procedures.flatMap (procedureLines depth) ++ block.final.lines depth := by
  induction block with
  | procedure name body rest _ ih =>
    rw [lines, ih, procedures, final, List.flatMap_cons, List.append_assoc]
    rfl
  | statement final => rfl

theorem count_eq_procedures (block : Block) :
    NodeCount.ofBlock block = NodeCount.ofLinks (block.procedures.length + 1) +
      (block.procedures.map fun declared => NodeCount.ofBlock declared.2).sum +
      NodeCount.ofNode (.statement block.final) := by
  induction block with
  | procedure name body rest _ ih =>
    rw [NodeCount.ofBlock_procedure, ih, procedures, final, List.length_cons, List.map_cons,
      List.sum_cons, NodeCount.ofLinks_succ (rest.procedures.length + 1)]
    abel
  | statement final =>
    rw [NodeCount.ofBlock_statement, procedures, List.map_nil, List.sum_nil, add_zero]
    rfl

end Block

/-- Procedures and a statement make a block from which they can be had again, and every block is
made of those that it has. Its nodes and its lines are told by them: there is a block for each
procedure and one more, and each procedure shows its heading and, one level further in, its body. -/
theorem blocks_are_procedures_and_statement (procedures : List (String × Block))
    (final : Statement) (block : Block) :
    (Block.ofProcedures procedures final).procedures = procedures ∧
      (Block.ofProcedures procedures final).final = final ∧
      Block.ofProcedures block.procedures block.final = block ∧
      NodeCount.ofBlock block =
        { blocks := block.procedures.length + 1 } +
          (block.procedures.map fun declared => NodeCount.ofBlock declared.2).sum +
          NodeCount.ofNode (.statement block.final) ∧
      ∀ depth, block.lines depth =
        (block.procedures.flatMap fun declared =>
          (indentation depth ++ "PROCEDURE " ++ declared.1 ++ ";") ::
            declared.2.lines (depth + 1)) ++
          block.final.lines depth :=
  ⟨Block.procedures_ofProcedures procedures final, Block.final_ofProcedures procedures final,
    block.ofProcedures_procedures, block.count_eq_procedures, block.lines_eq_procedures⟩

end PlZero
