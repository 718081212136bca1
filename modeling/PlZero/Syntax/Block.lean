import PlZero.Syntax.Statement

/-!
# Blocks

A block is a chain of procedure declarations that ends in a statement. Each
link holds the name and the body of one procedure and the rest of the block.
The chain and the list of its procedures with the final statement are two views
of the same thing, and either one can be had from the other.
-/

namespace PlZero

set_option autoImplicit false

inductive Block where
  | procedure (name : String) (body rest : Block)
  | statement (statement : Statement)
  deriving DecidableEq, Repr

namespace Block

/-- The block that declares these procedures in order and runs the statement. -/
def ofProcedures (procedures : List (String × Block)) (final : Statement) : Block :=
  procedures.foldr (fun declared rest => procedure declared.1 declared.2 rest) (statement final)

def final : Block → Statement
  | procedure _ _ rest => rest.final
  | statement final => final

def procedures : Block → List (String × Block)
  | procedure name body rest => (name, body) :: rest.procedures
  | statement _ => []

@[simp] theorem procedures_ofProcedures (declared : List (String × Block)) (final : Statement) :
    (ofProcedures declared final).procedures = declared := by
  induction declared with
  | nil => rfl
  | cons first rest ih => exact congrArg (first :: ·) ih

@[simp] theorem final_ofProcedures (declared : List (String × Block)) (final : Statement) :
    (ofProcedures declared final).final = final := by
  induction declared with
  | nil => rfl
  | cons first rest ih => exact ih

/-- A block can be put together again from its procedures and its statement. -/
theorem ofProcedures_procedures (block : Block) :
    ofProcedures block.procedures block.final = block := by
  induction block with
  | procedure name body rest _ ih => exact congrArg (procedure name body) ih
  | statement final => rfl

def lines (depth : Nat) : Block → List String
  | procedure name body rest =>
    (indentation depth ++ "PROCEDURE " ++ name ++ ";")
      :: (body.lines (depth + 1) ++ rest.lines depth)
  | statement final => final.lines depth

def text (block : Block) : String := joinLines (block.lines 0)

end Block

end PlZero
