import Mathlib.Algebra.GroupWithZero.Nat
import PlZero.Proofs.Visits

/-!
# Groups and their members

The members of a group can be paired in many ways. Flattening forgets the way, and making a
sequence of the members takes the one that leans to the right. What a statement shows and how many
nodes it has are known from its members: they stand below each other, and one pair less than there
are members ties them together. So statements with the same members are printed and counted alike.
-/

namespace PlZero

set_option autoImplicit false

namespace Statement

def isPair : Statement → Bool
  | pair _ _ => true
  | _ => false

/-- Along the second parts of its pairs, a statement has no pair as a first part. -/
def LeansRight : Statement → Prop
  | pair first second => first.isPair = false ∧ second.LeansRight
  | _ => True

theorem leansRight_of_single {statement : Statement} (single : statement.isPair = false) :
    statement.LeansRight := by
  cases statement with
  | pair => cases single
  | _ => trivial

theorem flatten_of_single {statement : Statement} (single : statement.isPair = false) :
    statement.flatten = [statement] := by
  cases statement with
  | pair => cases single
  | _ => rfl

theorem flatten_ne_nil (statement : Statement) : statement.flatten ≠ [] := by
  induction statement with
  | pair first second ihFirst _ => exact List.append_ne_nil_of_left_ne_nil ihFirst _
  | _ => exact List.cons_ne_nil _ _

theorem flatten_single (statement : Statement) :
    ∀ member ∈ statement.flatten, member.isPair = false := by
  induction statement with
  | pair first second ihFirst ihSecond => exact List.forall_mem_append.mpr ⟨ihFirst, ihSecond⟩
  | _ => exact List.forall_mem_singleton.mpr rfl

theorem flatMap_flatten_of_single {members : List Statement}
    (single : ∀ member ∈ members, member.isPair = false) : members.flatMap flatten = members := by
  induction members with
  | nil => rfl
  | cons first rest ih =>
    obtain ⟨one, others⟩ := List.forall_mem_cons.mp single
    rw [List.flatMap_cons, flatten_of_single one, ih others, List.singleton_append]

theorem flatten_sequence {statements : List Statement} (nonempty : statements ≠ []) :
    (sequence statements).flatten = statements.flatMap flatten := by
  induction statements using sequence.induct with
  | case1 => exact (nonempty rfl).elim
  | case2 last => rw [sequence, List.flatMap_singleton]
  | case3 first next rest ih =>
    rw [sequence, flatten, ih (List.cons_ne_nil _ _), List.flatMap_cons (x := first)]

theorem leansRight_sequence {members : List Statement}
    (single : ∀ member ∈ members, member.isPair = false) : (sequence members).LeansRight := by
  induction members using sequence.induct with
  | case1 => trivial
  | case2 last => exact leansRight_of_single (single last List.mem_cons_self)
  | case3 first next rest ih =>
    obtain ⟨one, others⟩ := List.forall_mem_cons.mp single
    exact ⟨one, ih others⟩

/-- A sequence of the members of a statement has these members again. -/
theorem flatten_sequence_flatten (statement : Statement) :
    (sequence statement.flatten).flatten = statement.flatten := by
  rw [flatten_sequence statement.flatten_ne_nil,
    flatMap_flatten_of_single statement.flatten_single]

/-- Members of a group stand below each other. -/
theorem lines_eq_members (statement : Statement) (depth : Nat) :
    statement.lines depth = statement.flatten.flatMap (lines depth) := by
  induction statement with
  | pair first second ihFirst ihSecond =>
    rw [lines, flatten, List.flatMap_append, ← ihFirst, ← ihSecond]
  | _ => rw [flatten_of_single rfl, List.flatMap_singleton]

/-- How many nodes of a family a statement has, with the pair that ties it to another one. -/
def tied (family : Family) (statement : Statement) : Nat :=
  NodeCount.ofFamily family statement.preorder + if Family.statements == family then 1 else 0

/-- Each member is tied to what comes after it, so pairs can be counted with the members. -/
theorem tied_eq_members (family : Family) (statement : Statement) :
    statement.tied family = (statement.flatten.map (tied family)).sum := by
  induction statement with
  | pair first second ihFirst ihSecond =>
    rw [flatten, List.map_append, List.sum_append, ← ihFirst, ← ihSecond]
    simp only [tied, preorder, NodeCount.ofFamily_cons, NodeCount.ofFamily_append]
    change _ + (if Family.statements == family then 1 else 0) + _ = _
    omega
  | _ => rw [flatten_of_single rfl, List.map_singleton, List.sum_singleton]

/-- Statements with the same members have as many nodes of each family. -/
theorem count_of_members {first second : Statement} (same : first.flatten = second.flatten) :
    NodeCount.ofNode (.statement first) = NodeCount.ofNode (.statement second) := by
  have alike (family : Family) : NodeCount.ofFamily family first.preorder =
      NodeCount.ofFamily family second.preorder := by
    apply Nat.add_right_cancel
    exact (tied_eq_members family first).trans (same ▸ (tied_eq_members family second).symm)
  rw [NodeCount.ofNode_eq, NodeCount.ofNode_eq]
  simp only [Node.preorder, alike]

end Statement

open Statement in
/-- Flattening a sequence gives the members of its parts, and a sequence of the members of a
statement is the statement again but for the grouping: it has the same members, is printed and
counted alike, and leans to the right. -/
theorem sequences_and_members_agree (statements : List Statement) (statement : Statement) :
    let leaning := sequence statement.flatten
    (sequence statements).flatten =
        (if statements = [] then [.pass] else statements.flatMap flatten) ∧
      statement.flatten ≠ [] ∧ (∀ member ∈ statement.flatten, member.isPair = false) ∧
      leaning.flatten = statement.flatten ∧
      (∀ depth, leaning.lines depth = statement.lines depth) ∧ leaning.text = statement.text ∧
      NodeCount.ofNode (.statement leaning) = NodeCount.ofNode (.statement statement) ∧
      leaning.LeansRight ∧ sequence leaning.flatten = leaning := by
  intro leaning
  have members : leaning.flatten = statement.flatten := statement.flatten_sequence_flatten
  have printed (depth : Nat) : leaning.lines depth = statement.lines depth := by
    rw [leaning.lines_eq_members, members, ← statement.lines_eq_members]
  refine ⟨?_, statement.flatten_ne_nil, statement.flatten_single, members, printed,
    congrArg joinLines (printed 0), count_of_members members,
    leansRight_sequence statement.flatten_single, congrArg sequence members⟩
  by_cases empty : statements = []
  · rw [if_pos empty, empty]
    rfl
  · rw [if_neg empty, flatten_sequence empty]

/-- Two groups in a group, and the three pairs that tie their members together. -/
example :
    let statement := Statement.pair (.pair (.call "p") .pass) (.pair (.read "x") (.call "q"))
    Statement.sequence statement.flatten =
        .pair (.call "p") (.pair .pass (.pair (.read "x") (.call "q"))) ∧
      (NodeCount.ofNode (.statement statement)).statements = 7 := ⟨rfl, rfl⟩

end PlZero
