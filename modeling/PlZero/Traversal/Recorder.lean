import PlZero.Diagnostic
import PlZero.Traversal.Visitor

/-!
# Recording visits

A visitor that writes down the nodes it meets. It handles only the families
asked for, goes no further below a node that is pruned, and can be told to fail
when it is about to write down one node too many. A failure ends the visit at
once, and what was written down until then is kept.
-/

namespace PlZero

set_option autoImplicit false

structure Recorder where
  /-- Whether the nodes of a family are written down. -/
  handles : Family → Bool
  /-- Whether the parts of a node are left out. -/
  prunes : Node → Bool
  /-- With this many nodes written down, the next one is a failure. -/
  stop? : Option Nat
  /-- How a visit fails then. -/
  fault : Fault := .emptyTokenStream

/-- A visit that keeps the nodes seen so far, newest first, also when it fails. -/
abbrev Recording := EStateM Fault (List Node)

namespace Recorder

def record (recorder : Recorder) (node : Node) : Recording Unit := do
  if recorder.stop? = some (← get).length then
    throw recorder.fault
  modify fun seen => node :: seen

def handle (recorder : Recorder) (node : Node) (parts : Recording Unit) : Recording Unit := do
  if recorder.handles node.family then
    recorder.record node
    if recorder.prunes node then pure () else parts
  else
    parts

def visitor (recorder : Recorder) : Visitor Recording where
  onBlock block parts := recorder.handle (.block block) parts
  onStatement statement parts := recorder.handle (.statement statement) parts
  onExpression expression parts := recorder.handle (.expression expression) parts

/-- The nodes written down in a visit of a tree, in order, and how it ended. -/
def run (recorder : Recorder) (root : Node) : List Node × Except Fault Unit :=
  match (root.accept recorder.visitor).run [] with
  | .ok _ seen => (seen.reverse, .ok ())
  | .error fault seen => (seen.reverse, .error fault)

end Recorder

end PlZero
