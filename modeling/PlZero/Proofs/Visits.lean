import PlZero.Proofs.Tours

/-!
# What visitors come to and write down

A recorder writes down the nodes of the families that it handles. To the others it comes as well,
since it goes on to their parts, but that leaves no trace. Here a visit is watched: all nodes that
it comes to are kept beside those that it writes down. What a recorder comes to is its tour, and
what it writes down is what it handles of this. So a recorder of fewer families writes down a part
of what a recorder of more does, in the same order, and a counter counts the tour.
-/

namespace PlZero

set_option autoImplicit false

/-- The nodes that a visit came to and those of them that were written down, newest first. -/
structure Sighting where
  reached : List Node := []
  seen : List Node := []
  deriving DecidableEq, Repr

/-- A visit that keeps all nodes it came to, also when it fails. -/
abbrev Watching := EStateM Fault Sighting

structure Visit where
  /-- All nodes that were come to, in order. -/
  reached : List Node
  /-- The nodes written down, in order. -/
  seen : List Node
  ended : Except Fault Unit

namespace Visit

def ofResult : EStateM.Result Fault Sighting Unit → Visit
  | .ok _ sighting => ⟨sighting.reached.reverse, sighting.seen.reverse, .ok ()⟩
  | .error fault sighting => ⟨sighting.reached.reverse, sighting.seen.reverse, .error fault⟩

end Visit

/-- What is left of a watched visit when only what was written down is kept. -/
def Sighting.forget : EStateM.Result Fault Sighting Unit → EStateM.Result Fault (List Node) Unit
  | .ok _ sighting => .ok () sighting.seen
  | .error fault sighting => .error fault sighting.seen

theorem forM_cons_apply {σ : Type} (touch : Node → EStateM Fault σ Unit) (node : Node)
    (rest : List Node) (state : σ) :
    forM (node :: rest) touch state =
      match touch node state with
      | .ok _ after => forM rest touch after
      | .error fault after => .error fault after := by
  rw [List.forM_cons]
  simp only [bind, EStateM.bind]
  cases touch node state <;> rfl

namespace Recorder

/-- Write a node down as the recorder does, beside what is kept anyway. -/
def recordSeen (recorder : Recorder) (node : Node) : Watching Unit := do
  if recorder.stop? = some (← get).seen.length then
    throw recorder.fault
  modify fun sighting => { sighting with seen := node :: sighting.seen }

def watch (recorder : Recorder) (node : Node) (parts : Watching Unit) : Watching Unit := do
  modify fun sighting => { sighting with reached := node :: sighting.reached }
  if recorder.handles node.family then
    recorder.recordSeen node
    if recorder.prunes node then pure () else parts
  else
    parts

def watcher (recorder : Recorder) : Visitor Watching where
  onBlock block parts := recorder.watch (.block block) parts
  onStatement statement parts := recorder.watch (.statement statement) parts
  onExpression expression parts := recorder.watch (.expression expression) parts

def watched (recorder : Recorder) (root : Node) : Visit :=
  .ofResult ((root.accept recorder.watcher).run {})

def writes (recorder : Recorder) (node : Node) : Bool := recorder.handles node.family

/-- Only what is written down is pruned. -/
def skips (recorder : Recorder) (node : Node) : Bool := recorder.writes node && recorder.prunes node

def touch (recorder : Recorder) (node : Node) : Recording Unit :=
  if recorder.writes node then recorder.record node else pure ()

def sight (recorder : Recorder) (node : Node) : Watching Unit := do
  modify fun sighting => { sighting with reached := node :: sighting.reached }
  if recorder.writes node then recorder.recordSeen node else pure ()

variable (recorder : Recorder)

theorem visitor_eq_touring : recorder.visitor = .touring recorder.touch recorder.skips := by
  have each : recorder.handle = fun node parts =>
      recorder.touch node >>= fun _ => if recorder.skips node then pure () else parts := by
    funext node parts
    unfold handle touch skips writes
    cases recorder.handles node.family <;> simp
  simp only [visitor, each, Visitor.touring]

theorem watcher_eq_touring : recorder.watcher = .touring recorder.sight recorder.skips := by
  have each : recorder.watch = fun node parts =>
      recorder.sight node >>= fun _ => if recorder.skips node then pure () else parts := by
    funext node parts
    unfold watch sight skips writes
    cases recorder.handles node.family <;> simp
  simp only [watcher, each, Visitor.touring]

theorem record_apply (node : Node) (seen : List Node) :
    recorder.record node seen =
      if recorder.stop? = some seen.length then .error recorder.fault seen
      else .ok () (node :: seen) := by
  have asked : recorder.record node seen =
      (if recorder.stop? = some seen.length then
        (throw recorder.fault >>= fun _ => modify fun seen => node :: seen : Recording Unit)
      else modify fun seen => node :: seen) seen := rfl
  rw [asked]
  split <;> rfl

theorem recordSeen_apply (node : Node) (reached seen : List Node) :
    recorder.recordSeen node ⟨reached, seen⟩ =
      if recorder.stop? = some seen.length then .error recorder.fault ⟨reached, seen⟩
      else .ok () ⟨reached, node :: seen⟩ := by
  have asked : recorder.recordSeen node ⟨reached, seen⟩ =
      (if recorder.stop? = some seen.length then
        (throw recorder.fault >>= fun _ =>
          modify fun sighting => { sighting with seen := node :: sighting.seen } : Watching Unit)
      else modify fun sighting => { sighting with seen := node :: sighting.seen })
        ⟨reached, seen⟩ := rfl
  rw [asked]
  split <;> rfl

/-- The three things that can happen at a node: it is passed by, it is the one too many, or it is
written down. -/
theorem sight_apply (node : Node) (reached seen : List Node) :
    recorder.sight node ⟨reached, seen⟩ =
      if recorder.writes node then
        if recorder.stop? = some seen.length then .error recorder.fault ⟨node :: reached, seen⟩
        else .ok () ⟨node :: reached, node :: seen⟩
      else .ok () ⟨node :: reached, seen⟩ := by
  rw [← recordSeen_apply]
  unfold sight
  cases recorder.writes node <;> rfl

theorem touch_eq_sight (node : Node) (reached seen : List Node) :
    recorder.touch node seen = Sighting.forget (recorder.sight node ⟨reached, seen⟩) := by
  rw [sight_apply]
  unfold touch
  cases recorder.writes node with
  | false => rfl
  | true =>
    rw [if_pos rfl, if_pos rfl, record_apply]
    split <;> rfl

theorem forM_touch (nodes : List Node) (sighting : Sighting) :
    forM nodes recorder.touch sighting.seen =
      Sighting.forget (forM nodes recorder.sight sighting) := by
  induction nodes generalizing sighting with
  | nil => rfl
  | cons node rest ih =>
    rw [forM_cons_apply, forM_cons_apply, recorder.touch_eq_sight node sighting.reached]
    cases recorder.sight node sighting with
    | ok _ after => exact ih after
    | error fault after => rfl

/-- Watching changes nothing of what is written down and of how a visit ends. -/
theorem run_eq_watched (root : Node) :
    recorder.run root = ((recorder.watched root).seen, (recorder.watched root).ended) := by
  have forgotten := recorder.forM_touch (root.tour recorder.skips) {}
  unfold run watched
  rw [visitor_eq_touring, watcher_eq_touring, Node.accept_touring, Node.accept_touring]
  simp only [EStateM.run, forgotten]
  cases forM (root.tour recorder.skips) recorder.sight ({} : Sighting) <;> rfl

/-- Where the quota is not exceeded, all of the nodes are come to and those that are handled are
written down. -/
theorem forM_sight_within (nodes reached seen : List Node)
    (room : ∀ limit ∈ recorder.stop?, (nodes.filter recorder.writes).length + seen.length ≤ limit) :
    forM nodes recorder.sight ⟨reached, seen⟩ =
      .ok () ⟨nodes.reverse ++ reached, (nodes.filter recorder.writes).reverse ++ seen⟩ := by
  induction nodes generalizing reached seen with
  | nil => rfl
  | cons node rest ih =>
    rw [forM_cons_apply, sight_apply, List.reverse_cons, List.append_assoc, List.singleton_append]
    by_cases own : recorder.writes node = true
    · have unfilled : recorder.stop? ≠ some seen.length := by
        intro full
        have bound := room _ full
        rw [List.filter_cons_of_pos own, List.length_cons] at bound
        omega
      have later := ih (node :: reached) (node :: seen) fun limit isLimit => by
        have bound := room limit isLimit
        rw [List.filter_cons_of_pos own, List.length_cons] at bound
        rw [List.length_cons]
        omega
      rw [if_pos own, if_neg unfilled, List.filter_cons_of_pos own, List.reverse_cons,
        List.append_assoc, List.singleton_append]
      exact later
    · have others : (node :: rest).filter recorder.writes = rest.filter recorder.writes :=
        List.filter_cons_of_neg own
      rw [others] at room ⊢
      rw [if_neg own]
      exact ih (node :: reached) seen room

theorem watched_within (root : Node)
    (room : ∀ limit ∈ recorder.stop?,
      ((root.tour recorder.skips).filter recorder.writes).length ≤ limit) :
    recorder.watched root = ⟨root.tour recorder.skips,
      (root.tour recorder.skips).filter recorder.writes, .ok ()⟩ := by
  have visited := recorder.forM_sight_within (root.tour recorder.skips) [] [] room
  unfold watched
  rw [watcher_eq_touring, Node.accept_touring, EStateM.run]
  rw [List.append_nil, List.append_nil] at visited
  rw [visited]
  simp [Visit.ofResult]

/-- Without a quota, what a recorder comes to is its tour. -/
theorem watched_unstopped (unlimited : recorder.stop? = none) (root : Node) :
    recorder.watched root = ⟨root.tour recorder.skips,
      (root.tour recorder.skips).filter recorder.writes, .ok ()⟩ :=
  recorder.watched_within root fun limit isLimit => by rw [unlimited] at isLimit; cases isLimit

end Recorder

namespace NodeCount

def add (count : NodeCount) : Family → NodeCount
  | .blocks => { count with blocks := count.blocks + 1 }
  | .statements => { count with statements := count.statements + 1 }
  | .expressions => { count with expressions := count.expressions + 1 }

def tally (node : Node) : StateM NodeCount Unit := modify fun count => count.add node.family

theorem counter_eq_touring : counter = .touring tally fun _ => false := rfl

def ofFamily (family : Family) (nodes : List Node) : Nat :=
  nodes.countP fun node => node.family == family

theorem ofFamily_cons (family : Family) (node : Node) (rest : List Node) :
    ofFamily family (node :: rest) =
      ofFamily family rest + if node.family == family then 1 else 0 := List.countP_cons

theorem ofFamily_append (family : Family) (first second : List Node) :
    ofFamily family (first ++ second) = ofFamily family first + ofFamily family second :=
  List.countP_append

theorem total_ofFamily (nodes : List Node) :
    ofFamily .blocks nodes + ofFamily .statements nodes + ofFamily .expressions nodes =
      nodes.length := by
  induction nodes with
  | nil => rfl
  | cons node rest ih =>
    simp only [ofFamily_cons, List.length_cons, ← ih]
    cases node.family <;> simp <;> omega

theorem forM_tally (nodes : List Node) (count : NodeCount) :
    ((forM nodes tally).run count).2 =
      ⟨count.blocks + ofFamily .blocks nodes, count.statements + ofFamily .statements nodes,
        count.expressions + ofFamily .expressions nodes⟩ := by
  induction nodes generalizing count with
  | nil => rfl
  | cons node rest ih =>
    have step : ((forM (node :: rest) tally).run count).2 =
        ((forM rest tally).run (count.add node.family)).2 := by
      rw [List.forM_cons]
      rfl
    rw [step, ih]
    simp only [ofFamily_cons]
    cases node.family <;> simp [add] <;> omega

theorem ofNode_eq (root : Node) :
    ofNode root = ⟨ofFamily .blocks root.preorder, ofFamily .statements root.preorder,
      ofFamily .expressions root.preorder⟩ := by
  have counted := forM_tally root.preorder {}
  rw [ofNode, counter_eq_touring, Node.accept_touring, Node.tour_all, counted]
  simp only [Nat.zero_add]

end NodeCount

/-- Whatever families a recorder handles, it writes down what the preorder holds of them, and if it
handles all, the whole preorder. A counter counts the nodes of each family in the preorder, and in
total all of them. -/
theorem visits_see_handled_preorder (root : Node) :
    (∀ handles : Family → Bool,
      Recorder.run { handles, prunes := fun _ => false, stop? := none } root =
        (root.preorder.filter fun node => handles node.family, .ok ())) ∧
    Recorder.run { handles := fun _ => true, prunes := fun _ => false, stop? := none } root =
      (root.preorder, .ok ()) ∧
    NodeCount.ofNode root =
      { blocks := root.preorder.countP fun node => node.family == .blocks
        statements := root.preorder.countP fun node => node.family == .statements
        expressions := root.preorder.countP fun node => node.family == .expressions } ∧
    (NodeCount.ofNode root).total = root.preorder.length := by
  have recorded (handles : Family → Bool) :
      Recorder.run { handles, prunes := fun _ => false, stop? := none } root =
        (root.preorder.filter fun node => handles node.family, .ok ()) := by
    have never : Recorder.skips { handles, prunes := fun _ => false, stop? := none } =
        fun _ => false := by
      funext node
      rw [Recorder.skips, Bool.and_false]
    rw [Recorder.run_eq_watched, Recorder.watched_unstopped _ rfl, never, Node.tour_all]
    rfl
  refine ⟨recorded, ?_, NodeCount.ofNode_eq root, ?_⟩
  · have all : root.preorder.filter (fun _ => true) = root.preorder :=
      List.filter_eq_self.mpr fun _ _ => rfl
    rw [recorded, all]
  · rw [NodeCount.ofNode_eq, NodeCount.total]
    exact NodeCount.total_ofFamily root.preorder

/-- A recorder of statements leaves out the test of a loop and the name in it. -/
example :
    let root := Node.statement (.whileDo (.odd (.identifier "x")) (.call "p"))
    Recorder.run { handles := (· == .statements), prunes := fun _ => false, stop? := none } root =
      ([root, .statement (.call "p")], .ok ()) := rfl

end PlZero
