import PlZero.Proofs.Visits

/-!
# Visits that fail

A recorder with a quota fails at the first node that is one too many. Up to there it does what a
recorder without a quota does, since what is skipped does not depend on the quota. The failure
passes through all visits that are under way, so the node at which it arises is the last one that
the recorder comes to.
-/

namespace PlZero

set_option autoImplicit false

/-- Where a list has more members of a kind than wanted, it parts at the first one too many. -/
theorem parted_at_excess {writes : Node → Bool} {nodes : List Node} {limit : Nat}
    (exceeded : limit < (nodes.filter writes).length) :
    ∃ before failing after, nodes = before ++ failing :: after ∧
      before.filter writes = (nodes.filter writes).take limit ∧
      (nodes.filter writes)[limit]? = some failing ∧ writes failing = true := by
  have parts : nodes.filter writes =
      (nodes.filter writes).take limit ++ (nodes.filter writes).drop limit :=
    (List.take_append_drop limit _).symm
  obtain ⟨early, late, split, first, second⟩ := List.filter_eq_append_iff.mp parts
  rw [List.drop_eq_getElem_cons exceeded] at second
  obtain ⟨passed, after, rfl, none, own, _⟩ := List.filter_eq_cons_iff.mp second
  have nothing : passed.filter writes = [] := List.filter_eq_nil_iff.mpr none
  refine ⟨early ++ passed, _, after, ?_, ?_, List.getElem?_eq_getElem exceeded, own⟩
  · exact split.trans (List.append_assoc early passed _).symm
  · rw [List.filter_append, first, nothing, List.append_nil]

namespace Recorder

variable (recorder : Recorder)

/-- Where the nodes in front use up the quota, the next one that would be written down is the last
one come to. -/
theorem forM_sight_beyond {before : List Node} {failing : Node} (after : List Node)
    (full : recorder.stop? = some (before.filter recorder.writes).length)
    (own : recorder.writes failing = true) :
    forM (before ++ failing :: after) recorder.sight {} =
      .error recorder.fault ⟨failing :: before.reverse,
        (before.filter recorder.writes).reverse⟩ := by
  have room : ∀ limit ∈ recorder.stop?, (before.filter recorder.writes).length + 0 ≤ limit := by
    intro limit isLimit
    rw [full] at isLimit
    cases isLimit
    omega
  have begun := recorder.forM_sight_within before [] [] room
  rw [List.append_nil, List.append_nil] at begun
  have used : recorder.stop? = some (before.filter recorder.writes).reverse.length := by
    rw [full, List.length_reverse]
  rw [List.forM_append]
  simp only [bind, EStateM.bind, begun]
  rw [forM_cons_apply, sight_apply, if_pos own, if_pos used]

def withQuota (recorder : Recorder) (limit : Nat) : Recorder :=
  { recorder with stop? := some limit }

variable {recorder : Recorder} {limit : Nat} {root : Node}

/-- A quota that is large enough makes no difference. -/
theorem watched_within_quota (unlimited : recorder.stop? = none)
    (enough : (recorder.watched root).seen.length ≤ limit) :
    (recorder.withQuota limit).watched root = recorder.watched root := by
  rw [recorder.watched_unstopped unlimited] at enough ⊢
  apply watched_within
  intro bound isBound
  cases isBound
  exact enough

/-- A recorder whose quota is too small comes to the nodes that it would come to without a quota, up
to the first that it may not write down. -/
theorem watched_beyond_quota (unlimited : recorder.stop? = none)
    (exceeded : limit < (recorder.watched root).seen.length) :
    ∃ before failing after, (recorder.watched root).reached = before ++ failing :: after ∧
      before.filter recorder.writes = (recorder.watched root).seen.take limit ∧
      (recorder.watched root).seen[limit]? = some failing ∧
      (recorder.withQuota limit).watched root = ⟨before ++ [failing],
        (recorder.watched root).seen.take limit, .error recorder.fault⟩ := by
  rw [recorder.watched_unstopped unlimited] at exceeded ⊢
  simp only at exceeded ⊢
  obtain ⟨before, failing, after, split, kept, next, own⟩ := parted_at_excess exceeded
  have full : (recorder.withQuota limit).stop? =
      some (before.filter (recorder.withQuota limit).writes).length := by
    have same : before.filter (recorder.withQuota limit).writes = before.filter recorder.writes :=
      rfl
    rw [same, kept, List.length_take, Nat.min_eq_left (by omega)]
    rfl
  have stopped := (recorder.withQuota limit).forM_sight_beyond after full own
  have whole : (recorder.withQuota limit).watched root =
      .ofResult (forM (root.tour recorder.skips) (recorder.withQuota limit).sight {}) := by
    rw [watched, watcher_eq_touring, Node.accept_touring]
    rfl
  refine ⟨before, failing, after, split, kept, next, ?_⟩
  rw [← kept, whole, split, stopped]
  simp only [Visit.ofResult, List.reverse_cons, List.reverse_reverse]
  rfl

end Recorder

/-- A recorder with a quota writes down as much of what it would write down without one as the quota
allows. If that is all, it ends well and comes to the same nodes. Else it fails as it is told to, and
it comes to the same nodes up to the one that it would have had to write down next and to none after
it. -/
theorem failing_visit_keeps_first_labels (handles : Family → Bool) (prunes : Node → Bool)
    (fault : Fault) (limit : Nat) (root : Node) :
    let whole : Recorder := { handles, prunes, stop? := none, fault }
    let stopped : Recorder := { handles, prunes, stop? := some limit, fault }
    let labels := (whole.run root).1
    stopped.run root =
        (labels.take limit, if limit < labels.length then .error fault else .ok ()) ∧
      stopped.run root = ((stopped.watched root).seen, (stopped.watched root).ended) ∧
      (labels.length ≤ limit → (stopped.watched root).reached = (whole.watched root).reached) ∧
      (limit < labels.length → ∃ before failing after,
        (whole.watched root).reached = before ++ failing :: after ∧
        before.filter (fun node => handles node.family) = labels.take limit ∧
        labels[limit]? = some failing ∧
        (stopped.watched root).reached = before ++ [failing]) := by
  intro whole stopped labels
  have seen : labels = (whole.watched root).seen := by
    change (whole.run root).1 = _
    rw [whole.run_eq_watched]
  have ended : (whole.watched root).ended = .ok () := by rw [whole.watched_unstopped rfl]
  rw [stopped.run_eq_watched, seen]
  by_cases exceeded : limit < (whole.watched root).seen.length
  · have beyond := whole.watched_beyond_quota rfl exceeded
    obtain ⟨before, failing, after, split, kept, next, same⟩ := beyond
    have failed : stopped.watched root = _ := same
    rw [failed, if_pos exceeded]
    refine ⟨rfl, rfl, fun within => by omega, fun _ => ?_⟩
    exact ⟨before, failing, after, split, kept, next, rfl⟩
  · have within : (whole.watched root).seen.length ≤ limit := by omega
    have same : stopped.watched root = whole.watched root :=
      whole.watched_within_quota rfl within
    rw [same, ended, if_neg exceeded, List.take_of_length_le within]
    exact ⟨rfl, rfl, fun _ => rfl, fun more => absurd more exceeded⟩

/-- A sum is printed twice and its parts are pruned. The second sum is one too many. -/
example :
    let sum := Expression.arithmetic .add (.identifier "a") (.identifier "b")
    let root := Node.statement (.pair (.print sum) (.print sum))
    let recorder : Recorder :=
      ⟨fun family => family == .expressions, fun node => node == .expression sum, some 1,
        .scopeUnderflow⟩
    recorder.run root = ([.expression sum], .error .scopeUnderflow) ∧
      (recorder.watched root).reached =
        [root, .statement (.print sum), .expression sum, .statement (.print sum),
          .expression sum] := ⟨rfl, rfl⟩

end PlZero
