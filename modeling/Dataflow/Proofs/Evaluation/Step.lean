import Dataflow.Proofs.Evaluation.Kept

namespace Dataflow

namespace Session

variable (session : Session) {n : NodeId} {o : Nat} {slot : Slot}

theorem finish_graph (h : session.graph.ownSlot? n o = some slot)
    (r : Except EvalError Ragged) :
    (session.finish n o r).graph = session.graph.withSlot n o (slot.settle r) := by
  simp only [finish, h]

theorem runUnit_graph (unit : EvalUnit) : (session.runUnit n unit).2.graph = session.graph := by
  simp only [runUnit]
  split <;> rfl

-- To compute an output is to keep what follows from what is kept of its sources.
theorem compute_graph (h : session.graph.ownSlot? n o = some slot) :
    (session.compute n o).graph =
      session.graph.withSlot n o (slot.settle (session.graph.denote session.graph.kept n o)) := by
  obtain ⟨node, hn, -⟩ := Option.bind_eq_some_iff.mp h
  have hunit : session.graph.unit? n o = node.unit? o := by
    rw [Graph.unit?, hn, Option.bind_some]
  simp only [compute, hunit]
  cases hu : node.unit? o with
  | none => simp only [session.finish_graph h, Graph.denote, hn, hu]
  | some unit =>
      simp only
      have h' : (session.runUnit n unit).2.graph.ownSlot? n o = some slot := by
        rw [session.runUnit_graph, h]
      rw [← Graph.runUnit_fst_eq session hn hu, finish_graph _ h', session.runUnit_graph]

-- What a first look at an output does: nothing, or it settles the output at once, or it
-- puts off the output until its sources are settled.
theorem visit_cases (visited : List PortId) {p : PortId} (d : Nat)
    (hl : session.graph.locate p = .ok (n, o)) (h : session.graph.ownSlot? n o = some slot) :
    ((session.graph.FreshAt n o ∨ p ∈ visited) ∧
      ∃ next, session.visit visited p d = (.ok (visited, []), next) ∧
        next.graph = session.graph) ∨
    (¬ session.graph.FreshAt n o ∧ p ∉ visited ∧
      ∃ r, session.visit visited p d = (.ok (p :: visited, []), session.finish n o r) ∧
        (session.graph.unit? n o = none ∧ r = .error (.noEvaluator o) ∨
          r = .error (.depthExceeded session.graph.settings.maxEvalDepth))) ∨
    (¬ session.graph.FreshAt n o ∧ p ∉ visited ∧
      session.visit visited p d =
        (.ok (p :: visited, (session.graph.sources n o).map (.visit · (d + 1)) ++ [.compute p]),
          session)) := by
  obtain ⟨node, hn, -⟩ := Option.bind_eq_some_iff.mp h
  simp only [visit, hl, hn, h, Graph.freshAt_iff_state h, Graph.sources]
  by_cases hs : slot.state = .fresh
  · left
    simp only [hs, if_true, true_or, true_and]
    exact ⟨_, rfl, rfl⟩
  · by_cases hv : p ∈ visited
    · left
      simp only [hs, hv, if_true, if_false, or_true, true_and]
      exact ⟨_, rfl, rfl⟩
    · right
      simp only [hs, hv, if_false, not_false_eq_true, true_and]
      cases hu : session.graph.unit? n o with
      | none =>
          left
          exact ⟨_, rfl, .inl ⟨rfl, rfl⟩⟩
      | some unit =>
          simp only
          split
          · left
            exact ⟨_, rfl, .inr rfl⟩
          · right
            rfl

-- A task comes to one end.
theorem step_unique {session next next' : Session} {visited looked looked' : List PortId}
    {task : Task} {tasks tasks' : List Task}
    (h : session.step visited task = (.ok (looked, tasks), next))
    (h' : session.step visited task = (.ok (looked', tasks'), next')) :
    looked = looked' ∧ tasks = tasks' ∧ next = next' := by
  obtain ⟨hok, hnext⟩ := Prod.mk.inj (h.symm.trans h')
  obtain ⟨hlooked, htasks⟩ := Prod.mk.inj (Except.ok.inj hok)
  exact ⟨hlooked, htasks, hnext⟩

end Session

end Dataflow
