import Dataflow.Proofs.Evaluation.Rested

namespace Dataflow

theorem Slot.settle_error_settle (slot : Slot) (e : EvalError) :
    (slot.settle (.error e)).settle (.error e) = slot.settle (.error e) :=
  rfl

namespace Graph

-- To keep what is kept already changes nothing.
theorem withSlot_self {graph : Graph} {n : NodeId} {o : Nat} {slot : Slot}
    (h : graph.ownSlot? n o = some slot) : graph.withSlot n o slot = graph := by
  have hnodes : (graph.nodes.modify n fun found =>
      { found with slots := found.slots.set o slot }) = graph.nodes := by
    refine graph.nodes.update_eq_self fun id node hn => ?_
    dsimp only
    split
    · next heq =>
      subst heq
      have hn : graph.node? id = some node := hn
      rw [ownSlot?, hn, Option.bind_some] at h
      obtain ⟨hlt, rfl⟩ := List.getElem?_eq_some_iff.mp h
      rw [List.set_getElem_self]
    · rfl
  rw [withSlot, hnodes]

-- A port whose output is up to date.
def Fresh (graph : Graph) (p : PortId) : Prop :=
  ∃ n o, graph.locate p = .ok (n, o) ∧ graph.FreshAt n o

-- The tasks of two runs, one of which finds some outputs fresh that the other brings up to
-- date. There the one has looks only.
inductive Thinned (fresh : PortId → Prop) : List Task → List Task → Prop where
  | nil : Thinned fresh [] []
  | first {task : Task} {rest rest' : List Task} (hf : fresh task.port)
      (h : Thinned fresh rest rest') : Thinned fresh (task :: rest) rest'
  | second {p : PortId} {d : Nat} {rest rest' : List Task} (hf : fresh p)
      (h : Thinned fresh rest rest') : Thinned fresh rest (.visit p d :: rest')
  | both {task : Task} {rest rest' : List Task} (hs : ¬ fresh task.port)
      (h : Thinned fresh rest rest') : Thinned fresh (task :: rest) (task :: rest')

namespace Thinned

variable {fresh : PortId → Prop} {tasks rest rest' : List Task}

theorem append_first (hf : ∀ t ∈ tasks, fresh t.port) (h : Thinned fresh rest rest') :
    Thinned fresh (tasks ++ rest) rest' := by
  induction tasks with
  | nil => exact h
  | cons task tasks ih =>
      exact .first (hf task (by simp)) (ih fun t ht => hf t (List.mem_cons_of_mem _ ht))

theorem append_both (hs : ∀ p, .compute p ∈ tasks → ¬ fresh p) (h : Thinned fresh rest rest') :
    Thinned fresh (tasks ++ rest) (tasks ++ rest') := by
  induction tasks with
  | nil => exact h
  | cons task tasks ih =>
      have hrest := ih fun p hp => hs p (List.mem_cons_of_mem _ hp)
      by_cases hf : fresh task.port
      · cases task with
        | visit p d => exact .first hf (.second hf hrest)
        | compute p => exact absurd hf (hs p (by simp))
      · exact .both hf hrest

theorem refl (hs : ∀ p, .compute p ∈ tasks → ¬ fresh p) : Thinned fresh tasks tasks := by
  simpa using append_both hs .nil

end Thinned

end Graph

end Dataflow
