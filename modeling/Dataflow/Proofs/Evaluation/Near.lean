import Dataflow.Evaluation.Session
import Dataflow.Proofs.Evaluation.Meaning

namespace Dataflow

variable {α β : Type} {bad : EvalError → Prop}

-- The same result, unless the first one is a failure of a kind that is looked past.
def Near (bad : EvalError → Prop) (a b : Except EvalError α) : Prop :=
  a = b ∨ ∃ e, a = .error e ∧ bad e

namespace Near

theorem map {a b : Except EvalError α} (h : Near bad a b) (f : α → β) :
    Near bad (a.map f) (b.map f) := by
  rcases h with rfl | ⟨e, rfl, he⟩
  · exact .inl rfl
  · exact .inr ⟨e, rfl, he⟩

theorem bind {a b : Except EvalError α} {f g : α → Except EvalError β} (h : Near bad a b)
    (hf : ∀ x, a = .ok x → b = .ok x → Near bad (f x) (g x)) :
    Near bad (a.bind f) (b.bind g) := by
  rcases h with rfl | ⟨e, rfl, he⟩
  · cases a with
    | error e => exact .inl rfl
    | ok x => exact hf x rfl rfl
  · exact .inr ⟨e, rfl, he⟩

-- The first failure decides, so results that are near one by one are near as a whole.
theorem mapM {f g : α → Except EvalError β} (l : List α) (h : ∀ x ∈ l, Near bad (f x) (g x)) :
    Near bad (l.mapM f) (l.mapM g) := by
  induction l with
  | nil => exact .inl rfl
  | cons x rest ih =>
      rw [List.mapM_cons, List.mapM_cons]
      refine (h x (by simp)).bind fun y _ _ => ?_
      exact (ih fun z hz => h z (by simp [hz])).bind fun ys _ _ => .inl rfl

end Near

namespace Graph

variable (graph : Graph) {value other : NodeId → Nat → Except EvalError Ragged}

theorem along_near (chain : Chain)
    (h : ∀ m k, graph.locate chain.last = .ok (m, k) → Near bad (value m k) (other m k)) :
    Near bad (graph.along value chain) (graph.along other chain) := by
  simp only [along]
  split
  · exact .inl rfl
  · next m k hl => exact (h m k hl).map _

theorem brought_near (hbad : ∀ u e, bad e → bad (.sourceFailed u e)) (source : PortId)
    (h : ∀ chain, graph.aliasChain source = .ok chain → ∀ m k,
      graph.locate chain.last = .ok (m, k) → Near bad (value m k) (other m k)) :
    Near bad (graph.brought value source) (graph.brought other source) := by
  simp only [brought]
  split
  · exact .inl rfl
  · next chain hc =>
    rcases graph.along_near chain (h chain hc) with heq | ⟨e, he, hb⟩
    · rw [heq]
      exact .inl rfl
    · rw [he]
      exact .inr ⟨_, rfl, hbad _ _ hb⟩

-- What edges bring comes from the producers of the input.
theorem mem_producers_of_chain {input source : PortId} {chain far : Chain} {port : Port}
    {e : EdgeId} {edge : Edge} (hc : graph.inputChain input = .ok chain)
    (hp : graph.port? chain.last = some port) (he : e ∈ port.edges)
    (hedge : graph.edge? e = some edge) (hs : edge.source = source)
    (hf : graph.aliasChain source = .ok far) : far.last ∈ graph.producers input := by
  simp only [producers, hc, hp]
  refine List.mem_filterMap.mpr ⟨edge, List.mem_filterMap.mpr ⟨e, he, hedge⟩, ?_⟩
  simp only [aliasEnd, hs, hf]
  rfl

theorem received_near (hbad : ∀ u e, bad e → bad (.sourceFailed u e)) (input : PortId)
    (h : ∀ source ∈ graph.producers input, ∀ m k, graph.locate source = .ok (m, k) →
      Near bad (value m k) (other m k)) :
    Near bad (graph.received value input) (graph.received other input) := by
  simp only [received]
  split
  · exact .inl rfl
  · next chain hc =>
    split
    · exact .inl rfl
    · next port hp =>
      refine Near.map ?_ _
      split
      · exact .inl rfl
      · refine Near.mapM _ fun edge hedge => graph.brought_near hbad _ fun far hf m k hl => ?_
        obtain ⟨e, he, hedge⟩ := List.mem_filterMap.mp hedge
        exact h _ (graph.mem_producers_of_chain hc hp he hedge rfl hf) m k hl

theorem unit?_eq (node : NodeId) (output : Nat) :
    graph.unit? node output = (graph.node? node).bind fun found => found.unit? output := rfl

-- Results are as near as the results that they are computed from.
theorem denote_near (hbad : ∀ u e, bad e → bad (.sourceFailed u e)) (node : NodeId) (output : Nat)
    (h : ∀ source ∈ graph.sources node output, ∀ m k, graph.locate source = .ok (m, k) →
      Near bad (value m k) (other m k)) :
    Near bad (graph.denote value node output) (graph.denote other node output) := by
  simp only [denote]
  split
  · exact .inl rfl
  · next found hn =>
    split
    · exact .inl rfl
    · next unit hu =>
      have hvalues : Near bad (unit.inputs.mapM (graph.receivedAt value node))
          (unit.inputs.mapM (graph.receivedAt other node)) := by
        refine Near.mapM _ fun i hi => ?_
        simp only [receivedAt]
        split
        · next port hp =>
          refine graph.received_near hbad port fun source hs => h source ?_
          rw [sources, unit?_eq, hn, Option.bind_some, hu]
          exact List.mem_flatMap.mpr ⟨port, List.mem_filterMap.mpr ⟨i, hi, hp⟩, hs⟩
        · exact .inl rfl
      rcases hvalues with heq | ⟨e, he, hb⟩
      · rw [heq]
        exact .inl rfl
      · rw [he]
        exact .inr ⟨e, rfl, hb⟩

theorem denote_of_no_unit {node : NodeId} {output : Nat} (hu : graph.unit? node output = none) :
    graph.denote value node output = .error (.noEvaluator output) := by
  cases hn : graph.node? node with
  | none => simp only [denote, hn]
  | some found =>
      rw [unit?_eq, hn, Option.bind_some] at hu
      simp only [denote, hn, hu]

-- Results are determined by the results that they are computed from.
theorem denote_congr (node : NodeId) (output : Nat)
    (h : ∀ source ∈ graph.sources node output, ∀ m k, graph.locate source = .ok (m, k) →
      value m k = other m k) :
    graph.denote value node output = graph.denote other node output := by
  have hnear : Near (fun _ => False) (graph.denote value node output)
      (graph.denote other node output) :=
    graph.denote_near (fun _ _ h => h) node output
      fun source hs m k hl => .inl (h source hs m k hl)
  rcases hnear with heq | ⟨_, _, hf⟩
  · exact heq
  · exact hf.elim

theorem Means.unique {graph : Graph} {node : NodeId} {output : Nat}
    {a b : Except EvalError Ragged} (ha : graph.Means node output a)
    (hb : graph.Means node output b) : a = b := by
  induction ha generalizing b with
  | intro value h ih =>
      cases hb with
      | intro other h' =>
          exact graph.denote_congr _ _ fun source hs m k hl =>
            ih source hs m k hl (h' source hs m k hl)

end Graph

end Dataflow
