import Dataflow.Proofs.Evaluation.Untouched

namespace Dataflow.Graph

-- What is kept as fresh is what the graph means, and rests on fresh results only.
def Sound (graph : Graph) : Prop :=
  ∀ n o slot, graph.ownSlot? n o = some slot → slot.state = .fresh →
    ∃ v, slot.cache = some v ∧ graph.Means n o (.ok v) ∧
      ∀ s ∈ graph.sources n o, ∀ m k, graph.locate s = .ok (m, k) → graph.FreshAt m k

variable {graph other : Graph} {S : NodeId → Prop}

theorem Sound.new (settings : Settings) : (Graph.new settings).Sound := by
  intro n o slot h
  cases h

-- Fresh results stay sound where nothing that they rest on has changed.
theorem Sound.of_untouched (hs : graph.Sound) (hw : graph.Wired) (h : Untouched graph other S) :
    other.Sound := by
  intro n o slot hslot hstate
  have hn : S n := h.fresh ⟨slot, hslot, hstate⟩
  obtain ⟨v, hv, hmeans, hsources⟩ := hs n o slot (h.slots o hn ▸ hslot) hstate
  refine ⟨v, hv, hmeans.frame h.agree h.upstream hw hn, fun s hmem m k hl => ?_⟩
  rw [h.agree.sources h.upstream hw hn] at hmem
  obtain ⟨out, source, -, hsource, -⟩ := hw.mem_sources hmem
  have hlocate : graph.locate s = .ok (source.node, source.index) :=
    (locate_eq_ok_iff _ _ _).mpr ⟨source, hsource, rfl, rfl⟩
  rw [h.agree.locate hsource (h.upstream.sources hw hn hmem hlocate)] at hl
  obtain ⟨slot, hslot, hstate⟩ := hsources s hmem m k hl
  exact ⟨slot, h.slots k (h.upstream.sources hw hn hmem hl) ▸ hslot, hstate⟩

theorem Edit.sound (h : graph.Edit other) (hw : graph.Wired) (hs : graph.Sound) :
    other.Sound := by
  obtain ⟨S, hS⟩ := h.untouched hw
  exact hs.of_untouched hw hS

end Dataflow.Graph
