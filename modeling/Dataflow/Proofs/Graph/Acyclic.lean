import Dataflow.Proofs.Graph.Arcs
import Dataflow.Proofs.Graph.Integrity

namespace Dataflow.Graph

open Relation

section Relations

variable {α : Type} {r s : α → α → Prop} {x y : α}

-- With one more arc, whatever is connected either was before or is connected by way of
-- that arc.
private theorem transGen_or_of_one_more (h : ∀ a b, s a b → r a b ∨ (a = x ∧ b = y)) {a b : α}
    (hab : TransGen s a b) : TransGen r a b ∨ (ReflTransGen r a x ∧ ReflTransGen r y b) := by
  induction hab with
  | single hb =>
      rcases h _ _ hb with hb | ⟨rfl, rfl⟩
      · exact .inl (.single hb)
      · exact .inr ⟨.refl, .refl⟩
  | tail _ hc ih =>
      rcases h _ _ hc with hc | ⟨rfl, rfl⟩
      · rcases ih with ih | ⟨hx, hy⟩
        · exact .inl (ih.tail hc)
        · exact .inr ⟨hx, hy.tail hc⟩
      · rcases ih with ih | ⟨hx, -⟩
        · exact .inr ⟨ih.to_reflTransGen, .refl⟩
        · exact .inr ⟨hx, .refl⟩

-- One more arc closes a loop just where there is a way back.
private theorem loop_iff_of_one_more (hr : ∀ p, ¬ TransGen r p p)
    (h : ∀ a b, s a b ↔ r a b ∨ (a = x ∧ b = y)) :
    (∃ p, TransGen s p p) ↔ ReflTransGen r y x := by
  constructor
  · rintro ⟨p, hp⟩
    rcases transGen_or_of_one_more (fun a b => (h a b).mp) hp with hp | ⟨hx, hy⟩
    · exact absurd hp (hr p)
    · exact hy.trans hx
  · intro hyx
    have hback : ReflTransGen s y x :=
      ReflTransGen.mono (fun a b hab => (h a b).mpr (.inl hab)) _ _ hyx
    exact ⟨x, TransGen.head' ((h x y).mpr (.inr ⟨rfl, rfl⟩)) hback⟩

-- Arcs into dead ends are on no loop.
private theorem acyclic_of_dead_ends (hr : ∀ p, ¬ TransGen r p p)
    (h : ∀ a b, s a b → r a b ∨ ∀ c, ¬ s b c) : ∀ p, ¬ TransGen s p p := by
  intro p hp
  have hall : ∀ {a b}, TransGen s a b → (∃ c, s b c) → TransGen r a b := by
    intro a b hab
    induction hab with
    | single hb =>
        intro hc
        exact .single ((h _ _ hb).resolve_right fun hn => hc.elim hn)
    | tail _ hc ih =>
        intro hd
        exact (ih ⟨_, hc⟩).tail ((h _ _ hc).resolve_right fun hn => hd.elim hn)
  obtain ⟨q, hpq, -⟩ := TransGen.head'_iff.mp hp
  exact hr p (hall hp ⟨q, hpq⟩)

end Relations

-- A graph whose nodes, edges and aliases are among those of another has no more arcs.
theorem Arc.of_part (graph other : Graph)
    (hnode : ∀ {id node'}, other.node? id = some node' → ∃ node, graph.node? id = some node ∧
      node.inputs = node'.inputs ∧ node.outputs = node'.outputs ∧ node.units = node'.units)
    (hedge : ∀ {e edge}, other.edge? e = some edge → graph.edge? e = some edge)
    (hport : ∀ {p port' t}, other.port? p = some port' → port'.aliasOf = some t →
      ∃ port, graph.port? p = some port ∧ port.aliasOf = some t)
    {a b : PortId} (h : other.Arc a b) : graph.Arc a b := by
  cases h with
  | through hn hu hi ho =>
      obtain ⟨node, hn, h1, h2, h3⟩ := hnode hn
      exact .through hn (h3 ▸ hu) (h1 ▸ hi) (h2 ▸ ho)
  | along he => exact .along (hedge he)
  | forwards hp ht =>
      obtain ⟨port, hp, ht⟩ := hport hp ht
      exact .forwards hp ht

theorem Acyclic.of_arcs {graph other : Graph} (ha : graph.Acyclic)
    (h : ∀ a b, other.Arc a b → graph.Arc a b) : other.Acyclic :=
  fun p hp => ha p (TransGen.mono h _ _ hp)

-- Changes of nodes that keep their frames, beside the same ports and edges.
theorem Acyclic.of_nodes {graph other : Graph} (ha : graph.Acyclic)
    (hports : other.ports = graph.ports) (hedges : other.edges = graph.edges)
    (hnode : ∀ id, (other.node? id).map Node.frame = (graph.node? id).map Node.frame) :
    other.Acyclic := by
  refine ha.of_arcs fun a b => Arc.of_part _ _ ?_ ?_ ?_
  · intro id node' h
    obtain ⟨node, hn, hinputs, houtputs, hunits, -⟩ := exists_of_frame_eq (hnode id) h
    exact ⟨node, hn, hinputs, houtputs, hunits⟩
  · intro e edge h
    rwa [edge?, hedges] at h
  · intro p port t h ht
    rw [port?, hports] at h
    exact ⟨port, h, ht⟩

theorem Acyclic.new (settings : Settings) : (Graph.new settings).Acyclic := by
  intro p hp
  obtain ⟨q, h, -⟩ := TransGen.head'_iff.mp hp
  cases h with
  | through hn _ _ _ => cases hn
  | along he => cases he
  | forwards hp _ => cases hp

theorem arc_invalidate_iff (graph : Graph) (id : NodeId) (a b : PortId) :
    (graph.invalidate id).Arc a b ↔ graph.Arc a b := by
  constructor
  · refine Arc.of_part graph (graph.invalidate id) ?_ (fun h => h) (fun h ht => ⟨_, h, ht⟩)
    intro n node' h
    rw [node?_invalidate] at h
    obtain ⟨node, hn, rfl⟩ := Option.map_eq_some_iff.mp h
    refine ⟨node, hn, ?_⟩
    split <;> exact ⟨rfl, rfl, rfl⟩
  · refine Arc.of_part (graph.invalidate id) graph ?_ (fun h => h) (fun h ht => ⟨_, h, ht⟩)
    intro n node h
    rw [node?_invalidate, h]
    refine ⟨_, rfl, ?_⟩
    split <;> exact ⟨rfl, rfl, rfl⟩

theorem Acyclic.invalidate {graph : Graph} (ha : graph.Acyclic) (id : NodeId) :
    (graph.invalidate id).Acyclic :=
  ha.of_arcs fun a b => (graph.arc_invalidate_iff id a b).mp

theorem Acyclic.invalidateAll {graph : Graph} (ha : graph.Acyclic) (ids : List NodeId) :
    (ids.foldl Graph.invalidate graph).Acyclic := by
  induction ids generalizing graph with
  | nil => exact ha
  | cons id rest ih => exact ih (ha.invalidate id)

theorem Acyclic.dropEdges {graph : Graph} (ha : graph.Acyclic) (ids : List EdgeId) :
    (graph.dropEdges ids).Acyclic := by
  refine ha.of_arcs fun a b => Arc.of_part graph (graph.dropEdges ids)
    (fun h => ⟨_, h, rfl, rfl, rfl⟩) ?_ ?_
  · intro e edge h
    exact ((edge?_dropEdges_eq_some_iff _ _).mp h).2
  · intro p port' t h ht
    rw [port?_dropEdges] at h
    obtain ⟨port, hp, rfl⟩ := Option.map_eq_some_iff.mp h
    exact ⟨port, hp, ht⟩

theorem Acyclic.withdraw {graph : Graph} (ha : graph.Acyclic) (doomed : List NodeId) :
    (graph.withdraw doomed).Acyclic := by
  refine ha.of_arcs fun a b => Arc.of_part _ _ ?_ ?_ ?_
  · intro id node h
    exact ⟨node, ((node?_withdraw_eq_some_iff _ _).mp h).2, rfl, rfl, rfl⟩
  · intro e edge h
    exact ((edge?_withdraw_eq_some_iff _ _).mp h).2
  · intro p left t h ht
    rw [port?_withdraw] at h
    split at h
    · cases h
    · obtain ⟨port, hp, rfl⟩ := Option.map_eq_some_iff.mp h
      exact ⟨port, hp, ((aliasOf_trim_eq_some_iff _ _).mp ht).1⟩

theorem arc_join_iff (graph : Graph) (s d a b : PortId) :
    (graph.join s d).Arc a b ↔ graph.Arc a b ∨ (a = s ∧ b = d) := by
  constructor
  · intro h
    cases h with
    | through hn hu hi ho => exact .inl (.through (node?_join graph s d _ ▸ hn) hu hi ho)
    | along he =>
        rw [edge?_join] at he
        split at he
        · cases he
          exact .inr ⟨rfl, rfl⟩
        · exact .inl (.along he)
    | forwards hp ht =>
        rw [port?_join] at hp
        obtain ⟨port, hport, rfl⟩ := Option.map_eq_some_iff.mp hp
        exact .inl (.forwards hport ht)
  · rintro (h | ⟨rfl, rfl⟩)
    · cases h with
      | through hn hu hi ho => exact .through ((node?_join graph s d _).trans hn) hu hi ho
      | @along e _ he =>
          have he' := graph.edge?_join s d e
          rw [if_neg (graph.edges.ne_fresh_of_find? he), he] at he'
          exact .along he'
      | forwards hp ht =>
          have hp' := graph.port?_join s d b
          rw [hp, Option.map_some] at hp'
          exact .forwards hp' ht
    · have he := graph.edge?_join a b graph.edges.fresh
      rw [if_pos rfl] at he
      exact .along he

-- A new edge closes a loop just where its source depends on its destination.
theorem Acyclic.join_iff {graph : Graph} (ha : graph.Acyclic) (s d : PortId) :
    (graph.join s d).Acyclic ↔ ¬ ReflTransGen graph.Arc d s := by
  rw [← loop_iff_of_one_more ha (graph.arc_join_iff s d), not_exists]
  rfl

theorem Acyclic.withProperty {graph : Graph} (ha : graph.Acyclic) (id : NodeId) (key : String)
    (value : Nested Value) : (graph.withProperty id key value).Acyclic :=
  ha.of_nodes rfl rfl (frame_withProperty graph id key value)

theorem Acyclic.withPosition {graph : Graph} (ha : graph.Acyclic) (id : NodeId)
    (position : Position) : (graph.withPosition id position).Acyclic :=
  ha.of_nodes rfl rfl (frame_withPosition graph id position)

theorem Acyclic.withFlags {graph : Graph} (ha : graph.Acyclic) (p : PortId) (flags : Flags) :
    (graph.withFlags p flags).Acyclic := by
  refine ha.of_arcs fun a b => Arc.of_part graph (graph.withFlags p flags)
    (fun h => ⟨_, h, rfl, rfl, rfl⟩) (fun h => h) ?_
  intro q port' t hq ht
  rw [port?_withFlags] at hq
  obtain ⟨found, hfound, rfl⟩ := Option.map_eq_some_iff.mp hq
  refine ⟨found, hfound, ?_⟩
  split at ht <;> exact ht

theorem arc_of_unlink (graph : Graph) (p a b : PortId) (h : (graph.unlink p).Arc a b) :
    graph.Arc a b := by
  refine Arc.of_part graph (graph.unlink p) (fun h => ⟨_, h, rfl, rfl, rfl⟩) (fun h => h) ?_ h
  intro q port' t hq ht
  rw [port?_unlink] at hq
  obtain ⟨port, hport, rfl⟩ := Option.map_eq_some_iff.mp hq
  split at ht
  · cases ht
  · exact ⟨port, hport, ht⟩

theorem Acyclic.unlink {graph : Graph} (ha : graph.Acyclic) (p : PortId) :
    (graph.unlink p).Acyclic :=
  ha.of_arcs (graph.arc_of_unlink p)

-- The only arcs that a port loses with its alias are arcs to itself.
theorem arc_unlink_or (graph : Graph) (p a b : PortId) (h : graph.Arc a b) :
    (graph.unlink p).Arc a b ∨ b = p := by
  cases h with
  | through hn hu hi ho => exact .inl (.through ((node?_unlink graph p _).trans hn) hu hi ho)
  | along he => exact .inl (.along ((edge?_unlink graph p _).trans he))
  | @forwards _ _ port hp ht =>
      by_cases hb : b = p
      · exact .inr hb
      · have hp' := graph.port?_unlink p b
        rw [hp, Option.map_some, if_neg hb] at hp'
        exact .inl (.forwards hp' ht)

theorem arc_forward_iff (graph : Graph) {p : PortId} {port : Port}
    (hp : graph.port? p = some port) (t a b : PortId) :
    (graph.forward p t).Arc a b ↔ (graph.unlink p).Arc a b ∨ (a = t ∧ b = p) := by
  constructor
  · intro h
    cases h with
    | through hn hu hi ho => exact .inl (.through ((node?_unlink graph p _).trans hn) hu hi ho)
    | along he => exact .inl (.along ((edge?_unlink graph p _).trans he))
    | forwards hq ht =>
        rw [port?_forward] at hq
        obtain ⟨found, hfound, rfl⟩ := Option.map_eq_some_iff.mp hq
        by_cases hb : b = p
        · rw [if_pos hb] at ht
          exact .inr ⟨(Option.some.inj ht).symm, hb⟩
        · rw [if_neg hb] at ht
          have hq' := graph.port?_unlink p b
          rw [hfound, Option.map_some, if_neg hb] at hq'
          exact .inl (.forwards hq' ht)
  · rintro (h | ⟨rfl, rfl⟩)
    · cases h with
      | through hn hu hi ho => exact .through ((node?_forward graph p t _).trans hn) hu hi ho
      | along he => exact .along ((edge?_forward graph p t _).trans he)
      | forwards hq ht =>
          rw [port?_unlink] at hq
          obtain ⟨found, hfound, rfl⟩ := Option.map_eq_some_iff.mp hq
          by_cases hb : b = p
          · rw [if_pos hb] at ht
            cases ht
          · rw [if_neg hb] at ht
            have hq' := graph.port?_forward p t b
            rw [hfound, Option.map_some, if_neg hb] at hq'
            exact .forwards hq' ht
    · have hq := graph.port?_forward b a b
      rw [hp, Option.map_some, if_pos rfl] at hq
      exact .forwards hq rfl

-- What depends on a port does so without the alias of that port: no way comes back to it.
theorem Acyclic.reflTransGen_unlink_iff {graph : Graph} (ha : graph.Acyclic) (p t : PortId) :
    ReflTransGen (graph.unlink p).Arc p t ↔ ReflTransGen graph.Arc p t := by
  constructor
  · exact ReflTransGen.mono (graph.arc_of_unlink p) _ _
  · intro h
    induction h with
    | refl => exact .refl
    | tail hb hc ih =>
        rcases graph.arc_unlink_or p _ _ hc with hc' | rfl
        · exact ih.tail hc'
        · exact absurd (TransGen.tail' hb hc) (ha _)

-- A new target closes a loop just where it depends on the port already. The old target
-- makes no difference.
theorem Acyclic.forward_iff {graph : Graph} (ha : graph.Acyclic) {p : PortId} {port : Port}
    (hp : graph.port? p = some port) (t : PortId) :
    (graph.forward p t).Acyclic ↔ ¬ ReflTransGen graph.Arc p t := by
  rw [← ha.reflTransGen_unlink_iff,
    ← loop_iff_of_one_more (ha.unlink p) (graph.arc_forward_iff hp t), not_exists]
  rfl

-- Nothing leads on from the outputs of a new node, and nothing else leads to its ports.
theorem Acyclic.withNode {graph : Graph} (ha : graph.Acyclic) (hw : graph.Wired)
    (template : Template) (uuid : Uuid) (parent : ItemId) :
    (graph.withNode template uuid parent).Acyclic := by
  have hold : ∀ {p port}, graph.port? p = some port → p.number < graph.ports.next :=
    fun h => graph.ports.number_lt_of_find? h
  have harc : ∀ {a b}, (graph.withNode template uuid parent).Arc a b → graph.Arc a b ∨
      a ∈ graph.newInputs template ∧ b ∈ graph.newOutputs template := by
    intro a b h
    cases h with
    | through hn hu hi ho =>
        rcases (node?_withNode_eq_some_iff ..).mp hn with ⟨-, rfl⟩ | hn
        · exact .inr ⟨hi, ho⟩
        · exact .inl (.through hn hu hi ho)
    | @along e _ he => exact .inl (.along (e := e) he)
    | forwards hp ht =>
        rcases graph.port?_withNode_cases template uuid parent hp with hp | ⟨_, _, _, rfl, -⟩
        · exact .inl (.forwards hp ht)
        · cases ht
  refine acyclic_of_dead_ends ha ?_
  intro a b h
  rcases harc h with h | ⟨-, hb⟩
  · exact .inl h
  · right
    intro c hc
    simp only [newOutputs, List.mem_map, List.mem_range] at hb
    obtain ⟨k, hk, rfl⟩ := hb
    rcases harc hc with hc | ⟨hin, -⟩
    · obtain ⟨port, hp⟩ := (hw.live_of_arc hc).1
      have := hold hp
      simp only at this
      omega
    · simp only [newInputs, List.mem_map, List.mem_range, Id.mk.injEq] at hin
      obtain ⟨j, hj, hjk⟩ := hin
      omega

end Dataflow.Graph
