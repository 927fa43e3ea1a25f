import Dataflow.Proofs.Evaluation.Untouched
import Dataflow.Proofs.Intact

namespace Dataflow

-- A result that is out of date keeps its value and its last failure.
def Slot.invalidate (slot : Slot) : Slot :=
  { slot with invalid := true }

namespace Graph

open Relation

variable {graph : Graph} {id m n : NodeId} {o : Nat}

-- A node reads another through an alias where one of its ports stands for a port of the other.
def Forwards (graph : Graph) (a b : NodeId) : Prop :=
  ∃ p port t target, graph.port? p = some port ∧ port.node = b ∧ port.aliasOf = some t ∧
    graph.port? t = some target ∧ target.node = a

-- What a change at a node reaches: the node itself, every node that is fed by one that is
-- reached, and every node that reads one of these through an alias.
inductive Affected (graph : Graph) (id : NodeId) : NodeId → Prop where
  | self (h : id ∈ graph.nodes.ids) : Affected graph id id
  | fed {m n : NodeId} (hm : Affected graph id m) (h : graph.Feeds m n) : Affected graph id n
  | forwarded {m n : NodeId} (hm : Affected graph id m) (h : graph.Forwards m n) :
      Affected graph id n

namespace Wired

variable (hw : graph.Wired)

include hw

theorem mem_aliasReaders_iff_forwards : n ∈ graph.aliasReaders m ↔ n ≠ m ∧ graph.Forwards m n := by
  cases hm : graph.node? m with
  | none =>
      simp only [aliasReaders, hm, List.not_mem_nil, false_iff]
      rintro ⟨-, p, port, t, target, -, -, -, ht, rfl⟩
      obtain ⟨node, hnode⟩ := hw.owner ht
      cases hm.symm.trans hnode
  | some node =>
      rw [mem_aliasReaders_iff hm]
      refine and_congr_right fun _ => ?_
      constructor
      · rintro ⟨p, port, t, hp, hn, ha, ht⟩
        obtain ⟨target, ht, hnode⟩ := (hw.mem_ports_iff hm t).mp ht
        exact ⟨p, port, t, target, hp, hn, ha, ht, hnode⟩
      · rintro ⟨p, port, t, target, hp, hn, ha, ht, hnode⟩
        exact ⟨p, port, t, hp, hn, ha, (hw.mem_ports_iff hm t).mpr ⟨target, ht, hnode⟩⟩

theorem mem_dependents_iff :
    n ∈ graph.dependents m ↔ graph.Feeds m n ∨ n ≠ m ∧ graph.Forwards m n := by
  rw [← hw.mem_successors_iff, ← hw.mem_aliasReaders_iff_forwards]
  cases hm : graph.node? m with
  | none => simp [dependents, successors, aliasReaders, hm]
  | some node => simp only [dependents, successors, hm, mem_distinct_iff, List.mem_append]

-- The layers of the search find what is affected and nothing else. Of a node that is not
-- there nothing depends.
theorem affected_iff :
    graph.Affected id n ↔ id ∈ graph.nodes.ids ∧ n ∈ graph.downstream id := by
  constructor
  · intro h
    induction h with
    | self h => exact ⟨h, hw.mem_downstream_self id⟩
    | fed _ h ih => exact ⟨ih.1, hw.downstream_trans ih.2 (hw.mem_dependents_iff.mpr (.inl h))⟩
    | @forwarded m n _ h ih =>
        by_cases hne : n = m
        · rwa [hne]
        · exact ⟨ih.1, hw.downstream_trans ih.2 (hw.mem_dependents_iff.mpr (.inr ⟨hne, h⟩))⟩
  · rintro ⟨hid, hn⟩
    rw [hw.mem_downstream_iff] at hn
    induction hn with
    | refl => exact .self hid
    | tail _ hstep ih =>
        rcases hw.mem_dependents_iff.mp hstep with h | ⟨-, h⟩
        · exact ih.fed h
        · exact ih.forwarded h

-- A node that is there is reached from nodes only that are.
theorem mem_ids_of_downstream (hn : n ∈ graph.nodes.ids) (h : n ∈ graph.downstream id) :
    id ∈ graph.nodes.ids := by
  rcases ReflTransGen.cases_head ((hw.mem_downstream_iff id n).mp h) with rfl | ⟨c, hstep, -⟩
  · exact hn
  · rw [Arena.mem_ids_iff]
    cases hid : graph.node? id with
    | none => simp [Closure.Step, dependents, hid] at hstep
    | some node => exact ⟨node, hid⟩

end Wired

theorem ownSlot?_invalidate (graph : Graph) (id n : NodeId) (o : Nat) :
    (graph.invalidate id).ownSlot? n o =
      (graph.ownSlot? n o).map fun slot =>
        if n ∈ graph.downstream id then slot.invalidate else slot := by
  simp only [ownSlot?, node?_invalidate, List.contains_eq_mem, decide_eq_true_eq]
  cases graph.node? n with
  | none => rfl
  | some node =>
      simp only [Option.map_some, Option.bind_some]
      split
      · exact List.getElem?_map
      · exact Option.map_id'.symm

-- An invalidation puts every result of the affected nodes out of date, and does nothing else.
theorem reachable_invalidate_exact (h : Reachable graph) (id : NodeId) :
    (∀ n o, graph.Affected id n →
      (graph.invalidate id).ownSlot? n o = (graph.ownSlot? n o).map Slot.invalidate) ∧
    (∀ n o, ¬ graph.Affected id n → (graph.invalidate id).ownSlot? n o = graph.ownSlot? n o) ∧
    (graph.invalidate id).bare = graph.bare := by
  have hw := h.healthy.wired
  refine ⟨fun n o haffected => ?_, fun n o haffected => ?_, graph.bare_invalidate id⟩
  · simp only [ownSlot?_invalidate, (hw.affected_iff.mp haffected).2, if_true]
  · rw [ownSlot?_invalidate]
    cases hslot : graph.ownSlot? n o with
    | none => rfl
    | some slot =>
        obtain ⟨node, hn, -⟩ := Option.bind_eq_some_iff.mp hslot
        have hlive : n ∈ graph.nodes.ids := (Arena.mem_ids_iff _ _).mpr ⟨node, hn⟩
        have hout : n ∉ graph.downstream id := fun hmem =>
          haffected (hw.affected_iff.mpr ⟨hw.mem_ids_of_downstream hlive hmem, hmem⟩)
        rw [Option.map_some, if_neg hout]

-- A container that hands on the result of the node inside it, to a node beside it.
def leading : List Operation :=
  [.addNode .relay ⟨1⟩, .addNodeIn .relay ⟨2⟩ ⟨1⟩, .addNode .relay ⟨3⟩, .linkAlias ⟨2⟩ ⟨4⟩,
    .addEdge ⟨2⟩ ⟨5⟩, .setProperty ⟨2⟩ "in" (.leaf (.int 7)), .evaluate ⟨3⟩ 0]

def led : Graph :=
  (Graph.new .standard).run leading

-- The node beside the container is reached from inside it, and nothing from there.
theorem led_invalidate_exact :
    (led.invalidate ⟨2⟩).ownSlot? ⟨3⟩ 0 = some ⟨some (.scalar (.int 7)), false, true, none⟩ ∧
    (led.invalidate ⟨3⟩).ownSlot? ⟨2⟩ 0 = some ⟨some (.scalar (.int 7)), false, false, none⟩ := by
  have hled : Reachable led := Reachable.run (.new .standard) leading
  obtain ⟨hinside, -, -⟩ := reachable_invalidate_exact hled ⟨2⟩
  obtain ⟨-, hbeside, -⟩ := reachable_invalidate_exact hled ⟨3⟩
  constructor
  · rw [hinside ⟨3⟩ 0]
    · rfl
    · have hforwards : led.Forwards ⟨2⟩ ⟨1⟩ := ⟨⟨2⟩, _, ⟨4⟩, _, rfl, rfl, rfl, rfl, rfl⟩
      have hfeeds : led.Feeds ⟨1⟩ ⟨3⟩ := ⟨⟨1⟩, _, _, _, rfl, rfl, rfl, rfl, rfl⟩
      exact .fed (.forwarded (.self (by decide)) hforwards) hfeeds
  · rw [hbeside ⟨2⟩ 0]
    · rfl
    · rw [hled.healthy.wired.affected_iff]
      decide

end Graph

end Dataflow
