import Dataflow.Proofs.Evaluation.Settle

namespace Dataflow

-- Errors in the order in which they were recorded, each with its output.
abbrev Failures :=
  List (NodeId × Nat × EvalError)

namespace Session

-- What a task for a port has recorded as failed: where one more failure was counted, the
-- error that the slot of the port holds now.
def recorded (before after : Session) (port : PortId) : Failures :=
  if before.stats.failed < after.stats.failed then
    match after.graph.locate port with
    | .error _ => []
    | .ok (node, output) =>
        ((after.graph.ownSlot? node output).bind (·.error)).toList.map fun e => (node, output, e)
  else []

-- A result that was counted and kept in the slot of an output.
structure Keeps (before after : Session) (node : NodeId) (output : Nat) (slot : Slot)
    (result : Except EvalError Ragged) : Prop where
  graph : after.graph = before.graph.withSlot node output (slot.settle result)
  stats : after.stats = before.stats.count result

variable {session next : Session} {n : NodeId} {o : Nat} {slot : Slot}
  {result : Except EvalError Ragged}

theorem finish_keeps (h : session.graph.ownSlot? n o = some slot)
    (result : Except EvalError Ragged) :
    Keeps session (session.finish n o result) n o slot result := by
  constructor
  · exact session.finish_graph h result
  · simp only [finish, h]

theorem compute_keeps (h : session.graph.ownSlot? n o = some slot) :
    Keeps session (session.compute n o) n o slot
      (session.graph.denote session.graph.kept n o) := by
  refine ⟨session.compute_graph h, ?_⟩
  obtain ⟨node, hn, -⟩ := Option.bind_eq_some_iff.mp h
  have hunit : session.graph.unit? n o = node.unit? o := by
    rw [Graph.unit?, hn, Option.bind_some]
  simp only [compute]
  cases hu : session.graph.unit? n o with
  | none =>
      rw [session.graph.denote_of_no_unit hu]
      exact (finish_keeps h _).stats
  | some unit =>
      rw [hunit] at hu
      have hrun := Graph.runUnit_fst_eq session hn hu
      have hgraph := session.runUnit_graph (n := n) unit
      have hstats : (session.runUnit n unit).2.stats = session.stats := by
        simp only [runUnit]
        split <;> rfl
      rw [← hrun, ← hstats]
      exact (finish_keeps (by rw [hgraph, h]) _).stats

-- A failure that was kept is recorded.
theorem Keeps.mem_recorded (h : Keeps session next n o slot result)
    (hslot : session.graph.ownSlot? n o = some slot) {p : PortId}
    (hl : session.graph.locate p = .ok (n, o)) {e : EvalError} (he : result = .error e) :
    (n, o, e) ∈ recorded session next p := by
  subst he
  have hcount : session.stats.failed < next.stats.failed := by
    rw [h.stats]
    exact Nat.lt_succ_self _
  have hlocate : next.graph.locate p = .ok (n, o) := by
    rw [h.graph, Graph.locate_of_bare (Graph.bare_withSlot _ _ _ _), hl]
  have hkept : next.graph.ownSlot? n o = some (slot.settle (.error e)) := by
    rw [h.graph, Graph.ownSlot?_withSlot hslot, if_pos ⟨rfl, rfl⟩]
  simp only [recorded, hcount, if_true, hlocate, hkept]
  simp [Slot.settle]

end Session

namespace Graph

-- An output is up to date, or holds an error that was recorded.
def Done (failures : Failures) (now : Graph) (p : PortId) : Prop :=
  ∃ n o slot, now.locate p = .ok (n, o) ∧ now.ownSlot? n o = some slot ∧
    (slot.state = .fresh ∨ ∃ e, slot.error = some e ∧ (n, o, e) ∈ failures)

variable {start now : Graph} {goal p q : PortId} {visited : List PortId} {rest : List Task}
  {failures more : Failures} {session next : Session} {n : NodeId} {o : Nat} {slot : Slot}
  {result : Except EvalError Ragged}

theorem Done.mono (h : Done failures now p) (hmore : failures ⊆ more) : Done more now p := by
  obtain ⟨n, o, slot, hl, hslot, hdone⟩ := h
  refine ⟨n, o, slot, hl, hslot, hdone.imp_right ?_⟩
  rintro ⟨e, he, hm⟩
  exact ⟨e, he, hmore hm⟩

theorem Done.append (h : Done failures now p) (more : Failures) :
    Done (failures ++ more) now p :=
  h.mono (List.subset_append_left failures more)

theorem Done.of_fresh (hl : now.locate p = .ok (n, o)) (hf : now.FreshAt n o) :
    Done failures now p := by
  obtain ⟨slot, hslot, hstate⟩ := hf
  exact ⟨n, o, slot, hl, hslot, .inl hstate⟩

-- An output is done once a result is kept for it, and what was done before remains so.
theorem Done.of_keeps (h : session.Keeps next n o slot result)
    (hslot : session.graph.ownSlot? n o = some slot) (hl : session.graph.locate p = .ok (n, o))
    (hq : Done failures session.graph q ∨ q = p) :
    Done (failures ++ session.recorded next p) next.graph q := by
  have hlocate : ∀ q, next.graph.locate q = session.graph.locate q := by
    intro q
    rw [h.graph, locate_of_bare (bare_withSlot _ _ _ _)]
  have hkept : ∀ m k, next.graph.ownSlot? m k =
      if m = n ∧ k = o then some (slot.settle result) else session.graph.ownSlot? m k := by
    intro m k
    rw [h.graph, ownSlot?_withSlot hslot]
  have hnew : (slot.settle result).state = .fresh ∨
      ∃ e, (slot.settle result).error = some e ∧
        (n, o, e) ∈ failures ++ session.recorded next p := by
    cases hr : result with
    | ok value => exact .inl rfl
    | error e => exact .inr ⟨e, rfl, List.mem_append_right _ (h.mem_recorded hslot hl hr)⟩
  by_cases hsame : session.graph.locate q = .ok (n, o)
  · exact ⟨n, o, _, (hlocate q).trans hsame, (hkept n o).trans (if_pos ⟨rfl, rfl⟩), hnew⟩
  · rcases hq with hq | rfl
    · obtain ⟨m, k, found, hlq, hfound, hdone⟩ := hq.append (session.recorded next p)
      refine ⟨m, k, found, (hlocate q).trans hlq, (hkept m k).trans ((if_neg ?_).trans hfound),
        hdone⟩
      rintro ⟨rfl, rfl⟩
      exact hsame hlq
    · exact absurd hl hsame

-- What the tasks of a request leave done: each port that was looked at is done or waits,
-- and an output waits until what it reads is done.
structure Recorded (start : Graph) (goal : PortId) (failures : Failures) (visited : List PortId)
    (tasks : List Task) (now : Graph) : Prop where
  seen : ∀ p ∈ visited, Done failures now p ∨ .compute p ∈ tasks
  covered : Covered start goal (Done failures now) tasks

namespace Recorded

theorem keeps {task : Task} {looked : List PortId}
    (h : Recorded start goal failures visited (task :: rest) session.graph)
    (hkeeps : session.Keeps next n o slot result) (hslot : session.graph.ownSlot? n o = some slot)
    (hl : session.graph.locate task.port = .ok (n, o))
    (hlooked : ∀ p ∈ looked, p ∈ visited ∨ p = task.port) :
    Recorded start goal (failures ++ session.recorded next task.port) looked rest next.graph where
  seen := Looked.pop h.seen hlooked fun _ => .of_keeps hkeeps hslot hl
  covered := h.covered.pop fun _ => .of_keeps hkeeps hslot hl

-- One task keeps what is done, and what it records is new.
theorem step {task : Task} {looked : List PortId} {tasks : List Task}
    (hloop : Loop start goal visited (task :: rest) session.graph)
    (h : Recorded start goal failures visited (task :: rest) session.graph)
    (hstep : session.step visited task = (.ok (looked, tasks), next)) :
    Recorded start goal (failures ++ session.recorded next task.port) looked (tasks ++ rest)
      next.graph := by
  obtain ⟨n, o, slot, hl, hln, hslot⟩ := hloop.placed
  cases task with
  | visit p d =>
      change session.graph.locate p = .ok (n, o) at hln
      rcases session.visit_cases visited d hln hslot with
        ⟨hdone, after, hvisit, hgraph⟩ | ⟨-, -, r, hvisit, -⟩ | ⟨-, -, hvisit⟩
      · obtain ⟨rfl, rfl, rfl⟩ := Session.step_unique hstep hvisit
        have hp : Done failures session.graph p := by
          rcases hdone with hf | hv
          · exact .of_fresh hln hf
          · exact (h.seen p hv).resolve_right hloop.not_pending
        have hnext : ∀ q, Done failures session.graph q ∨ q = p →
            Done (failures ++ session.recorded next p) session.graph q := by
          rintro q (hq | rfl)
          · exact hq.append _
          · exact hp.append _
        rw [hgraph]
        exact ⟨Looked.pop h.seen (fun _ => .inl) hnext, h.covered.pop hnext⟩
      · obtain ⟨rfl, rfl, rfl⟩ := Session.step_unique hstep hvisit
        exact h.keeps (Session.finish_keeps hslot r) hslot hln
          fun q hq => (List.mem_cons.mp hq).symm
      · obtain ⟨rfl, rfl, rfl⟩ := Session.step_unique hstep hvisit
        rw [sources_of_bare hloop.alike, List.append_assoc]
        exact ⟨fun q hq => (Looked.expand h.seen _ q hq).imp_left (·.append _),
          (h.covered.expand hl).mono fun q hq => hq.append _⟩
  | compute p =>
      change session.graph.locate p = .ok (n, o) at hln
      simp only [Session.step, hln] at hstep
      obtain ⟨hok, rfl⟩ := Prod.mk.inj hstep
      obtain ⟨rfl, rfl⟩ := Prod.mk.inj (Except.ok.inj hok)
      exact h.keeps (Session.compute_keeps hslot) hslot hln fun q hq => .inl hq

end Recorded

-- What was done before a task remains so.
theorem Done.step {task : Task} {looked : List PortId} {tasks : List Task}
    (hloop : Loop start goal visited (task :: rest) session.graph)
    (hstep : session.step visited task = (.ok (looked, tasks), next))
    (hq : Done failures session.graph q) :
    Done (failures ++ session.recorded next task.port) next.graph q := by
  obtain ⟨n, o, slot, hl, hln, hslot⟩ := hloop.placed
  cases task with
  | visit p d =>
      rcases session.visit_cases visited d hln hslot with
        ⟨-, after, hvisit, hgraph⟩ | ⟨-, -, r, hvisit, -⟩ | ⟨-, -, hvisit⟩
      · obtain ⟨-, -, rfl⟩ := Session.step_unique hstep hvisit
        exact hgraph ▸ hq.append _
      · obtain ⟨-, -, rfl⟩ := Session.step_unique hstep hvisit
        exact .of_keeps (Session.finish_keeps hslot r) hslot hln (.inl hq)
      · obtain ⟨-, -, rfl⟩ := Session.step_unique hstep hvisit
        exact hq.append _
  | compute p =>
      change session.graph.locate p = .ok (n, o) at hln
      simp only [Session.step, hln] at hstep
      obtain ⟨-, rfl⟩ := Prod.mk.inj hstep
      exact .of_keeps (Session.compute_keeps hslot) hslot hln (.inl hq)

end Graph

end Dataflow
