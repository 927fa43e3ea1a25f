import Dataflow.Proofs.Evaluation.Distance

namespace Dataflow

namespace Graph

-- An output that is not fresh.
def Stale (graph : Graph) (p : PortId) : Prop :=
  ∃ n o, graph.locate p = .ok (n, o) ∧ ¬ graph.FreshAt n o

-- A path from the goal along what is read, so many reads long, with no fresh output on it.
inductive Trail (graph : Graph) (goal : PortId) : Nat → PortId → Prop where
  | here (h : graph.Stale goal) : Trail graph goal 0 goal
  | read {d : Nat} {p s : PortId} (h : Trail graph goal d p) (hs : s ∈ graph.reads p)
      (hstale : graph.Stale s) : Trail graph goal (d + 1) s

-- The outputs at which a request has a limit on its reach, as seen from the goal: what is
-- asked for or waits, whose function was called, and what was given up.
structure InReach (graph : Graph) (goal : PortId) (log : List Outcome) (tasks : List Task)
    (ran : List (NodeId × Nat)) : Prop where
  asked : ∀ p d, .visit p d ∈ tasks →
    d ≤ graph.settings.maxEvalDepth ∧ (graph.Stale p → graph.Trail goal d p)
  waiting : ∀ p, .compute p ∈ tasks → ∃ d < graph.settings.maxEvalDepth, graph.Trail goal d p
  called : ∀ n o, (n, o) ∈ ran → ∃ p, ∃ d < graph.settings.maxEvalDepth,
    graph.locate p = .ok (n, o) ∧ graph.Trail goal d p
  far : ∀ n o, ⟨n, o, .error (.depthExceeded graph.settings.maxEvalDepth)⟩ ∈ log →
    (n, o) ∉ ran → ∃ p, graph.locate p = .ok (n, o) ∧
      graph.Trail goal graph.settings.maxEvalDepth p

variable {graph : Graph} {goal p s : PortId} {log more : List Outcome} {task : Task}
  {tasks rest : List Task} {ran ran' : List (NodeId × Nat)} {n : NodeId} {o d : Nat}

theorem InReach.begin (graph : Graph) (goal : PortId) :
    InReach graph goal [] [.visit goal 0] [] where
  asked p d hm := by
    obtain ⟨rfl, rfl⟩ := Task.visit.inj (List.mem_singleton.mp hm)
    exact ⟨Nat.zero_le _, .here⟩
  waiting p hm := by simp at hm
  called n o hm := by cases hm
  far n o hm := by cases hm

-- One task more is done. What is new is what the task leads to, calls and keeps.
theorem InReach.advance (h : InReach graph goal log (task :: rest) ran)
    (hasked : ∀ p d, .visit p d ∈ tasks →
      d ≤ graph.settings.maxEvalDepth ∧ (graph.Stale p → graph.Trail goal d p))
    (hwaiting : ∀ p, .compute p ∈ tasks →
      ∃ d < graph.settings.maxEvalDepth, graph.Trail goal d p)
    (hran : ran ⊆ ran') (hcalled : ∀ n o, (n, o) ∈ ran' → (n, o) ∈ ran ∨
      ∃ p, ∃ d < graph.settings.maxEvalDepth, graph.locate p = .ok (n, o) ∧ graph.Trail goal d p)
    (hfar : ∀ n o, ⟨n, o, .error (.depthExceeded graph.settings.maxEvalDepth)⟩ ∈ more →
      (n, o) ∉ ran' → ∃ p, graph.locate p = .ok (n, o) ∧
        graph.Trail goal graph.settings.maxEvalDepth p) :
    InReach graph goal (log ++ more) (tasks ++ rest) ran' where
  asked p d hm := by
    rcases List.mem_append.mp hm with hm | hm
    · exact hasked p d hm
    · exact h.asked p d (List.mem_cons_of_mem _ hm)
  waiting p hm := by
    rcases List.mem_append.mp hm with hm | hm
    · exact hwaiting p hm
    · exact h.waiting p (List.mem_cons_of_mem _ hm)
  called n o hm := by
    rcases hcalled n o hm with hm | hnew
    · exact h.called n o hm
    · exact hnew
  far n o hm hnot := by
    rcases List.mem_append.mp hm with hm | hm
    · exact h.far n o hm fun hr => hnot (hran hr)
    · exact hfar n o hm hnot

end Graph

namespace Session

open Dataflow.Graph

variable {start session next : Session} {goal p : PortId} {log : List Outcome}
  {visited looked : List PortId} {task : Task} {tasks rest : List Task} {n : NodeId} {o d : Nat}

-- A request leaves what is fresh as it is.
theorem Account.freshAt {needed : NodeId → Nat → Prop} (h : Account start needed log session)
    (hf : start.graph.FreshAt n o) : session.graph.FreshAt n o := by
  have hnew : (n, o) ∉ log.map Outcome.place := by
    intro hm
    obtain ⟨e, he, hplace⟩ := List.mem_map.mp hm
    obtain ⟨rfl, rfl⟩ := Prod.mk.inj hplace
    exact (h.due e he).1 hf
  obtain ⟨slot, hslot, hstate⟩ := hf
  exact ⟨slot, (h.others n o hnew).trans hslot, hstate⟩

-- Only what is not fresh is looked at for the first time.
theorem stale_of_looked (hl : session.graph.locate p = .ok (n, o)) {slot : Slot}
    (hslot : session.graph.ownSlot? n o = some slot)
    (hstep : session.step visited (.visit p d) = (.ok (p :: visited, tasks), next)) :
    ¬ session.graph.FreshAt n o := by
  rcases session.visit_cases visited d hl hslot with
    ⟨-, after, hvisit, -⟩ | ⟨hstale, -⟩ | ⟨hstale, -⟩
  · obtain ⟨hsame, -⟩ := step_unique hstep hvisit
    exact absurd hsame (List.cons_ne_self p visited)
  · exact hstale
  · exact hstale

namespace Ledger

variable (hloop : Loop start.graph goal visited (task :: rest) session.graph)
  (hledger : Ledger start goal log visited (task :: rest) session)
  (h : InReach start.graph goal log (task :: rest) session.ran)

include hloop hledger h

-- What is looked at for the first time is at the end of a path of that length.
theorem trail_of_looked (htask : task = .visit p d)
    (hstep : session.step visited task = (.ok (p :: visited, tasks), next)) :
    d ≤ start.graph.settings.maxEvalDepth ∧ start.graph.Trail goal d p := by
  subst htask
  obtain ⟨n, o, slot, hl, hln, hslot⟩ := hloop.placed
  obtain ⟨hd, htrail⟩ := h.asked p d List.mem_cons_self
  refine ⟨hd, htrail ⟨n, o, hl, fun hf => ?_⟩⟩
  exact stale_of_looked hln hslot hstep (hledger.account.freshAt hf)

theorem inReach_compute (htask : task = .compute p)
    (hstep : session.step visited task = (.ok (looked, tasks), next)) :
    InReach start.graph goal (log ++ (session.outcome? visited task).toList) (tasks ++ rest)
      next.ran := by
  subst htask
  obtain ⟨n, o, slot, hl, hln, hslot⟩ := hloop.placed
  change start.graph.locate p = .ok (n, o) at hl
  change session.graph.locate p = .ok (n, o) at hln
  obtain ⟨d, hd, htrail⟩ := h.waiting p List.mem_cons_self
  obtain ⟨rfl, rfl, rfl, hout⟩ := compute_step hln hslot hstep
  have hcalled : ∀ m k, (m, k) ∈ (session.compute n o).ran →
      (m, k) ∈ session.ran ∨ (m, k) = (n, o) := by
    intro m k hm
    rcases ran_compute session n o with hran | hran <;> rw [hran] at hm
    · exact .inl hm
    · exact (List.mem_append.mp hm).imp_right List.mem_singleton.mp
  rw [hout, Option.toList_some]
  refine h.advance (by simp) (by simp) ?_ ?_ ?_
  · rcases ran_compute session n o with hran | hran <;> rw [hran]
    · exact List.Subset.refl _
    · exact List.subset_append_left _ _
  · intro m k hm
    refine (hcalled m k hm).imp_right fun heq => ?_
    obtain ⟨rfl, rfl⟩ := Prod.mk.inj heq
    exact ⟨p, d, hd, hl, htrail⟩
  · intro m k hm hnot
    obtain ⟨rfl, rfl, hr⟩ := Outcome.mk.inj (List.mem_singleton.mp hm)
    exact absurd (mem_ran_compute hr.symm) hnot

theorem inReach_visit (htask : task = .visit p d)
    (hstep : session.step visited task = (.ok (looked, tasks), next)) :
    InReach start.graph goal (log ++ (session.outcome? visited task).toList) (tasks ++ rest)
      next.ran := by
  obtain ⟨n, o, slot, hl, hln, hslot⟩ := hloop.placed
  have hlimit := congrArg (·.maxEvalDepth) (settings_of_bare hloop.alike)
  have hlook : ∀ {tasks' after}, session.step visited task = (.ok (p :: visited, tasks'), after) →
      d ≤ start.graph.settings.maxEvalDepth ∧ start.graph.Trail goal d p :=
    hledger.trail_of_looked hloop h htask
  subst htask
  change start.graph.locate p = .ok (n, o) at hl
  change session.graph.locate p = .ok (n, o) at hln
  rcases session.look_cases visited d hln hslot with
    ⟨-, hout, after, hstep', hidle⟩ | ⟨-, -, ⟨-, hout, hstep'⟩ | ⟨-, hfar, hout, hstep'⟩ |
      ⟨hnear, hout, hstep'⟩⟩
  case inl =>
    obtain ⟨rfl, rfl, rfl⟩ := step_unique hstep' hstep
    rw [hout, Option.toList_none, hidle.ran]
    exact h.advance (by simp) (by simp) (List.Subset.refl _) (fun _ _ => .inl) (by simp)
  case inr.inl =>
    obtain ⟨rfl, rfl, rfl⟩ := step_unique hstep' hstep
    rw [hout, Option.toList_some, ran_finish]
    exact h.advance (by simp) (by simp) (List.Subset.refl _) (fun _ _ => .inl) (by simp)
  case inr.inr.inl =>
    obtain ⟨hd, htrail⟩ := hlook hstep'
    obtain ⟨rfl, rfl, rfl⟩ := step_unique hstep' hstep
    rw [hlimit] at hfar hout
    obtain rfl := Nat.le_antisymm hd hfar
    rw [hout, Option.toList_some, ran_finish]
    refine h.advance (by simp) (by simp) (List.Subset.refl _) (fun _ _ => .inl) ?_
    intro m k hm _
    obtain ⟨rfl, rfl, -⟩ := Outcome.mk.inj (List.mem_singleton.mp hm)
    exact ⟨p, hl, htrail⟩
  case inr.inr.inr =>
    obtain ⟨-, htrail⟩ := hlook hstep'
    obtain ⟨rfl, rfl, rfl⟩ := step_unique hstep' hstep
    rw [hlimit] at hnear
    rw [hout, Option.toList_none, sources_of_bare hloop.alike, ← reads_eq hl]
    refine h.advance ?_ ?_ (List.Subset.refl _) (fun _ _ => .inl) (by simp)
    · intro q k hm
      obtain ⟨s, hs, heq⟩ := List.mem_map.mp ((List.mem_append.mp hm).resolve_right (by simp))
      obtain ⟨rfl, rfl⟩ := Task.visit.inj heq
      exact ⟨hnear, htrail.read hs⟩
    · intro q hm
      obtain rfl : q = p := by simpa using hm
      exact ⟨d, hnear, htrail⟩

-- One task does not reach past the limit.
theorem inReach_step (hstep : session.step visited task = (.ok (looked, tasks), next)) :
    InReach start.graph goal (log ++ (session.outcome? visited task).toList) (tasks ++ rest)
      next.ran := by
  cases htask : task with
  | visit p d => exact htask ▸ hledger.inReach_visit hloop h htask hstep
  | compute p => exact htask ▸ hledger.inReach_compute hloop h htask hstep

end Ledger

end Session

end Dataflow
