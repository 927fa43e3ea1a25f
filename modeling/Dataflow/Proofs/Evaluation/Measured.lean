import Dataflow.Proofs.Evaluation.Distance

namespace Dataflow

namespace Graph

-- An output that was looked at, or soon is.
def Met (visited : List PortId) (tasks : List Task) (p : PortId) : Prop :=
  p ∈ visited ∨ ∃ d, .visit p d ∈ tasks

-- What came of the first look at an output: nothing computes it, or it was too far off, or
-- it is read on.
inductive Judged (graph : Graph) (goal : PortId) (log : List Outcome) (ran : List (NodeId × Nat))
    (met : PortId → Prop) (p : PortId) : Prop where
  | idle (h : ¬ graph.Computed p)
  | cut {n : NodeId} {o : Nat} (hl : graph.locate p = .ok (n, o))
      (hlog : ⟨n, o, .error (.depthExceeded graph.settings.maxEvalDepth)⟩ ∈ log)
      (hran : (n, o) ∉ ran) (hd : p ∈ graph.reached goal graph.settings.maxEvalDepth)
  | read {d : Nat} (hd : d < graph.settings.maxEvalDepth) (hp : p ∈ graph.reached goal d)
      (hmet : ∀ s ∈ graph.reads p, met s)

-- How far a request has come in the middle of its work, where nothing was fresh before.
structure Measured (graph : Graph) (goal : PortId) (log : List Outcome) (visited : List PortId)
    (tasks : List Task) (ran : List (NodeId × Nat)) : Prop where
  begun : Met visited tasks goal
  asked : ∀ p d, .visit p d ∈ tasks →
    p ∈ graph.reached goal d ∧ d ≤ graph.settings.maxEvalDepth
  judged : ∀ p ∈ visited, Judged graph goal log ran (Met visited tasks) p
  far : ∀ n o, ⟨n, o, .error (.depthExceeded graph.settings.maxEvalDepth)⟩ ∈ log →
    (n, o) ∉ ran → ∃ p, graph.locate p = .ok (n, o) ∧ graph.Computed p ∧
      p ∈ graph.reached goal graph.settings.maxEvalDepth

variable {graph : Graph} {goal p : PortId} {log more : List Outcome}
  {visited looked : List PortId} {task : Task} {tasks rest : List Task}
  {ran ran' : List (NodeId × Nat)} {n : NodeId} {o : Nat}

theorem Met.pop (h : Met visited (task :: rest) p) (hlooked : visited ⊆ looked)
    (hself : ∀ q d, task = .visit q d → q ∈ looked) (tasks : List Task) :
    Met looked (tasks ++ rest) p := by
  rcases h with hv | ⟨d, hd⟩
  · exact .inl (hlooked hv)
  · rcases List.mem_cons.mp hd with heq | hd
    · exact .inl (hself p d heq.symm)
    · exact .inr ⟨d, List.mem_append_right _ hd⟩

theorem Judged.mono {met met' : PortId → Prop} (h : Judged graph goal log ran met p)
    (hran : ∀ e ∈ log, e.place ∈ ran' → e.place ∈ ran) (hmet : ∀ s, met s → met' s) :
    Judged graph goal (log ++ more) ran' met' p := by
  cases h with
  | idle h => exact .idle h
  | cut hl hlog hnot hd =>
      exact .cut hl (List.mem_append_left _ hlog) (fun hm => hnot (hran _ hlog hm)) hd
  | read hd hp hsources => exact .read hd hp fun s hs => hmet s (hsources s hs)

-- One task more is done. What is new is what the task keeps, what it leads to, and what comes
-- of the output if it is looked at for the first time.
theorem Measured.advance (h : Measured graph goal log visited (task :: rest) ran)
    (hlooked : visited ⊆ looked) (hself : ∀ q d, task = .visit q d → q ∈ looked)
    (hran : ran ⊆ ran') (hold : ∀ e ∈ log, e.place ∈ ran' → e.place ∈ ran)
    (hasked : ∀ q d, .visit q d ∈ tasks →
      q ∈ graph.reached goal d ∧ d ≤ graph.settings.maxEvalDepth)
    (hjudged : ∀ q ∈ looked, q ∈ visited ∨
      Judged graph goal (log ++ more) ran' (Met looked (tasks ++ rest)) q)
    (hfar : ∀ n o, ⟨n, o, .error (.depthExceeded graph.settings.maxEvalDepth)⟩ ∈ more →
      (n, o) ∉ ran' → ∃ q, graph.locate q = .ok (n, o) ∧ graph.Computed q ∧
        q ∈ graph.reached goal graph.settings.maxEvalDepth) :
    Measured graph goal (log ++ more) looked (tasks ++ rest) ran' where
  begun := h.begun.pop hlooked hself tasks
  asked q d hm := by
    rcases List.mem_append.mp hm with hm | hm
    · exact hasked q d hm
    · exact h.asked q d (List.mem_cons_of_mem _ hm)
  judged q hq := by
    rcases hjudged q hq with hv | hj
    · exact (h.judged q hv).mono hold fun s hs => hs.pop hlooked hself tasks
    · exact hj
  far n o hm hnot := by
    rcases List.mem_append.mp hm with hm | hm
    · exact h.far n o hm fun hr => hnot (hran hr)
    · exact hfar n o hm hnot

-- The same for a first look, which calls nothing.
theorem Measured.look {d : Nat} (h : Measured graph goal log visited (.visit p d :: rest) ran)
    (hasked : ∀ q k, .visit q k ∈ tasks →
      q ∈ graph.reached goal k ∧ k ≤ graph.settings.maxEvalDepth)
    (hjudged : Judged graph goal (log ++ more) ran (Met (p :: visited) (tasks ++ rest)) p)
    (hfar : ∀ n o, ⟨n, o, .error (.depthExceeded graph.settings.maxEvalDepth)⟩ ∈ more →
      ∃ q, graph.locate q = .ok (n, o) ∧ graph.Computed q ∧
        q ∈ graph.reached goal graph.settings.maxEvalDepth) :
    Measured graph goal (log ++ more) (p :: visited) (tasks ++ rest) ran := by
  refine h.advance (List.subset_cons_self _ _) (fun q k heq => ?_) (List.Subset.refl _)
    (fun _ _ hm => hm) hasked (fun q hq => ?_) fun n o hm _ => hfar n o hm
  · cases heq
    exact List.mem_cons_self
  · rcases List.mem_cons.mp hq with rfl | hq
    · exact .inr hjudged
    · exact .inl hq

end Graph

namespace Session

open Dataflow.Graph

variable {start session next : Session} {goal p : PortId} {log : List Outcome}
  {visited looked : List PortId} {task : Task} {tasks rest : List Task} {n : NodeId} {o : Nat}

-- Only what has an entry was called for the request.
theorem Account.mem_places_of_ran {needed : NodeId → Nat → Prop}
    (h : Account start needed log session) (hstart : start.ran = []) (hm : (n, o) ∈ session.ran) :
    (n, o) ∈ log.map Outcome.place := by
  obtain ⟨more, hran, hsub⟩ := h.ran
  rw [hran, hstart, List.nil_append] at hm
  exact hsub.subset hm

-- What was not fresh before and is now was looked at.
theorem Ledger.mem_visited_of_fresh (h : Ledger start goal log visited tasks session)
    (hw : start.graph.Wired) (hplain : start.graph.Plain p)
    (hl : start.graph.locate p = .ok (n, o)) (hcold : ¬ start.graph.FreshAt n o)
    (hf : session.graph.FreshAt n o) : p ∈ visited := by
  by_cases hm : (n, o) ∈ log.map Outcome.place
  · obtain ⟨e, he, hplace⟩ := List.mem_map.mp hm
    obtain ⟨q, hq, hlq, hqq, -⟩ := h.settled e he
    rw [hplace] at hlq
    exact Plain.eq_of_locate hw hqq hplain hlq hl ▸ hq
  · obtain ⟨slot, hslot, hstate⟩ := hf
    exact absurd ⟨slot, (h.account.others n o hm).symm.trans hslot, hstate⟩ hcold

namespace Ledger

variable (hw : start.graph.Wired) (hgoal : start.graph.Plain goal)

section Steps

variable (hloop : Loop start.graph goal visited (task :: rest) session.graph)
  (hledger : Ledger start goal log visited (task :: rest) session)
  (h : Measured start.graph goal log visited (task :: rest) session.ran)

include hw hgoal hloop hledger h

-- What is computed was looked at before.
theorem measured_compute (htask : task = .compute p)
    (hstep : session.step visited task = (.ok (looked, tasks), next)) :
    Measured start.graph goal (log ++ (session.outcome? visited task).toList) looked
      (tasks ++ rest) next.ran := by
  subst htask
  obtain ⟨n, o, slot, hl, hln, hslot⟩ := hloop.placed
  change session.graph.locate p = .ok (n, o) at hln
  have hplain := hloop.plain hgoal
  have habsent := hledger.not_mem_places hw hplain hl (.inl rfl)
  obtain ⟨rfl, rfl, rfl, hout⟩ := compute_step hln hslot hstep
  have hran := ran_compute session n o
  rw [hout, Option.toList_some]
  refine h.advance (List.Subset.refl _) (fun q d heq => by cases heq) ?_ ?_
    (fun q d hm => by cases hm) (fun q hq => .inl hq) ?_
  · rcases hran with hran | hran <;> rw [hran]
    · exact List.Subset.refl _
    · exact List.subset_append_left _ _
  · intro e he hm
    rcases hran with hran | hran <;> rw [hran] at hm
    · exact hm
    · refine (List.mem_append.mp hm).resolve_right fun hm => ?_
      exact habsent (List.mem_singleton.mp hm ▸ List.mem_map_of_mem he)
  · intro m k hm hnot
    obtain ⟨rfl, rfl, hr⟩ := Outcome.mk.inj (List.mem_singleton.mp hm)
    exact absurd (mem_ran_compute hr.symm) hnot

variable (hstart : start.ran = []) (hcold : ∀ n o, ¬ start.graph.FreshAt n o)

include hstart hcold

theorem measured_visit {d : Nat} (htask : task = .visit p d)
    (hstep : session.step visited task = (.ok (looked, tasks), next)) :
    Measured start.graph goal (log ++ (session.outcome? visited task).toList) looked
      (tasks ++ rest) next.ran := by
  subst htask
  obtain ⟨n, o, slot, hl, hln, hslot⟩ := hloop.placed
  change start.graph.locate p = .ok (n, o) at hl
  change session.graph.locate p = .ok (n, o) at hln
  have hplain := hloop.plain hgoal
  obtain ⟨hreached, hd⟩ := h.asked p d List.mem_cons_self
  have hlimit := congrArg (·.maxEvalDepth) (settings_of_bare hloop.alike)
  rcases session.look_cases visited d hln hslot with
    ⟨hdone, hout, after, hstep', hidle⟩ | ⟨-, hnew, ⟨hunit, hout, hstep'⟩ |
      ⟨⟨unit, hunit⟩, hfar, hout, hstep'⟩ | ⟨hnear, hout, hstep'⟩⟩
  case inl =>
    obtain ⟨rfl, rfl, rfl⟩ := step_unique hstep' hstep
    have hv : p ∈ visited := by
      rcases hdone with hf | hv
      · exact hledger.mem_visited_of_fresh hw hplain hl (hcold n o) hf
      · exact hv
    rw [hout, Option.toList_none, hidle.ran]
    refine h.advance (List.Subset.refl _) (fun q k heq => ?_) (List.Subset.refl _)
      (fun _ _ hm => hm) (by simp) (fun q hq => .inl hq) (by simp)
    cases heq
    exact hv
  case inr.inl =>
    obtain ⟨rfl, rfl, rfl⟩ := step_unique hstep' hstep
    rw [hout, Option.toList_some, ran_finish]
    refine h.look (by simp) (.idle ?_) (by simp)
    rintro ⟨m, k, unit, hlp, hu⟩
    obtain ⟨rfl, rfl⟩ := Prod.mk.inj (Except.ok.inj (hl.symm.trans hlp))
    rw [unit?_of_bare hloop.alike, hu] at hunit
    cases hunit
  case inr.inr.inl =>
    obtain ⟨rfl, rfl, rfl⟩ := step_unique hstep' hstep
    rw [hlimit] at hfar hout
    obtain rfl := Nat.le_antisymm hd hfar
    have hnot : (n, o) ∉ session.ran := fun hm => hledger.not_mem_places hw hplain hl (.inr hnew)
      (hledger.account.mem_places_of_ran hstart hm)
    rw [hout, Option.toList_some, ran_finish]
    refine h.look (by simp) (.cut hl (by simp) hnot hreached) fun m k hm => ?_
    obtain ⟨rfl, rfl, -⟩ := Outcome.mk.inj (List.mem_singleton.mp hm)
    exact ⟨p, hl, ⟨m, k, unit, hl, (unit?_of_bare hloop.alike m k).symm.trans hunit⟩, hreached⟩
  case inr.inr.inr =>
    obtain ⟨rfl, rfl, rfl⟩ := step_unique hstep' hstep
    rw [hlimit] at hnear
    rw [hout, Option.toList_none, sources_of_bare hloop.alike, ← reads_eq hl]
    refine h.look (fun q k hm => ?_) (.read hnear hreached fun s hs => .inr ⟨d + 1, ?_⟩) (by simp)
    · obtain ⟨s, hs, heq⟩ := List.mem_map.mp ((List.mem_append.mp hm).resolve_right (by simp))
      obtain ⟨rfl, rfl⟩ := Task.visit.inj heq
      exact ⟨reached_succ hreached hs, hnear⟩
    · exact List.mem_append_left _ (List.mem_append_left _ (List.mem_map_of_mem hs))

theorem measured_step
    (hstep : session.step visited task = (.ok (looked, tasks), next)) :
    Measured start.graph goal (log ++ (session.outcome? visited task).toList) looked
      (tasks ++ rest) next.ran := by
  cases htask : task with
  | visit p d =>
      exact htask ▸ hledger.measured_visit hw hgoal hloop h hstart hcold htask hstep
  | compute p => exact htask ▸ hledger.measured_compute hw hgoal hloop h htask hstep

end Steps

-- So does a whole run.
theorem measured_work (ha : start.graph.Acyclic) (hw : start.graph.Wired)
    (hgoal : start.graph.Plain goal) (hstart : start.ran = [])
    (hcold : ∀ n o, ¬ start.graph.FreshAt n o) (fuel : Nat)
    (hloop : Loop start.graph goal visited tasks session.graph)
    (hledger : Ledger start goal log visited tasks session)
    (h : Measured start.graph goal log visited tasks session.ran)
    (hdone : Session.work fuel visited tasks session = (.ok [], next)) :
    ∃ seen, Measured start.graph goal (log ++ outcomesOf fuel visited tasks session) seen []
      next.ran := by
  obtain ⟨seen, -, -, hmeasured⟩ := hledger.run hw ha hgoal
    (motive := fun log visited tasks session =>
      Measured start.graph goal log visited tasks session.ran)
    (fun hloop hledger h hstep => hledger.measured_step hw hgoal hloop h hstart hcold hstep)
    fuel hloop h hdone
  exact ⟨seen, hmeasured⟩

end Ledger

end Session

namespace Graph

variable {graph : Graph} {goal p s : PortId} {log : List Outcome} {seen : List PortId}
  {ran : List (NodeId × Nat)} {node n : NodeId} {output o d : Nat}

theorem Measured.begin (graph : Graph) (goal : PortId) :
    Measured graph goal [] [] [.visit goal 0] [] where
  begun := .inr ⟨0, List.mem_cons_self⟩
  asked p d hm := by
    obtain ⟨rfl, rfl⟩ := Task.visit.inj (List.mem_singleton.mp hm)
    exact ⟨List.mem_singleton_self _, Nat.zero_le _⟩
  judged p hp := by cases hp
  far n o hm := by cases hm

theorem Met.mem_seen (h : Met seen [] p) : p ∈ seen := by
  simpa [Met] using h

-- What is read for an output is behind whatever the output is behind.
theorem Behind.of_reads (hs : s ∈ graph.reads p) (h : graph.Behind s n o) :
    graph.Behind p n o := by
  induction h with
  | here hl =>
      obtain ⟨m, k, unit, hlp, -⟩ := computed_of_reads hs
      rw [reads_eq hlp] at hs
      exact .source (.here hlp) hs hl
  | source _ hsource hl ih => exact .source ih hsource hl

-- Where no output is torn, a request looks at everything up to the limit on its reach.
theorem Measured.mem_seen (h : Measured graph goal log seen [] ran)
    (hclear : ∀ q, graph.Torn goal q → ¬ graph.Behind q n o)
    (hd : d ≤ graph.settings.maxEvalDepth) (hp : p ∈ graph.reached goal d)
    (hb : graph.Behind p n o) : p ∈ seen := by
  induction d generalizing p with
  | zero =>
      obtain rfl := List.mem_singleton.mp hp
      exact h.begun.mem_seen
  | succ d ih =>
      obtain ⟨q, hq, hread⟩ := List.mem_flatMap.mp hp
      have hbq : graph.Behind q n o := hb.of_reads hread
      cases h.judged q (ih (Nat.le_of_succ_le hd) hq hbq) with
      | idle hnone => exact absurd (computed_of_reads hread) hnone
      | cut _ _ _ hfar =>
          exact absurd hbq (hclear q ⟨computed_of_reads hread, hfar, d, hd, hq⟩)
      | read _ _ hmet => exact (hmet p hread).mem_seen

section Evaluate

variable (hg : graph.Healthy) (hcold : ∀ n o, ¬ graph.FreshAt n o)

include hg hcold

theorem Healthy.measured (hgoal : graph.resolveOutput node output = .ok goal) :
    ∃ seen, Measured graph goal ((Session.start graph).outcomes node output) seen []
      ((Session.start graph).evaluate node output).2.ran := by
  rcases @Session.evaluate_run (.start graph) hg node output with
    ⟨e, hend, -⟩ | ⟨chain, n, o, slot, next, hend, hplain, hl, hslot, hwork, heval⟩
  · cases hgoal.symm.trans hend
  · obtain rfl := Except.ok.inj (hgoal.symm.trans hend)
    obtain ⟨seen, hmeasured⟩ := Session.Ledger.measured_work hg.acyclic hg.wired hplain rfl hcold _
      (Session.loop_start (.start graph) hg.sound hl hslot) (.begin hl) (.begin graph chain.last)
      hwork
    rw [heval, Session.outcomes_eq hend]
    exact ⟨seen, hmeasured⟩

-- What is cut off is as far off as a request may reach,
theorem CutOff.far (h : graph.CutOff node output n o) :
    ∃ goal p, graph.resolveOutput node output = .ok goal ∧ graph.locate p = .ok (n, o) ∧
      graph.Computed p ∧ p ∈ graph.reached goal graph.settings.maxEvalDepth := by
  obtain ⟨hm, hnot⟩ := h
  cases hgoal : graph.resolveOutput node output with
  | error e =>
      rw [Session.outcomes, show (Session.start graph).graph = graph from rfl, hgoal] at hm
      cases hm
  | ok goal =>
      obtain ⟨seen, hmeasured⟩ := hg.measured hcold hgoal
      obtain ⟨p, hp⟩ := hmeasured.far n o hm hnot
      exact ⟨goal, p, rfl, hp⟩

-- and what is that far off is cut off if no torn output is or reads it.
theorem cutOff_of_far (hgoal : graph.resolveOutput node output = .ok goal)
    (hl : graph.locate p = .ok (n, o)) (hcomputed : graph.Computed p)
    (hp : p ∈ graph.reached goal graph.settings.maxEvalDepth)
    (hclear : ∀ q, graph.Torn goal q → ¬ graph.Behind q n o) : graph.CutOff node output n o := by
  obtain ⟨seen, hmeasured⟩ := hg.measured hcold hgoal
  have hseen := hmeasured.mem_seen hclear (Nat.le_refl _) hp (.here hl)
  cases hmeasured.judged p hseen with
  | idle hnone => exact absurd hcomputed hnone
  | cut hl' hm hnot _ =>
      obtain ⟨rfl, rfl⟩ := Prod.mk.inj (Except.ok.inj (hl.symm.trans hl'))
      exact ⟨hm, hnot⟩
  | read hd hnear _ => exact absurd (.here hl) (hclear p ⟨hcomputed, hp, _, hd, hnear⟩)

end Evaluate

end Graph

end Dataflow
