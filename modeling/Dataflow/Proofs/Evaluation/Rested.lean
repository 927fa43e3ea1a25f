import Dataflow.Proofs.Ledger

namespace Dataflow

namespace Graph

-- An output whose slot is left alone from now on: it is fresh, or it was looked at and does
-- not wait.
def Rested (start : Graph) (visited : List PortId) (tasks : List Task) (now : Graph)
    (p : PortId) : Prop :=
  start.Plain p ∧ ∃ n o, start.locate p = .ok (n, o) ∧
    (now.FreshAt n o ∨ p ∈ visited ∧ .compute p ∉ tasks)

-- A request in the middle of its work, with what an output reads at rest before the output
-- is computed.
structure Resting (start : Graph) (goal : PortId) (visited : List PortId) (tasks : List Task)
    (now : Graph) : Prop where
  loop : Loop start goal visited tasks now
  looked : ∀ p, .compute p ∈ tasks → p ∈ visited
  covered : Covered start goal (Rested start visited tasks now) tasks

variable {start now : Graph} {goal p q : PortId} {visited looked : List PortId} {task : Task}
  {rest tasks : List Task} {n m : NodeId} {o k : Nat} {session next : Session}

-- What an output computes is the same while what it reads is left alone.
theorem denote_kept_eq {last : Graph} (hw : start.Wired) (hnow : now.bare = start.bare)
    (hlast : last.bare = start.bare)
    (h : ∀ s ∈ start.sources n o, ∀ m k, start.locate s = .ok (m, k) →
      last.ownSlot? m k = now.ownSlot? m k) :
    last.denote last.kept n o = now.denote now.kept n o := by
  rw [(agree_of_bare hlast).denote (.all start) hw trivial,
    (agree_of_bare hnow).denote (.all start) hw trivial]
  exact start.denote_congr n o fun s hs m k hl => kept_congr (h s hs m k hl)

namespace Rested

-- What is at rest stays so when a task goes that nothing came of,
theorem drop (h : Rested start visited (task :: rest) now p) :
    Rested start visited rest now p := by
  obtain ⟨hplain, n, o, hl, hrest⟩ := h
  exact ⟨hplain, n, o, hl, hrest.imp_right fun ⟨hv, hwaits⟩ =>
    ⟨hv, fun hm => hwaits (List.mem_cons_of_mem _ hm)⟩⟩

-- when one more output is put off,
theorem expand {d : Nat} (h : Rested start visited (.visit q d :: rest) now p) (hnew : q ∉ visited)
    (sources : List PortId) : Rested start (q :: visited)
      (sources.map (.visit · (d + 1)) ++ .compute q :: rest) now p := by
  obtain ⟨hplain, m, k, hlp, hrest⟩ := h
  refine ⟨hplain, m, k, hlp, hrest.imp_right fun ⟨hv, hwaits⟩ =>
    ⟨List.mem_cons_of_mem _ hv, fun hm => ?_⟩⟩
  rcases Task.compute_mem_expand.mp hm with rfl | hm
  · exact hnew hv
  · exact hwaits (List.mem_cons_of_mem _ hm)

-- and when a result is kept for an output that was not at rest.
theorem place_ne (h : Rested start visited (task :: rest) now p) (hw : start.Wired)
    (hplain : start.Plain task.port) (hl : start.locate task.port = .ok (n, o))
    (hstale : ¬ now.FreshAt n o) (hnew : task = .compute task.port ∨ task.port ∉ visited)
    (hlp : start.locate p = .ok (m, k)) : ¬ (m = n ∧ k = o) := by
  rintro ⟨rfl, rfl⟩
  obtain ⟨hplain', m', k', hlp', hrest⟩ := h
  obtain ⟨rfl, rfl⟩ := Prod.mk.inj (Except.ok.inj (hlp.symm.trans hlp'))
  obtain rfl := Session.Plain.eq_of_locate hw hplain' hplain hlp hl
  rcases hrest with hf | ⟨hv, hwaits⟩
  · exact hstale hf
  · rcases hnew with htask | hnew
    · exact hwaits (htask ▸ List.mem_cons_self)
    · exact hnew hv

theorem keep {slot : Slot} {r : Except EvalError Ragged}
    (h : Rested start visited (task :: rest) now p) (hslot : now.ownSlot? n o = some slot)
    (hne : ∀ m k, start.locate p = .ok (m, k) → ¬ (m = n ∧ k = o)) (hlooked : visited ⊆ looked) :
    Rested start looked rest (now.withSlot n o (slot.settle r)) p := by
  obtain ⟨hplain, m, k, hlp, hrest⟩ := h
  refine ⟨hplain, m, k, hlp, hrest.imp (fun hf => ?_) fun ⟨hv, hwaits⟩ =>
    ⟨hlooked hv, fun hm => hwaits (List.mem_cons_of_mem _ hm)⟩⟩
  rwa [freshAt_withSlot_iff hslot, if_neg (hne m k hlp)]

end Rested

namespace Resting

theorem begin (hloop : Loop start goal [] [.visit goal 0] now) :
    Resting start goal [] [.visit goal 0] now where
  loop := hloop
  looked p hp := by simp at hp
  covered := .inr rfl

-- A task goes that leads to no others, and its output is at rest.
theorem pop {after : Graph} (h : Resting start goal visited (task :: rest) now)
    (hloop : Loop start goal looked rest after) (hlooked : visited ⊆ looked)
    (hself : Rested start looked rest after task.port)
    (hrest : ∀ q, Rested start visited (task :: rest) now q → Rested start looked rest after q) :
    Resting start goal looked rest after where
  loop := hloop
  looked p hp := hlooked (h.looked p (List.mem_cons_of_mem _ hp))
  covered := h.covered.pop fun q hq => hq.elim (hrest q) fun heq => heq ▸ hself

-- One more output is put off.
theorem expand {d : Nat} (h : Resting start goal visited (.visit p d :: rest) now)
    (hl : start.locate p = .ok (n, o)) (hnew : p ∉ visited)
    (hloop : Loop start goal (p :: visited)
      ((start.sources n o).map (.visit · (d + 1)) ++ .compute p :: rest) now) :
    Resting start goal (p :: visited)
      ((start.sources n o).map (.visit · (d + 1)) ++ .compute p :: rest) now where
  loop := hloop
  looked q hq := by
    rcases Task.compute_mem_expand.mp hq with rfl | hq
    · exact List.mem_cons_self
    · exact List.mem_cons_of_mem _ (h.looked q (List.mem_cons_of_mem _ hq))
  covered := (h.covered.expand hl).mono fun _ hq => hq.expand hnew _

-- One task leaves alone what is at rest, and its output is at rest where it leads to no
-- others.
theorem step (hw : start.Wired) (ha : start.Acyclic) (hgoal : start.Plain goal)
    (h : Resting start goal visited (task :: rest) session.graph)
    (hstep : session.step visited task = (.ok (looked, tasks), next)) :
    Resting start goal looked (tasks ++ rest) next.graph ∧
    (tasks = [] → Rested start looked rest next.graph task.port) ∧
    ∀ p, Rested start visited (task :: rest) session.graph p →
      Rested start looked (tasks ++ rest) next.graph p ∧
      ∀ m k, start.locate p = .ok (m, k) →
        next.graph.ownSlot? m k = session.graph.ownSlot? m k := by
  obtain ⟨n, o, slot, hl, hln, hslot⟩ := h.loop.placed
  have hplain := h.loop.plain hgoal
  obtain ⟨_, _, _, hagain, hloop, -⟩ := h.loop.step hw ha
  obtain ⟨rfl, rfl, rfl⟩ := Session.step_unique hstep hagain
  rcases session.step_cases visited hln hslot with
    ⟨-, -, hdone, after, hstep', hidle⟩ | ⟨r, looked', after, -, hstep', hkeeps, -, hcase⟩ |
      ⟨-, -, hv, d, htask, hstep'⟩
  case inl =>
    obtain ⟨rfl, rfl, rfl⟩ := Session.step_unique hstep' hstep
    have hself : Rested start visited rest after.graph task.port := by
      refine ⟨hplain, n, o, hl, hdone.imp (fun hf => ?_) fun hv => ⟨hv, h.loop.not_waiting⟩⟩
      rwa [hidle.graph]
    have hrest : ∀ p, Rested start visited (task :: rest) session.graph p →
        Rested start visited rest after.graph p := by
      intro p hp
      rw [hidle.graph]
      exact hp.drop
    exact ⟨h.pop hloop (List.Subset.refl _) hself hrest, fun _ => hself,
      fun p hp => ⟨hrest p hp, fun _ _ _ => by rw [hidle.graph]⟩⟩
  case inr.inl =>
    obtain ⟨rfl, rfl, rfl⟩ := Session.step_unique hstep' hstep
    have hstale : ¬ session.graph.FreshAt n o := by
      rcases hcase with ⟨htask, -⟩ | ⟨-, hstale, -⟩
      · exact h.loop.stale task.port (htask ▸ List.mem_cons_self) n o hl
      · exact hstale
    have hlooked : task.port ∈ looked' ∧ visited ⊆ looked' := by
      rcases hcase with ⟨htask, rfl, -⟩ | ⟨-, -, -, rfl, -⟩
      · exact ⟨h.looked _ (htask ▸ List.mem_cons_self), List.Subset.refl _⟩
      · exact ⟨List.mem_cons_self, List.subset_cons_self _ _⟩
    have hnew : task = .compute task.port ∨ task.port ∉ visited :=
      hcase.imp (·.1) (·.2.2.1)
    have hself : Rested start looked' rest after.graph task.port :=
      ⟨hplain, n, o, hl, .inr ⟨hlooked.1, h.loop.not_waiting⟩⟩
    have hrest : ∀ p, Rested start visited (task :: rest) session.graph p →
        Rested start looked' rest after.graph p := by
      intro p hp
      rw [hkeeps.graph]
      exact hp.keep hslot (fun m k => hp.place_ne hw hplain hl hstale hnew) hlooked.2
    refine ⟨h.pop hloop hlooked.2 hself hrest, fun _ => hself,
      fun p hp => ⟨hrest p hp, fun m k hlp => ?_⟩⟩
    rw [hkeeps.graph, ownSlot?_withSlot hslot,
      if_neg (hp.place_ne hw hplain hl hstale hnew hlp)]
  case inr.inr =>
    obtain ⟨rfl, rfl, rfl⟩ := Session.step_unique hstep' hstep
    rw [sources_of_bare h.loop.alike, List.append_assoc, List.singleton_append] at hloop ⊢
    cases task with
    | compute p => cases htask
    | visit p d =>
      obtain ⟨-, rfl⟩ := Task.visit.inj htask
      exact ⟨h.expand hl hv hloop, fun hnil => absurd hnil (by simp),
        fun q hq => ⟨hq.expand hv _, fun _ _ _ => rfl⟩⟩

-- So does a whole run.
theorem work (hw : start.Wired) (ha : start.Acyclic) (hgoal : start.Plain goal) (fuel : Nat)
    (h : Resting start goal visited tasks session.graph)
    (hdone : Session.work fuel visited tasks session = (.ok [], next))
    (hp : Rested start visited tasks session.graph p) (hl : start.locate p = .ok (n, o)) :
    next.graph.ownSlot? n o = session.graph.ownSlot? n o := by
  induction hdone using Session.work_induction with
  | nil => rfl
  | cons hstep _ ih =>
      obtain ⟨hnext, -, hrest⟩ := h.step hw ha hgoal hstep
      obtain ⟨hp', hslot⟩ := hrest p hp
      rw [ih hnext hp', hslot n o hl]

-- What follows from what is kept is the same at the end as when an output is computed.
theorem denote_eq (hw : start.Wired) (ha : start.Acyclic) (hgoal : start.Plain goal) (fuel : Nat)
    (h : Resting start goal visited (.compute p :: rest) session.graph)
    (hdone : Session.work fuel visited (.compute p :: rest) session = (.ok [], next))
    (hnext : next.graph.bare = start.bare) (hl : start.locate p = .ok (n, o)) :
    next.graph.denote next.graph.kept n o = session.graph.denote session.graph.kept n o :=
  denote_kept_eq hw h.loop.alike hnext fun s hs _ _ hls =>
    h.work hw ha hgoal fuel hdone (h.covered.1 n o hl s hs) hls

end Resting

end Graph

end Dataflow
