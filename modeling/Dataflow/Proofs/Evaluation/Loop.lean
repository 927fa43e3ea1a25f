import Dataflow.Proofs.Evaluation.Step

namespace Dataflow

def Task.port : Task → PortId
  | .visit port _ => port
  | .compute port => port

-- Of the tasks that an output leads to only its own computes.
theorem Task.compute_mem_expand {p q : PortId} {d : Nat} {sources : List PortId}
    {rest : List Task} :
    .compute q ∈ sources.map (Task.visit · d) ++ .compute p :: rest ↔ q = p ∨ .compute q ∈ rest := by
  simp

-- A failure that goes back to the limit on how far a request may reach.
def TooDeep (limit : Nat) (e : EvalError) : Prop :=
  e.rootCause = .depthExceeded limit

theorem TooDeep.sourceFailed {limit : Nat} (u : Uuid) (e : EvalError) (h : TooDeep limit e) :
    TooDeep limit (.sourceFailed u e) :=
  h

namespace Graph

-- Where the result of a port is kept is known, and holds what the port means, unless the
-- request reached too far back.
def Settled (start now : Graph) (p : PortId) : Prop :=
  ∃ n o r, start.locate p = .ok (n, o) ∧ start.Means n o r ∧
    Near (TooDeep start.settings.maxEvalDepth) (now.kept n o) r

-- Whatever stands on a stack of tasks is ready when its turn comes: before an output is
-- computed, its sources were settled or have had a task of their own. In the end this
-- holds of the goal.
def Covered (start : Graph) (goal : PortId) : (PortId → Prop) → List Task → Prop
  | ready, [] => ready goal
  | ready, .visit p _ :: rest => Covered start goal (fun s => ready s ∨ s = p) rest
  | ready, .compute p :: rest =>
      (∀ n o, start.locate p = .ok (n, o) → ∀ s ∈ start.sources n o, ready s) ∧
        Covered start goal (fun s => ready s ∨ s = p) rest

theorem Covered.mono {start : Graph} {goal : PortId} {tasks : List Task}
    {ready other : PortId → Prop} (h : Covered start goal ready tasks)
    (hi : ∀ s, ready s → other s) : Covered start goal other tasks := by
  induction tasks generalizing ready other with
  | nil => exact hi goal h
  | cons task rest ih =>
      cases task with
      | visit p d => exact ih h fun s hs => hs.imp (hi s) id
      | compute p =>
          exact ⟨fun n o hl s hs => hi s (h.1 n o hl s hs), ih h.2 fun s hs => hs.imp (hi s) id⟩

theorem Covered.of_visit {start : Graph} {goal p : PortId} {d : Nat} {rest : List Task}
    {ready : PortId → Prop} (h : Covered start goal ready (.visit p d :: rest)) :
    Covered start goal (fun s => ready s ∨ s = p) rest :=
  h

theorem Covered.of_compute {start : Graph} {goal p : PortId} {rest : List Task}
    {ready : PortId → Prop} (h : Covered start goal ready (.compute p :: rest)) :
    Covered start goal (fun s => ready s ∨ s = p) rest :=
  h.2

theorem Covered.visits {start : Graph} {goal : PortId} (sources : List PortId) (d : Nat)
    {rest : List Task} {ready : PortId → Prop}
    (h : Covered start goal (fun s => ready s ∨ s ∈ sources) rest) :
    Covered start goal ready (sources.map (.visit · d) ++ rest) := by
  induction sources generalizing ready with
  | nil => exact h.mono fun s hs => by simpa using hs
  | cons p sources ih =>
      refine ih (h.mono fun s hs => ?_)
      simp only [List.mem_cons] at hs
      tauto

-- What an output reads may be looked at before it is computed.
theorem Covered.expand {start : Graph} {goal p : PortId} {d : Nat} {rest : List Task}
    {ready : PortId → Prop} (h : Covered start goal ready (.visit p d :: rest)) {n : NodeId}
    {o : Nat} (hl : start.locate p = .ok (n, o)) :
    Covered start goal ready
      ((start.sources n o).map (.visit · (d + 1)) ++ .compute p :: rest) := by
  refine Covered.visits _ _ ⟨?_, ?_⟩
  · intro m k hlp s hs
    obtain ⟨rfl, rfl⟩ := Prod.mk.inj (Except.ok.inj (hl.symm.trans hlp))
    exact .inr hs
  · exact h.of_visit.mono fun s hs => hs.imp_left .inl

-- A task is done, and its port is ready.
theorem Covered.pop {start : Graph} {goal : PortId} {task : Task} {rest : List Task}
    {ready other : PortId → Prop} (h : Covered start goal ready (task :: rest))
    (hnext : ∀ s, ready s ∨ s = task.port → other s) : Covered start goal other rest := by
  cases task with
  | visit p d => exact h.of_visit.mono hnext
  | compute p => exact h.of_compute.mono hnext

-- What was looked at is ready or waits on the stack.
def Looked (ready : PortId → Prop) (visited : List PortId) (tasks : List Task) : Prop :=
  ∀ p ∈ visited, ready p ∨ .compute p ∈ tasks

theorem Looked.pop {ready other : PortId → Prop} {visited looked : List PortId} {task : Task}
    {rest : List Task} (h : Looked ready visited (task :: rest))
    (hlooked : ∀ p ∈ looked, p ∈ visited ∨ p = task.port)
    (hnext : ∀ s, ready s ∨ s = task.port → other s) : Looked other looked rest := by
  intro q hq
  rcases hlooked q hq with hq | rfl
  · rcases h q hq with hready | hmem
    · exact .inl (hnext q (.inl hready))
    · rcases List.mem_cons.mp hmem with heq | hmem
      · exact .inl (hnext q (.inr (congrArg Task.port heq)))
      · exact .inr hmem
  · exact .inl (hnext _ (.inr rfl))

theorem Looked.expand {ready : PortId → Prop} {visited : List PortId} {p : PortId} {d : Nat}
    {rest : List Task} (h : Looked ready visited (.visit p d :: rest)) (tasks : List Task) :
    Looked ready (p :: visited) (tasks ++ .compute p :: rest) := by
  intro q hq
  rcases List.mem_cons.mp hq with rfl | hq
  · exact .inr (by simp)
  · refine (h q hq).imp_right fun hmem => ?_
    have hmem := (List.mem_cons.mp hmem).resolve_left Task.noConfusion
    simp [hmem]

-- An output that computes on its own.
def Plain (graph : Graph) (p : PortId) : Prop :=
  ∃ port, graph.port? p = some port ∧ port.direction = .output ∧ port.aliasOf = none

def rankOf (graph : Graph) (p : PortId) : Nat :=
  match graph.locate p with
  | .ok (n, o) => graph.rankAt n o
  | .error _ => 0

theorem rankOf_eq {graph : Graph} {p : PortId} {n : NodeId} {o : Nat}
    (h : graph.locate p = .ok (n, o)) : graph.rankOf p = graph.rankAt n o := by
  simp only [rankOf, h]

-- The state of a request in the middle of its work, `start` being the graph as the request
-- found it and `goal` what it is for.
structure Loop (start : Graph) (goal : PortId) (visited : List PortId) (tasks : List Task)
    (now : Graph) : Prop where
  alike : now.bare = start.bare
  sound : now.Sound
  live : ∀ t ∈ tasks, (t.port = goal ∨ start.Plain t.port) ∧
    ∃ n o slot, start.locate t.port = .ok (n, o) ∧ now.ownSlot? n o = some slot
  -- What was looked at is settled or waits on the stack.
  seen : ∀ p ∈ visited, Settled start now p ∨ .compute p ∈ tasks
  -- Above an output that waits stands only what it reads, directly or not.
  order : tasks.Pairwise fun a b => ∀ p, b = .compute p → start.rankOf a.port < start.rankOf p
  -- An output that waits is not fresh.
  stale : ∀ p, .compute p ∈ tasks → ∀ n o, start.locate p = .ok (n, o) → ¬ now.FreshAt n o
  covered : Covered start goal (Settled start now) tasks
  -- Fresh results of other ports are from before.
  touched : ∀ n o, now.FreshAt n o → start.FreshAt n o ∨
    ∃ p, start.locate p = .ok (n, o) ∧ (p = goal ∨ start.Plain p)

variable {start now : Graph} {goal p : PortId} {visited : List PortId} {rest : List Task}
  {n : NodeId} {o : Nat} {slot : Slot}

-- What is settled remains so when a result near the right one is kept.
theorem Settled.withSlot {r m : Except EvalError Ragged} (h : Settled start now p)
    (hslot : now.ownSlot? n o = some slot) (hm : start.Means n o m)
    (hr : Near (TooDeep start.settings.maxEvalDepth) r m) :
    Settled start (now.withSlot n o (slot.settle r)) p := by
  obtain ⟨n', o', r', hl, hm', hnear⟩ := h
  refine ⟨n', o', r', hl, hm', ?_⟩
  rw [kept_withSlot hslot]
  split
  · next heq =>
    obtain ⟨rfl, rfl⟩ := heq
    exact hm'.unique hm ▸ hr
  · exact hnear

theorem Settled.of_withSlot {r m : Except EvalError Ragged} (hl : start.locate p = .ok (n, o))
    (hslot : now.ownSlot? n o = some slot) (hm : start.Means n o m)
    (hr : Near (TooDeep start.settings.maxEvalDepth) r m) :
    Settled start (now.withSlot n o (slot.settle r)) p := by
  refine ⟨n, o, m, hl, hm, ?_⟩
  rw [kept_withSlot hslot, if_pos ⟨rfl, rfl⟩]
  exact hr

namespace Loop

variable {task : Task}

-- Where the first task finds its output.
theorem placed (h : Loop start goal visited (task :: rest) now) :
    ∃ n o slot, start.locate task.port = .ok (n, o) ∧ now.locate task.port = .ok (n, o) ∧
      now.ownSlot? n o = some slot := by
  obtain ⟨-, n, o, slot, hl, hslot⟩ := h.live task List.mem_cons_self
  exact ⟨n, o, slot, hl, (locate_of_bare h.alike _).trans hl, hslot⟩

theorem plain (h : Loop start goal visited (task :: rest) now) (hgoal : start.Plain goal) :
    start.Plain task.port :=
  (h.live task List.mem_cons_self).1.elim (fun heq => heq ▸ hgoal) id

-- Its output does not wait to be computed further down.
theorem not_waiting (h : Loop start goal visited (task :: rest) now) :
    .compute task.port ∉ rest := by
  intro hm
  exact Nat.lt_irrefl _ ((List.pairwise_cons.mp h.order).1 _ hm task.port rfl)

-- Nothing that waits to be computed is looked at again.
theorem not_pending (h : Loop start goal visited (.visit p d :: rest) now) :
    .compute p ∉ Task.visit p d :: rest := by
  intro hm
  rcases List.mem_cons.mp hm with heq | hm
  · cases heq
  · exact h.not_waiting hm

-- A task for an output that is settled already goes.
theorem drop {task : Task} (h : Loop start goal visited (task :: rest) now)
    (hs : Settled start now task.port) :
    Loop start goal visited rest now where
  alike := h.alike
  sound := h.sound
  live := fun t hm => h.live t (List.mem_cons_of_mem _ hm)
  seen := Looked.pop h.seen (fun _ => .inl) fun _ hor => hor.elim id fun heq => heq ▸ hs
  order := (List.pairwise_cons.mp h.order).2
  stale := fun p hm => h.stale p (List.mem_cons_of_mem _ hm)
  covered := h.covered.pop fun _ hor => hor.elim id fun heq => heq ▸ hs
  touched := h.touched

-- The first task ends with a result for its output.
theorem finish {task : Task} {more : List PortId} {r m : Except EvalError Ragged}
    (h : Loop start goal visited (task :: rest) now) (hw : start.Wired)
    (hl : start.locate task.port = .ok (n, o)) (hslot : now.ownSlot? n o = some slot)
    (hstale : ¬ now.FreshAt n o) (hm : start.Means n o m)
    (hr : Near (TooDeep start.settings.maxEvalDepth) r m)
    (hfresh : ∀ v, r = .ok v → ∀ s ∈ start.sources n o, ∀ m' k,
      start.locate s = .ok (m', k) → now.FreshAt m' k)
    (hmore : ∀ p ∈ more, p ∈ visited ∨ p = task.port) :
    Loop start goal more rest (now.withSlot n o (slot.settle r)) := by
  have hwn : now.Wired := hw.of_bare h.alike
  have hkeep : ∀ {q}, Settled start now q → Settled start (now.withSlot n o (slot.settle r)) q :=
    fun hq => hq.withSlot hslot hm hr
  have hnew : ∀ {q}, q = task.port → Settled start (now.withSlot n o (slot.settle r)) q :=
    fun hq => .of_withSlot (hq ▸ hl) hslot hm hr
  have hother : ∀ {q m' k}, .compute q ∈ rest → start.locate q = .ok (m', k) →
      ¬(m' = n ∧ k = o) := by
    rintro q m' k hq hlq ⟨rfl, rfl⟩
    have hlt := (List.pairwise_cons.mp h.order).1 _ hq q rfl
    rw [rankOf_eq hl, rankOf_eq hlq] at hlt
    exact Nat.lt_irrefl _ hlt
  constructor
  case alike => rw [bare_withSlot, h.alike]
  case sound =>
    refine h.sound.withSlot hwn hslot hstale r fun v hv => ⟨?_, ?_⟩
    · rcases hr with heq | ⟨e, he, -⟩
      · exact means_of_bare h.alike hw (hv ▸ heq ▸ hm)
      · rw [hv] at he
        cases he
    · rw [sources_of_bare h.alike]
      intro s hs m' k hls
      exact hfresh v hv s hs m' k (locate_of_bare h.alike s ▸ hls)
  case live =>
    intro t ht
    obtain ⟨hplain, n', o', slot', hl', hslot'⟩ := h.live t (List.mem_cons_of_mem _ ht)
    refine ⟨hplain, n', o', if n' = n ∧ o' = o then slot.settle r else slot', hl', ?_⟩
    rw [ownSlot?_withSlot hslot]
    split
    · rfl
    · exact hslot'
  case seen => exact Looked.pop h.seen hmore fun _ hs => hs.elim hkeep hnew
  case order => exact (List.pairwise_cons.mp h.order).2
  case stale =>
    intro q hq m' k hlq
    rw [freshAt_withSlot_iff hslot, if_neg (hother hq hlq)]
    exact h.stale q (List.mem_cons_of_mem _ hq) m' k hlq
  case covered => exact h.covered.pop fun _ hs => hs.elim hkeep hnew
  case touched =>
    intro m' k hf
    rw [freshAt_withSlot_iff hslot] at hf
    split at hf
    · next heq =>
      obtain ⟨rfl, rfl⟩ := heq
      exact .inr ⟨_, hl, (h.live task (by simp)).1⟩
    · exact h.touched m' k hf

-- An output is put off until its sources are settled.
theorem expand (h : Loop start goal visited (.visit p d :: rest) now) (hw : start.Wired)
    (ha : start.Acyclic) (hl : start.locate p = .ok (n, o)) (hstale : ¬ now.FreshAt n o) :
    Loop start goal (p :: visited)
      ((start.sources n o).map (.visit · (d + 1)) ++ .compute p :: rest) now := by
  have hwn : now.Wired := hw.of_bare h.alike
  have hself := h.live (.visit p d) (by simp)
  have hsource : ∀ s ∈ start.sources n o, start.Plain s ∧
      (∃ n' o' slot, start.locate s = .ok (n', o') ∧ now.ownSlot? n' o' = some slot) ∧
      start.rankOf s < start.rankOf p := by
    intro s hs
    obtain ⟨out, source, -, hsource, hd, hnone, -⟩ := hw.mem_sources hs
    have hls : start.locate s = .ok (source.node, source.index) :=
      (locate_eq_ok_iff _ _ _).mpr ⟨source, hsource, rfl, rfl⟩
    have hplaced := hwn.slot_of_output ((port?_of_bare h.alike s).trans hsource) hd
    obtain ⟨slot, hslot⟩ := hplaced
    refine ⟨⟨source, hsource, hd, hnone⟩, ⟨_, _, slot, hls, hslot⟩, ?_⟩
    rw [rankOf_eq hls, rankOf_eq hl]
    exact hw.rankAt_lt ha hs hls
  obtain ⟨hhead, htail⟩ := List.pairwise_cons.mp h.order
  constructor
  case alike => exact h.alike
  case sound => exact h.sound
  case live =>
    intro t ht
    rcases List.mem_append.mp ht with ht | ht
    · obtain ⟨s, hs, rfl⟩ := List.mem_map.mp ht
      obtain ⟨hplain, hplaced, -⟩ := hsource s hs
      exact ⟨.inr hplain, hplaced⟩
    · rcases List.mem_cons.mp ht with rfl | ht
      · exact hself
      · exact h.live t (List.mem_cons_of_mem _ ht)
  case seen => exact Looked.expand h.seen _
  case order =>
    refine List.pairwise_append.mpr ⟨?_, List.pairwise_cons.mpr ⟨?_, htail⟩, ?_⟩
    · refine List.pairwise_of_forall_mem_list fun a _ b hb q heq => ?_
      obtain ⟨s, -, rfl⟩ := List.mem_map.mp hb
      cases heq
    · exact fun b hb q heq => hhead b hb q heq
    · intro a ha' b hb q heq
      obtain ⟨s, hs, rfl⟩ := List.mem_map.mp ha'
      obtain ⟨-, -, hlt⟩ := hsource s hs
      rcases List.mem_cons.mp hb with rfl | hb
      · cases heq
        exact hlt
      · exact Nat.lt_trans hlt (hhead b hb q heq)
  case stale =>
    intro q hq m k hlq
    rcases Task.compute_mem_expand.mp hq with rfl | hq
    · obtain ⟨rfl, rfl⟩ := Prod.mk.inj (Except.ok.inj (hl.symm.trans hlq))
      exact hstale
    · exact h.stale q (List.mem_cons_of_mem _ hq) m k hlq
  case covered => exact h.covered.expand hl
  case touched => exact h.touched

end Loop

end Graph

end Dataflow
