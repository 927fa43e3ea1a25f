import Dataflow.Proofs.Evaluation.Loop
import Dataflow.Proofs.Evaluation.Run

namespace Dataflow

namespace Graph

def total {α : Type} (weight : α → Nat) (items : List α) : Nat :=
  items.foldr (fun item sum => weight item + sum) 0

private theorem total_le {α : Type} {f g : α → Nat} {items : List α}
    (h : ∀ x ∈ items, f x ≤ g x) : total f items ≤ total g items := by
  induction items with
  | nil => exact Nat.le_refl _
  | cons x rest ih => exact Nat.add_le_add (h x (by simp)) (ih fun y hy => h y (by simp [hy]))

private theorem total_add_le {α : Type} {f g : α → Nat} {items : List α} {x : α} {c : Nat}
    (hle : ∀ y ∈ items, f y ≤ g y) (hx : x ∈ items) (hc : f x + c ≤ g x) :
    total f items + c ≤ total g items := by
  induction items with
  | nil => cases hx
  | cons y rest ih =>
      have hy := hle y (by simp)
      have hrest : ∀ z ∈ rest, f z ≤ g z := fun z hz => hle z (by simp [hz])
      simp only [total, List.foldr_cons] at ih ⊢
      rcases List.mem_cons.mp hx with rfl | hx
      · have := total_le hrest
        simp only [total] at this
        omega
      · have := ih hrest hx
        omega

-- How much work the ports that were not looked at can still make: one task for each, and
-- one for each of its sources.
def pending (start : Graph) (visited : List PortId) : Nat :=
  total (fun entry => if visited.contains entry.1 then 0
    else 1 + (start.sources entry.2.node entry.2.index).length) start.ports.entries

theorem pending_cons {start : Graph} {visited : List PortId} {p : PortId} {port : Port}
    (hp : start.port? p = some port) (hv : p ∉ visited) :
    start.pending (p :: visited) + (1 + (start.sources port.node port.index).length) ≤
      start.pending visited := by
  refine total_add_le (fun entry _ => ?_) ((start.ports.mem_entries_iff p port).mpr hp) ?_
  · simp only [List.contains_cons]
    split_ifs <;> simp_all
  · simp [hv]

theorem workBound_eq (start : Graph) : Session.workBound start = start.pending [] + 1 := by
  simp only [Session.workBound, pending, total, Arena.values, List.contains_nil,
    Bool.false_eq_true, if_false]
  induction start.ports.entries with
  | nil => rfl
  | cons entry rest ih =>
      simp only [List.map_cons, List.foldr_cons, ih]
      omega

variable {start now : Graph} {goal : PortId} {visited : List PortId} {rest : List Task}
  {n : NodeId} {o : Nat} {slot : Slot} {session : Session}

-- What is fresh is settled.
theorem Sound.settled (hs : now.Sound) (halike : now.bare = start.bare) (hw : start.Wired)
    {p : PortId} (hl : start.locate p = .ok (n, o)) (hf : now.FreshAt n o) :
    Settled start now p := by
  obtain ⟨slot, hslot, hstate⟩ := hf
  obtain ⟨v, hv, hmeans, -⟩ := hs n o slot hslot hstate
  refine ⟨n, o, .ok v, hl, means_of_bare halike.symm (hw.of_bare halike) hmeans, ?_⟩
  exact .inl (kept_of_fresh hslot hstate hv)

-- An output that nothing computes means just that.
theorem means_of_no_unit (hu : start.unit? n o = none) :
    start.Means n o (.error (.noEvaluator o)) := by
  have hsources : start.sources n o = [] := by simp only [sources, hu]
  have hm : start.Means n o (start.denote (fun _ k => .error (.noEvaluator k)) n o) :=
    .intro _ (by simp [hsources])
  rwa [start.denote_of_no_unit hu] at hm

-- What is computed from settled sources is near to the meaning of the output.
theorem near_of_settled (hw : start.Wired) (ha : start.Acyclic) (halike : now.bare = start.bare)
    (hs : ∀ s ∈ start.sources n o, Settled start now s) :
    ∃ m, start.Means n o m ∧
      Near (TooDeep start.settings.maxEvalDepth) (now.denote now.kept n o) m := by
  choose value hvalue using fun m k => hw.means_total ha m k
  refine ⟨start.denote value n o, .intro value fun _ _ m k _ => hvalue m k, ?_⟩
  rw [(agree_of_bare halike).denote (.all start) hw trivial]
  refine start.denote_near TooDeep.sourceFailed n o fun s hmem m k hl => ?_
  obtain ⟨m', k', r, hl', hmeans, hnear⟩ := hs s hmem
  obtain ⟨rfl, rfl⟩ := Prod.mk.inj (Except.ok.inj (hl.symm.trans hl'))
  exact (hvalue m k).unique hmeans ▸ hnear

-- One task keeps the invariant, and there is less to do afterwards.
theorem Loop.step (hw : start.Wired) (ha : start.Acyclic) {task : Task}
    (h : Loop start goal visited (task :: rest) session.graph) :
    ∃ more tasks next, session.step visited task = (.ok (more, tasks), next) ∧
      Loop start goal more (tasks ++ rest) next.graph ∧
      (tasks ++ rest).length + start.pending more + 1 ≤
        (task :: rest).length + start.pending visited := by
  have hwn : session.graph.Wired := hw.of_bare h.alike
  obtain ⟨n, o, slot, hl, hln, hslot⟩ := h.placed
  cases task with
  | visit p d =>
      change start.locate p = .ok (n, o) at hl
      rcases session.visit_cases visited d hln hslot with
        ⟨hdone, next, hvisit, hgraph⟩ | ⟨hstale, hv, r, hvisit, hr⟩ |
        ⟨hstale, hv, hvisit⟩
      · refine ⟨visited, [], next, hvisit, ?_, by rw [List.nil_append, List.length_cons]; omega⟩
        rw [hgraph]
        refine h.drop ?_
        rcases hdone with hf | hv
        · exact h.sound.settled h.alike hw hl hf
        · exact (h.seen p hv).resolve_right h.not_pending
      · obtain ⟨port, hp, rfl, rfl⟩ := (locate_eq_ok_iff _ _ _).mp hl
        have hless := pending_cons hp hv
        refine ⟨p :: visited, [], _, hvisit, ?_, by
          rw [List.nil_append, List.length_cons]; omega⟩
        rw [session.finish_graph hslot]
        have hmore : ∀ q ∈ p :: visited, q ∈ visited ∨ q = (Task.visit p d).port :=
          fun q hq => (List.mem_cons.mp hq).symm
        rcases hr with ⟨hu, rfl⟩ | rfl
        · rw [unit?_of_bare h.alike] at hu
          exact h.finish hw hl hslot hstale (means_of_no_unit hu) (.inl rfl)
            (fun _ heq => nomatch heq) hmore
        · obtain ⟨m, hm⟩ := hw.means_total ha port.node port.index
          refine h.finish hw hl hslot hstale hm (.inr ⟨_, rfl, ?_⟩) (fun _ heq => nomatch heq)
            hmore
          rw [settings_of_bare h.alike]
          rfl
      · obtain ⟨port, hp, rfl, rfl⟩ := (locate_eq_ok_iff _ _ _).mp hl
        have hless := pending_cons hp hv
        rw [sources_of_bare h.alike] at hvisit
        refine ⟨p :: visited, _, session, hvisit, ?_, ?_⟩
        · rw [List.append_assoc]
          exact h.expand hw ha hl hstale
        · simp only [List.length_append, List.length_map, List.length_cons, List.length_nil]
          omega
  | compute p =>
      have hstale := h.stale p (by simp) n o hl
      have hsources : ∀ s ∈ start.sources n o, Settled start session.graph s :=
        h.covered.1 n o hl
      obtain ⟨m, hm, hnear⟩ := near_of_settled hw ha h.alike hsources
      refine ⟨visited, [], session.compute n o, ?_, ?_, by
        rw [List.nil_append, List.length_cons]; omega⟩
      · simp only [Session.step]
        rw [show session.graph.locate p = .ok (n, o) from hln]
      · rw [session.compute_graph hslot]
        refine h.finish hw hl hslot hstale hm hnear ?_ (fun _ hq => .inl hq)
        intro v hv s hs m' k hls
        rw [← sources_of_bare h.alike] at hs
        rw [← locate_of_bare h.alike] at hls
        obtain ⟨w, hkept⟩ := ok_of_denote hv hs hls
        exact freshAt_of_kept hkept

-- All tasks are done before the fuel ends.
theorem Loop.work (hw : start.Wired) (ha : start.Acyclic) (fuel : Nat) {tasks : List Task}
    (h : Loop start goal visited tasks session.graph)
    (hf : tasks.length + start.pending visited ≤ fuel) :
    ∃ next more, Session.work fuel visited tasks session = (.ok [], next) ∧
      Loop start goal more [] next.graph := by
  induction fuel generalizing visited tasks session with
  | zero =>
      obtain rfl : tasks = [] := List.eq_nil_of_length_eq_zero (by omega)
      exact ⟨session, visited, Session.work_nil _ _ _, h⟩
  | succ fuel ih =>
      cases tasks with
      | nil => exact ⟨session, visited, Session.work_nil _ _ _, h⟩
      | cons task rest =>
          obtain ⟨more, tasks, next, hstep, hloop, hless⟩ := h.step hw ha
          obtain ⟨last, seen, hwork, hdone⟩ := ih hloop (by omega)
          exact ⟨last, seen, (Session.work_of_step hstep).trans hwork, hdone⟩

end Graph

namespace Session

open Dataflow.Graph

variable (session : Session)

-- A request begins with its output on the stack.
theorem loop_start (hs : session.graph.Sound) {target : PortId} {n : NodeId} {o : Nat} {slot : Slot}
    (hl : session.graph.locate target = .ok (n, o))
    (hslot : session.graph.ownSlot? n o = some slot) :
    Loop session.graph target [] [.visit target 0] session.graph := by
  constructor
  case alike => rfl
  case sound => exact hs
  case live =>
    intro t ht
    obtain rfl := List.mem_singleton.mp ht
    exact ⟨.inl rfl, n, o, slot, hl, hslot⟩
  case seen => simp
  case order => simp
  case stale => simp
  case covered => exact .inr rfl
  case touched => exact fun n o hf => .inl hf

-- No task of a request for an output is left over.
theorem work_placed (hw : session.graph.Wired) (ha : session.graph.Acyclic)
    (hs : session.graph.Sound) {target : PortId} {n : NodeId} {o : Nat} {slot : Slot}
    (hl : session.graph.locate target = .ok (n, o))
    (hslot : session.graph.ownSlot? n o = some slot) :
    ∃ next visited,
      work (workBound session.graph) [] [.visit target 0] session = (.ok [], next) ∧
      Loop session.graph target visited [] next.graph :=
  (session.loop_start hs hl hslot).work hw ha (workBound session.graph)
    (by rw [workBound_eq, List.length_singleton]; omega)

-- A request for an output settles it and what it reads.
theorem settle_placed (hw : session.graph.Wired) (ha : session.graph.Acyclic)
    (hs : session.graph.Sound) {target : PortId} {n : NodeId} {o : Nat} {slot : Slot}
    (hl : session.graph.locate target = .ok (n, o))
    (hslot : session.graph.ownSlot? n o = some slot) :
    ∃ next visited, session.settle target = (.ok (), next) ∧
      Loop session.graph target visited [] next.graph := by
  obtain ⟨next, visited, hwork, hdone⟩ := session.work_placed hw ha hs hl hslot
  exact ⟨next, visited, by simp only [settle, hwork]; rfl, hdone⟩

-- A look at anything else fails.
theorem visit_unplaced (visited : List PortId) {p : PortId} (d : Nat)
    (h : ∀ n o slot, session.graph.locate p = .ok (n, o) →
      session.graph.ownSlot? n o ≠ some slot) :
    ∃ e, session.visit visited p d = (.error e, session) := by
  simp only [visit]
  split
  · exact ⟨_, rfl⟩
  · next n o hl =>
    split
    · exact ⟨_, rfl⟩
    · exact ⟨_, rfl⟩
    · next slot _ hslot => exact absurd hslot (h n o slot hl)

-- So a request for it is refused at once.
theorem settle_unplaced {target : PortId}
    (h : ∀ n o slot, session.graph.locate target = .ok (n, o) →
      session.graph.ownSlot? n o ≠ some slot) :
    ∃ e, session.settle target = (.error e, session) := by
  obtain ⟨e, he⟩ := session.visit_unplaced [] 0 h
  refine ⟨e, ?_⟩
  simp only [settle, workBound_eq, work, step, he]
  rfl

end Session

namespace Graph

-- What evaluation leaves of a graph: the same in all but what is kept, which is sound.
def Consulted (start now : Graph) : Prop :=
  now.bare = start.bare ∧ now.Sound

end Graph

namespace Session

open Dataflow.Graph

variable (session : Session)

theorem settle_consulted (hw : session.graph.Wired) (ha : session.graph.Acyclic)
    (hs : session.graph.Sound) (target : PortId) :
    Consulted session.graph (session.settle target).2.graph := by
  by_cases hplaced : ∃ n o slot, session.graph.locate target = .ok (n, o) ∧
      session.graph.ownSlot? n o = some slot
  · obtain ⟨n, o, slot, hl, hslot⟩ := hplaced
    obtain ⟨next, visited, hsettle, hloop⟩ := session.settle_placed hw ha hs hl hslot
    rw [hsettle]
    exact ⟨hloop.alike, hloop.sound⟩
  · obtain ⟨e, he⟩ := session.settle_unplaced fun n o slot hl hslot =>
      hplaced ⟨n, o, slot, hl, hslot⟩
    rw [he]
    exact ⟨rfl, hs⟩

theorem settleAll_consulted (hw : session.graph.Wired) (ha : session.graph.Acyclic)
    (hs : session.graph.Sound) (targets : List PortId) :
    Consulted session.graph (settleAll targets session).2.graph := by
  induction targets generalizing session with
  | nil => exact ⟨rfl, hs⟩
  | cons target rest ih =>
      have hfirst := session.settle_consulted hw ha hs target
      simp only [settleAll]
      split
      · next heq =>
        rw [heq] at hfirst
        exact hfirst
      · next next heq =>
        rw [heq] at hfirst
        have hrest := ih _ (hw.of_bare hfirst.1) (ha.of_bare hfirst.1) hfirst.2
        exact ⟨hrest.1.trans hfirst.1, hrest.2⟩

theorem evaluatePort_consulted (hw : session.graph.Wired) (ha : session.graph.Acyclic)
    (hs : session.graph.Sound) (port : PortId) :
    Consulted session.graph (session.evaluatePort port).2.graph := by
  simp only [evaluatePort]
  split
  · exact ⟨rfl, hs⟩
  · next chain _ =>
    have h := session.settle_consulted hw ha hs chain.last
    split <;> next heq =>
      rw [heq] at h
      exact h

theorem evaluate_consulted (hw : session.graph.Wired) (ha : session.graph.Acyclic)
    (hs : session.graph.Sound) (node : NodeId) (output : Nat) :
    Consulted session.graph (session.evaluate node output).2.graph := by
  simp only [evaluate]
  split
  · exact ⟨rfl, hs⟩
  · exact session.evaluatePort_consulted hw ha hs _

theorem inputData_consulted (hw : session.graph.Wired) (ha : session.graph.Acyclic)
    (hs : session.graph.Sound) (input : PortId) :
    Consulted session.graph (session.inputData input).2.graph := by
  have h := session.settleAll_consulted hw ha hs (session.graph.producers input)
  simp only [inputData]
  split <;> next heq =>
    rw [heq] at h
    exact h

end Session

end Dataflow
