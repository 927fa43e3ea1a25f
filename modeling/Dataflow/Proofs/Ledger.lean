import Mathlib.Data.Finset.Card
import Dataflow.Proofs.Evaluate
import Dataflow.Proofs.Evaluation.Outcome
import Dataflow.Proofs.Evaluation.Run

namespace Dataflow

namespace Graph

-- The outputs behind a port: its own, and those that they read.
inductive Behind (graph : Graph) (p : PortId) : NodeId → Nat → Prop where
  | here {n : NodeId} {o : Nat} (hl : graph.locate p = .ok (n, o)) : Behind graph p n o
  | source {n m : NodeId} {o k : Nat} {s : PortId} (h : Behind graph p n o)
      (hs : s ∈ graph.sources n o) (hl : graph.locate s = .ok (m, k)) : Behind graph p m k

-- The outputs that a request for an output depends on: the one that computes it, and those
-- behind.
def Needed (graph : Graph) (node : NodeId) (output : Nat) (n : NodeId) (o : Nat) : Prop :=
  ∃ p, graph.resolveOutput node output = .ok p ∧ graph.Behind p n o

variable {graph other : Graph}

theorem Behind.of_bare (h : other.bare = graph.bare) {p : PortId} {n : NodeId} {o : Nat}
    (hb : other.Behind p n o) : graph.Behind p n o := by
  induction hb with
  | here hl => exact .here ((locate_of_bare h _).symm.trans hl)
  | source _ hs hl ih =>
      rw [sources_of_bare h] at hs
      exact ih.source hs ((locate_of_bare h _).symm.trans hl)

theorem Needed.of_bare (h : other.bare = graph.bare) {node n : NodeId} {output o : Nat}
    (hn : other.Needed node output n o) : graph.Needed node output n o := by
  obtain ⟨p, hp, hb⟩ := hn
  exact ⟨p, (resolveOutput_of_bare h node output).symm.trans hp, hb.of_bare h⟩

-- Where an output is fresh, everything behind it is.
theorem Sound.freshAt_behind (hs : graph.Sound) {p : PortId} {n m : NodeId} {o k : Nat}
    (hl : graph.locate p = .ok (n, o)) (hf : graph.FreshAt n o) (hb : graph.Behind p m k) :
    graph.FreshAt m k := by
  induction hb with
  | here hl' =>
      obtain ⟨rfl, rfl⟩ := Prod.mk.inj (Except.ok.inj (hl.symm.trans hl'))
      exact hf
  | source _ hsource hl' ih =>
      obtain ⟨slot, hslot, hstate⟩ := ih
      obtain ⟨-, -, -, hsources⟩ := hs _ _ slot hslot hstate
      exact hsources _ hsource _ _ hl'

end Graph

namespace Stats

theorem computed_count (stats : Stats) (r : Except EvalError Ragged) :
    (stats.count r).computed = stats.computed + [r].countP (·.isOk) := by
  cases r <;> rfl

theorem failed_count (stats : Stats) (r : Except EvalError Ragged) :
    (stats.count r).failed = stats.failed + [r].countP (!·.isOk) := by
  cases r <;> rfl

end Stats

namespace Session

open Dataflow.Graph

-- What a request has done so far: which results it kept, of which outputs, and what it
-- counted and called for them.
structure Account (start : Session) (needed : NodeId → Nat → Prop) (log : List Outcome)
    (now : Session) : Prop where
  -- Nothing is computed that is fresh or not asked for.
  due : ∀ e ∈ log, ¬ start.graph.FreshAt e.node e.output ∧ needed e.node e.output
  once : (log.map Outcome.place).Nodup
  entered : ∀ e ∈ log, ∃ slot, start.graph.ownSlot? e.node e.output = some slot ∧
    now.graph.ownSlot? e.node e.output = some (slot.settle e.result)
  others : ∀ n o, (n, o) ∉ log.map Outcome.place →
    now.graph.ownSlot? n o = start.graph.ownSlot? n o
  computed : now.stats.computed = start.stats.computed + log.countP (·.result.isOk)
  failed : now.stats.failed = start.stats.failed + log.countP (!·.result.isOk)
  ran : ∃ more, now.ran = start.ran ++ more ∧ more.Sublist (log.map Outcome.place)

variable {start session next : Session} {needed : NodeId → Nat → Prop} {log : List Outcome}
  {n : NodeId} {o : Nat}

namespace Account

theorem nil (start : Session) (needed : NodeId → Nat → Prop) : Account start needed [] start where
  due := by simp
  once := .nil
  entered := by simp
  others _ _ _ := rfl
  computed := rfl
  failed := rfl
  ran := ⟨[], (List.append_nil _).symm, .slnil⟩

theorem idle (h : Account start needed log session) (hidle : Idle session next) :
    Account start needed log next where
  due := h.due
  once := h.once
  entered e he := by
    obtain ⟨slot, hold, hnew⟩ := h.entered e he
    exact ⟨slot, hold, hidle.graph ▸ hnew⟩
  others n o hno := hidle.graph ▸ h.others n o hno
  computed := hidle.computed.trans h.computed
  failed := hidle.failed.trans h.failed
  ran := by
    obtain ⟨more, hran, hsub⟩ := h.ran
    exact ⟨more, hidle.ran.trans hran, hsub⟩

-- An output that has no entry is as the request found it, so its entry is due if it is not
-- fresh now.
theorem keeps {slot : Slot} {r : Except EvalError Ragged} (h : Account start needed log session)
    (hkeeps : Keeps session next n o slot r) (hslot : session.graph.ownSlot? n o = some slot)
    (hnew : (n, o) ∉ log.map Outcome.place) (hstale : ¬ session.graph.FreshAt n o)
    (hneeded : needed n o)
    (hran : next.ran = session.ran ∨ next.ran = session.ran ++ [(n, o)]) :
    Account start needed (log ++ [⟨n, o, r⟩]) next := by
  have hsame : session.graph.ownSlot? n o = start.graph.ownSlot? n o := h.others n o hnew
  have hplaces : (log ++ [Outcome.mk n o r]).map Outcome.place =
      log.map Outcome.place ++ [(n, o)] := by
    rw [List.map_append]
    rfl
  constructor
  case due =>
    intro e he
    rcases List.mem_append.mp he with he | he
    · exact h.due e he
    · obtain rfl := List.mem_singleton.mp he
      refine ⟨?_, hneeded⟩
      rintro ⟨found, hfound, hstate⟩
      exact hstale ⟨found, hsame.trans hfound, hstate⟩
  case once =>
    rw [hplaces]
    exact List.nodup_append.mpr ⟨h.once, List.nodup_singleton _, fun a ha b hb hab =>
      hnew (List.mem_singleton.mp hb ▸ hab ▸ ha)⟩
  case entered =>
    intro e hentry
    rw [hkeeps.graph, ownSlot?_withSlot hslot]
    rcases List.mem_append.mp hentry with he | he
    · have hne : ¬ (e.node = n ∧ e.output = o) := by
        rintro ⟨rfl, rfl⟩
        exact hnew (List.mem_map_of_mem he)
      rw [if_neg hne]
      exact h.entered e he
    · obtain rfl := List.mem_singleton.mp he
      exact ⟨slot, hsame.symm.trans hslot, if_pos ⟨rfl, rfl⟩⟩
  case others =>
    intro m k hmk
    rw [hplaces, List.mem_append, not_or, List.mem_singleton, Prod.mk.injEq] at hmk
    rw [hkeeps.graph, ownSlot?_withSlot hslot, if_neg hmk.2]
    exact h.others m k hmk.1
  case computed =>
    rw [hkeeps.stats, Stats.computed_count, h.computed, List.countP_append, Nat.add_assoc]
    rfl
  case failed =>
    rw [hkeeps.stats, Stats.failed_count, h.failed, List.countP_append, Nat.add_assoc]
    rfl
  case ran =>
    obtain ⟨more, hmore, hsub⟩ := h.ran
    rw [hplaces]
    rcases hran with hran | hran
    · exact ⟨more, hran.trans hmore, hsub.trans (List.sublist_append_left _ _)⟩
    · refine ⟨more ++ [(n, o)], ?_, hsub.append (List.Sublist.refl _)⟩
      rw [hran, hmore, List.append_assoc]

end Account

-- The account of a request in the middle of its work. Each output with an entry was looked
-- at and does not wait any more.
structure Ledger (start : Session) (goal : PortId) (log : List Outcome) (visited : List PortId)
    (tasks : List Task) (now : Session) : Prop where
  account : Account start (start.graph.Behind goal) log now
  asked : ∀ t ∈ tasks, ∃ n o, start.graph.locate t.port = .ok (n, o) ∧
    start.graph.Behind goal n o
  looked : ∀ p, .compute p ∈ tasks → p ∈ visited
  settled : ∀ e ∈ log, ∃ p ∈ visited, start.graph.locate p = .ok e.place ∧ start.graph.Plain p ∧
    .compute p ∉ tasks

-- Outputs of one place are the same.
theorem Plain.eq_of_locate {graph : Graph} (hw : graph.Wired) {p q : PortId}
    (hp : graph.Plain p) (hq : graph.Plain q) (hlp : graph.locate p = .ok (n, o))
    (hlq : graph.locate q = .ok (n, o)) : p = q := by
  obtain ⟨a, ha, hda, -⟩ := hp
  obtain ⟨b, hb, hdb, -⟩ := hq
  obtain ⟨a', ha', hna, hia⟩ := (locate_eq_ok_iff _ _ _).mp hlp
  obtain ⟨b', hb', hnb, hib⟩ := (locate_eq_ok_iff _ _ _).mp hlq
  obtain rfl := Option.some.inj (ha.symm.trans ha')
  obtain rfl := Option.some.inj (hb.symm.trans hb')
  have hoa := hw.owned ha
  have hob := hw.owned hb
  rw [hda, hna, hia] at hoa
  rw [hdb, hnb, hib] at hob
  exact Option.some.inj (hoa.symm.trans hob)

namespace Ledger

variable {goal : PortId} {visited looked : List PortId} {task : Task} {rest tasks : List Task}

theorem begin (hl : start.graph.locate goal = .ok (n, o)) :
    Ledger start goal [] [] [.visit goal 0] start where
  account := .nil _ _
  asked t ht := by
    obtain rfl := List.mem_singleton.mp ht
    exact ⟨n, o, hl, .here hl⟩
  looked p hp := by simp at hp
  settled := by simp

-- A task that is done goes, and the account stays as it is.
theorem drop (h : Ledger start goal log visited (task :: rest) session)
    (hidle : Idle session next) : Ledger start goal log visited rest next where
  account := h.account.idle hidle
  asked t ht := h.asked t (List.mem_cons_of_mem _ ht)
  looked p hp := h.looked p (List.mem_cons_of_mem _ hp)
  settled e he := by
    obtain ⟨p, hp, hl, hplain, hwaits⟩ := h.settled e he
    exact ⟨p, hp, hl, hplain, fun hm => hwaits (List.mem_cons_of_mem _ hm)⟩

variable (hw : start.graph.Wired) (hplain : start.graph.Plain task.port)
  (hl : start.graph.locate task.port = .ok (n, o))

include hw hplain hl in
-- What is computed next has no entry: one of the same output would be of the same port,
-- which had been looked at and did not wait.
theorem not_mem_places (h : Ledger start goal log visited (task :: rest) session)
    (hnew : task = .compute task.port ∨ task.port ∉ visited) :
    (n, o) ∉ log.map Outcome.place := by
  intro hm
  obtain ⟨e, he, hplace⟩ := List.mem_map.mp hm
  obtain ⟨p, hp, hlp, hpp, hwaits⟩ := h.settled e he
  rw [hplace] at hlp
  obtain rfl := Plain.eq_of_locate hw hpp hplain hlp hl
  rcases hnew with htask | hv
  · exact hwaits (htask ▸ List.mem_cons_self)
  · exact hv hp

include hw hplain hl in
-- A task that ends with a result makes an entry.
theorem keep {slot : Slot} {r : Except EvalError Ragged}
    (h : Ledger start goal log visited (task :: rest) session)
    (hkeeps : Keeps session next n o slot r) (hslot : session.graph.ownSlot? n o = some slot)
    (hstale : ¬ session.graph.FreshAt n o)
    (hran : next.ran = session.ran ∨ next.ran = session.ran ++ [(n, o)])
    (hother : ∀ p, .compute p ∈ rest → p ≠ task.port)
    (hnew : task = .compute task.port ∧ looked = visited ∨
      task.port ∉ visited ∧ looked = task.port :: visited) :
    Ledger start goal (log ++ [⟨n, o, r⟩]) looked rest next := by
  obtain ⟨n', o', hl', hbehind⟩ := h.asked task (by simp)
  obtain ⟨rfl, rfl⟩ := Prod.mk.inj (Except.ok.inj (hl.symm.trans hl'))
  have hlooked : task.port ∈ looked ∧ visited ⊆ looked := by
    rcases hnew with ⟨htask, rfl⟩ | ⟨-, rfl⟩
    · exact ⟨h.looked _ (htask ▸ List.mem_cons_self), List.Subset.refl _⟩
    · exact ⟨List.mem_cons_self, List.subset_cons_self _ _⟩
  constructor
  case account =>
    have habsent := h.not_mem_places hw hplain hl (hnew.imp (·.1) (·.1))
    exact h.account.keeps hkeeps hslot habsent hstale hbehind hran
  case asked => exact fun t ht => h.asked t (List.mem_cons_of_mem _ ht)
  case looked => exact fun p hp => hlooked.2 (h.looked p (List.mem_cons_of_mem _ hp))
  case settled =>
    intro e hentry
    rcases List.mem_append.mp hentry with he | he
    · obtain ⟨p, hp, hlp, hpp, hwaits⟩ := h.settled e he
      exact ⟨p, hlooked.2 hp, hlp, hpp, fun hm => hwaits (List.mem_cons_of_mem _ hm)⟩
    · obtain rfl := List.mem_singleton.mp he
      exact ⟨task.port, hlooked.1, hl, hplain, fun hm => hother _ hm rfl⟩

include hw in
-- An output that is put off is asked for with all that it reads.
theorem expand {p : PortId} {d : Nat} (hl : start.graph.locate p = .ok (n, o))
    (hv : p ∉ visited) (h : Ledger start goal log visited (.visit p d :: rest) session) :
    Ledger start goal log (p :: visited)
      ((start.graph.sources n o).map (.visit · (d + 1)) ++ .compute p :: rest) session := by
  obtain ⟨n', o', hl', hbehind⟩ := h.asked (.visit p d) (by simp)
  obtain ⟨rfl, rfl⟩ := Prod.mk.inj (Except.ok.inj (hl.symm.trans hl'))
  constructor
  case account => exact h.account
  case asked =>
    intro t ht
    rcases List.mem_append.mp ht with ht | ht
    · obtain ⟨s, hs, rfl⟩ := List.mem_map.mp ht
      obtain ⟨-, source, -, hsource, -⟩ := hw.mem_sources hs
      have hls : start.graph.locate s = .ok (source.node, source.index) :=
        (locate_eq_ok_iff _ _ _).mpr ⟨source, hsource, rfl, rfl⟩
      exact ⟨_, _, hls, hbehind.source hs hls⟩
    · rcases List.mem_cons.mp ht with rfl | ht
      · exact ⟨n, o, hl, hbehind⟩
      · exact h.asked t (List.mem_cons_of_mem _ ht)
  case looked =>
    intro q hq
    rcases Task.compute_mem_expand.mp hq with rfl | hm
    · exact List.mem_cons_self
    · exact List.mem_cons_of_mem _ (h.looked q (List.mem_cons_of_mem _ hm))
  case settled =>
    intro e he
    obtain ⟨q, hq, hlq, hqq, hwaits⟩ := h.settled e he
    refine ⟨q, List.mem_cons_of_mem _ hq, hlq, hqq, fun hm => ?_⟩
    rcases Task.compute_mem_expand.mp hm with rfl | hm
    · exact hv hq
    · exact hwaits (List.mem_cons_of_mem _ hm)

include hw in
-- One task keeps the account in order.
theorem step (hgoal : start.graph.Plain goal)
    (hloop : Loop start.graph goal visited (task :: rest) session.graph)
    (h : Ledger start goal log visited (task :: rest) session)
    (hstep : session.step visited task = (.ok (looked, tasks), next)) :
    Ledger start goal (log ++ (session.outcome? visited task).toList) looked (tasks ++ rest)
      next := by
  obtain ⟨n, o, slot, hl, hln, hslot⟩ := hloop.placed
  have hplain := hloop.plain hgoal
  have hother : ∀ p, .compute p ∈ rest → p ≠ task.port := by
    rintro p hp rfl
    exact hloop.not_waiting hp
  rcases step_cases visited hln hslot with
    ⟨hnone, -, -, after, hstep', hidle⟩ | ⟨r, looked', after, hsome, hstep', hkeeps, hran, hcase⟩ |
      ⟨hnone, -, hv, d, htask, hstep'⟩
  · obtain ⟨rfl, rfl, rfl⟩ := step_unique hstep' hstep
    rw [hnone, Option.toList_none, List.append_nil]
    exact h.drop hidle
  · obtain ⟨rfl, rfl, rfl⟩ := step_unique hstep' hstep
    rw [hsome, Option.toList_some]
    rcases hcase with ⟨htask, hlooked, -⟩ | ⟨-, hstale, hv, hlooked, -⟩
    · have hstale := hloop.stale task.port (htask ▸ List.mem_cons_self) n o hl
      exact h.keep hw hplain hl hkeeps hslot hstale hran hother (.inl ⟨htask, hlooked⟩)
    · exact h.keep hw hplain hl hkeeps hslot hstale hran hother (.inr ⟨hv, hlooked⟩)
  · obtain ⟨rfl, rfl, rfl⟩ := step_unique hstep' hstep
    rw [hnone, Option.toList_none, List.append_nil, sources_of_bare hloop.alike,
      List.append_assoc]
    exact Ledger.expand hw hl hv (htask ▸ h)

include hw in
-- What each task preserves while the account is in order, a whole run preserves.
theorem run (ha : start.graph.Acyclic) (hgoal : start.graph.Plain goal)
    {motive : List Outcome → List PortId → List Task → Session → Prop}
    (hstep : ∀ {log visited task rest session looked tasks next},
      Loop start.graph goal visited (task :: rest) session.graph →
      Ledger start goal log visited (task :: rest) session →
      motive log visited (task :: rest) session →
      session.step visited task = (.ok (looked, tasks), next) →
        motive (log ++ (session.outcome? visited task).toList) looked (tasks ++ rest) next)
    (fuel : Nat) (hloop : Loop start.graph goal visited tasks session.graph)
    (hledger : Ledger start goal log visited tasks session)
    (h : motive log visited tasks session)
    (hdone : Session.work fuel visited tasks session = (.ok [], next)) :
    ∃ seen, Loop start.graph goal seen [] next.graph ∧
      Ledger start goal (log ++ outcomesOf fuel visited tasks session) seen [] next ∧
      motive (log ++ outcomesOf fuel visited tasks session) seen [] next := by
  induction hdone using work_induction generalizing log with
  | nil fuel visited =>
      rw [outcomesOf, List.append_nil]
      exact ⟨visited, hloop, hledger, h⟩
  | cons hnext _ ih =>
      obtain ⟨_, _, _, hagain, hloop', -⟩ := hloop.step hw ha
      obtain ⟨rfl, rfl, rfl⟩ := step_unique hagain hnext
      simp only [outcomesOf, hnext, ← List.append_assoc]
      exact ih hloop' (hledger.step hw hgoal hloop hnext) (hstep hloop hledger h hnext)

include hw in
theorem work (ha : start.graph.Acyclic) (hgoal : start.graph.Plain goal) (fuel : Nat)
    (hloop : Loop start.graph goal visited tasks session.graph)
    (h : Ledger start goal log visited tasks session)
    (hdone : Session.work fuel visited tasks session = (.ok [], next)) :
    Account start (start.graph.Behind goal) (log ++ outcomesOf fuel visited tasks session)
      next := by
  obtain ⟨seen, -, hledger, -⟩ :=
    h.run hw ha hgoal (motive := fun _ _ _ _ => True) (fun _ _ _ _ => trivial) fuel hloop trivial hdone
  exact hledger.account

end Ledger

variable {node : NodeId} {output : Nat}

theorem Account.mono {asked : NodeId → Nat → Prop} (h : Account start needed log next)
    (hi : ∀ n o, needed n o → asked n o) : Account start asked log next :=
  { h with due := fun e he => (h.due e he).imp_right (hi e.node e.output) }

-- A request for an output goes wrong before anything is done, or it does all tasks for the
-- port that computes the output and reads it.
theorem evaluate_run (hg : session.graph.Healthy) (node : NodeId) (output : Nat) :
    (∃ e, session.graph.resolveOutput node output = .error e ∧
      session.evaluate node output = (.error e, session)) ∨
    ∃ chain n o slot next, session.graph.resolveOutput node output = .ok chain.last ∧
      session.graph.Plain chain.last ∧ session.graph.locate chain.last = .ok (n, o) ∧
      session.graph.ownSlot? n o = some slot ∧
      Session.work (workBound session.graph) [] [.visit chain.last 0] session = (.ok [], next) ∧
      session.evaluate node output = (next.graph.readOutput chain, next) := by
  cases hout : session.graph.outputOf node output with
  | error e =>
      left
      refine ⟨e, by rw [resolveOutput, hout]; rfl, ?_⟩
      simp only [evaluate, hout]
  | ok port =>
      cases hc : session.graph.aliasChain port with
      | error e =>
          left
          refine ⟨e, ?_, ?_⟩
          · rw [resolveOutput_of_outputOf hout, hc]
            rfl
          · simp only [evaluate, hout, evaluatePort, hc]
      | ok chain =>
          right
          have hend : session.graph.resolveOutput node output = .ok chain.last := by
            rw [resolveOutput_of_outputOf hout, hc]
            rfl
          obtain ⟨hplain, n, o, slot, hl, hslot⟩ := hg.wired.chain_of_output hout hc
          obtain ⟨next, visited, hwork, -⟩ :=
            session.work_placed hg.wired hg.acyclic hg.sound hl hslot
          refine ⟨chain, n, o, slot, next, hend, hplain, hl, hslot, hwork, ?_⟩
          simp only [evaluate, hout, evaluatePort, hc, settle, hwork, Except.map]

theorem outcomes_eq {target : PortId}
    (hend : session.graph.resolveOutput node output = .ok target) :
    session.outcomes node output =
      outcomesOf (workBound session.graph) [] [.visit target 0] session := by
  rw [outcomes, hend]

-- What a request did is accounted for by what it kept.
theorem evaluate_cases (hg : session.graph.Healthy) (node : NodeId) (output : Nat) :
    (∃ e, session.graph.resolveOutput node output = .error e ∧
      session.evaluate node output = (.error e, session)) ∨
    ∃ chain n o next, session.graph.resolveOutput node output = .ok chain.last ∧
      session.graph.locate chain.last = .ok (n, o) ∧
      session.evaluate node output = (next.graph.readOutput chain, next) ∧
      Account session (session.graph.Behind chain.last) (session.outcomes node output) next := by
  rcases evaluate_run hg node output with
    hwrong | ⟨chain, n, o, slot, next, hend, hplain, hl, hslot, hwork, heval⟩
  · exact .inl hwrong
  · have haccount := Ledger.work hg.wired hg.acyclic hplain (workBound session.graph)
      (session.loop_start hg.sound hl hslot) (.begin hl) hwork
    rw [List.nil_append, ← outcomes_eq hend] at haccount
    exact .inr ⟨chain, n, o, next, hend, hl, heval, haccount⟩

theorem account_evaluate (hg : session.graph.Healthy) (node : NodeId) (output : Nat) :
    Account session (session.graph.Needed node output) (session.outcomes node output)
      (session.evaluate node output).2 := by
  rcases session.evaluate_cases hg node output with
    ⟨e, hend, heval⟩ | ⟨chain, n, o, next, hend, -, heval, haccount⟩
  · rw [heval, outcomes, hend]
    exact .nil _ _
  · rw [heval]
    exact haccount.mono fun n o hb => ⟨chain.last, hend, hb⟩

-- A request that is answered leaves nothing stale behind its output.
theorem freshAt_of_evaluate_ok (hg : session.graph.Healthy) {value : Ragged}
    (hok : (session.evaluate node output).1 = .ok value)
    (hn : session.graph.Needed node output n o) :
    (session.evaluate node output).2.graph.FreshAt n o := by
  obtain ⟨halike, hsound⟩ := session.evaluate_consulted hg.wired hg.acyclic hg.sound node output
  rcases session.evaluate_cases hg node output with
    ⟨e, -, heval⟩ | ⟨chain, m, k, next, hend, hl, heval, -⟩
  · rw [heval] at hok
    cases hok
  · rw [heval] at hok halike hsound ⊢
    have hln : next.graph.locate chain.last = .ok (m, k) := (locate_of_bare halike _).trans hl
    rw [readOutput_eq, along, hln] at hok
    obtain ⟨w, hkept, -⟩ := exists_of_map hok
    obtain ⟨p, hp, hb⟩ := hn
    obtain rfl := Except.ok.inj (hend.symm.trans hp)
    exact hsound.freshAt_behind hln (freshAt_of_kept hkept)
      (hb.of_bare halike.symm)

-- Once it was answered, the same request calls nothing.
theorem ran_evaluate_again (hg : session.graph.Healthy) {value : Ragged}
    (hok : (session.evaluate node output).1 = .ok value) :
    ((session.evaluate node output).2.evaluate node output).2.ran =
      (session.evaluate node output).2.ran := by
  have hconsulted := session.evaluate_consulted hg.wired hg.acyclic hg.sound node output
  have hagain := account_evaluate (hg.consulted hconsulted) node output
  have hnone : (session.evaluate node output).2.outcomes node output = [] := by
    refine List.eq_nil_iff_forall_not_mem.mpr fun e he => ?_
    obtain ⟨hstale, hneeded⟩ := hagain.due e he
    exact hstale (freshAt_of_evaluate_ok hg hok (hneeded.of_bare hconsulted.1))
  obtain ⟨more, hran, hsub⟩ := hagain.ran
  rw [hnone] at hsub
  rw [hran, List.eq_nil_of_sublist_nil hsub, List.append_nil]

namespace Account

theorem card_places (h : Account start needed log next) (keep : Outcome → Bool) :
    ((log.filter keep).map Outcome.place).toFinset.card = log.countP keep := by
  rw [List.toFinset_card_of_nodup (h.once.sublist (List.filter_sublist.map _)), List.length_map,
    List.countP_eq_length_filter]

-- What is fresh now and was not has an entry with a value, and no other output has.
theorem turned_iff (h : Account start needed log next) :
    (n, o) ∈ ((log.filter (·.result.isOk)).map Outcome.place).toFinset ↔
      ¬ start.graph.FreshAt n o ∧ next.graph.FreshAt n o := by
  simp only [List.mem_toFinset, List.mem_map, List.mem_filter]
  constructor
  · rintro ⟨e, ⟨he, hok⟩, hplace⟩
    obtain ⟨rfl, rfl⟩ := Prod.mk.inj hplace
    obtain ⟨slot, -, hslot⟩ := h.entered e he
    refine ⟨(h.due e he).1, _, hslot, (state_settle_eq_fresh_iff _).mpr ?_⟩
    cases hr : e.result with
    | ok v => exact ⟨v, rfl⟩
    | error x =>
        rw [hr] at hok
        cases hok
  · rintro ⟨hstale, slot, hslot, hstate⟩
    by_cases hm : (n, o) ∈ log.map Outcome.place
    · obtain ⟨e, he, hplace⟩ := List.mem_map.mp hm
      obtain ⟨rfl, rfl⟩ := Prod.mk.inj hplace
      obtain ⟨old, -, hnow⟩ := h.entered e he
      obtain rfl := Option.some.inj (hslot.symm.trans hnow)
      obtain ⟨v, hv⟩ := (state_settle_eq_fresh_iff _).mp hstate
      exact ⟨e, ⟨he, by rw [hv]; rfl⟩, rfl⟩
    · exact absurd ⟨slot, (h.others n o hm).symm.trans hslot, hstate⟩ hstale

-- An entry with a failure leaves its output dirty, with that failure.
theorem broken_iff (h : Account start needed log next) :
    (n, o) ∈ ((log.filter (!·.result.isOk)).map Outcome.place).toFinset ↔
      ∃ slot e, next.graph.ownSlot? n o = some slot ∧ slot.state = .dirty ∧
        slot.error = some e ∧ ⟨n, o, .error e⟩ ∈ log := by
  simp only [List.mem_toFinset, List.mem_map, List.mem_filter]
  constructor
  · rintro ⟨⟨m, k, r⟩, ⟨he, hfails⟩, hplace⟩
    obtain ⟨rfl, rfl⟩ := Prod.mk.inj hplace
    obtain ⟨slot, -, hslot⟩ := h.entered _ he
    cases r with
    | ok v => cases hfails
    | error x => exact ⟨_, x, hslot, rfl, rfl, he⟩
  · rintro ⟨slot, x, -, -, -, he⟩
    exact ⟨_, ⟨he, rfl⟩, rfl⟩

end Account

-- A request does each piece of work once at most, and none that is not due. What it keeps is
-- one result each for some outputs, and nothing else changes. It calls functions of outputs
-- that were not fresh and that the requested one depends on, each once. As many outputs turn
-- fresh as it counts as computed, and as many are left dirty with an error that it recorded
-- as it counts as failed. When it is answered, everything that the output depends on is fresh,
-- and the same request again calls nothing.
theorem evaluation_does_due_work_once {result : Except EvalError Ragged} {after : Session}
    (h : Reachable session.graph) (heval : session.evaluate node output = (result, after)) :
    ((∀ e ∈ session.outcomes node output, ∃ slot,
        session.graph.ownSlot? e.node e.output = some slot ∧
        after.graph.ownSlot? e.node e.output = some (slot.settle e.result)) ∧
      ∀ n o, (n, o) ∉ (session.outcomes node output).map Outcome.place →
        after.graph.ownSlot? n o = session.graph.ownSlot? n o) ∧
    (∃ calls, after.ran = session.ran ++ calls ∧ calls.Nodup ∧ ∀ n o, (n, o) ∈ calls →
      ¬ session.graph.FreshAt n o ∧ session.graph.Needed node output n o) ∧
    (∃ turned : Finset (NodeId × Nat),
      (∀ n o, (n, o) ∈ turned ↔ ¬ session.graph.FreshAt n o ∧ after.graph.FreshAt n o) ∧
      after.stats.computed = session.stats.computed + turned.card) ∧
    (∃ broken : Finset (NodeId × Nat),
      (∀ n o, (n, o) ∈ broken ↔ ∃ slot e, after.graph.ownSlot? n o = some slot ∧
        slot.state = .dirty ∧ slot.error = some e ∧
        ⟨n, o, .error e⟩ ∈ session.outcomes node output) ∧
      after.stats.failed = session.stats.failed + broken.card) ∧
    ∀ value, result = .ok value →
      (∀ n o, session.graph.Needed node output n o → after.graph.FreshAt n o) ∧
      (after.evaluate node output).2.ran = after.ran := by
  have hg := h.healthy
  have haccount := account_evaluate hg node output
  obtain rfl : (session.evaluate node output).1 = result := by rw [heval]
  obtain rfl : (session.evaluate node output).2 = after := by rw [heval]
  refine ⟨⟨haccount.entered, haccount.others⟩, ?_, ?_, ?_, ?_⟩
  · obtain ⟨more, hran, hsub⟩ := haccount.ran
    refine ⟨more, hran, haccount.once.sublist hsub, fun n o hm => ?_⟩
    obtain ⟨e, he, hplace⟩ := List.mem_map.mp (hsub.subset hm)
    obtain ⟨rfl, rfl⟩ := Prod.mk.inj hplace
    exact haccount.due e he
  · exact ⟨_, fun n o => haccount.turned_iff, by rw [haccount.card_places, haccount.computed]⟩
  · exact ⟨_, fun n o => haccount.broken_iff, by rw [haccount.card_places, haccount.failed]⟩
  · exact fun value hok =>
      ⟨fun n o => freshAt_of_evaluate_ok hg hok, ran_evaluate_again hg hok⟩

-- The second of two nodes that hand on what they are given: both are called, and not again.
theorem relays_called_once :
    let session := Session.start relays
    (session.evaluate ⟨2⟩ 0).2.ran = [(⟨1⟩, 0), (⟨2⟩, 0)] ∧
      ((session.evaluate ⟨2⟩ 0).2.evaluate ⟨2⟩ 0).2.ran = [(⟨1⟩, 0), (⟨2⟩, 0)] := by
  intro session
  have hran : (session.evaluate ⟨2⟩ 0).2.ran = [(⟨1⟩, 0), (⟨2⟩, 0)] := rfl
  obtain ⟨-, -, -, -, hagain⟩ := @evaluation_does_due_work_once session ⟨2⟩ 0 _ _
    relays_reachable (Prod.mk.eta (p := session.evaluate ⟨2⟩ 0)).symm
  exact ⟨hran, (hagain .empty rfl).2.trans hran⟩

end Session

end Dataflow
