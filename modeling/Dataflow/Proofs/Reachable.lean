import Dataflow.Proofs.Evaluation.Settle
import Dataflow.Snapshot.Restore

namespace Dataflow

-- What can be asked of a graph. An evaluation is among it: it changes what slots keep.
inductive Operation where
  | addNode (template : Template) (uuid : Uuid)
  | addNodeIn (template : Template) (uuid : Uuid) (container : NodeId)
  | removeNode (node : NodeId)
  | addEdge (a b : PortId)
  | removeEdge (edge : EdgeId)
  | linkAlias (port target : PortId)
  | unlinkAlias (port : PortId)
  | setProperty (node : NodeId) (key : String) (value : Nested Value)
  | setPosition (node : NodeId) (position : Position)
  | setPortFlags (port : PortId) (flags : Flags)
  | invalidate (node : NodeId)
  | evaluate (node : NodeId) (output : Nat)

-- What can be asked of a session besides.
inductive Query where
  | evaluatePort (port : PortId)
  | inputData (input : PortId)

namespace Graph

-- The graph after an edit; one that is refused changes nothing.
def after {ε : Type} (graph : Graph) : Except ε Graph → Graph
  | .ok edited => edited
  | .error _ => graph

def perform (graph : Graph) : Operation → Graph
  | .addNode template uuid => graph.after ((graph.addNode template uuid).map (·.2))
  | .addNodeIn template uuid container =>
      graph.after ((graph.addNodeIn template uuid container).map (·.2))
  | .removeNode node => (graph.removeNode node).getD graph
  | .addEdge a b => graph.after ((graph.addEdge a b).map (·.2))
  | .removeEdge edge => (graph.removeEdge edge).getD graph
  | .linkAlias port target => graph.after (graph.linkAlias port target)
  | .unlinkAlias port => graph.after ((graph.unlinkAlias port).map (·.2))
  | .setProperty node key value => graph.after (graph.setProperty node key value)
  | .setPosition node position => graph.after (graph.setPosition node position)
  | .setPortFlags port flags => graph.after (graph.setPortFlags port flags)
  | .invalidate node => graph.invalidate node
  | .evaluate node output => (graph.evaluate node output).2

def run (graph : Graph) (operations : List Operation) : Graph :=
  operations.foldl perform graph

-- The graph after a query. Sessions of several queries do no more: they carry nothing
-- over from one to the next but the graph.
def answer (graph : Graph) : Query → Graph
  | .evaluatePort port => ((Session.start graph).evaluatePort port).2.graph
  | .inputData input => ((Session.start graph).inputData input).2.graph

-- The graphs that can come about: new ones and restored ones, and what operations and
-- queries make of them in any order.
inductive Reachable : Graph → Prop where
  | new (settings : Settings) : Reachable (Graph.new settings)
  | restored {snapshot : Snapshot} {registry : Registry} {settings : Settings} {graph : Graph}
      (h : Graph.restore snapshot registry settings = .ok graph) : Reachable graph
  | performed {graph : Graph} (operation : Operation) (h : Reachable graph) :
      Reachable (graph.perform operation)
  | answered {graph : Graph} (query : Query) (h : Reachable graph) :
      Reachable (graph.answer query)

-- What holds of every graph that can come about.
structure Healthy (graph : Graph) : Prop where
  wired : graph.Wired
  acyclic : graph.Acyclic
  sound : graph.Sound

variable {graph other : Graph}

theorem Healthy.new (settings : Settings) : (Graph.new settings).Healthy :=
  ⟨.new settings, .new settings, .new settings⟩

theorem Healthy.edit (hg : graph.Healthy) (h : graph.Edit other) : other.Healthy :=
  ⟨h.wired hg.wired, h.acyclic hg.wired hg.acyclic, h.sound hg.wired hg.sound⟩

theorem Healthy.consulted (hg : graph.Healthy) (h : Consulted graph other) : other.Healthy :=
  ⟨hg.wired.of_bare h.1, hg.acyclic.of_bare h.1, h.2⟩

section After

variable {ε α : Type} {P : Graph → Prop}

-- What an edit does unless it is refused.
theorem after_cases {result : Except ε Graph} (h : ∀ edited, result = .ok edited → P edited) :
    graph.after result = graph ∨ P (graph.after result) := by
  cases result with
  | error e => exact .inl rfl
  | ok edited => exact .inr (h edited rfl)

theorem after_map_cases {result : Except ε α} {f : α → Graph}
    (h : ∀ a, result = .ok a → P (f a)) :
    graph.after (result.map f) = graph ∨ P (graph.after (result.map f)) := by
  cases result with
  | error e => exact .inl rfl
  | ok a => exact .inr (h a rfl)

theorem getD_cases {result : Option Graph} (h : ∀ edited, result = some edited → P edited) :
    result.getD graph = graph ∨ P (result.getD graph) := by
  cases result with
  | none => exact .inl rfl
  | some edited => exact .inr (h edited rfl)

end After

-- An operation that is not refused makes one node, revises the graph, or evaluates.
theorem perform_shape (hw : graph.Wired) (operation : Operation) :
    graph.perform operation = graph ∨
    (∃ template uuid, (operation = .addNode template uuid ∨
        ∃ container, operation = .addNodeIn template uuid container) ∧
      ∃ parent, template.fault? = none ∧ graph.findByUuid uuid = none ∧
        (parent = graph.root ∨ ∃ c node, graph.node? c = some node ∧ parent = node.item) ∧
        graph.perform operation = graph.withNode template uuid parent) ∨
    graph.Adjustment (graph.perform operation) ∨
    (∃ id key value, operation = .setProperty id key value ∧ ∃ node, graph.node? id = some node ∧
      graph.perform operation = (graph.withProperty id key value).invalidate id) ∨
    ∃ node output, operation = .evaluate node output := by
  have hadjusted {made others : Prop}
      (h : graph.perform operation = graph ∨ graph.Adjustment (graph.perform operation)) :
      graph.perform operation = graph ∨ made ∨ graph.Adjustment (graph.perform operation) ∨
        others :=
    h.imp_right fun h => .inr (.inl h)
  cases operation with
  | addNode template uuid =>
      cases hadd : graph.addNode template uuid with
      | error e => exact .inl (by simp only [perform, hadd]; rfl)
      | ok result =>
          obtain ⟨hf, hu, -, hother⟩ := insertNode_eq_ok hadd
          refine .inr (.inl ⟨template, uuid, .inl rfl, graph.root, hf, hu, .inl rfl, ?_⟩)
          simp only [perform, hadd]
          exact hother
  | addNodeIn template uuid container =>
      cases hadd : graph.addNodeIn template uuid container with
      | error e => exact .inl (by simp only [perform, hadd]; rfl)
      | ok result =>
          have hinsert := hadd
          rw [addNodeIn] at hinsert
          split at hinsert
          · next found hfound =>
            obtain ⟨hf, hu, -, hother⟩ := insertNode_eq_ok hinsert
            refine .inr (.inl ⟨template, uuid, .inr ⟨container, rfl⟩, found.item, hf, hu,
              .inr ⟨container, found, hfound, rfl⟩, ?_⟩)
            simp only [perform, hadd]
            exact hother
          · cases hinsert
  | removeNode node => exact hadjusted (getD_cases fun _ h => adjustment_of_removeNode h)
  | addEdge a b => exact hadjusted (after_map_cases fun _ h => adjustment_of_addEdge h)
  | removeEdge edge => exact hadjusted (getD_cases fun _ h => adjustment_of_removeEdge hw h)
  | linkAlias port target => exact hadjusted (after_cases fun _ h => adjustment_of_linkAlias h)
  | unlinkAlias port =>
      refine hadjusted ?_
      simp only [perform]
      cases hu : graph.unlinkAlias port with
      | error e => exact .inl rfl
      | ok result => exact adjustment_of_unlinkAlias hu
  | setProperty node key value =>
      cases hset : graph.setProperty node key value with
      | error e => exact .inl (by simp only [perform, hset]; rfl)
      | ok result =>
          obtain ⟨found, hfound, rfl⟩ := setProperty_eq_ok hset
          refine .inr (.inr (.inr (.inl ⟨node, key, value, rfl, found, hfound, ?_⟩)))
          simp only [perform, hset]
          rfl
  | setPosition node position => exact hadjusted (after_cases fun _ h => adjustment_of_setPosition h)
  | setPortFlags port flags => exact hadjusted (after_cases fun _ h => adjustment_of_setPortFlags h)
  | invalidate node => exact hadjusted (.inr (.invalidate node))
  | evaluate node output => exact .inr (.inr (.inr (.inr ⟨node, output, rfl⟩)))

-- An operation that is not refused is one edit, or an evaluation.
theorem perform_cases (hw : graph.Wired) (operation : Operation) :
    graph.perform operation = graph ∨ graph.Edit (graph.perform operation) ∨
      ∃ node output, operation = .evaluate node output := by
  rcases perform_shape hw operation with
    heq | ⟨template, uuid, -, parent, hf, hu, hp, heq⟩ | hadjusted |
      ⟨id, key, value, -, node, hn, heq⟩ | heval
  · exact .inl heq
  · exact .inr (.inl (heq ▸ .insert parent hf hu hp))
  · exact .inr (.inl hadjusted.edit)
  · exact .inr (.inl (heq ▸ .property hn key value))
  · exact .inr (.inr heval)

theorem Healthy.evaluated (hg : graph.Healthy) (node : NodeId) (output : Nat) :
    Consulted graph (graph.perform (.evaluate node output)) :=
  Session.evaluate_consulted (.start graph) hg.wired hg.acyclic hg.sound _ _

theorem Healthy.changed (hg : graph.Healthy) (operation : Operation) :
    graph.perform operation = graph ∨ graph.Edit (graph.perform operation) ∨
      Consulted graph (graph.perform operation) := by
  refine (perform_cases hg.wired operation).imp_right (.imp_right ?_)
  rintro ⟨node, output, rfl⟩
  exact hg.evaluated node output

theorem Healthy.asked (hg : graph.Healthy) (query : Query) :
    Consulted graph (graph.answer query) := by
  cases query with
  | evaluatePort port =>
      exact Session.evaluatePort_consulted (.start graph) hg.wired hg.acyclic hg.sound _
  | inputData input =>
      exact Session.inputData_consulted (.start graph) hg.wired hg.acyclic hg.sound _

theorem Healthy.performed (hg : graph.Healthy) (operation : Operation) :
    (graph.perform operation).Healthy := by
  rcases hg.changed operation with heq | hedit | hconsulted
  · exact heq.symm ▸ hg
  · exact hg.edit hedit
  · exact hg.consulted hconsulted

section Restore

theorem exists_of_bind_eq_ok {ε α β : Type} {a : Except ε α} {f : α → Except ε β} {b : β}
    (h : a >>= f = .ok b) : ∃ x, a = .ok x ∧ f x = .ok b := by
  cases a with
  | error e => cases h
  | ok x => exact ⟨x, rfl, h⟩

theorem edited_eq_ok {α : Type} {result : Except GraphError α} {a : α}
    (h : edited result = .ok a) : result = .ok a := by
  cases result with
  | error e => cases h
  | ok x => exact congrArg Except.ok (Except.ok.inj h)

-- Edits one after the other.
def Edits : Graph → Graph → Prop :=
  Relation.ReflTransGen Edit

theorem Edits.wired (h : Edits graph other) (hw : graph.Wired) : other.Wired := by
  induction h with
  | refl => exact hw
  | tail _ hedit ih => exact hedit.wired ih

-- What each step keeps, a whole run keeps. The property may speak of what was done so far.
theorem foldlM_induction {α : Type} {step : Graph → α → Except RestoreError Graph}
    {P : List α → Graph → Prop} {items : List α}
    (hstep : ∀ {done a rest graph other}, items = done ++ a :: rest → P done graph →
      step graph a = .ok other → P (done ++ [a]) other)
    (hP : P [] graph) (h : items.foldlM step graph = .ok other) : P items other := by
  have hrun : ∀ {todo done graph}, items = done ++ todo → P done graph →
      todo.foldlM step graph = .ok other → P items other := by
    intro todo
    induction todo with
    | nil =>
        rintro done graph rfl hdone h
        rw [List.append_nil]
        exact Except.ok.inj h ▸ hdone
    | cons a rest ih =>
        intro done graph hitems hdone h
        rw [List.foldlM_cons] at h
        obtain ⟨next, hnext, hrest⟩ := exists_of_bind_eq_ok h
        exact ih (by simpa using hitems) (hstep hitems hdone hnext) hrest
  exact hrun rfl hP h

-- A run whose steps are never refused is not refused.
theorem exists_foldlM {α : Type} {step : Graph → α → Except RestoreError Graph}
    {P : List α → Graph → Prop} {items : List α}
    (hstep : ∀ {done a rest graph other}, items = done ++ a :: rest → P done graph →
      step graph a = .ok other → P (done ++ [a]) other)
    (hnext : ∀ {done a rest graph}, items = done ++ a :: rest → P done graph →
      ∃ other, step graph a = .ok other)
    (hP : P [] graph) : ∃ other, items.foldlM step graph = .ok other := by
  have hrun : ∀ {todo done graph}, items = done ++ todo → P done graph →
      ∃ other, todo.foldlM step graph = .ok other := by
    intro todo
    induction todo with
    | nil => exact fun {done graph} _ _ => ⟨graph, rfl⟩
    | cons a rest ih =>
        intro done graph hitems hdone
        obtain ⟨next, hnext⟩ := hnext hitems hdone
        obtain ⟨other, hother⟩ := ih (by simpa using hitems) (hstep hitems hdone hnext)
        refine ⟨other, ?_⟩
        rw [List.foldlM_cons, hnext]
        exact hother
  exact hrun rfl hP

theorem edits_of_foldlM {α : Type} {step : Graph → α → Except RestoreError Graph}
    (hstep : ∀ {graph a other}, step graph a = .ok other → Edits graph other)
    {items : List α} (h : items.foldlM step graph = .ok other) : Edits graph other :=
  foldlM_induction (P := fun _ next => Edits graph next) (fun _ hdone h => hdone.trans (hstep h))
    .refl h

theorem edits_of_restoreFlags {direction : Direction} {node : NodeId} {uuid : Uuid} {index : Nat}
    {flags : List Flags} (h : restoreFlags direction node uuid index flags graph = .ok other) :
    Edits graph other := by
  induction flags generalizing index graph with
  | nil => exact Except.ok.inj h ▸ .refl
  | cons first rest ih =>
      obtain ⟨port, -, h⟩ := exists_of_bind_eq_ok h
      obtain ⟨next, hset, h⟩ := exists_of_bind_eq_ok h
      exact .head (adjustment_of_setPortFlags (edited_eq_ok hset)).edit (ih h)

theorem edits_of_restoreNode {registry : Registry} {saved : SavedNode}
    (h : restoreNode registry graph saved = .ok other) : Edits graph other := by
  simp only [Graph.restoreNode] at h
  split at h
  · cases h
  obtain ⟨template, -, h⟩ := exists_of_bind_eq_ok h
  obtain ⟨⟨id, added⟩, hadd, h⟩ := exists_of_bind_eq_ok h
  obtain ⟨placed, hplace, h⟩ := exists_of_bind_eq_ok h
  obtain ⟨flagged, hflags, h⟩ := exists_of_bind_eq_ok h
  have hplaced : Edits graph placed :=
    .tail (.single (edit_of_addNode (edited_eq_ok hadd)))
      (adjustment_of_setPosition (edited_eq_ok hplace)).edit
  exact (hplaced.trans (edits_of_restoreFlags hflags)).trans (edits_of_restoreFlags h)

theorem edits_of_restoreParent {saved : SavedNode} (h : restoreParent graph saved = .ok other) :
    Edits graph other := by
  simp only [Graph.restoreParent] at h
  split at h
  · exact Except.ok.inj h ▸ .refl
  · obtain ⟨container, -, h⟩ := exists_of_bind_eq_ok h
    obtain ⟨child, -, h⟩ := exists_of_bind_eq_ok h
    obtain ⟨_, -, h⟩ := exists_of_bind_eq_ok h
    exact Except.ok.inj h ▸ .single (.move _ _)

theorem revision_of_restoreAlias {saved : SavedAlias} (h : restoreAlias graph saved = .ok other) :
    graph.Revision other := by
  obtain ⟨port, -, h⟩ := exists_of_bind_eq_ok h
  obtain ⟨target, -, h⟩ := exists_of_bind_eq_ok h
  exact .adjusted (adjustment_of_linkAlias (edited_eq_ok h))

theorem revision_of_restoreEdge {saved : SavedEdge} (h : restoreEdge graph saved = .ok other) :
    graph.Revision other := by
  obtain ⟨source, -, h⟩ := exists_of_bind_eq_ok h
  obtain ⟨destination, -, h⟩ := exists_of_bind_eq_ok h
  split at h
  · next e joined hadd => exact .adjusted (Except.ok.inj h ▸ adjustment_of_addEdge hadd)
  · cases h

-- A document becomes a graph by edits of a new one.
theorem edits_of_restore {snapshot : Snapshot} {registry : Registry} {settings : Settings}
    (h : Graph.restore snapshot registry settings = .ok graph) :
    Edits (Graph.new settings) graph := by
  obtain ⟨filled, hnodes, h⟩ := exists_of_bind_eq_ok h
  obtain ⟨nested, hparents, h⟩ := exists_of_bind_eq_ok h
  obtain ⟨linked, haliases, h⟩ := exists_of_bind_eq_ok h
  have hfilled := edits_of_foldlM edits_of_restoreNode hnodes
  have hnested := edits_of_foldlM edits_of_restoreParent hparents
  have hlinked := edits_of_foldlM (fun h => .single (revision_of_restoreAlias h).edit) haliases
  have hjoined := edits_of_foldlM (fun h => .single (revision_of_restoreEdge h).edit) h
  exact ((hfilled.trans hnested).trans hlinked).trans hjoined

theorem Healthy.edits (hg : graph.Healthy) (h : Edits graph other) : other.Healthy := by
  induction h with
  | refl => exact hg
  | tail _ hedit ih => exact ih.edit hedit

theorem Healthy.restored {snapshot : Snapshot} {registry : Registry} {settings : Settings}
    (h : Graph.restore snapshot registry settings = .ok graph) : graph.Healthy :=
  (Healthy.new settings).edits (edits_of_restore h)

end Restore

theorem Reachable.healthy (h : Reachable graph) : graph.Healthy := by
  induction h with
  | new settings => exact .new settings
  | restored h => exact .restored h
  | performed operation _ ih => exact ih.performed operation
  | answered query _ ih => exact ih.consulted (ih.asked query)

-- What holds of new graphs and outlasts edits and evaluations holds of every graph that
-- can come about.
theorem Reachable.invariant {P : Graph → Prop} (hnew : ∀ settings, P (Graph.new settings))
    (hedit : ∀ {graph other}, P graph → graph.Edit other → P other)
    (hconsulted : ∀ {graph other}, P graph → Consulted graph other → P other)
    (h : Reachable graph) : P graph := by
  induction h with
  | new settings => exact hnew settings
  | @restored _ _ settings graph h =>
      have hedits := edits_of_restore h
      clear h
      induction hedits with
      | refl => exact hnew settings
      | tail _ h ih => exact hedit ih h
  | performed operation hreach ih =>
      rcases hreach.healthy.changed operation with heq | h | h
      · exact heq.symm ▸ ih
      · exact hedit ih h
      · exact hconsulted ih h
  | answered query hreach ih => exact hconsulted ih (hreach.healthy.asked query)

end Graph

-- A node that hands on what it is given.
def Template.relay : Template where
  tag := "relay"
  inputs := [⟨"in", .any, .none, none⟩]
  outputs := [⟨"out", .any, .none, none⟩]
  units := [⟨0, [0], fun inputs => inputs.get 0⟩]
  properties := .empty

namespace Graph

theorem Reachable.run (h : Reachable graph) (operations : List Operation) :
    Reachable (graph.run operations) := by
  induction operations generalizing graph with
  | nil => exact h
  | cons operation rest ih => exact ih (h.performed operation)

-- Two such nodes, the second behind the first.
def relaying : List Operation :=
  [.addNode .relay ⟨1⟩, .addNode .relay ⟨2⟩, .addEdge ⟨2⟩ ⟨3⟩]

def relays : Graph :=
  (Graph.new .standard).run relaying

theorem relays_reachable : Reachable relays :=
  Reachable.run (.new .standard) relaying

end Graph

end Dataflow
