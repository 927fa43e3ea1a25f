import Dataflow.Proofs.Reachable

namespace Dataflow

namespace Graph

variable {graph other : Graph} {p t : PortId} {port : Port} {rest : Chain}

theorem WithinHops.of_bare {stop : Port → Bool} (h : graph.WithinHops stop p)
    (halike : other.bare = graph.bare) : other.WithinHops stop p := by
  obtain ⟨chain, hfollows, hlength⟩ := h
  refine ⟨chain, hfollows.of_port? (port?_of_bare halike), ?_⟩
  rwa [settings_of_bare halike]

-- The first port on the way is the last one that a value comes by.
theorem applyFlags_cons (hp : graph.port? p = some port) (ports : List PortId) :
    graph.applyFlags (p :: ports) = port.flags.apply ∘ graph.applyFlags ports := by
  funext value
  simp only [applyFlags, List.foldr_cons, hp, Function.comp_apply]

theorem readOutput_cons (hp : graph.port? p = some port) :
    graph.readOutput ⟨p :: rest.outer, rest.last⟩ =
      (graph.readOutput rest).map port.flags.apply := by
  simp only [readOutput_eq, along]
  cases graph.locate rest.last with
  | error e => rfl
  | ok place =>
      obtain ⟨node, output⟩ := place
      change (graph.kept node output).map (graph.applyFlags (p :: rest.outer)) =
        ((graph.kept node output).map (graph.applyFlags rest.outer)).map port.flags.apply
      rw [applyFlags_cons hp]
      cases graph.kept node output <;> rfl

-- What arrives at a port without edges is what arrives at the port that it stands for.
theorem readInput_alias (h : graph.WithinHops (fun port => !port.edges.isEmpty) p)
    (hp : graph.port? p = some port) (hedges : port.edges = []) (ha : port.aliasOf = some t) :
    graph.producers p = graph.producers t ∧
      graph.readInput p = (graph.readInput t).map (List.map port.flags.apply) := by
  have hpass : (!port.edges.isEmpty) = false := by rw [hedges]; rfl
  obtain ⟨rest, hrest, hchain⟩ := h.of_alias hp hpass ha
  obtain ⟨last, hlast⟩ := (chainFrom_eq_ok_iff.mp hrest).1.exists_last
  constructor
  · simp only [producers, inputChain, hrest, hchain]
  · simp only [readInput, inputChain, hrest, hchain, hlast]
    cases graph.readPort last with
    | error e => rfl
    | ok values =>
        change Except.ok (values.map (graph.applyFlags (p :: rest.ports))) =
          Except.ok ((values.map (graph.applyFlags rest.ports)).map port.flags.apply)
        rw [List.map_map, applyFlags_cons hp]

end Graph

namespace Session

open Dataflow.Graph

variable {session : Session} {p t : PortId} {port : Port} {chain : Chain}

-- An output port that stands for another shows what that one shows, changed by its flags.
theorem evaluatePort_alias (h : Reachable session.graph)
    (hp : session.graph.port? p = some port) (ha : port.aliasOf = some t)
    (hreach : session.graph.WithinHops (fun _ => false) p) :
    session.evaluatePort p =
      ((session.evaluatePort t).1.map port.flags.apply, (session.evaluatePort t).2) := by
  have hg := h.healthy
  obtain ⟨rest, hrest, hchain⟩ := hreach.of_alias hp rfl ha
  have hsettled := session.settle_consulted hg.wired hg.acyclic hg.sound rest.last
  simp only [evaluatePort, aliasChain, hrest, hchain]
  cases hsettle : session.settle rest.last with
  | mk outcome next =>
  rw [hsettle] at hsettled
  cases outcome with
  | error e => rfl
  | ok done =>
      have hnext : next.graph.port? p = some port := (port?_of_bare hsettled.1 p).trans hp
      exact congrArg (·, next) (readOutput_cons hnext)

-- An input port that stands for another receives what that one receives.
theorem inputData_alias (h : Reachable session.graph)
    (hp : session.graph.port? p = some port) (hedges : port.edges = [])
    (ha : port.aliasOf = some t)
    (hreach : session.graph.WithinHops (fun port => !port.edges.isEmpty) p) :
    session.inputData p =
      ((session.inputData t).1.map (List.map port.flags.apply), (session.inputData t).2) := by
  have hg := h.healthy
  have hsettled := session.settleAll_consulted hg.wired hg.acyclic hg.sound
    (session.graph.producers t)
  simp only [inputData, (readInput_alias hreach hp hedges ha).1]
  cases hsettle : settleAll (session.graph.producers t) session with
  | mk outcome next =>
  rw [hsettle] at hsettled
  cases outcome with
  | error e => rfl
  | ok done =>
      have hnext : next.graph.port? p = some port := (port?_of_bare hsettled.1 p).trans hp
      have hread := (readInput_alias (hreach.of_bare hsettled.1) hnext hedges ha).2
      exact congrArg (·, next) hread

-- The same for a walk of any length: each port on it changes the value once, the innermost
-- first, and the end of the walk has changed it already.
theorem evaluatePort_follows (h : Reachable session.graph)
    (hfollows : session.graph.Follows (fun _ => false) p chain)
    (hlength : chain.outer.length ≤ session.graph.settings.maxAliasHops) :
    session.evaluatePort p =
      ((session.evaluatePort chain.last).1.map (session.graph.applyFlags chain.outer),
        (session.evaluatePort chain.last).2) := by
  induction hfollows with
  | @stay p _ _ _ =>
      rcases session.evaluatePort p with ⟨outcome, next⟩
      cases outcome <;> rfl
  | @pass p t port rest hp hs ha hrest ih =>
      have hstep := evaluatePort_alias h hp ha ⟨_, .pass hp hs ha hrest, hlength⟩
      rw [hstep, ih (Nat.le_of_succ_le hlength), applyFlags_cons hp]
      rcases session.evaluatePort rest.last with ⟨outcome, next⟩
      cases outcome <;> rfl

theorem inputData_follows (h : Reachable session.graph)
    (hfollows : session.graph.Follows (fun port => !port.edges.isEmpty) p chain)
    (hlength : chain.outer.length ≤ session.graph.settings.maxAliasHops) :
    session.inputData p =
      ((session.inputData chain.last).1.map (List.map (session.graph.applyFlags chain.outer)),
        (session.inputData chain.last).2) := by
  induction hfollows with
  | @stay p _ _ _ =>
      have hid : List.map (session.graph.applyFlags []) = id := List.map_id_fun
      rcases session.inputData p with ⟨outcome, next⟩
      rw [hid]
      cases outcome <;> rfl
  | @pass p t port rest hp hs ha hrest ih =>
      have hedges : port.edges = [] := by simpa using hs
      have hstep := inputData_alias h hp hedges ha ⟨_, .pass hp hs ha hrest, hlength⟩
      rw [hstep, ih (Nat.le_of_succ_le hlength), applyFlags_cons hp, ← List.map_comp_map]
      rcases session.inputData rest.last with ⟨outcome, next⟩
      cases outcome <;> rfl

-- Aliases are transparent. While a walk is not too long, to ask a port that stands for
-- another is to ask that other one: the same work is done, the same errors come back, and a
-- value is changed by the flags of the port and nothing else.
theorem aliases_transparent (h : Reachable session.graph) :
    (∀ q t port, session.graph.port? q = some port → port.aliasOf = some t →
      session.graph.WithinHops (fun _ => false) q →
      session.evaluatePort q =
        ((session.evaluatePort t).1.map port.flags.apply, (session.evaluatePort t).2)) ∧
    ∀ p t port, session.graph.port? p = some port → port.edges = [] → port.aliasOf = some t →
      session.graph.WithinHops (fun port => !port.edges.isEmpty) p →
      session.inputData p =
        ((session.inputData t).1.map (List.map port.flags.apply), (session.inputData t).2) := by
  constructor
  · intro q t port hq ha hreach
    exact evaluatePort_alias h hq ha hreach
  · intro p t port hp hedges ha hreach
    exact inputData_alias h hp hedges ha hreach

-- The output of the first node under two more, one of which flattens and the other grafts,
-- and its input under another that grafts.
def wrapping : List Operation :=
  [.addNode .relay ⟨1⟩, .addNode .relay ⟨2⟩, .addNode .relay ⟨3⟩,
    .linkAlias ⟨4⟩ ⟨2⟩, .linkAlias ⟨6⟩ ⟨4⟩, .linkAlias ⟨3⟩ ⟨1⟩,
    .setPortFlags ⟨4⟩ ⟨true, false, false⟩, .setPortFlags ⟨6⟩ ⟨false, false, true⟩,
    .setPortFlags ⟨3⟩ ⟨false, false, true⟩,
    .setProperty ⟨1⟩ "in" (.list [.leaf (.int 7), .list [.leaf (.int 8)]])]

def wrapped : Session :=
  .start ((Graph.new .standard).run wrapping)

theorem wrapped_transparent :
    (∃ port, wrapped.graph.port? ⟨6⟩ = some port ∧ port.aliasOf = some ⟨4⟩ ∧
      wrapped.graph.WithinHops (fun _ => false) ⟨6⟩ ∧
      wrapped.evaluatePort ⟨6⟩ =
        ((wrapped.evaluatePort ⟨4⟩).1.map port.flags.apply, (wrapped.evaluatePort ⟨4⟩).2)) ∧
    (∃ port, wrapped.graph.port? ⟨3⟩ = some port ∧ port.aliasOf = some ⟨1⟩ ∧
      port.edges = [] ∧ wrapped.graph.WithinHops (fun port => !port.edges.isEmpty) ⟨3⟩ ∧
      wrapped.inputData ⟨3⟩ =
        ((wrapped.inputData ⟨1⟩).1.map (List.map port.flags.apply),
          (wrapped.inputData ⟨1⟩).2)) ∧
    (wrapped.evaluatePort ⟨6⟩).1.toOption.map Ragged.shape =
      some (.list [.list [.leaf 0], .list [.leaf 1]]) := by
  have hwrapped : Reachable wrapped.graph := Reachable.run (.new .standard) wrapping
  have hout : wrapped.graph.WithinHops (fun _ => false) ⟨6⟩ :=
    ⟨_, .pass rfl rfl rfl (.pass rfl rfl rfl (.stay rfl (.inr rfl))), by decide⟩
  have hin : wrapped.graph.WithinHops (fun port => !port.edges.isEmpty) ⟨3⟩ :=
    ⟨_, .pass rfl rfl rfl (.stay rfl (.inr rfl)), by decide⟩
  obtain ⟨houtput, hinput⟩ := aliases_transparent hwrapped
  refine ⟨⟨_, rfl, rfl, hout, houtput ⟨6⟩ ⟨4⟩ _ rfl rfl hout⟩,
    ⟨_, rfl, rfl, rfl, hin, hinput ⟨3⟩ ⟨1⟩ _ rfl rfl rfl hin⟩, ?_⟩
  decide +kernel

end Session

end Dataflow
