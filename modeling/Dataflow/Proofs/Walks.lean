import Dataflow.Proofs.Reachable

namespace Dataflow.Graph

open Relation

variable {graph : Graph} {stop : Port → Bool} {p : PortId} {port : Port} {chain : Chain}

-- All that a walk passes is there, of the direction in which it set out, and the port where
-- it set out depends on it.
theorem Wired.on_walk (hw : graph.Wired) (hp : graph.port? p = some port)
    (h : graph.Follows stop p chain) :
    ∀ q ∈ chain.ports, (∃ found, graph.port? q = some found ∧
      found.direction = port.direction) ∧ ReflTransGen graph.Arc q p := by
  induction h generalizing port with
  | stay _ _ =>
      intro q hq
      obtain rfl := List.mem_singleton.mp hq
      exact ⟨⟨port, hp, rfl⟩, .refl⟩
  | @pass p t found rest hp' _ ha _ ih =>
      obtain rfl := Option.some.inj (hp'.symm.trans hp)
      obtain ⟨target, ht, htd⟩ := hw.target hp ha
      intro q hq
      rcases List.mem_cons.mp hq with rfl | hq
      · exact ⟨⟨found, hp, rfl⟩, .refl⟩
      · obtain ⟨⟨other, hother, hd⟩, hpath⟩ := ih ht q hq
        exact ⟨⟨other, hother, hd.trans htd⟩, hpath.tail (.forwards hp ha)⟩

-- A walk that came back to a port would be a loop of dependencies.
theorem Follows.nodup (h : graph.Follows stop p chain) (hw : graph.Wired) (ha : graph.Acyclic) :
    chain.ports.Nodup := by
  induction h with
  | stay _ _ => exact List.nodup_singleton _
  | @pass p t found rest hp _ halias hrest ih =>
      obtain ⟨target, ht, -⟩ := hw.target hp halias
      have hnew : p ∉ rest.ports := by
        intro hm
        obtain ⟨-, hpath⟩ := hw.on_walk ht hrest p hm
        exact ha p (TransGen.tail' hpath (.forwards hp halias))
      exact List.nodup_cons.mpr ⟨hnew, ih⟩

-- From every port the walk comes to an end, since what a port stands for ranks lower.
theorem Wired.exists_follows (hw : graph.Wired) (ha : graph.Acyclic) (stop : Port → Bool)
    (hp : graph.port? p = some port) : ∃ chain, graph.Follows stop p chain := by
  induction hrank : graph.rank p using Nat.strongRecOn generalizing p port with
  | ind rank ih =>
      subst hrank
      cases hs : stop port with
      | true => exact ⟨_, .stay hp (.inl hs)⟩
      | false =>
          cases halias : port.aliasOf with
          | none => exact ⟨_, .stay hp (.inr halias)⟩
          | some t =>
              obtain ⟨target, ht, -⟩ := hw.target hp halias
              have hlower := hw.rank_lt ha (.single (.forwards hp halias))
              obtain ⟨rest, hrest⟩ := ih _ hlower ht rfl
              exact ⟨_, .pass hp hs halias hrest⟩

-- From every port the walk along aliases ends, and comes to no port twice. Both ways of
-- looking for it find it just if it takes no more hops than are allowed: the one as a whole,
-- and the other one up to the first port with edges of its own. Where they find nothing, the
-- walk is too long, and nothing on it is missing.
theorem alias_walks_agree (h : Reachable graph) (hp : graph.port? p = some port) :
    ∃ walk, graph.Follows (fun _ => false) p walk ∧ walk.ports.Nodup ∧
      (∀ q ∈ walk.ports, ∃ found, graph.port? q = some found ∧
        found.direction = port.direction) ∧
      (∃ last, graph.port? walk.last = some last ∧ last.aliasOf = none) ∧
      graph.aliasChain p =
        (if walk.outer.length ≤ graph.settings.maxAliasHops then .ok walk
        else .error (.invalidPortAlias p .endless)) ∧
      ∃ front, front.ports <+: walk.ports ∧
        (∀ q ∈ front.outer, ∃ found, graph.port? q = some found ∧ found.edges = []) ∧
        (front = walk ∨ ∃ last, graph.port? front.last = some last ∧ last.edges ≠ []) ∧
        graph.inputChain p =
          if front.outer.length ≤ graph.settings.maxAliasHops then .ok front
          else .error (.invalidPortAlias p .endless) := by
  have hg := h.healthy
  obtain ⟨walk, hwalk⟩ := hg.wired.exists_follows hg.acyclic (fun _ => false) hp
  obtain ⟨last, hlast, -, hend, -⟩ := hg.wired.walk_end hp hwalk
  obtain ⟨front, hfront, hprefix, hpassed, hstop⟩ := hwalk.front fun port => !port.edges.isEmpty
  refine ⟨walk, hwalk, hwalk.nodup hg.wired hg.acyclic,
    fun q hq => (hg.wired.on_walk hp hwalk q hq).1,
    ⟨last, hlast, hend.resolve_left Bool.false_ne_true⟩, hwalk.chainFrom_eq,
    front, hprefix, ?_, ?_, hfront.chainFrom_eq⟩
  · intro q hq
    obtain ⟨found, hfound, hedges⟩ := hpassed q hq
    exact ⟨found, hfound, by simpa using hedges⟩
  · refine hstop.imp_right ?_
    rintro ⟨found, hfound, hedges⟩
    exact ⟨found, hfound, by simpa using hedges⟩

-- Three inputs that stand for one another, with an edge into the second one, in a graph where
-- one hop is allowed.
def hopping : List Operation :=
  [.addNode .relay ⟨1⟩, .addNode .relay ⟨2⟩, .addNode .relay ⟨3⟩, .addNode .relay ⟨4⟩,
    .linkAlias ⟨1⟩ ⟨3⟩, .linkAlias ⟨3⟩ ⟨5⟩, .addEdge ⟨8⟩ ⟨3⟩]

def hopped : Graph :=
  (Graph.new { Settings.standard with maxAliasHops := 1 }).run hopping

-- The walk from the first one is too long, and its front up to the edge is not.
theorem hopped_walks_agree :
    ∃ walk, hopped.Follows (fun _ => false) ⟨1⟩ walk ∧ walk.ports.Nodup ∧
      hopped.settings.maxAliasHops < walk.outer.length ∧
      hopped.aliasChain ⟨1⟩ = .error (.invalidPortAlias ⟨1⟩ .endless) ∧
      hopped.inputChain ⟨1⟩ = .ok ⟨[⟨1⟩], ⟨3⟩⟩ ∧ [⟨1⟩, ⟨3⟩] <+: walk.ports := by
  have hreach : Reachable hopped := Reachable.run (.new _) hopping
  have halias : hopped.aliasChain ⟨1⟩ = .error (.invalidPortAlias ⟨1⟩ .endless) := rfl
  have hinput : hopped.inputChain ⟨1⟩ = .ok ⟨[⟨1⟩], ⟨3⟩⟩ := rfl
  obtain ⟨port, hport⟩ : ∃ port, hopped.port? ⟨1⟩ = some port := ⟨_, rfl⟩
  obtain ⟨walk, hwalk, hnodup, -, -, hwhole, front, hprefix, -, -, hfront⟩ :=
    alias_walks_agree hreach hport
  rw [halias] at hwhole
  rw [hinput] at hfront
  split at hwhole
  · cases hwhole
  · next hlong =>
    split at hfront
    · obtain rfl := Except.ok.inj hfront
      exact ⟨walk, hwalk, hnodup, Nat.lt_of_not_le hlong, halias, hinput, hprefix⟩
    · cases hfront

end Dataflow.Graph
