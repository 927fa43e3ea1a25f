import Dataflow.Graph.Alias

namespace Dataflow.Graph

-- A walk along aliases, however long it is: it ends at the first port where it shall stop
-- or that stands for no other.
inductive Follows (graph : Graph) (stop : Port → Bool) : PortId → Chain → Prop where
  | stay {p : PortId} {port : Port} (hp : graph.port? p = some port)
      (h : stop port = true ∨ port.aliasOf = none) : Follows graph stop p ⟨[], p⟩
  | pass {p t : PortId} {port : Port} {rest : Chain} (hp : graph.port? p = some port)
      (hs : stop port = false) (ha : port.aliasOf = some t) (h : Follows graph stop t rest) :
      Follows graph stop p ⟨p :: rest.outer, rest.last⟩

-- The walk from a port takes no more hops than are allowed.
def WithinHops (graph : Graph) (stop : Port → Bool) (p : PortId) : Prop :=
  ∃ chain, graph.Follows stop p chain ∧ chain.outer.length ≤ graph.settings.maxAliasHops

variable {graph other : Graph} {stop : Port → Bool} {p t : PortId} {port : Port} {chain : Chain}

theorem follows_of_walkAliases {hops : Nat} (h : graph.walkAliases stop hops p = .ok chain) :
    graph.Follows stop p chain ∧ chain.outer.length ≤ hops := by
  induction hops using Nat.strongRecOn generalizing p chain with
  | ind hops ih =>
      unfold walkAliases at h
      cases hp : graph.port? p with
      | none =>
          rw [hp] at h
          cases h
      | some port =>
          simp only [hp] at h
          split at h
          · next hs =>
              obtain rfl := Except.ok.inj h
              exact ⟨.stay hp (.inl hs), Nat.zero_le _⟩
          · next hs =>
              split at h
              · next ha =>
                  obtain rfl := Except.ok.inj h
                  exact ⟨.stay hp (.inr ha), Nat.zero_le _⟩
              · cases h
              · next t left ha =>
                  split at h
                  · next rest hrest =>
                      obtain rfl := Except.ok.inj h
                      obtain ⟨hfollows, hlength⟩ := ih left (Nat.lt_succ_self left) hrest
                      have hgo : stop port = false := by simpa using hs
                      exact ⟨.pass hp hgo ha hfollows, Nat.succ_le_succ hlength⟩
                  · cases h

theorem Follows.walkAliases (h : graph.Follows stop p chain) {hops : Nat}
    (hlength : chain.outer.length ≤ hops) : graph.walkAliases stop hops p = .ok chain := by
  induction h generalizing hops with
  | stay hp h =>
      unfold Graph.walkAliases
      simp only [hp]
      split
      · rfl
      · next hs => rw [h.resolve_left hs]
  | pass hp hs ha _ ih =>
      cases hops with
      | zero => cases hlength
      | succ hops =>
          have hrest := ih (Nat.le_of_succ_le_succ hlength)
          unfold Graph.walkAliases
          simp only [hp, hs, ha, hrest, Bool.false_eq_true, if_false]

-- A walk is found just if it takes no more hops than are allowed.
theorem chainFrom_eq_ok_iff :
    graph.chainFrom stop p = .ok chain ↔
      graph.Follows stop p chain ∧ chain.outer.length ≤ graph.settings.maxAliasHops := by
  have hwalk : graph.chainFrom stop p = .ok chain ↔
      graph.walkAliases stop graph.settings.maxAliasHops p = .ok chain := by
    unfold chainFrom
    split
    · next found h => rw [h, Except.ok.injEq, Except.ok.injEq]
    · next fault h => simp [h]
  rw [hwalk]
  constructor
  · exact follows_of_walkAliases
  · intro h
    exact h.1.walkAliases h.2

-- A walk that takes more hops than are allowed is given up, for no other reason.
theorem Follows.walkAliases_endless (h : graph.Follows stop p chain) {hops : Nat}
    (hlength : hops < chain.outer.length) : graph.walkAliases stop hops p = .error .endless := by
  induction h generalizing hops with
  | stay hp h => cases hlength
  | pass hp hs ha _ ih =>
      unfold Graph.walkAliases
      cases hops with
      | zero => simp only [hp, hs, ha, Bool.false_eq_true, if_false]
      | succ hops =>
          have hrest := ih (Nat.lt_of_succ_lt_succ hlength)
          simp only [hp, hs, ha, hrest, Bool.false_eq_true, if_false]

theorem Follows.chainFrom_eq (h : graph.Follows stop p chain) :
    graph.chainFrom stop p =
      if chain.outer.length ≤ graph.settings.maxAliasHops then .ok chain
      else .error (.invalidPortAlias p .endless) := by
  split
  · next hlength => exact chainFrom_eq_ok_iff.mpr ⟨h, hlength⟩
  · next hlength =>
    unfold chainFrom
    rw [h.walkAliases_endless (Nat.lt_of_not_le hlength)]

-- A walk that shall stop at some ports is the front of the whole walk, up to the first of these.
theorem Follows.front (h : graph.Follows (fun _ => false) p chain) (stop : Port → Bool) :
    ∃ front, graph.Follows stop p front ∧ front.ports <+: chain.ports ∧
      (∀ q ∈ front.outer, ∃ found, graph.port? q = some found ∧ stop found = false) ∧
      (front = chain ∨ ∃ last, graph.port? front.last = some last ∧ stop last = true) := by
  induction h with
  | @stay p port hp h =>
      have hnone : port.aliasOf = none := h.resolve_left Bool.false_ne_true
      exact ⟨⟨[], p⟩, .stay hp (.inr hnone), List.prefix_refl _, nofun, .inl rfl⟩
  | @pass p t port rest hp _ ha _ ih =>
      cases hs : stop port with
      | true =>
          refine ⟨⟨[], p⟩, .stay hp (.inl hs), ?_, nofun, .inr ⟨port, hp, hs⟩⟩
          exact List.prefix_append [p] rest.ports
      | false =>
          obtain ⟨front, hfollows, hprefix, hpassed, hend⟩ := ih
          refine ⟨⟨p :: front.outer, front.last⟩, .pass hp hs ha hfollows, ?_, ?_, ?_⟩
          · exact List.cons_prefix_cons.mpr ⟨rfl, hprefix⟩
          · exact List.forall_mem_cons.mpr ⟨⟨port, hp, hs⟩, hpassed⟩
          · exact hend.imp_left fun heq => by rw [heq]

theorem Follows.exists_last (h : graph.Follows stop p chain) :
    ∃ last, graph.port? chain.last = some last := by
  induction h with
  | stay hp _ => exact ⟨_, hp⟩
  | pass _ _ _ _ ih => exact ih

theorem Follows.of_port? (hports : ∀ q, other.port? q = graph.port? q)
    (h : graph.Follows stop p chain) : other.Follows stop p chain := by
  induction h with
  | stay hp h => exact .stay ((hports _).trans hp) h
  | pass hp hs ha _ ih => exact .pass ((hports _).trans hp) hs ha ih

-- From a port that the walk does not stop at, it is the walk from what the port stands for
-- with this port before it.
theorem WithinHops.of_alias (h : graph.WithinHops stop p) (hp : graph.port? p = some port)
    (hs : stop port = false) (ha : port.aliasOf = some t) :
    ∃ rest, graph.chainFrom stop t = .ok rest ∧
      graph.chainFrom stop p = .ok ⟨p :: rest.outer, rest.last⟩ := by
  obtain ⟨chain, hfollows, hlength⟩ := h
  have hchain := chainFrom_eq_ok_iff.mpr ⟨hfollows, hlength⟩
  cases hfollows with
  | stay hp' hstop =>
      obtain rfl := Option.some.inj (hp.symm.trans hp')
      rcases hstop with hstop | hnone
      · cases hs.symm.trans hstop
      · cases ha.symm.trans hnone
  | pass hp' _ ha' hrest =>
      obtain rfl := Option.some.inj (hp.symm.trans hp')
      obtain rfl := Option.some.inj (ha.symm.trans ha')
      refine ⟨_, chainFrom_eq_ok_iff.mpr ⟨hrest, ?_⟩, hchain⟩
      exact Nat.le_of_succ_le hlength

end Dataflow.Graph
