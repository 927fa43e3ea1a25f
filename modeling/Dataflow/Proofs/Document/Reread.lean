import Dataflow.Proofs.Document.Reading

namespace Dataflow

section Same

-- Only a number that is none differs from itself.
theorem float_beq_self {x : Float} (h : x.isFinite = true) : (x == x) = true := by
  change (x.toModel.unpack.compare x.toModel.unpack == some .eq) = true
  change x.toModel.unpack.isFinite = true at h
  cases hx : x.toModel.unpack with
  | infinity sign => rw [hx] at h; cases h
  | notANumber => rw [hx] at h; cases h
  | zero sign => rfl
  | finite sign mantissa exponent hpos =>
      cases sign <;> simp [Float.Model.UnpackedFloat.compare]

theorem Value.beq_self {value : Value} (h : ∀ x ∈ value.numbers, x.isFinite = true) :
    (value == value) = true := by
  cases value with
  | null => rfl
  | bool truth => exact beq_self_eq_true truth
  | int i => exact beq_self_eq_true i
  | number x => exact float_beq_self (h x List.mem_cons_self)
  | text s => exact beq_self_eq_true s
  | point p =>
      simp only [Value.numbers, List.forall_mem_cons] at h
      obtain ⟨hx, hy, hz, -⟩ := h
      change (p.x == p.x && (p.y == p.y && p.z == p.z)) = true
      rw [float_beq_self hx, float_beq_self hy, float_beq_self hz]
      rfl

namespace Nested

variable {α : Type} [BEq α]

theorem sameAll_self {children : List (Nested α)}
    (h : ∀ child ∈ children, (child == child) = true) : sameAll children children = true := by
  induction children with
  | nil => rfl
  | cons child rest ih =>
      obtain ⟨hchild, hrest⟩ := List.forall_mem_cons.mp h
      rw [sameAll, ih hrest, Bool.and_true]
      exact hchild

theorem beq_self {nested : Nested α} (h : ∀ value ∈ nested.leaves, (value == value) = true) :
    (nested == nested) = true := by
  induction nested with
  | leaf value => exact h value (List.mem_singleton_self value)
  | list children ih =>
      rw [leaves_list] at h
      exact sameAll_self fun child hchild =>
        ih child hchild fun value hvalue => h value (List.mem_flatMap_of_mem hchild hvalue)

theorem blank_eq_of_sameAll {children others : List (Nested α)}
    (h : ∀ child ∈ children, ∀ other, (child == other) = true → child.blank = other.blank)
    (hsame : sameAll children others = true) : children.map blank = others.map blank := by
  induction children generalizing others with
  | nil =>
      cases others with
      | nil => rfl
      | cons other others => cases hsame
  | cons child rest ih =>
      cases others with
      | nil => cases hsame
      | cons other others =>
          obtain ⟨hchild, hrest⟩ := List.forall_mem_cons.mp h
          rw [sameAll, Bool.and_eq_true] at hsame
          rw [List.map_cons, List.map_cons, hchild other hsame.1, ih hrest hsame.2]

-- Whatever counts as the same at the leaves, the nesting must agree.
theorem blank_eq_of_beq {nested other : Nested α} (h : (nested == other) = true) :
    nested.blank = other.blank := by
  induction nested generalizing other with
  | leaf value =>
      cases other with
      | leaf value' => rfl
      | list others => cases h
  | list children ih =>
      cases other with
      | leaf value' => cases h
      | list others => rw [blank_list, blank_list, blank_eq_of_sameAll (fun _ hc _ => ih _ hc) h]

end Nested

end Same

namespace Nested

variable {nested found : Nested Value} {children : List (Nested Value)}

theorem tripleFree_iff :
    nested.tripleFree = true ↔ ∀ path found, nested.at? path = some found →
      found.isTriple = false := by
  induction nested with
  | leaf value =>
      rw [forall_at?_leaf_iff, tripleFree]
      exact ⟨fun _ => rfl, fun _ => rfl⟩
  | list children ih =>
      rw [tripleFree, Bool.and_eq_true, Bool.not_eq_true', allTripleFree_iff, forall_at?_list_iff]
      exact and_congr_right fun _ => forall₂_congr ih

theorem readsAs_reread (nested : Nested Value) : nested.ReadsAs nested.reread := by
  cases nested with
  | leaf value =>
      rw [reread_leaf]
      exact .leaf value
  | list children =>
      cases htriple : (list children).isTriple with
      | true =>
          obtain ⟨point, hread, hreads⟩ := Tree.toNested?_of_isTriple htriple
          rw [reread_of_eq hread]
          exact hreads
      | false =>
          rw [reread_list htriple]
          exact .list htriple (List.length_map reread)

-- A triple holds nothing but leaves, so what lies inside one is a child of it.
theorem at?_reread {path : List Nat} (hat : nested.at? path = some found)
    (houtside : ∀ up i outer, path = up ++ [i] → nested.at? up = some outer →
      outer.isTriple = false) : nested.reread.at? path = some found.reread := by
  induction path generalizing nested with
  | nil => rw [eq_of_at?_nil hat, at?_nil]
  | cons i path ih =>
      obtain ⟨children, child, rfl, hchild, hat⟩ := exists_of_at?_cons hat
      have htriple : (list children).isTriple = false := by
        by_contra h
        obtain ⟨value, rfl⟩ :=
          leaf_of_isTriple (Bool.eq_true_of_not_eq_false h) (List.mem_of_getElem? hchild)
        cases path with
        | nil => exact h (houtside [] i _ rfl (at?_nil _))
        | cons j path => cases hat
      have hinside : child.reread.at? path = some found.reread := by
        refine ih hat fun up j outer hpath hup => houtside (i :: up) j outer ?_ ?_
        · rw [hpath, List.cons_append]
        · rw [at?_list, hchild, Option.bind_some, hup]
      rw [reread_list htriple, at?_list, List.getElem?_map, hchild, Option.map_some,
        Option.bind_some, hinside]

theorem reread_beq_iff (hfinite : ∀ x ∈ nested.numbers, x.isFinite = true) :
    (nested.reread == nested) = true ↔ nested.tripleFree = true := by
  refine ⟨fun h => tripleFree_of_blank (blank_eq_of_beq h), fun h => ?_⟩
  rw [reread_eq_iff.mpr h]
  refine beq_self fun value hvalue => Value.beq_self fun x hx => hfinite x ?_
  exact List.mem_flatMap_of_mem hvalue hx

end Nested

namespace Tree

-- Exactly which values survive being written and read. Every value can be read back. It comes
-- back as it was, be that by its bits or by its numbers, just if no list anywhere in it consists
-- of exactly three numbers. What is not inside such a list keeps its place: leaves come back as
-- they were, whatever their kind, and other lists with as many children as they had.
theorem survives_iff_without_triples (nested : Nested Value)
    (hfinite : ∀ x ∈ nested.numbers, x.isFinite = true) :
    ∃ result, toNested? (ofNestedValue nested) = some result ∧
      (result = nested ↔
        ∀ path found, nested.at? path = some found → found.isTriple = false) ∧
      ((result == nested) = true ↔
        ∀ path found, nested.at? path = some found → found.isTriple = false) ∧
      ∀ path found, nested.at? path = some found →
        (∃ up i outer, path = up ++ [i] ∧ nested.at? up = some outer ∧ outer.isTriple = true) ∨
          ∃ kept, result.at? path = some kept ∧ found.ReadsAs kept := by
  rw [← Nested.tripleFree_iff]
  refine ⟨nested.reread, toNested?_ofNestedValue nested, Nested.reread_eq_iff,
    Nested.reread_beq_iff hfinite, fun path found hat => ?_⟩
  by_cases hinside : ∃ up i outer, path = up ++ [i] ∧ nested.at? up = some outer ∧
    outer.isTriple = true
  · exact .inl hinside
  · push Not at hinside
    refine .inr ⟨found.reread, Nested.at?_reread hat ?_, Nested.readsAs_reread found⟩
    exact fun up i outer hpath hup => Bool.eq_false_of_not_eq_true (hinside up i outer hpath hup)

-- Three numbers beside a list of three leaves that are not all numbers.
private def sketched : Nested Value :=
  .list [.list [.leaf (.int 1), .leaf (.number 0.5), .leaf (.int 3)],
    .list [.leaf .null, .leaf (.int 1), .leaf (.number 0.5)]]

theorem sketched_loses_triple :
    (∀ x ∈ sketched.numbers, x.isFinite = true) ∧
    ∃ result, toNested? (ofNestedValue sketched) = some result ∧ result ≠ sketched ∧
      ¬(result == sketched) = true ∧
      result.at? [1, 1] = some (.leaf (.int 1)) ∧
      ∃ point, result.at? [0] = some (.leaf (.point point)) := by
  have hfinite : ∀ x ∈ sketched.numbers, x.isFinite = true := by
    have hnumbers : sketched.numbers = [0.5, 0.5] := rfl
    rw [hnumbers]
    decide +kernel
  obtain ⟨result, hread, heq, hbeq, hkept⟩ := survives_iff_without_triples sketched hfinite
  have htriple : ¬∀ path found, sketched.at? path = some found → found.isTriple = false :=
    fun h => Bool.noConfusion (h [0] _ rfl)
  refine ⟨hfinite, result, hread, mt heq.mp htriple, mt hbeq.mp htriple, ?_, ?_⟩
  · rcases hkept [1, 1] _ rfl with ⟨up, i, outer, hpath, hup, houter⟩ | ⟨kept, hat, hreads⟩
    · obtain ⟨rfl, -⟩ := List.append_inj' (show [1] ++ [1] = up ++ [i] from hpath) rfl
      obtain rfl := Option.some.inj hup
      cases houter
    · cases hreads
      exact hat
  · rcases hkept [0] _ rfl with ⟨up, i, outer, hpath, hup, houter⟩ | ⟨kept, hat, hreads⟩
    · obtain ⟨rfl, -⟩ := List.append_inj' (show [] ++ [0] = up ++ [i] from hpath) rfl
      obtain rfl := Option.some.inj hup
      cases houter
    · cases hreads with
      | triple => exact ⟨_, hat⟩
      | list htriple => cases htriple

end Tree

end Dataflow
