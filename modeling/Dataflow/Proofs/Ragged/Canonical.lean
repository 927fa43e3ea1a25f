import Dataflow.Flags
import Dataflow.Proofs.Nested
import Dataflow.Proofs.Results
import Dataflow.Ragged.Broadcast

namespace Dataflow

namespace Ragged

-- The leaves of the nesting are the positions of the row in order.
def Canonical (ragged : Ragged) : Prop :=
  ragged.shape.leaves = List.range ragged.flat.length

instance (ragged : Ragged) : Decidable ragged.Canonical :=
  inferInstanceAs (Decidable (_ = _))

-- The same row under a nesting with the same leaves in the same order.
structure Renested (ragged other : Ragged) : Prop where
  flat : other.flat = ragged.flat
  leaves : other.shape.leaves = ragged.shape.leaves

variable {ragged other : Ragged}

theorem Renested.refl (ragged : Ragged) : Renested ragged ragged :=
  ⟨rfl, rfl⟩

theorem Renested.trans {third : Ragged} (h : Renested ragged other)
    (h' : Renested other third) : Renested ragged third :=
  ⟨h'.flat.trans h.flat, h'.leaves.trans h.leaves⟩

theorem Canonical.renested (hc : ragged.Canonical) (h : Renested ragged other) :
    other.Canonical := by
  rw [Canonical, h.leaves, h.flat]
  exact hc

section Make

theorem canonical_scalar (value : Value) : (scalar value).Canonical := rfl

theorem canonical_empty : empty.Canonical := rfl

theorem canonical_ofList (values : List Value) : (ofList values).Canonical :=
  Nested.leaves_ofList _

theorem canonical_ofNested (nested : Nested Value) : (ofNested nested).Canonical :=
  Nested.leaves_numbered nested

-- To mark a leaf makes no difference to the others.
theorem getElem?_mark (seen : Array Bool) (leaf other : Nat) :
    (seen.setIfInBounds leaf true)[other]? = some false ↔
      other ≠ leaf ∧ seen[other]? = some false := by
  rw [Array.getElem?_setIfInBounds]
  by_cases h : leaf = other
  · subst h
    by_cases hlt : leaf < seen.size <;> simp [hlt]
  · simp [h, Ne.symm h]

-- No leaf is bad just if each is among those that have not been seen and none comes twice.
theorem firstBadLeaf_eq_none_iff {seen : Array Bool} {leaves : List Nat} :
    firstBadLeaf seen leaves = none ↔
      leaves.Nodup ∧ ∀ leaf ∈ leaves, seen[leaf]? = some false := by
  induction leaves generalizing seen with
  | nil => simp [firstBadLeaf]
  | cons leaf rest ih =>
      by_cases hleaf : seen[leaf]? = some false
      · simp only [firstBadLeaf, hleaf, if_true, ih, getElem?_mark, List.nodup_cons,
          List.forall_mem_cons, true_and]
        constructor
        · rintro ⟨hnodup, hrest⟩
          exact ⟨⟨fun hmem => (hrest leaf hmem).1 rfl, hnodup⟩, fun other h => (hrest other h).2⟩
        · rintro ⟨⟨hfresh, hnodup⟩, hrest⟩
          exact ⟨hnodup, fun other h => ⟨fun heq => hfresh (heq ▸ h), hrest other h⟩⟩
      · simp [firstBadLeaf, hleaf]

theorem getElem?_replicate_false (size leaf : Nat) :
    (Array.replicate size false)[leaf]? = some false ↔ leaf < size := by
  rw [Array.getElem?_replicate]
  split <;> simp_all

-- A row and a nesting fit together where the leaves are the positions of the row, each
-- once, in whatever order.
theorem ofParts_eq_ok_iff {flat : List Value} {shape : Shape} :
    ofParts flat shape = .ok ragged ↔ shape.leaves.length = flat.length ∧ shape.leaves.Nodup ∧
      (∀ leaf ∈ shape.leaves, leaf < flat.length) ∧
      ragged = ⟨shape.leaves.filterMap fun leaf => flat[leaf]?, shape.numbered⟩ := by
  simp only [ofParts]
  split
  · next hlength =>
    cases hbad : firstBadLeaf (Array.replicate flat.length false) shape.leaves with
    | none =>
        obtain ⟨hnodup, hrange⟩ := firstBadLeaf_eq_none_iff.mp hbad
        simp only [getElem?_replicate_false] at hrange
        simp only [List.getElem?_toArray, hlength, hnodup, true_and, Except.ok.injEq]
        exact ⟨fun h => ⟨hrange, h.symm⟩, fun h => h.2.symm⟩
    | some leaf =>
        simp only [reduceCtorEq, false_iff]
        rintro ⟨-, hnodup, hrange, -⟩
        have hgood : firstBadLeaf (Array.replicate flat.length false) shape.leaves = none := by
          refine firstBadLeaf_eq_none_iff.mpr ⟨hnodup, fun leaf hleaf => ?_⟩
          exact (getElem?_replicate_false _ _).mpr (hrange leaf hleaf)
        cases hbad.symm.trans hgood
  · next hlength => simp [hlength]

theorem length_filterMap_getElem? {α : Type} {row : List α} {positions : List Nat}
    (h : ∀ i ∈ positions, i < row.length) :
    (positions.filterMap fun i => row[i]?).length = positions.length := by
  induction positions with
  | nil => rfl
  | cons i rest ih =>
      obtain ⟨hi, hrest⟩ := List.forall_mem_cons.mp h
      simp [hi, ih hrest]

theorem canonical_of_ofParts {flat : List Value} {shape : Shape}
    (h : ofParts flat shape = .ok ragged) : ragged.Canonical := by
  obtain ⟨-, -, hrange, rfl⟩ := ofParts_eq_ok_iff.mp h
  rw [Canonical, Nested.leaves_numbered, length_filterMap_getElem? hrange]

-- The groups number their members one after the other.
theorem leaves_blocksFrom (start : Nat) (groups : List (List Value)) :
    (blocksFrom start groups).flatMap Nested.leaves = List.range' start groups.flatten.length := by
  induction groups generalizing start with
  | nil => rfl
  | cons group rest ih =>
      rw [blocksFrom, List.flatMap_cons, Nested.leaves_ofList, ih, List.range'_append_1,
        List.flatten_cons, List.length_append]

theorem length_blocksFrom (start : Nat) (groups : List (List Value)) :
    (blocksFrom start groups).length = groups.length := by
  induction groups generalizing start with
  | nil => rfl
  | cons group rest ih => rw [blocksFrom, List.length_cons, List.length_cons, ih]

theorem map_range_getD {α : Type} (items : List α) (default : α) :
    ((List.range items.length).map fun i => items[i]?.getD default) = items := by
  refine List.ext_getElem (by simp) fun i h _ => ?_
  have hi : i < items.length := by simpa using h
  simp [hi]

theorem flatMap_range_getD {α β : Type} (items : List α) (default : α) (f : α → List β) :
    ((List.range items.length).flatMap fun i => f (items[i]?.getD default)) =
      items.flatMap f := by
  calc ((List.range items.length).flatMap fun i => f (items[i]?.getD default))
      = ((List.range items.length).map fun i => items[i]?.getD default).flatMap f := by
        rw [List.flatMap_map]
    _ = items.flatMap f := by rw [map_range_getD]

theorem filterMap_range_getElem? {α : Type} (items : List α) :
    ((List.range items.length).filterMap fun i => items[i]?) = items := by
  cases items with
  | nil => rfl
  | cons first rest =>
      calc ((List.range (first :: rest).length).filterMap fun i => (first :: rest)[i]?)
          = (List.range (first :: rest).length).map fun i => (first :: rest)[i]?.getD first := by
            refine List.filterMap_eq_map_iff_forall_eq_some.mpr fun i hi => ?_
            rw [List.getElem?_eq_getElem (List.mem_range.mp hi)]
            rfl
        _ = first :: rest := map_range_getD _ _

-- Where the leaves are the positions in order already, a row is taken as it stands.
theorem ofParts_of_leaves {flat : List Value} {shape : Shape}
    (h : shape.leaves = List.range flat.length) : ofParts flat shape = .ok ⟨flat, shape⟩ := by
  refine ofParts_eq_ok_iff.mpr ⟨?_, ?_, fun leaf hleaf => ?_, ?_⟩
  · rw [h, List.length_range]
  · rw [h]
    exact List.nodup_range
  · rwa [h, List.mem_range] at hleaf
  · rw [Nested.numbered_eq rfl h, h, filterMap_range_getElem?]

-- A nesting is expanded where there is a group for each leaf.
theorem expand_eq_ok_iff {shape : Shape} {groups : List (List Value)} :
    expand shape groups = .ok ragged ↔ shape.leaves.length = groups.length ∧
      ragged = ⟨groups.flatten,
        shape.numbered.bind fun leaf => (blocksFrom 0 groups)[leaf]?.getD (.list [])⟩ := by
  simp only [expand, Nested.leafCount_eq, List.getElem?_toArray]
  split
  · next hlength => simp [hlength, eq_comm]
  · next hlength => simp [hlength]

theorem exists_expand {shape : Shape} {groups : List (List Value)}
    (h : shape.leaves.length = groups.length) : ∃ ragged, expand shape groups = .ok ragged :=
  ⟨_, expand_eq_ok_iff.mpr ⟨h, rfl⟩⟩

theorem canonical_of_expand {shape : Shape} {groups : List (List Value)}
    (h : expand shape groups = .ok ragged) : ragged.Canonical := by
  obtain ⟨hlength, rfl⟩ := expand_eq_ok_iff.mp h
  have hleaves : shape.leaves.length = (blocksFrom 0 groups).length := by
    rw [length_blocksFrom, hlength]
  simp only [Canonical, Nested.leaves_bind, Nested.leaves_numbered, hleaves, flatMap_range_getD,
    leaves_blocksFrom]
  exact List.range_eq_range'.symm

end Make

section Renest

theorem renested_flatten (ragged : Ragged) : Renested ragged ragged.flatten :=
  ⟨rfl, Nested.leaves_flatten _⟩

theorem renested_simplify (ragged : Ragged) : Renested ragged ragged.simplify :=
  ⟨rfl, Nested.leaves_simplify _⟩

theorem renested_graft (ragged : Ragged) : Renested ragged ragged.graft :=
  ⟨rfl, Nested.leaves_graft _⟩

theorem renested_apply (flags : Flags) (ragged : Ragged) :
    Renested ragged (flags.apply ragged) := by
  have hif : ∀ (flag : Bool) (f : Ragged → Ragged), (∀ r, Renested r (f r)) →
      ∀ r, Renested r (if flag then f r else r) := by
    intro flag f hf r
    split
    · exact hf r
    · exact .refl r
  exact ((hif _ _ renested_flatten _).trans (hif _ _ renested_simplify _)).trans
    (hif _ _ renested_graft _)

end Renest

end Ragged

namespace Broadcast

theorem foldl_size_attained (operands : List Ragged) (most : Nat) :
    operands.foldl (fun most operand => max most operand.size) most = most ∨
      ∃ operand ∈ operands,
        operand.size = operands.foldl (fun most operand => max most operand.size) most := by
  induction operands generalizing most with
  | nil => exact .inl rfl
  | cons operand rest ih =>
      rw [List.foldl_cons]
      rcases ih (max most operand.size) with heq | ⟨longer, hmem, hsize⟩
      · rcases Nat.le_total operand.size most with hle | hle
        · exact .inl (heq.trans (Nat.max_eq_left hle))
        · exact .inr ⟨operand, by simp, by rw [heq, Nat.max_eq_right hle]⟩
      · exact .inr ⟨longer, List.mem_cons_of_mem _ hmem, hsize⟩

-- Some operand has the common length.
theorem exists_size_eq_longest {operands : List Ragged} (hne : operands ≠ []) :
    ∃ operand ∈ operands, operand.size = longest operands := by
  obtain ⟨operand, rest, rfl⟩ := List.exists_cons_of_ne_nil hne
  rw [longest, List.foldl_cons, Nat.zero_max]
  rcases foldl_size_attained rest operand.size with heq | ⟨longer, hmem, hsize⟩
  · exact ⟨operand, by simp, heq.symm⟩
  · exact ⟨longer, List.mem_cons_of_mem _ hmem, hsize⟩

theorem mem_of_foldl_deeper {operands : List Ragged} {chosen : Option Ragged} {best : Ragged}
    (h : operands.foldl deeper chosen = some best) : best ∈ operands ∨ chosen = some best := by
  induction operands generalizing chosen with
  | nil => exact .inr h
  | cons operand rest ih =>
      rcases ih h with hmem | heq
      · exact .inl (List.mem_cons_of_mem _ hmem)
      · cases chosen with
        | none => exact .inl (by simp_all [deeper])
        | some other =>
            simp only [deeper] at heq
            split at heq
            · exact .inl (by simp_all)
            · exact .inr heq

theorem isSome_foldl_deeper {operands : List Ragged} {chosen : Option Ragged}
    (h : chosen.isSome ∨ operands ≠ []) : (operands.foldl deeper chosen).isSome := by
  induction operands generalizing chosen with
  | nil => exact h.resolve_right (by simp)
  | cons operand rest ih =>
      refine ih (.inl ?_)
      cases chosen with
      | none => rfl
      | some other =>
          rw [deeper]
          split <;> rfl

-- The results take the nesting of an operand of the common length.
theorem exists_leading {operands : List Ragged} {broadcast : Broadcast}
    (h : ofOperands operands = .ok broadcast) : ∃ operand ∈ operands,
      operand.size = broadcast.length ∧ operand.shape = broadcast.shape := by
  simp only [ofOperands] at h
  split at h
  · cases h
  next hne =>
  split at h
  · cases h
  split at h
  · cases h
  obtain rfl := Except.ok.inj h
  have hne : operands ≠ [] := by simpa using hne
  obtain ⟨long, hlong, hsize⟩ := exists_size_eq_longest hne
  have hfull : long ∈ operands.filter fun operand => operand.size = longest operands := by
    simp [hlong, hsize]
  obtain ⟨best, hbest⟩ := Option.isSome_iff_exists.mp
    (@isSome_foldl_deeper _ none (.inr (List.ne_nil_of_mem hfull)))
  have hmem := (mem_of_foldl_deeper hbest).resolve_right (by simp)
  obtain ⟨hmem, hlength⟩ := List.mem_filter.mp hmem
  refine ⟨best, hmem, by simpa using hlength, ?_⟩
  rw [leading, hbest]
  rfl

theorem length_of_eachRow {α : Type} {broadcast : Broadcast}
    {f : Nat → List Value → Except EvalError α} {results : List α}
    (h : broadcast.eachRow f = .ok results) : results.length = broadcast.length := by
  rw [← (forall₂_of_mapM h).length_eq, List.length_zipIdx, rows, List.length_map, List.length_range]

-- Either a row fails, or the results are put together.
theorem canonical_of_fits {α : Type} {rows : Except EvalError (List α)}
    {fit : List α → Except EvalError Ragged}
    (h : ∀ results, rows = .ok results → ∃ value, fit results = .ok value ∧ value.Canonical) :
    (∃ e, rows = .error e ∧ rows >>= fit = .error e) ∨
      ∃ value, rows >>= fit = .ok value ∧ value.Canonical := by
  cases rows with
  | error e => exact .inl ⟨e, rfl, rfl⟩
  | ok results => exact .inr (h results rfl)

section Canonical

variable {operands : List Ragged} {broadcast : Broadcast}
  (hc : ∀ operand ∈ operands, operand.Canonical) (h : ofOperands operands = .ok broadcast)

include hc h

theorem leaves_shape : broadcast.shape.leaves = List.range broadcast.length := by
  obtain ⟨operand, hmem, hsize, hshape⟩ := exists_leading h
  rw [← hshape, ← hsize]
  exact hc operand hmem

-- Where every row has a result, the results fit the chosen nesting.
theorem map_canonical (f : Nat → List Value → Except EvalError Value) :
    (∃ e, broadcast.eachRow f = .error e ∧ broadcast.map f = .error e) ∨
      ∃ value, broadcast.map f = .ok value ∧ value.Canonical := by
  refine canonical_of_fits fun results hrows => ?_
  have hleaves : broadcast.shape.leaves = List.range results.length := by
    rw [leaves_shape hc h, length_of_eachRow hrows]
  have hvalue := Ragged.ofParts_of_leaves hleaves
  exact ⟨_, hvalue, Ragged.canonical_of_ofParts hvalue⟩

theorem expand_canonical (f : Nat → List Value → Except EvalError (List Value)) :
    (∃ e, broadcast.eachRow f = .error e ∧ broadcast.expand f = .error e) ∨
      ∃ value, broadcast.expand f = .ok value ∧ value.Canonical := by
  refine canonical_of_fits fun groups hrows => ?_
  have hlength : broadcast.shape.leaves.length = groups.length := by
    rw [leaves_shape hc h, List.length_range, length_of_eachRow hrows]
  obtain ⟨value, hvalue⟩ := Ragged.exists_expand hlength
  exact ⟨value, hvalue, Ragged.canonical_of_expand hvalue⟩

end Canonical

end Broadcast

end Dataflow
