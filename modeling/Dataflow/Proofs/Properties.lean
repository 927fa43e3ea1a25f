import Dataflow.Properties
import Mathlib.Data.List.Nodup
import Mathlib.Data.List.Perm.Basic

namespace Dataflow.Properties

theorem find?_place (key other : String) (value : Nested Value)
    (entries : List (String × Nested Value)) :
    (place key value entries).find? (fun entry => entry.1 = other) =
      if other = key then some (key, value) else entries.find? fun entry => entry.1 = other := by
  induction entries with
  | nil =>
      simp only [place, List.find?_cons, List.find?_nil]
      split_ifs with h <;> simp_all [eq_comm]
  | cons entry rest ih =>
      simp only [place]
      split
      · simp only [List.find?_cons, eq_comm]
        split_ifs with h <;> simp [h]
      · next hlt =>
        split
        · next hgt =>
          have hne : entry.1 ≠ key := fun heq => String.lt_irrefl _ (heq ▸ hgt)
          simp only [List.find?_cons, ih]
          split_ifs with h
          · subst h
            simp [hne]
          · rfl
        · next hngt =>
          have heq : key = entry.1 :=
            String.le_antisymm (String.not_lt.mp hngt) (String.not_lt.mp hlt)
          subst heq
          simp only [List.find?_cons, eq_comm]
          split_ifs with h <;> simp [h]

theorem find?_insert (properties : Properties) (key other : String) (value : Nested Value) :
    (properties.insert key value).find? other =
      if other = key then some value else properties.find? other := by
  simp only [insert, find?, find?_place]
  split_ifs <;> rfl

theorem keys_nodup (properties : Properties) : (properties.entries.map (·.1)).Nodup :=
  List.Pairwise.map _ (fun _ _ hlt heq => String.lt_irrefl _ (heq ▸ hlt)) properties.sorted

theorem mem_entries_iff (properties : Properties) (key : String) (value : Nested Value) :
    (key, value) ∈ properties.entries ↔ properties.find? key = some value := by
  constructor
  · intro h
    cases hf : properties.entries.find? fun entry => entry.1 = key with
    | none => simpa using List.find?_eq_none.mp hf _ h
    | some entry =>
        have hkey : entry.1 = key := by simpa using List.find?_some hf
        have heq := List.inj_on_of_nodup_map properties.keys_nodup
          (List.mem_of_find?_eq_some hf) h hkey
        rw [find?, hf, heq]
        rfl
  · intro h
    obtain ⟨entry, hf, rfl⟩ := Option.map_eq_some_iff.mp h
    have hkey : entry.1 = key := by simpa using List.find?_some hf
    rw [← hkey]
    exact List.mem_of_find?_eq_some hf

-- Properties are what is found under each key.
theorem ext_find? {a b : Properties} (h : ∀ key, a.find? key = b.find? key) : a = b := by
  have hnodup : ∀ p : Properties, p.entries.Nodup := fun p => .of_map _ p.keys_nodup
  have hperm : a.entries.Perm b.entries :=
    (List.perm_ext_iff_of_nodup (hnodup a) (hnodup b)).mpr fun (key, value) => by
      rw [mem_entries_iff, mem_entries_iff, h]
  have heq : a.entries = b.entries :=
    hperm.eq_of_pairwise (fun x y _ _ hxy hyx => absurd hyx (String.lt_asymm hxy)) a.sorted b.sorted
  cases a
  cases b
  congr

theorem find?_insertAll (properties : Properties) {entries : List (String × Nested Value)}
    (hn : (entries.map (·.1)).Nodup) (key : String) :
    (properties.insertAll entries).find? key =
      ((entries.find? fun entry => entry.1 = key).map (·.2)).or (properties.find? key) := by
  induction entries generalizing properties with
  | nil => rfl
  | cons entry rest ih =>
      obtain ⟨hfirst, hrest⟩ := List.nodup_cons.mp hn
      have hinsert : properties.insertAll (entry :: rest) =
        (properties.insert entry.1 entry.2).insertAll rest := rfl
      rw [hinsert, ih _ hrest, find?_insert, List.find?_cons]
      by_cases hkey : key = entry.1
      · subst hkey
        have hnone : (rest.find? fun other => other.1 = entry.1) = none := by
          rw [List.find?_eq_none]
          intro other hother heq
          exact hfirst (List.mem_map.mpr ⟨other, hother, by simpa using heq⟩)
        simp [hnone]
      · simp [hkey, Ne.symm hkey]

theorem find?_insertAll_entries (properties given : Properties) (key : String) :
    (properties.insertAll given.entries).find? key =
      (given.find? key).or (properties.find? key) :=
  find?_insertAll _ given.keys_nodup key

-- Whatever was there under the keys of what is given is given up.
theorem insertAll_eq (properties given : Properties)
    (h : ∀ key, (properties.find? key).isSome → (given.find? key).isSome) :
    properties.insertAll given.entries = given := by
  refine ext_find? fun key => ?_
  rw [find?_insertAll_entries]
  cases hfound : given.find? key with
  | some value => rfl
  | none =>
      cases hold : properties.find? key with
      | none => rfl
      | some value =>
          have := h key (by rw [hold]; rfl)
          rw [hfound] at this
          cases this

theorem ofList_entries (properties : Properties) : ofList properties.entries = properties := by
  refine insertAll_eq empty properties fun key h => ?_
  cases h

end Dataflow.Properties
