import Dataflow.Arena
import Mathlib.Data.List.Nodup
import Mathlib.Data.List.Pairwise

namespace Dataflow.Arena

universe u

variable {kind : Kind} {α : Type u}

theorem ids_nodup (arena : Arena kind α) : arena.ids.Nodup := by
  have h := (List.pairwise_append.mp arena.ordered).1
  refine List.Pairwise.of_map (fun id : Id kind => id.number) (S := (· < ·)) ?_ ?_
  · intro a b hlt he
    exact absurd (congrArg Id.number he) (Nat.ne_of_lt hlt)
  · rw [ids, List.map_map]
    exact h

@[simp] theorem length_ids (arena : Arena kind α) : arena.ids.length = arena.size := by
  simp [ids, size]

-- Every identifier has one entry at most.
theorem entries_unique (arena : Arena kind α) {id : Id kind} {a b : α}
    (ha : (id, a) ∈ arena.entries) (hb : (id, b) ∈ arena.entries) : a = b := by
  have h := List.inj_on_of_nodup_map arena.ids_nodup ha hb rfl
  exact congrArg Prod.snd h

theorem mem_entries_iff (arena : Arena kind α) (id : Id kind) (value : α) :
    (id, value) ∈ arena.entries ↔ arena.find? id = some value := by
  constructor
  · intro h
    have hs : (arena.entries.find? fun entry => entry.1 = id).isSome :=
      List.find?_isSome.mpr ⟨(id, value), h, by simp⟩
    obtain ⟨⟨other, found⟩, hf⟩ := Option.isSome_iff_exists.mp hs
    have ho : other = id := by simpa using List.find?_some hf
    subst ho
    have he := arena.entries_unique h (List.mem_of_find?_eq_some hf)
    simp [find?, hf, he]
  · intro h
    obtain ⟨⟨other, found⟩, hf, he⟩ := Option.map_eq_some_iff.mp h
    have ho : other = id := by simpa using List.find?_some hf
    subst ho
    exact he ▸ List.mem_of_find?_eq_some hf

theorem mem_values_iff (arena : Arena kind α) (value : α) :
    value ∈ arena.values ↔ ∃ id, arena.find? id = some value := by
  simp [values, ← mem_entries_iff]

theorem mem_ids_iff (arena : Arena kind α) (id : Id kind) :
    id ∈ arena.ids ↔ ∃ value, arena.find? id = some value := by
  simp [ids, ← mem_entries_iff]

theorem contains_iff (arena : Arena kind α) (id : Id kind) :
    arena.contains id = true ↔ ∃ value, arena.find? id = some value := by
  simp [contains, ← mem_entries_iff]

theorem number_lt_of_find? (arena : Arena kind α) {id : Id kind} {value : α}
    (h : arena.find? id = some value) : id.number < arena.next :=
  arena.number_lt_next ((arena.mem_entries_iff id value).mpr h)

theorem ne_fresh_of_find? (arena : Arena kind α) {id : Id kind} {value : α}
    (h : arena.find? id = some value) : id ≠ arena.fresh := by
  rintro rfl
  exact absurd (arena.number_lt_of_find? h) (Nat.lt_irrefl _)

@[simp] theorem find?_fresh (arena : Arena kind α) : arena.find? arena.fresh = none := by
  cases h : arena.find? arena.fresh with
  | none => rfl
  | some value => exact absurd rfl (arena.ne_fresh_of_find? h)

theorem find?_insert (arena : Arena kind α) (value : α) (id : Id kind) :
    (arena.insert value).find? id = if id = arena.fresh then some value else arena.find? id := by
  apply Option.ext
  intro other
  rw [← mem_entries_iff]
  simp only [insert, List.mem_append, List.mem_singleton, Prod.mk.injEq, mem_entries_iff]
  split
  · next h => subst h; simp [eq_comm]
  · next h => simp [h]

theorem find?_update (arena : Arena kind α) (f : Id kind → α → α) (id : Id kind) :
    (arena.update f).find? id = (arena.find? id).map (f id) := by
  apply Option.ext
  intro other
  rw [← mem_entries_iff]
  simp only [update, List.mem_map, Prod.mk.injEq, Prod.exists, mem_entries_iff,
    Option.map_eq_some_iff]
  constructor
  · rintro ⟨a, b, hb, rfl, rfl⟩
    exact ⟨b, hb, rfl⟩
  · rintro ⟨b, hb, rfl⟩
    exact ⟨id, b, hb, rfl, rfl⟩

theorem find?_modify (arena : Arena kind α) (id : Id kind) (f : α → α) (other : Id kind) :
    (arena.modify id f).find? other =
      (arena.find? other).map fun value => if other = id then f value else value :=
  arena.find?_update _ other

theorem find?_keep (arena : Arena kind α) (test : Id kind → Bool) (id : Id kind) :
    (arena.keep test).find? id = if test id then arena.find? id else none := by
  apply Option.ext
  intro value
  rw [← mem_entries_iff]
  simp only [keep, List.mem_filter, mem_entries_iff]
  split <;> simp [*]

@[simp] theorem size_update (arena : Arena kind α) (f : Id kind → α → α) :
    (arena.update f).size = arena.size := by
  simp [size, update]

@[simp] theorem size_modify (arena : Arena kind α) (id : Id kind) (f : α → α) :
    (arena.modify id f).size = arena.size :=
  arena.size_update _

section Commute

-- The next number and the entries are all there is to an arena.
theorem eq_of_entries {arena other : Arena kind α} (hnext : arena.next = other.next)
    (hentries : arena.entries = other.entries) : arena = other := by
  cases arena
  cases other
  cases hnext
  cases hentries
  rfl

theorem update_update (arena : Arena kind α) (f g : Id kind → α → α) :
    (arena.update f).update g = arena.update fun id value => g id (f id value) :=
  eq_of_entries rfl (List.map_map ..)

theorem update_eq_self (arena : Arena kind α) {f : Id kind → α → α}
    (h : ∀ id value, arena.find? id = some value → f id value = value) : arena.update f = arena := by
  have hentries : (arena.entries.map fun entry => (entry.1, f entry.1 entry.2)) =
      arena.entries := by
    refine (List.map_congr_left fun entry hm => ?_).trans (List.map_id _)
    exact Prod.ext rfl (h _ _ ((arena.mem_entries_iff entry.1 entry.2).mp hm))
  exact eq_of_entries rfl hentries

theorem modify_comm {f g : α → α} (hfg : ∀ value, f (g value) = g (f value))
    (arena : Arena kind α) (id other : Id kind) :
    (arena.modify id f).modify other g = (arena.modify other g).modify id f := by
  rw [modify, modify, modify, modify, update_update, update_update]
  congr 1
  funext a value
  split_ifs <;> simp [hfg]

theorem keep_modify (arena : Arena kind α) (id : Id kind) (f : α → α) (test : Id kind → Bool) :
    (arena.keep test).modify id f = (arena.modify id f).keep test :=
  eq_of_entries rfl (by simp only [keep, modify, update, List.filter_map]; rfl)

theorem insert_modify (arena : Arena kind α) (id : Id kind) (f : α → α) (value : α) :
    (arena.insert value).modify id f =
      (arena.modify id f).insert (if arena.fresh = id then f value else value) :=
  eq_of_entries rfl (List.map_append ..)

end Commute

end Dataflow.Arena
