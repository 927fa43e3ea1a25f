import Mathlib.Data.List.Forall2

namespace Dataflow

variable {ε α β : Type}

theorem exists_of_map {a : Except ε α} {f : α → β} {b : β} (h : a.map f = .ok b) :
    ∃ x, a = .ok x ∧ f x = b := by
  cases a with
  | error e => cases h
  | ok x => exact ⟨x, rfl, Except.ok.inj h⟩

variable {f : α → Except ε β} {items : List α} {results : List β}

-- Where a function has a result for every item, these are the results one by one.
theorem forall₂_of_mapM (h : items.mapM f = .ok results) :
    List.Forall₂ (fun item result => f item = .ok result) items results := by
  induction items generalizing results with
  | nil =>
      rw [List.mapM_nil] at h
      obtain rfl := Except.ok.inj h
      exact .nil
  | cons item rest ih =>
      rw [List.mapM_cons] at h
      cases hitem : f item with
      | error e => simp [hitem, bind, Except.bind] at h
      | ok result =>
          cases hrest : rest.mapM f with
          | error e => simp [hitem, hrest, bind, Except.bind] at h
          | ok others =>
              simp only [hitem, hrest, bind, Except.bind] at h
              obtain rfl := Except.ok.inj h
              exact .cons hitem (ih hrest)

theorem mem_of_mapM (h : items.mapM f = .ok results) {result : β} (hr : result ∈ results) :
    ∃ item ∈ items, f item = .ok result := by
  obtain ⟨i, hi, rfl⟩ := List.getElem_of_mem hr
  have hall := forall₂_of_mapM h
  have hlt : i < items.length := hall.length_eq ▸ hi
  exact ⟨items[i], List.getElem_mem hlt, hall.get hlt hi⟩

theorem ok_of_mapM (h : items.mapM f = .ok results) {item : α} (hi : item ∈ items) :
    ∃ result, f item = .ok result := by
  obtain ⟨i, hlt, rfl⟩ := List.getElem_of_mem hi
  have hall := forall₂_of_mapM h
  exact ⟨_, hall.get hlt (hall.length_eq ▸ hlt)⟩

-- Where the items have no results, one of them failed in that way, and none before it.
theorem split_of_mapM_error {e : ε} (h : items.mapM f = .error e) :
    ∃ before item after, items = before ++ item :: after ∧
      (∀ earlier ∈ before, ∃ result, f earlier = .ok result) ∧ f item = .error e := by
  induction items with
  | nil =>
      rw [List.mapM_nil] at h
      cases h
  | cons item rest ih =>
      rw [List.mapM_cons] at h
      cases hitem : f item with
      | error e' =>
          simp only [hitem, bind, Except.bind] at h
          refine ⟨[], item, rest, rfl, nofun, hitem.trans (congrArg _ (Except.error.inj h))⟩
      | ok result =>
          cases hrest : rest.mapM f with
          | error e' =>
              simp only [hitem, hrest, bind, Except.bind] at h
              obtain ⟨before, found, after, rfl, hbefore, hf⟩ :=
                ih (hrest.trans (congrArg _ (Except.error.inj h)))
              refine ⟨item :: before, found, after, rfl, ?_, hf⟩
              exact List.forall_mem_cons.mpr ⟨⟨result, hitem⟩, hbefore⟩
          | ok others =>
              simp only [hitem, hrest, bind, Except.bind] at h
              cases h

theorem exists_of_mapM_error {e : ε} (h : items.mapM f = .error e) :
    ∃ item ∈ items, f item = .error e := by
  obtain ⟨before, item, after, rfl, -, hitem⟩ := split_of_mapM_error h
  exact ⟨item, List.mem_append_right _ List.mem_cons_self, hitem⟩

end Dataflow
