import Dataflow.Id

namespace Dataflow

universe u

-- Things of one kind by identifier. Numbers are handed out in order and never again,
-- so an identifier that outlives its thing names nothing; the entries stand in the
-- order in which they were made.
structure Arena (kind : Kind) (α : Type u) where
  next : Nat
  entries : List (Id kind × α)
  ordered : (entries.map (·.1.number) ++ [next]).Pairwise (· < ·)

namespace Arena

variable {kind : Kind} {α : Type u}

def empty : Arena kind α :=
  ⟨1, [], by simp⟩

instance : Inhabited (Arena kind α) := ⟨empty⟩

theorem number_lt_next (arena : Arena kind α) {id : Id kind} {value : α}
    (h : (id, value) ∈ arena.entries) : id.number < arena.next := by
  have hp := (List.pairwise_append.mp arena.ordered).2.2
  exact hp id.number (List.mem_map.mpr ⟨(id, value), h, rfl⟩) arena.next (by simp)

def size (arena : Arena kind α) : Nat :=
  arena.entries.length

def ids (arena : Arena kind α) : List (Id kind) :=
  arena.entries.map (·.1)

def values (arena : Arena kind α) : List α :=
  arena.entries.map (·.2)

def find? (arena : Arena kind α) (id : Id kind) : Option α :=
  (arena.entries.find? fun entry => entry.1 = id).map (·.2)

def contains (arena : Arena kind α) (id : Id kind) : Bool :=
  arena.entries.any fun entry => entry.1 = id

-- The identifier that the next insertion hands out.
def fresh (arena : Arena kind α) : Id kind :=
  ⟨arena.next⟩

def insert (arena : Arena kind α) (value : α) : Arena kind α where
  next := arena.next + 1
  entries := arena.entries ++ [(arena.fresh, value)]
  ordered := by
    have h := arena.ordered
    rw [List.pairwise_append] at h ⊢
    refine ⟨by simpa [fresh] using arena.ordered, by simp, ?_⟩
    intro a ha b hb
    simp only [List.map_append, List.map_cons, List.map_nil, List.mem_append,
      List.mem_singleton] at ha hb
    cases ha with
    | inl ha =>
      have := h.2.2 a ha arena.next (by simp)
      omega
    | inr ha =>
      simp only [fresh] at ha
      omega

-- Every value replaced by what the function makes of it and its identifier.
def update (arena : Arena kind α) (f : Id kind → α → α) : Arena kind α where
  next := arena.next
  entries := arena.entries.map fun entry => (entry.1, f entry.1 entry.2)
  ordered := by
    have h : (arena.entries.map fun entry => (entry.1, f entry.1 entry.2)).map (·.1.number)
        = arena.entries.map (·.1.number) := by
      rw [List.map_map]
      rfl
    rw [h]
    exact arena.ordered

-- The value under one identifier changed, if it is there.
def modify (arena : Arena kind α) (id : Id kind) (f : α → α) : Arena kind α :=
  arena.update fun other value => if other = id then f value else value

-- Only the entries whose identifier passes the test are kept.
def keep (arena : Arena kind α) (test : Id kind → Bool) : Arena kind α where
  next := arena.next
  entries := arena.entries.filter fun entry => test entry.1
  ordered := by
    refine List.Pairwise.sublist ?_ arena.ordered
    exact List.Sublist.append (List.Sublist.map _ List.filter_sublist) (List.Sublist.refl _)

end Arena

end Dataflow
