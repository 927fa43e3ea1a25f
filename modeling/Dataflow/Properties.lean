import Dataflow.Value

namespace Dataflow

-- Named settings of a node, in the order of their keys.
structure Properties where
  entries : List (String × Nested Value)
  sorted : entries.Pairwise fun a b => a.1 < b.1

namespace Properties

instance : DecidableEq Properties := fun a b =>
  if h : a.entries = b.entries then
    isTrue (by cases a; cases b; simpa using h)
  else
    isFalse (by intro e; exact h (by rw [e]))

instance : BEq Properties := ⟨fun a b => a.entries == b.entries⟩

def empty : Properties :=
  ⟨[], .nil⟩

instance : Inhabited Properties := ⟨empty⟩

-- A key that is there gets the new value, any other goes to its place in the order.
def place (key : String) (value : Nested Value) :
    List (String × Nested Value) → List (String × Nested Value)
  | [] => [(key, value)]
  | (other, old) :: rest =>
      if key < other then (key, value) :: (other, old) :: rest
      else if other < key then (other, old) :: place key value rest
      else (key, value) :: rest

theorem lt_of_mem_place {key least : String} {value : Nested Value}
    {entries : List (String × Nested Value)} (hkey : least < key)
    (h : ∀ entry ∈ entries, least < entry.1) :
    ∀ entry ∈ place key value entries, least < entry.1 := by
  induction entries with
  | nil => simpa [place] using hkey
  | cons head rest ih =>
    intro entry hentry
    simp only [place] at hentry
    split at hentry
    · rcases List.mem_cons.mp hentry with rfl | hentry
      · exact hkey
      · exact h entry hentry
    · split at hentry
      · rcases List.mem_cons.mp hentry with rfl | hentry
        · exact h _ (by simp)
        · exact ih (fun e he => h e (by simp [he])) entry hentry
      · rcases List.mem_cons.mp hentry with rfl | hentry
        · exact hkey
        · exact h entry (by simp [hentry])

theorem sorted_place (key : String) (value : Nested Value)
    {entries : List (String × Nested Value)} (h : entries.Pairwise fun a b => a.1 < b.1) :
    (place key value entries).Pairwise fun a b => a.1 < b.1 := by
  induction entries with
  | nil => simp [place]
  | cons head rest ih =>
    have hrest := List.pairwise_cons.mp h
    simp only [place]
    split
    case isTrue hlt =>
      refine List.pairwise_cons.mpr ⟨?_, h⟩
      intro entry hentry
      rcases List.mem_cons.mp hentry with rfl | hentry
      · exact hlt
      · exact String.lt_trans hlt (hrest.1 entry hentry)
    case isFalse hnot =>
      split
      case isTrue hlt =>
        exact List.pairwise_cons.mpr ⟨lt_of_mem_place hlt hrest.1, ih hrest.2⟩
      case isFalse hnot' =>
        have heq : key = head.1 :=
          String.le_antisymm (String.not_lt.mp hnot') (String.not_lt.mp hnot)
        exact List.pairwise_cons.mpr ⟨by simpa [heq] using hrest.1, hrest.2⟩

def insert (properties : Properties) (key : String) (value : Nested Value) : Properties :=
  ⟨place key value properties.entries, sorted_place key value properties.sorted⟩

def find? (properties : Properties) (key : String) : Option (Nested Value) :=
  (properties.entries.find? fun entry => entry.1 = key).map (·.2)

-- Later entries win over earlier ones of the same key.
def insertAll (properties : Properties) (entries : List (String × Nested Value)) : Properties :=
  entries.foldl (fun sofar entry => sofar.insert entry.1 entry.2) properties

def ofList (entries : List (String × Nested Value)) : Properties :=
  empty.insertAll entries

end Properties

end Dataflow
