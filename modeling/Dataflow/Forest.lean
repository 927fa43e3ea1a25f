import Dataflow.Arena

namespace Dataflow

universe u

-- One thing in a forest, with the item above it and those below it in order.
structure Item (α : Type u) where
  data : α
  parent : Option ItemId
  children : List ItemId

-- Ordered trees. Items are made on their own and attached afterwards; an item taken off
-- its parent stays in the forest with everything below it.
structure Forest (α : Type u) where
  items : Arena .item (Item α)

namespace Forest

variable {α : Type u}

def empty : Forest α :=
  ⟨.empty⟩

instance : Inhabited (Forest α) := ⟨empty⟩

def size (forest : Forest α) : Nat :=
  forest.items.size

def contains (forest : Forest α) (id : ItemId) : Bool :=
  forest.items.contains id

def get? (forest : Forest α) (id : ItemId) : Option α :=
  (forest.items.find? id).map (·.data)

def set (forest : Forest α) (id : ItemId) (data : α) : Forest α :=
  ⟨forest.items.modify id fun item => { item with data := data }⟩

def parent? (forest : Forest α) (id : ItemId) : Option ItemId :=
  (forest.items.find? id).bind (·.parent)

def children (forest : Forest α) (id : ItemId) : List ItemId :=
  ((forest.items.find? id).map (·.children)).getD []

def child? (forest : Forest α) (parent : ItemId) (row : Nat) : Option ItemId :=
  (forest.children parent)[row]?

def childCount (forest : Forest α) (parent : ItemId) : Nat :=
  (forest.children parent).length

-- Where an item stands among its siblings.
def row? (forest : Forest α) (id : ItemId) : Option Nat :=
  (forest.parent? id).bind fun parent => (forest.children parent).findIdx? (· = id)

-- The items above one, nearest first, `fuel` of them at most.
def climb (forest : Forest α) : Nat → ItemId → List ItemId
  | 0, _ => []
  | fuel + 1, id =>
      match forest.parent? id with
      | some parent => parent :: climb forest fuel parent
      | none => []

-- No way up is longer than the forest is large.
def ancestors (forest : Forest α) (id : ItemId) : List ItemId :=
  forest.climb forest.size id

def isAncestor (forest : Forest α) (ancestor id : ItemId) : Bool :=
  (forest.ancestors id).contains ancestor

-- The items on a stack and everything below them, each before what is below it, `fuel`
-- of them at most.
def walk (forest : Forest α) : Nat → List ItemId → List ItemId
  | 0, _ => []
  | _ + 1, [] => []
  | fuel + 1, id :: stack => id :: walk forest fuel (forest.children id ++ stack)

def descendants (forest : Forest α) (id : ItemId) : List ItemId :=
  forest.walk forest.size (forest.children id)

-- A new item that is attached to nothing.
def insert (forest : Forest α) (data : α) : ItemId × Forest α :=
  (forest.items.fresh, ⟨forest.items.insert ⟨data, none, []⟩⟩)

-- A detached item put among the children of another, at the given row or at the end.
-- Refused for unknown items and where an item would come to stand under itself.
def insertChild? (forest : Forest α) (parent : ItemId) (row : Nat) (child : ItemId) :
    Option (Forest α) :=
  if parent = child || !forest.contains parent || !forest.contains child ||
      forest.isAncestor child parent then
    none
  else
    let place := fun children : List ItemId => children.insertIdx (min row children.length) child
    some ⟨(forest.items.modify parent fun item => { item with children := place item.children })
      |>.modify child fun item => { item with parent := some parent }⟩

def appendChild? (forest : Forest α) (parent child : ItemId) : Option (Forest α) :=
  forest.insertChild? parent (forest.childCount parent) child

-- The child at a row is detached.
def removeChild? (forest : Forest α) (parent : ItemId) (row : Nat) : Option (Forest α) :=
  (forest.child? parent row).map fun child =>
    ⟨(forest.items.modify parent fun item => { item with children := item.children.eraseIdx row })
      |>.modify child fun item => { item with parent := none }⟩

def detach? (forest : Forest α) (id : ItemId) : Option (Forest α) :=
  match forest.parent? id, forest.row? id with
  | some parent, some row => forest.removeChild? parent row
  | _, _ => none

-- An item and everything below it leave the forest; their data in order.
def take (forest : Forest α) (id : ItemId) : List α × Forest α :=
  if forest.contains id then
    let forest := (forest.detach? id).getD forest
    let taken := id :: forest.descendants id
    (taken.filterMap forest.get?, ⟨forest.items.keep fun other => !taken.contains other⟩)
  else
    ([], forest)

end Forest

end Dataflow
