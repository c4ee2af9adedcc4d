import Mathlib.Data.List.Basic

namespace Incr.Data

/-! # Keyed lists

Each height bucket of the recompute heap is a `list[K, V]`: a doubly linked list of
items that also indexes them by key.  The model is the chain from `head` to `tail`,
so `pushUnsafe` appends, `popUnsafe` and `popAllUnsafe` take from the head, and
`removeUnsafe` unlinks by key.
-/

/-- Modelled from the spec: `listItem[K, V]`, whose declaration is not among the
sources; an item is a key and the value filed under it. -/
structure ListItem (K V : Type) where
  key : K
  value : V
deriving DecidableEq, Repr

/-- Modelled from the spec: `list[K, V]` is not among the sources.  The spec keeps
each bucket "in insertion order" with removal by key, which is this chain of items
from `head` to `tail`. -/
structure KeyedList (K V : Type) where
  items : List (ListItem K V)
deriving DecidableEq, Repr

namespace KeyedList

variable {K V : Type}

/-- Modelled from the spec: `pushUnsafe` links a new item at the tail and returns it. -/
def pushUnsafe (list : KeyedList K V) (key : K) (value : V) : ListItem K V × KeyedList K V :=
  (⟨key, value⟩, ⟨list.items ++ [⟨key, value⟩]⟩)

/-- Modelled from the spec: `popUnsafe` unlinks the head, giving its key and value
(`ok` is `false` on an empty list). -/
def popUnsafe (list : KeyedList K V) : Option (K × V) × KeyedList K V :=
  match list.items with
  | [] => (none, list)
  | item :: rest => (some (item.key, item.value), ⟨rest⟩)

/-- Modelled from the spec: `popAllUnsafe` empties the list and returns its values in
order from the head. -/
def popAllUnsafe (list : KeyedList K V) : List V × KeyedList K V :=
  (list.items.map ListItem.value, ⟨[]⟩)

/-- Modelled from the spec: `removeUnsafe` unlinks the item filed under `key` and
reports whether there was one. -/
def removeUnsafe [DecidableEq K] (list : KeyedList K V) (key : K) : Bool × KeyedList K V :=
  (list.items.any (·.key = key), ⟨list.items.filter (·.key ≠ key)⟩)

/-- Modelled from the spec: `lenUnsafe` (and `Len`) count the items. -/
def lenUnsafe (list : KeyedList K V) : Nat :=
  list.items.length

@[simp] theorem pushUnsafe_items (list : KeyedList K V) (key : K) (value : V) :
    (list.pushUnsafe key value).2.items = list.items ++ [⟨key, value⟩] := rfl

@[simp] theorem pushUnsafe_item (list : KeyedList K V) (key : K) (value : V) :
    (list.pushUnsafe key value).1 = ⟨key, value⟩ := rfl

@[simp] theorem popAllUnsafe_items (list : KeyedList K V) :
    list.popAllUnsafe.2.items = [] := rfl

@[simp] theorem popAllUnsafe_values (list : KeyedList K V) :
    list.popAllUnsafe.1 = list.items.map ListItem.value := rfl

@[simp] theorem removeUnsafe_items [DecidableEq K] (list : KeyedList K V) (key : K) :
    (list.removeUnsafe key).2.items = list.items.filter (·.key ≠ key) := rfl

@[simp] theorem lenUnsafe_eq (list : KeyedList K V) : list.lenUnsafe = list.items.length := rfl

theorem popUnsafe_cons {list : KeyedList K V} {item : ListItem K V} {rest : List (ListItem K V)}
    (head : list.items = item :: rest) :
    list.popUnsafe = (some (item.key, item.value), ⟨rest⟩) := by
  simp [popUnsafe, head]

end KeyedList

end Incr.Data
