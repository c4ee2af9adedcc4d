import Incr.Data.KeyedList
import Mathlib

namespace Incr

open Incr.Data

/-! # The recompute heap

`recomputeHeap` files every node waiting to be recomputed in the bucket of its height.
A node is named by its `Identifier`; its height is read from the graph when the heap
files it, so every operation that reads heights takes the graph's current
`height : Identifier → Nat`, which callers may change arbitrarily between operations.

Go's slice indexing panics out of range and a method call on a nil `*list` panics;
both are the `Panic` results below, so a run that returns `.ok` made no such access.
-/

/-- Node identifiers; the heap only compares them. -/
abbrev Identifier := Nat

/-- `recomputeHeapItem[INode]`: the node and the height it was filed under. -/
structure RecomputeHeapItem where
  node : Identifier
  height : Nat
deriving DecidableEq, Repr

/-- `listItem[Identifier, recomputeHeapItem[INode]]`. -/
abbrev HeapItem := ListItem Identifier RecomputeHeapItem

/-- `list[Identifier, recomputeHeapItem[INode]]`, one height bucket. -/
abbrev HeightList := KeyedList Identifier RecomputeHeapItem

/-- The run-time panics an access of the heap can raise. -/
inductive Panic where
  | indexOutOfRange (index length : Nat)
  | nilList (index : Nat)
deriving DecidableEq, Repr

@[simp] theorem except_ok_bind {ε α β : Type} (value : α) (next : α → Except ε β) :
    (Except.ok value >>= next) = next value := rfl

@[simp] theorem except_error_bind {ε α β : Type} (error : ε) (next : α → Except ε β) :
    (Except.error error >>= next) = Except.error error := rfl

structure RecomputeHeap where
  minHeight : Nat
  maxHeight : Nat
  heights : List (Option HeightList)
  lookup : AList (fun _ : Identifier => HeapItem)

def newRecomputeHeap (initialHeights : Nat) : RecomputeHeap where
  minHeight := 0
  maxHeight := 0
  heights := List.replicate initialHeights none
  lookup := ∅

namespace RecomputeHeap

/-- `rh.heights[index]`. -/
def heightsAt (rh : RecomputeHeap) (index : Nat) : Except Panic (Option HeightList) :=
  match rh.heights[index]? with
  | some bucket => .ok bucket
  | none => .error (.indexOutOfRange index rh.heights.length)

/-- `rh.heights[index] != nil && rh.heights[index].head != nil`. -/
def hasNodes : Option HeightList → Bool
  | some list => !list.items.isEmpty
  | none => false

/-- `len(rh.lookup)`, which is `Len()`. -/
def len (rh : RecomputeHeap) : Nat :=
  rh.lookup.entries.length

def has (rh : RecomputeHeap) (s : Identifier) : Bool :=
  (rh.lookup.lookup s).isSome

/-- The loop of `nextMinHeightUnsafe` from `x`, with `remaining` passes left before
`x` exceeds `maxHeight`; it leaves `next` at `0` when no bucket has nodes. -/
def nextMinHeightFrom (rh : RecomputeHeap) : Nat → Nat → Except Panic Nat
  | _, 0 => .ok 0
  | x, remaining + 1 => do
      let bucket ← rh.heightsAt x
      if hasNodes bucket then .ok x else rh.nextMinHeightFrom (x + 1) remaining

def nextMinHeightUnsafe (rh : RecomputeHeap) : Except Panic Nat :=
  if rh.len = 0 then .ok 0
  else rh.nextMinHeightFrom rh.minHeight (rh.maxHeight + 1 - rh.minHeight)

def maybeUpdateMinMaxHeights (rh : RecomputeHeap) (newHeight : Nat) : RecomputeHeap :=
  if rh.len = 0 then { rh with minHeight := newHeight, maxHeight := newHeight }
  else { rh with minHeight := min rh.minHeight newHeight, maxHeight := max rh.maxHeight newHeight }

def maybeAddNewHeights (rh : RecomputeHeap) (newHeight : Nat) : RecomputeHeap :=
  if rh.heights.length ≤ newHeight then
    { rh with heights := rh.heights ++ List.replicate (newHeight - rh.heights.length + 1) none }
  else rh

/-- Files `s` at its current height, in a fresh bucket if there was none. -/
def addNodeUnsafe (rh : RecomputeHeap) (height : Identifier → Nat) (s : Identifier) :
    Except Panic RecomputeHeap := do
  let rh := (rh.maybeUpdateMinMaxHeights (height s)).maybeAddNewHeights (height s)
  let bucket ← rh.heightsAt (height s)
  let (item, bucket) := (bucket.getD ⟨[]⟩).pushUnsafe s { node := s, height := height s }
  .ok { rh with
    heights := rh.heights.set (height s) (some bucket)
    lookup := rh.lookup.insert s item }

def removeItemUnsafe (rh : RecomputeHeap) (item : HeapItem) : Except Panic RecomputeHeap := do
  let rh := { rh with lookup := rh.lookup.erase item.key }
  let bucket ← rh.heightsAt item.value.height
  let some bucket := bucket | .error (.nilList item.value.height)
  let bucket := (bucket.removeUnsafe item.key).2
  let rh := { rh with heights := rh.heights.set item.value.height (some bucket) }
  -- the last node at the minimum height moves the minimum up
  let isLastAtHeight := bucket.lenUnsafe = 0
  if item.value.height = rh.minHeight ∧ isLastAtHeight then
    let next ← rh.nextMinHeightUnsafe
    .ok { rh with minHeight := next }
  else .ok rh

/-- One pass of the loop in `addUnsafe`. -/
def addOneUnsafe (height : Identifier → Nat) (rh : RecomputeHeap) (s : Identifier) :
    Except Panic RecomputeHeap := do
  let rh ← match rh.lookup.lookup s with
    | some current => rh.removeItemUnsafe current
    | none => .ok rh
  rh.addNodeUnsafe height s

def addUnsafe (rh : RecomputeHeap) (height : Identifier → Nat) (nodes : List Identifier) :
    Except Panic RecomputeHeap :=
  nodes.foldlM (addOneUnsafe height) rh

/-- One pass of the loop in `fixUnsafe`: unlink the item from the bucket it was filed
in, leaving `lookup` alone, and file its node again. -/
def fixOneUnsafe (height : Identifier → Nat) (rh : RecomputeHeap) (id : Identifier) :
    Except Panic RecomputeHeap :=
  match rh.lookup.lookup id with
  | some item => do
      let bucket ← rh.heightsAt item.value.height
      let some bucket := bucket | .error (.nilList item.value.height)
      let rh := { rh with
        heights := rh.heights.set item.value.height (some (bucket.removeUnsafe item.key).2) }
      rh.addNodeUnsafe height item.value.node
  | none => .ok rh

def fixUnsafe (rh : RecomputeHeap) (height : Identifier → Nat) (ids : List Identifier) :
    Except Panic RecomputeHeap :=
  ids.foldlM (fixOneUnsafe height) rh

def add (rh : RecomputeHeap) (height : Identifier → Nat) (nodes : List Identifier) :
    Except Panic RecomputeHeap :=
  rh.addUnsafe height nodes

def fix (rh : RecomputeHeap) (height : Identifier → Nat) (ids : List Identifier) :
    Except Panic RecomputeHeap :=
  rh.fixUnsafe height ids

/-- `RemoveMin`: the head of the bucket at `minHeight`, or `nil` when that bucket is
nil or empty. -/
def removeMin (rh : RecomputeHeap) : Except Panic (Option Identifier × RecomputeHeap) := do
  let some bucket ← rh.heightsAt rh.minHeight | .ok (none, rh)
  if 0 < bucket.lenUnsafe then
    match bucket.popUnsafe with
    | (some (id, value), bucket) =>
        let rh := { rh with
          heights := rh.heights.set rh.minHeight (some bucket)
          lookup := rh.lookup.erase id }
        if bucket.lenUnsafe = 0 then
          let next ← rh.nextMinHeightUnsafe
          .ok (some value.node, { rh with minHeight := next })
        else .ok (some value.node, rh)
    | (none, _) => .ok (none, rh)
  else .ok (none, rh)

/-- `RemoveMinHeight`: the whole bucket at `minHeight`, in order. -/
def removeMinHeight (rh : RecomputeHeap) :
    Except Panic (List RecomputeHeapItem × RecomputeHeap) := do
  let some bucket ← rh.heightsAt rh.minHeight | .ok ([], rh)
  if 0 < bucket.items.length then
    let (nodes, bucket) := bucket.popAllUnsafe
    let rh := { rh with
      heights := rh.heights.set rh.minHeight (some bucket)
      lookup := nodes.foldl (fun lookup (n : RecomputeHeapItem) => lookup.erase n.node) rh.lookup }
    let next ← rh.nextMinHeightUnsafe
    .ok (nodes, { rh with minHeight := next })
  else .ok ([], rh)

def remove (rh : RecomputeHeap) (s : Identifier) : Except Panic (Bool × RecomputeHeap) :=
  match rh.lookup.lookup s with
  | some item => do
      let rh ← rh.removeItemUnsafe item
      .ok (true, rh)
  | none => .ok (false, rh)

end RecomputeHeap

end Incr
