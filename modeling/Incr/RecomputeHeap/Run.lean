import Incr.RecomputeHeap.Operations

namespace Incr

open Incr.Data

/-! # Runs of the recompute heap

A run is any sequence of the heap's mutating calls from `newRecomputeHeap`, with the
graph's node heights free to change before every call.  Every such run returns without
a panic, and every state it passes through keeps `lookup` and the buckets consistent.
-/

/-- A call on the heap that can change it (`Has`, `Len`, `MinHeight` and `MaxHeight`
only read).  `height` is the graph's node heights when the call is made. -/
inductive HeapCall where
  | add (height : Identifier → Nat) (nodes : List Identifier)
  | fix (height : Identifier → Nat) (ids : List Identifier)
  | remove (node : Identifier)
  | removeMin
  | removeMinHeight

/-- What a call returns to its caller. -/
inductive Reply where
  | done
  | removed (found : Bool)
  | node (node : Option Identifier)
  | nodes (nodes : List RecomputeHeapItem)
deriving DecidableEq, Repr

namespace RecomputeHeap

def call (rh : RecomputeHeap) : HeapCall → Except Panic (Reply × RecomputeHeap)
  | .add height nodes => do let rh ← rh.add height nodes; .ok (.done, rh)
  | .fix height ids => do let rh ← rh.fix height ids; .ok (.done, rh)
  | .remove node => do let (found, rh) ← rh.remove node; .ok (.removed found, rh)
  | .removeMin => do let (node, rh) ← rh.removeMin; .ok (.node node, rh)
  | .removeMinHeight => do let (nodes, rh) ← rh.removeMinHeight; .ok (.nodes nodes, rh)

/-- The replies of a sequence of calls, and the heap they leave. -/
def run (rh : RecomputeHeap) : List HeapCall → Except Panic (List Reply × RecomputeHeap)
  | [] => .ok ([], rh)
  | first :: rest => do
      let (reply, rh) ← rh.call first
      let (replies, rh) ← rh.run rest
      .ok (reply :: replies, rh)

variable {rh : RecomputeHeap}

namespace WellFormed

theorem addUnsafe_spec (wf : rh.WellFormed) (height : Identifier → Nat) (nodes : List Identifier) :
    ∃ rh', rh.addUnsafe height nodes = .ok rh' ∧ rh'.WellFormed ∧
      (∀ id, rh'.lookup.lookup id =
        if id ∈ nodes then some ⟨id, ⟨id, height id⟩⟩ else rh.lookup.lookup id) ∧
      (rh.MinTight → rh'.MinTight) := by
  induction nodes generalizing rh with
  | nil => exact ⟨rh, rfl, wf, by simp, id⟩
  | cons s rest ih =>
      obtain ⟨added, addedOk, addedWf, addedLookup, -, addedTight⟩ := wf.addOneUnsafe_spec height s
      obtain ⟨rh', restOk, restWf, restLookup, restTight⟩ := ih addedWf
      refine ⟨rh', ?_, restWf, fun id => ?_, fun tight => restTight (addedTight tight)⟩
      · simpa only [addUnsafe, List.foldlM_cons, addedOk, except_ok_bind] using restOk
      · rw [restLookup, addedLookup]
        by_cases later : id ∈ rest <;> by_cases same : id = s <;> simp_all

theorem fixUnsafe_spec (wf : rh.WellFormed) (height : Identifier → Nat) (ids : List Identifier) :
    ∃ rh', rh.fixUnsafe height ids = .ok rh' ∧ rh'.WellFormed ∧
      (∀ id, rh'.lookup.lookup id =
        if id ∈ ids ∧ id ∈ rh.lookup then some ⟨id, ⟨id, height id⟩⟩ else rh.lookup.lookup id) := by
  induction ids generalizing rh with
  | nil => exact ⟨rh, rfl, wf, by simp⟩
  | cons first rest ih =>
      have fixedFirst : ∃ fixed, fixOneUnsafe height rh first = .ok fixed ∧ fixed.WellFormed ∧
          ∀ id, fixed.lookup.lookup id =
            if id = first ∧ first ∈ rh.lookup then some ⟨id, ⟨id, height id⟩⟩ else rh.lookup.lookup id := by
        cases found : rh.lookup.lookup first with
        | none =>
            refine ⟨rh, by simp [fixOneUnsafe, found], wf, fun id => ?_⟩
            rw [if_neg (by simp [← AList.lookup_eq_none, found])]
        | some item =>
            obtain ⟨fixed, fixedOk, fixedWf, fixedLookup, -⟩ := wf.fixOneUnsafe_spec height found
            refine ⟨fixed, fixedOk, fixedWf, fun id => ?_⟩
            rw [fixedLookup]
            have present : first ∈ rh.lookup := by simp [← AList.lookup_isSome, found]
            by_cases same : id = first
            · subst same; simp [present]
            · simp [same]
      obtain ⟨fixed, fixedOk, fixedWf, fixedLookup⟩ := fixedFirst
      have sameKeys : ∀ id, id ∈ fixed.lookup ↔ id ∈ rh.lookup := fun id => by
        rw [← AList.lookup_isSome, ← AList.lookup_isSome, fixedLookup]
        split
        · rename_i present
          obtain ⟨rfl, present⟩ := present
          exact ⟨fun _ => AList.lookup_isSome.2 present, fun _ => rfl⟩
        · exact Iff.rfl
      obtain ⟨rh', restOk, restWf, restLookup⟩ := ih fixedWf
      refine ⟨rh', ?_, restWf, fun id => ?_⟩
      · simpa only [fixUnsafe, List.foldlM_cons, fixedOk, except_ok_bind] using restOk
      · simp only [restLookup, sameKeys, fixedLookup]
        by_cases later : id ∈ rest <;> by_cases same : id = first <;> simp_all

theorem call_spec (wf : rh.WellFormed) (c : HeapCall) :
    ∃ reply rh', rh.call c = .ok (reply, rh') ∧ rh'.WellFormed := by
  cases c with
  | add height nodes =>
      obtain ⟨rh', ran, wf', -⟩ := wf.addUnsafe_spec height nodes
      exact ⟨.done, rh', by simp [call, add, ran], wf'⟩
  | fix height ids =>
      obtain ⟨rh', ran, wf', -⟩ := wf.fixUnsafe_spec height ids
      exact ⟨.done, rh', by simp [call, fix, ran], wf'⟩
  | remove node =>
      obtain ⟨rh', ran, wf', -⟩ := wf.remove_spec node
      exact ⟨.removed (rh.has node), rh', by simp [call, ran], wf'⟩
  | removeMin =>
      obtain ⟨result, rh', ran, wf', -⟩ := wf.removeMin_spec
      exact ⟨.node result, rh', by simp [call, ran], wf'⟩
  | removeMinHeight =>
      obtain ⟨nodes, rh', ran, wf', -⟩ := wf.removeMinHeight_spec
      exact ⟨.nodes nodes, rh', by simp [call, ran], wf'⟩

theorem run_spec (wf : rh.WellFormed) (calls : List HeapCall) :
    ∃ replies rh', rh.run calls = .ok (replies, rh') ∧ rh'.WellFormed := by
  induction calls generalizing rh with
  | nil => exact ⟨[], rh, rfl, wf⟩
  | cons first rest ih =>
      obtain ⟨reply, next, called, nextWf⟩ := wf.call_spec first
      obtain ⟨replies, rh', ran, wf'⟩ := ih nextWf
      exact ⟨reply :: replies, rh', by simp [run, called, ran], wf'⟩

end WellFormed

theorem newRecomputeHeap_wellFormed {initialHeights : Nat} (positive : 0 < initialHeights) :
    (newRecomputeHeap initialHeights).WellFormed := by
  have empty : ∀ i, bucketAt (List.replicate initialHeights none) i = [] := fun i => by
    by_cases inside : i < initialHeights <;> simp [bucketAt, List.getElem?_replicate, inside]
  refine ⟨le_rfl, by simpa [newRecomputeHeap] using positive, ?_, ?_, ?_, ?_⟩ <;>
    simp [empty, newRecomputeHeap, AList.lookup_empty]

/-- Every index the heap reads is inside `heights`: `minHeight` and `maxHeight`, and
the bucket of every entry, which is also not nil. -/
structure InBounds (rh : RecomputeHeap) : Prop where
  minHeight_le : rh.minHeight ≤ rh.maxHeight
  maxHeight_lt : rh.maxHeight < rh.heights.length
  entry_filed : ∀ id item, rh.lookup.lookup id = some item →
    item.value.height < rh.heights.length ∧ ∃ list, rh.heights[item.value.height]? = some (some list)

/-- `lookup` and the buckets hold the same entries, each once, each in the bucket of its
recorded height, and every non-empty bucket lies between `minHeight` and `maxHeight`. -/
structure Consistent (rh : RecomputeHeap) : Prop where
  keys_nodup : (rh.items.map (·.key)).Nodup
  lookup_keys : ∀ id, id ∈ rh.lookup ↔ id ∈ rh.items.map (·.key)
  lookup_iff : ∀ id item,
    rh.lookup.lookup id = some item ↔ item.key = id ∧ item ∈ rh.bucket item.value.height
  filed : ∀ i, ∀ item ∈ rh.bucket i, item.value.height = i
  between : ∀ i, rh.bucket i ≠ [] → rh.minHeight ≤ i ∧ i ≤ rh.maxHeight
  len_eq_sum : rh.len = (rh.heights.map fun bucket => (bucketItems bucket).length).sum

theorem WellFormed.inBounds (wf : rh.WellFormed) : rh.InBounds := by
  refine ⟨wf.minHeight_le, wf.maxHeight_lt, fun id item found => ?_⟩
  obtain ⟨-, member⟩ := (wf.lookup_iff id item).1 found
  obtain ⟨list, atHeight, -⟩ := getElem?_of_mem_bucketAt member
  exact ⟨lt_length_of_bucketAt_ne_nil (List.ne_nil_of_mem member), list, atHeight⟩

theorem WellFormed.consistent (wf : rh.WellFormed) : rh.Consistent where
  keys_nodup := wf.keys_nodup
  lookup_keys id := by
    simp only [wf.mem_lookup_iff, List.mem_map, mem_items_iff]
    exact ⟨fun ⟨i, item, member, key⟩ => ⟨item, ⟨i, member⟩, key⟩,
      fun ⟨item, ⟨i, member⟩, key⟩ => ⟨i, item, member, key⟩⟩
  lookup_iff := wf.lookup_iff
  filed i item member := (wf.filed i item member).1
  between := wf.between
  len_eq_sum := wf.len_eq_length_items.trans rh.length_items

/-- An entry `lookup` holds is in the bucket of its recorded height. -/
theorem WellFormed.mem_bucket_of_lookup (wf : rh.WellFormed) {id : Identifier} {item : HeapItem}
    (found : rh.lookup.lookup id = some item) : item ∈ rh.bucket item.value.height :=
  ((wf.lookup_iff id item).1 found).2

theorem reachable_wellFormed (initialHeights : Nat) (positive : 0 < initialHeights)
    (calls : List HeapCall) :
    ∃ replies rh, (newRecomputeHeap initialHeights).run calls = .ok (replies, rh) ∧ rh.WellFormed :=
  (newRecomputeHeap_wellFormed positive).run_spec calls

/-- From `initialHeights ≥ 1`, no sequence of calls indexes `heights` out of range or
calls a method on a nil bucket, and every state reached keeps its indices in range. -/
theorem recomputeHeap_inBounds (initialHeights : Nat) (positive : 0 < initialHeights)
    (calls : List HeapCall) :
    ∃ replies rh, (newRecomputeHeap initialHeights).run calls = .ok (replies, rh) ∧ rh.InBounds := by
  obtain ⟨replies, rh, ran, wf⟩ := reachable_wellFormed initialHeights positive calls
  exact ⟨replies, rh, ran, wf.inBounds⟩

theorem recomputeHeap_inBounds_capacity_one :
    0 < 1 ∧ ∃ replies rh, (newRecomputeHeap 1).run
      [.add (fun _ => 40) [3], .fix (fun _ => 2) [3], .removeMinHeight, .removeMin] = .ok (replies, rh) ∧
      rh.InBounds :=
  ⟨by decide, recomputeHeap_inBounds 1 (by decide) _⟩

/-- From `initialHeights ≥ 1`, every state a sequence of calls reaches is consistent,
and the next `Add` (or `Fix` of a present node) files each node it names in the bucket
of that node's current height. -/
theorem recomputeHeap_consistent (initialHeights : Nat) (positive : 0 < initialHeights)
    (calls : List HeapCall) :
    ∃ replies rh, (newRecomputeHeap initialHeights).run calls = .ok (replies, rh) ∧ rh.Consistent ∧
      (∀ height nodes, ∃ rh', rh.add height nodes = .ok rh' ∧ rh'.Consistent ∧
        ∀ n ∈ nodes, rh'.lookup.lookup n = some ⟨n, ⟨n, height n⟩⟩ ∧
          ⟨n, ⟨n, height n⟩⟩ ∈ rh'.bucket (height n)) ∧
      (∀ height ids, ∃ rh', rh.fix height ids = .ok rh' ∧ rh'.Consistent ∧
        ∀ n ∈ ids, rh.has n → rh'.lookup.lookup n = some ⟨n, ⟨n, height n⟩⟩ ∧
          ⟨n, ⟨n, height n⟩⟩ ∈ rh'.bucket (height n)) := by
  obtain ⟨replies, rh, ran, wf⟩ := reachable_wellFormed initialHeights positive calls
  refine ⟨replies, rh, ran, wf.consistent, fun height nodes => ?_, fun height ids => ?_⟩
  · obtain ⟨rh', added, wf', lookupEq, -⟩ := wf.addUnsafe_spec height nodes
    refine ⟨rh', added, wf'.consistent, fun n named => ?_⟩
    have found : rh'.lookup.lookup n = some ⟨n, ⟨n, height n⟩⟩ := by simp [lookupEq, named]
    exact ⟨found, wf'.mem_bucket_of_lookup found⟩
  · obtain ⟨rh', fixed, wf', lookupEq⟩ := wf.fixUnsafe_spec height ids
    refine ⟨rh', fixed, wf'.consistent, fun n named present => ?_⟩
    have found : rh'.lookup.lookup n = some ⟨n, ⟨n, height n⟩⟩ := by
      simp [lookupEq, named, ← AList.lookup_isSome, show (rh.lookup.lookup n).isSome from present]
    exact ⟨found, wf'.mem_bucket_of_lookup found⟩

theorem recomputeHeap_consistent_capacity_two :
    0 < 2 ∧ ∃ replies rh, (newRecomputeHeap 2).run [.add (fun _ => 1) [5, 6], .removeMin] =
      .ok (replies, rh) ∧
      rh.Consistent ∧
      (∀ height nodes, ∃ rh', rh.add height nodes = .ok rh' ∧ rh'.Consistent ∧
        ∀ n ∈ nodes, rh'.lookup.lookup n = some ⟨n, ⟨n, height n⟩⟩ ∧
          ⟨n, ⟨n, height n⟩⟩ ∈ rh'.bucket (height n)) ∧
      (∀ height ids, ∃ rh', rh.fix height ids = .ok rh' ∧ rh'.Consistent ∧
        ∀ n ∈ ids, rh.has n → rh'.lookup.lookup n = some ⟨n, ⟨n, height n⟩⟩ ∧
          ⟨n, ⟨n, height n⟩⟩ ∈ rh'.bucket (height n)) :=
  ⟨by decide, recomputeHeap_consistent 2 (by decide) _⟩

end RecomputeHeap

end Incr
