import Incr.RecomputeHeap.Spec

namespace Incr

open Incr.Data

/-! # The public operations of the recompute heap

From a well-formed heap each public operation returns without panicking and leaves a
well-formed heap; each lemma below also says what the operation does to the buckets
and to `lookup`, which is all the refinement proof reads.
-/

namespace RecomputeHeap

variable {rh : RecomputeHeap}

theorem len_ne_zero_of_lookup {id : Identifier} {item : HeapItem}
    (found : rh.lookup.lookup id = some item) : rh.len ≠ 0 := fun empty => by
  rw [len, List.length_eq_zero] at empty
  simp [AList.lookup, empty] at found

namespace WellFormed

theorem key_ne_of_lookup_none (wf : rh.WellFormed) {s : Identifier}
    (absent : rh.lookup.lookup s = none) {i : Nat} {item : HeapItem} (member : item ∈ rh.bucket i) :
    item.key ≠ s := fun same => by
  rw [← same, wf.lookup_of_mem member] at absent
  cases absent

theorem filter_key_ne_of_lookup_none (wf : rh.WellFormed) {s : Identifier}
    (absent : rh.lookup.lookup s = none) (i : Nat) :
    (rh.bucket i).filter (·.key ≠ s) = rh.bucket i :=
  List.filter_eq_self.2 fun _ member => by simpa using wf.key_ne_of_lookup_none absent member

theorem erase_absent (wf : rh.WellFormed) {s : Identifier} (absent : rh.lookup.lookup s = none) :
    ({ rh with lookup := rh.lookup.erase s } : RecomputeHeap).WellFormed :=
  { wf with
    lookup_iff := fun id item => by
      show (rh.lookup.erase s).lookup id = some item ↔ item.key = id ∧ item ∈ rh.bucket item.value.height
      rw [← wf.lookup_iff, lookup_erase_eq]
      split
      · subst id; simp [absent]
      · rfl }

/-- Filing a node that is not in the heap. -/
theorem addNodeUnsafe_absent (wf : rh.WellFormed) {s : Identifier}
    (absent : rh.lookup.lookup s = none) (height : Identifier → Nat) :
    ∃ rh', rh.addNodeUnsafe height s = .ok rh' ∧ rh'.WellFormed ∧
      (∀ id, rh'.lookup.lookup id = if id = s then some ⟨s, ⟨s, height s⟩⟩ else rh.lookup.lookup id) ∧
      (∀ i, rh'.bucket i = rh.bucket i ++ if i = height s then [⟨s, ⟨s, height s⟩⟩] else []) ∧
      (rh.MinTight → rh'.MinTight) := by
  obtain ⟨rh', added, lookupEq, bucketEq, -⟩ := rh.addNodeUnsafe_spec height s
  refine ⟨rh', added, (wf.erase_absent absent).addNodeUnsafe added, fun id => ?_, fun i => ?_,
    fun tight => addNodeUnsafe_minTight tight added⟩
  · rw [lookupEq]
    split
    · subst id; exact AList.lookup_insert _
    · exact AList.lookup_insert_ne ‹_›
  · rw [bucketEq]; split <;> simp

/-- `addUnsafe` on one node: unlink it if present, then file it at its current height. -/
theorem addOneUnsafe_spec (wf : rh.WellFormed) (height : Identifier → Nat) (s : Identifier) :
    ∃ rh', addOneUnsafe height rh s = .ok rh' ∧ rh'.WellFormed ∧
      (∀ id, rh'.lookup.lookup id = if id = s then some ⟨s, ⟨s, height s⟩⟩ else rh.lookup.lookup id) ∧
      (∀ i, rh'.bucket i =
        (rh.bucket i).filter (·.key ≠ s) ++ if i = height s then [⟨s, ⟨s, height s⟩⟩] else []) ∧
      (rh.MinTight → rh'.MinTight) := by
  cases found : rh.lookup.lookup s with
  | some current =>
      obtain ⟨rfl, -⟩ := (wf.lookup_iff _ current).1 found
      obtain ⟨removed, ran, removedWf, removedLookup, removedBucket, removedTight⟩ :=
        wf.removeItemUnsafe_spec found
      obtain ⟨rh', added, addedWf, addedLookup, addedBucket, addedTight⟩ :=
        removedWf.addNodeUnsafe_absent (s := current.key) (by simp [removedLookup]) height
      refine ⟨rh', by simp [addOneUnsafe, found, ran, added], addedWf, fun id => ?_,
        fun i => by rw [addedBucket, removedBucket], fun tight => addedTight (removedTight tight)⟩
      rw [addedLookup, removedLookup]
      split <;> simp_all
  | none =>
      obtain ⟨rh', added, addedWf, addedLookup, addedBucket, addedTight⟩ :=
        wf.addNodeUnsafe_absent found height
      exact ⟨rh', by simp [addOneUnsafe, found, added], addedWf, addedLookup,
        fun i => by rw [addedBucket, wf.filter_key_ne_of_lookup_none found], addedTight⟩

/-- `fixUnsafe` on one identifier that `lookup` holds: unlink its item from the bucket
it was filed in and file its node at its current height.  `lookup` still holds the node
when it is filed, so `minHeight` only moves down to that height. -/
theorem fixOneUnsafe_spec (wf : rh.WellFormed) (height : Identifier → Nat) {id : Identifier}
    {item : HeapItem} (found : rh.lookup.lookup id = some item) :
    ∃ rh', fixOneUnsafe height rh id = .ok rh' ∧ rh'.WellFormed ∧
      (∀ id', rh'.lookup.lookup id' =
        if id' = id then some ⟨id, ⟨id, height id⟩⟩ else rh.lookup.lookup id') ∧
      (∀ i, rh'.bucket i =
        (rh.bucket i).filter (·.key ≠ id) ++ if i = height id then [⟨id, ⟨id, height id⟩⟩] else []) ∧
      rh'.minHeight = min rh.minHeight (height id) := by
  obtain ⟨rfl, member⟩ := (wf.lookup_iff _ item).1 found
  obtain ⟨list, atHeight, -⟩ := getElem?_of_mem_bucketAt member
  obtain ⟨unfiled, unfiledBucket⟩ := wf.unfileItem found atHeight
  have node : item.value.node = item.key := (wf.filed _ item member).2.symm
  obtain ⟨rh', added, lookupEq, bucketEq, minEq, -⟩ := addNodeUnsafe_spec
    { rh with heights := rh.heights.set item.value.height (some ⟨list.items.filter (·.key ≠ item.key)⟩) }
    height item.key
  refine ⟨rh', ?_, unfiled.addNodeUnsafe added, fun id' => ?_, fun i => ?_,
    minEq.trans (if_neg (len_ne_zero_of_lookup found))⟩
  · simp only [fixOneUnsafe, found, heightsAt_of_getElem? atHeight, except_ok_bind,
      KeyedList.removeUnsafe, node]
    exact added
  · rw [lookupEq]
    split
    · subst id'; exact AList.lookup_insert _
    · exact AList.lookup_insert_ne ‹_›
  · rw [bucketEq, bucket_mk, unfiledBucket]; split <;> simp

theorem minHeight_lt (wf : rh.WellFormed) : rh.minHeight < rh.heights.length :=
  Nat.lt_of_le_of_lt wf.minHeight_le wf.maxHeight_lt

/-- `RemoveMin` pops the head of the bucket at `minHeight`; when that bucket is empty it
returns `nil` and leaves the heap as it was. -/
theorem removeMin_spec (wf : rh.WellFormed) :
    ∃ result rh', rh.removeMin = .ok (result, rh') ∧ rh'.WellFormed ∧
      ((rh.bucket rh.minHeight = [] ∧ result = none ∧ rh' = rh) ∨
        ∃ item rest, rh.bucket rh.minHeight = item :: rest ∧ result = some item.value.node ∧
          (∀ id, rh'.lookup.lookup id = if id = item.key then none else rh.lookup.lookup id) ∧
          (∀ i, rh'.bucket i = if i = rh.minHeight then rest else rh.bucket i) ∧
          rh'.MinTight) := by
  have inside := wf.minHeight_lt
  have atMin := rh.heightsAt_of_lt inside
  have bucketMin : rh.bucket rh.minHeight = bucketItems rh.heights[rh.minHeight] := by
    simp [RecomputeHeap.bucket, bucketAt, List.getElem?_eq_getElem inside]
  cases bucketIs : rh.heights[rh.minHeight] with
  | none =>
      exact ⟨none, rh, by simp [removeMin, atMin, bucketIs], wf, .inl ⟨by simp [bucketMin, bucketIs], rfl, rfl⟩⟩
  | some list =>
  cases itemsIs : list.items with
  | nil =>
      exact ⟨none, rh, by simp [removeMin, atMin, bucketIs, itemsIs], wf,
        .inl ⟨by simp [bucketMin, bucketIs, itemsIs], rfl, rfl⟩⟩
  | cons item rest =>
  have bucketIs' : rh.bucket rh.minHeight = item :: rest := by simp [bucketMin, bucketIs, itemsIs]
  have keys := wf.nodup rh.minHeight
  rw [bucketIs', List.map_cons, List.nodup_cons] at keys
  have member : item ∈ rh.bucket rh.minHeight := by simp [bucketIs']
  have unfiled := wf.unfile inside (· = item.key) rest (by rw [bucketIs']; exact List.sublist_cons_self _ _)
    (fun other member' => by
      rw [bucketIs'] at member'
      rcases List.mem_cons.1 member' with rfl | later
      · exact ⟨fun inRest => absurd (List.mem_map_of_mem _ inRest) keys.1,
          fun notSelf => absurd rfl notSelf⟩
      · exact ⟨fun _ same => keys.1 (same ▸ List.mem_map_of_mem _ later), fun _ => later⟩)
    (fun i other member' sameKey => by
      have same := wf.eq_of_key_eq member' member sameKey
      subst same
      exact (wf.filed i other member').1.symm.trans (wf.filed _ other member).1)
    (rh.lookup.erase item.key) (fun id gone => by subst gone; exact AList.lookup_erase _ _)
    (fun id kept => AList.lookup_erase_ne kept)
  have bucketEq : ∀ i, bucketAt (rh.heights.set rh.minHeight (some ⟨rest⟩)) i =
      if i = rh.minHeight then rest else rh.bucket i := fun i => by
    rw [bucketAt_set]
    by_cases same : i = rh.minHeight
    · simp [same, inside]
    · simp [same, Ne.symm same, RecomputeHeap.bucket]
  simp only [removeMin, atMin, bucketIs, except_ok_bind, KeyedList.lenUnsafe_eq, itemsIs,
    List.length_cons, Nat.zero_lt_succ, if_true, KeyedList.popUnsafe_cons itemsIs]
  split
  · obtain ⟨next, scanned, -⟩ := unfiled.nextMinHeightUnsafe_spec
    obtain ⟨wellFormed, tight⟩ := unfiled.withMinHeight scanned
    exact ⟨_, _, by rw [scanned]; rfl, wellFormed,
      .inr ⟨item, rest, bucketIs', rfl, lookup_erase_eq _ _, bucketEq, tight⟩⟩
  · rename_i nonempty
    refine ⟨_, _, rfl, unfiled, .inr ⟨item, rest, bucketIs', rfl, lookup_erase_eq _ _, bucketEq,
      fun _ => ?_⟩⟩
    simp only [bucket_mk, bucketEq, if_true]
    exact fun empty => nonempty (by simp [empty])

/-- `Remove` reports whether `lookup` held the node and unlinks it. -/
theorem remove_spec (wf : rh.WellFormed) (s : Identifier) :
    ∃ rh', rh.remove s = .ok (rh.has s, rh') ∧ rh'.WellFormed ∧
      (∀ id, rh'.lookup.lookup id = if id = s then none else rh.lookup.lookup id) ∧
      (∀ i, rh'.bucket i = (rh.bucket i).filter (·.key ≠ s)) ∧
      (rh.MinTight → rh'.MinTight) := by
  cases found : rh.lookup.lookup s with
  | some item =>
      obtain ⟨rfl, -⟩ := (wf.lookup_iff _ item).1 found
      obtain ⟨rh', removed, rest⟩ := wf.removeItemUnsafe_spec found
      exact ⟨rh', by simp [remove, found, removed, has], rest⟩
  | none =>
      refine ⟨rh, by simp [remove, found, has], wf, fun id => ?_,
        fun i => (wf.filter_key_ne_of_lookup_none found i).symm, id⟩
      split
      · subst id; exact found
      · rfl

end WellFormed

theorem lookup_foldl_erase (nodes : List RecomputeHeapItem)
    (lookup : AList fun _ : Identifier => HeapItem) (id : Identifier) :
    (nodes.foldl (fun lookup (n : RecomputeHeapItem) => lookup.erase n.node) lookup).lookup id =
      if id ∈ nodes.map (·.node) then none else lookup.lookup id := by
  induction nodes generalizing lookup with
  | nil => simp
  | cons first rest ih =>
      rw [List.foldl_cons, ih, lookup_erase_eq]
      by_cases later : id ∈ rest.map (·.node) <;> by_cases same : id = first.node <;>
        simp [later, same]

/-- `RemoveMinHeight` empties the bucket at `minHeight` and returns its nodes in order,
after which `minHeight` is the least non-empty bucket. -/
theorem WellFormed.removeMinHeight_spec (wf : rh.WellFormed) :
    ∃ nodes rh', rh.removeMinHeight = .ok (nodes, rh') ∧ rh'.WellFormed ∧
      nodes = (rh.bucket rh.minHeight).map (·.value) ∧
      ((rh.bucket rh.minHeight = [] ∧ rh' = rh) ∨
        (rh.bucket rh.minHeight ≠ [] ∧
          (∀ id, rh'.lookup.lookup id =
            if id ∈ (rh.bucket rh.minHeight).map (·.key) then none else rh.lookup.lookup id) ∧
          (∀ i, rh'.bucket i = if i = rh.minHeight then [] else rh.bucket i) ∧
          rh'.MinTight)) := by
  have inside := wf.minHeight_lt
  have atMin := rh.heightsAt_of_lt inside
  have bucketMin : rh.bucket rh.minHeight = bucketItems rh.heights[rh.minHeight] := by
    simp [RecomputeHeap.bucket, bucketAt, List.getElem?_eq_getElem inside]
  cases bucketIs : rh.heights[rh.minHeight] with
  | none =>
      exact ⟨[], rh, by simp [removeMinHeight, atMin, bucketIs], wf, by simp [bucketMin, bucketIs],
        .inl ⟨by simp [bucketMin, bucketIs], rfl⟩⟩
  | some list =>
  have bucketIs' : rh.bucket rh.minHeight = list.items := by simp [bucketMin, bucketIs]
  by_cases empty : list.items = []
  · exact ⟨[], rh, by simp [removeMinHeight, atMin, bucketIs, empty], wf, by simp [bucketIs', empty],
      .inl ⟨by simp [bucketIs', empty], rfl⟩⟩
  have nodeKeys : (list.items.map (·.value)).map (·.node) = (rh.bucket rh.minHeight).map (·.key) := by
    rw [List.map_map, bucketIs']
    exact List.map_congr_left fun item member =>
      ((wf.filed _ item (bucketIs' ▸ member)).2).symm
  have unfiled := wf.unfile inside (· ∈ (rh.bucket rh.minHeight).map (·.key)) [] (List.nil_sublist _)
    (fun other member' => by simp [List.mem_map_of_mem _ member'])
    (fun i other member' inMin => by
      obtain ⟨first, firstMember, sameKey⟩ := List.mem_map.1 inMin
      have same := wf.eq_of_key_eq member' firstMember sameKey.symm
      subst same
      exact (wf.filed i other member').1.symm.trans (wf.filed _ other firstMember).1)
    (list.items.map (·.value) |>.foldl (fun lookup (n : RecomputeHeapItem) => lookup.erase n.node)
      rh.lookup)
    (fun id gone => by simp [lookup_foldl_erase, nodeKeys, gone])
    (fun id kept => by simp [lookup_foldl_erase, nodeKeys, kept])
  obtain ⟨next, scanned, -⟩ := unfiled.nextMinHeightUnsafe_spec
  obtain ⟨wellFormed, tight⟩ := unfiled.withMinHeight scanned
  refine ⟨_, _, ?_, wellFormed, by rw [bucketIs'],
    .inr ⟨by rwa [bucketIs'], fun id => ?_, fun i => ?_, tight⟩⟩
  · simp only [removeMinHeight, atMin, bucketIs, except_ok_bind, List.length_pos.2 empty, if_true,
      KeyedList.popAllUnsafe]
    rw [scanned]; rfl
  · simp [lookup_foldl_erase, nodeKeys]
  · simp only [bucket_mk, bucketAt_set, inside, and_true]
    split
    · subst i; simp
    · simp [Ne.symm ‹_›, RecomputeHeap.bucket]

end RecomputeHeap

end Incr
