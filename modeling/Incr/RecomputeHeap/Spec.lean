import Incr.RecomputeHeap.WellFormed

namespace Incr

open Incr.Data

/-! # What each helper of the heap does

One lemma per helper of `recomputeHeap`: the scan for the next minimum, unlinking
keys from one bucket, filing a node, and removing an item.  Each says the helper does
not panic and how it changes the buckets and `lookup`; the public operations are
assembled from these in `Incr.RecomputeHeap.Operations`.
-/

namespace RecomputeHeap

variable {rh : RecomputeHeap}

@[simp] theorem bucket_mk (minHeight maxHeight : Nat) (heights : List (Option HeightList))
    (lookup : AList fun _ : Identifier => HeapItem) (i : Nat) :
    (RecomputeHeap.mk minHeight maxHeight heights lookup).bucket i = bucketAt heights i := rfl

@[simp] theorem len_mk (minHeight maxHeight : Nat) (heights : List (Option HeightList))
    (lookup : AList fun _ : Identifier => HeapItem) :
    (RecomputeHeap.mk minHeight maxHeight heights lookup).len = lookup.entries.length := rfl

theorem heightsAt_of_getElem? {i : Nat} {bucket : Option HeightList}
    (found : rh.heights[i]? = some bucket) : rh.heightsAt i = .ok bucket := by
  simp [heightsAt, found]

@[simp] theorem maybeUpdateMinMaxHeights_heights (newHeight : Nat) :
    (rh.maybeUpdateMinMaxHeights newHeight).heights = rh.heights := by
  unfold maybeUpdateMinMaxHeights; split <;> rfl

@[simp] theorem maybeUpdateMinMaxHeights_lookup (newHeight : Nat) :
    (rh.maybeUpdateMinMaxHeights newHeight).lookup = rh.lookup := by
  unfold maybeUpdateMinMaxHeights; split <;> rfl

@[simp] theorem maybeUpdateMinMaxHeights_minHeight (newHeight : Nat) :
    (rh.maybeUpdateMinMaxHeights newHeight).minHeight =
      if rh.len = 0 then newHeight else min rh.minHeight newHeight := by
  unfold maybeUpdateMinMaxHeights; split <;> rfl

@[simp] theorem maybeUpdateMinMaxHeights_maxHeight (newHeight : Nat) :
    (rh.maybeUpdateMinMaxHeights newHeight).maxHeight =
      if rh.len = 0 then newHeight else max rh.maxHeight newHeight := by
  unfold maybeUpdateMinMaxHeights; split <;> rfl

@[simp] theorem maybeAddNewHeights_lookup (newHeight : Nat) :
    (rh.maybeAddNewHeights newHeight).lookup = rh.lookup := by
  unfold maybeAddNewHeights; split <;> rfl

@[simp] theorem maybeAddNewHeights_minHeight (newHeight : Nat) :
    (rh.maybeAddNewHeights newHeight).minHeight = rh.minHeight := by
  unfold maybeAddNewHeights; split <;> rfl

@[simp] theorem maybeAddNewHeights_maxHeight (newHeight : Nat) :
    (rh.maybeAddNewHeights newHeight).maxHeight = rh.maxHeight := by
  unfold maybeAddNewHeights; split <;> rfl

@[simp] theorem maybeAddNewHeights_bucket (newHeight i : Nat) :
    (rh.maybeAddNewHeights newHeight).bucket i = rh.bucket i := by
  unfold maybeAddNewHeights; split
  · exact bucketAt_append_none _ _ _
  · rfl

/-- Growing the array makes room for `newHeight` and loses no bucket. -/
theorem maybeAddNewHeights_length (newHeight : Nat) :
    newHeight < (rh.maybeAddNewHeights newHeight).heights.length ∧
      rh.heights.length ≤ (rh.maybeAddNewHeights newHeight).heights.length := by
  unfold maybeAddNewHeights; split <;> simp <;> omega

theorem nextMinHeightFrom_spec (rh : RecomputeHeap) (x remaining : Nat)
    (inside : x + remaining ≤ rh.heights.length) :
    ∃ next, rh.nextMinHeightFrom x remaining = .ok next ∧
      ((x ≤ next ∧ next < x + remaining ∧ rh.bucket next ≠ [] ∧
          ∀ i, x ≤ i → i < next → rh.bucket i = []) ∨
        (next = 0 ∧ ∀ i, x ≤ i → i < x + remaining → rh.bucket i = [])) := by
  induction remaining generalizing x with
  | zero => exact ⟨0, rfl, .inr ⟨rfl, fun i lower upper => by omega⟩⟩
  | succ remaining ih =>
      have atX : rh.heightsAt x = .ok rh.heights[x] := rh.heightsAt_of_lt (by omega)
      have nodes := rh.hasNodes_eq x rh.heights[x] (List.getElem?_eq_getElem (by omega))
      by_cases empty : rh.bucket x = []
      · obtain ⟨next, scanned, result⟩ := ih (x + 1) (by omega)
        refine ⟨next, by simp [nextMinHeightFrom, atX, nodes, empty, scanned], ?_⟩
        have below : ∀ i, x ≤ i → i < x + 1 → rh.bucket i = [] := fun i lower upper => by
          rwa [show i = x by omega]
        rcases result with ⟨lower, upper, found, before⟩ | ⟨rfl, none⟩
        · refine .inl ⟨by omega, by omega, found, fun i lower' upper' => ?_⟩
          by_cases atStart : i = x
          · exact below i lower' (by omega)
          · exact before i (by omega) upper'
        · refine .inr ⟨rfl, fun i lower upper => ?_⟩
          by_cases atStart : i = x
          · exact below i lower (by omega)
          · exact none i (by omega) (by omega)
      · refine ⟨x, by simp [nextMinHeightFrom, atX, nodes, empty], ?_⟩
        exact .inl ⟨le_rfl, by omega, empty, fun i lower upper => by omega⟩

namespace WellFormed

/-- The scan settles on the least non-empty bucket, and on `0` for an empty heap. -/
theorem nextMinHeightUnsafe_spec (wf : rh.WellFormed) :
    ∃ next, rh.nextMinHeightUnsafe = .ok next ∧ next ≤ rh.maxHeight ∧
      (∀ i, rh.bucket i ≠ [] → next ≤ i) ∧ (rh.len ≠ 0 → rh.bucket next ≠ []) := by
  by_cases empty : rh.len = 0
  · refine ⟨0, by simp [nextMinHeightUnsafe, empty], Nat.zero_le _, ?_, fun nonzero => absurd empty nonzero⟩
    intro i nonempty
    exact absurd ((wf.len_eq_zero_iff.1 empty) i) nonempty
  · have inside : rh.minHeight + (rh.maxHeight + 1 - rh.minHeight) ≤ rh.heights.length := by
      have := wf.minHeight_le; have := wf.maxHeight_lt; omega
    obtain ⟨next, scanned, result⟩ := rh.nextMinHeightFrom_spec _ _ inside
    obtain ⟨i, nonempty⟩ : ∃ i, rh.bucket i ≠ [] := by
      by_contra none
      push_neg at none
      exact empty (wf.len_eq_zero_iff.2 none)
    have range := wf.between i nonempty
    rcases result with ⟨lower, upper, found, before⟩ | ⟨-, none⟩
    · refine ⟨next, by simp [nextMinHeightUnsafe, empty, scanned], by omega, ?_, fun _ => found⟩
      intro j nonempty'
      have range' := wf.between j nonempty'
      by_contra lt
      exact nonempty' (before j range'.1 (by omega))
    · exact absurd (none i range.1 (by have := wf.minHeight_le; omega)) nonempty

/-- Lowering `minHeight` to the result of the scan keeps the heap well formed and makes
`minHeight` the least non-empty bucket. -/
theorem withMinHeight (wf : rh.WellFormed) {next : Nat}
    (scanned : rh.nextMinHeightUnsafe = .ok next) :
    ({ rh with minHeight := next } : RecomputeHeap).WellFormed ∧
      ({ rh with minHeight := next } : RecomputeHeap).MinTight := by
  obtain ⟨next', scanned', upper, least, found⟩ := wf.nextMinHeightUnsafe_spec
  obtain rfl : next = next' := by rw [scanned] at scanned'; injection scanned'
  exact ⟨{ wf with
    minHeight_le := upper
    between := fun i nonempty => ⟨least i nonempty, (wf.between i nonempty).2⟩ }, found⟩

/-- Unlinking from bucket `h` the items whose keys are `gone`, and their entries from
`lookup`, keeps the heap well formed when those keys are filed nowhere else. -/
theorem unfile (wf : rh.WellFormed) {h : Nat} (inside : h < rh.heights.length)
    (gone : Identifier → Prop) (kept : List HeapItem) (keptSublist : kept.Sublist (rh.bucket h))
    (keptIff : ∀ item ∈ rh.bucket h, item ∈ kept ↔ ¬ gone item.key)
    (goneFiled : ∀ i, ∀ item ∈ rh.bucket i, gone item.key → i = h)
    (lookup : AList fun _ : Identifier => HeapItem)
    (lookupGone : ∀ id, gone id → lookup.lookup id = none)
    (lookupKept : ∀ id, ¬ gone id → lookup.lookup id = rh.lookup.lookup id) :
    ({ rh with heights := rh.heights.set h (some ⟨kept⟩), lookup } : RecomputeHeap).WellFormed := by
  have bucketEq : ∀ i, bucketAt (rh.heights.set h (some ⟨kept⟩)) i = if i = h then kept else rh.bucket i := by
    intro i
    rw [bucketAt_set]
    by_cases same : i = h
    · simp [same, inside]
    · simp [same, Ne.symm same, RecomputeHeap.bucket]
  have keptSub := keptSublist.subset
  refine ⟨wf.minHeight_le, by simpa using wf.maxHeight_lt, ?_, ?_, ?_, ?_⟩
  · intro i item member
    simp only [bucket_mk, bucketEq] at member
    split at member
    · subst i; exact wf.filed h item (keptSub member)
    · exact wf.filed i item member
  · intro i
    simp only [bucket_mk, bucketEq]
    split
    · subst i; exact (wf.nodup h).sublist (keptSublist.map _)
    · exact wf.nodup i
  · intro id item
    simp only [bucket_mk, bucketEq]
    by_cases isGone : gone id
    · simp only [lookupGone id isGone, reduceCtorEq, false_iff, not_and]
      rintro rfl member
      split at member
      · exact (keptIff item (keptSub member)).1 member isGone
      · exact ‹¬_› (goneFiled _ item member isGone)
    · rw [lookupKept id isGone, wf.lookup_iff]
      refine and_congr_right fun sameKey => ?_
      split
      · rename_i atH
        rw [atH]
        exact ⟨fun member => (keptIff item member).2 (sameKey ▸ isGone), fun member => keptSub member⟩
      · exact Iff.rfl
  · intro i nonempty
    simp only [bucket_mk, bucketEq] at nonempty
    split at nonempty
    · subst i
      exact wf.between h fun empty => nonempty (List.eq_nil_of_subset_nil (empty ▸ keptSub))
    · exact wf.between i nonempty

end WellFormed

/-- `addNodeUnsafe` never panics: it appends `s` to the bucket of its current height,
overwrites its `lookup` entry, and widens `minHeight` and `maxHeight` to that height
(resetting both on an empty `lookup`). -/
theorem addNodeUnsafe_spec (rh : RecomputeHeap) (height : Identifier → Nat) (s : Identifier) :
    ∃ rh', rh.addNodeUnsafe height s = .ok rh' ∧
      rh'.lookup = rh.lookup.insert s ⟨s, ⟨s, height s⟩⟩ ∧
      (∀ i, rh'.bucket i =
        if i = height s then rh.bucket i ++ [⟨s, ⟨s, height s⟩⟩] else rh.bucket i) ∧
      rh'.minHeight = (if rh.len = 0 then height s else min rh.minHeight (height s)) ∧
      rh'.maxHeight = (if rh.len = 0 then height s else max rh.maxHeight (height s)) ∧
      rh.heights.length ≤ rh'.heights.length ∧ height s < rh'.heights.length := by
  obtain ⟨fits, longer⟩ :=
    (rh.maybeUpdateMinMaxHeights (height s)).maybeAddNewHeights_length (height s)
  have grownBucket := (rh.maybeUpdateMinMaxHeights (height s)).maybeAddNewHeights_bucket (height s)
  simp only [RecomputeHeap.bucket, maybeUpdateMinMaxHeights_heights] at grownBucket
  have current : (((rh.maybeUpdateMinMaxHeights (height s)).maybeAddNewHeights
      (height s)).heights[height s].getD ⟨[]⟩).items = rh.bucket (height s) := by
    rw [RecomputeHeap.bucket, ← grownBucket]
    simp only [bucketAt, List.getElem?_eq_getElem fits]
    cases ((rh.maybeUpdateMinMaxHeights (height s)).maybeAddNewHeights (height s)).heights[height s]
      <;> rfl
  simp only [addNodeUnsafe, heightsAt_of_lt _ fits, except_ok_bind]
  refine ⟨_, rfl, by simp, fun i => ?_, by simp, by simp, by simpa using longer, by simpa using fits⟩
  simp only [bucket_mk, bucketAt_set, fits, and_true]
  by_cases same : i = height s
  · subst i; simp [current]
  · simp [same, Ne.symm same, grownBucket i, RecomputeHeap.bucket]

/-- Filing `s` keeps the heap well formed when it was well formed apart from the entry
`lookup` holds for `s` (which filing overwrites). -/
theorem WellFormed.addNodeUnsafe {height : Identifier → Nat} {s : Identifier} {rh' : RecomputeHeap}
    (wf : ({ rh with lookup := rh.lookup.erase s } : RecomputeHeap).WellFormed)
    (added : rh.addNodeUnsafe height s = .ok rh') : rh'.WellFormed := by
  obtain ⟨result, ran, lookupEq, bucketEq, minEq, maxEq, longer, fits⟩ := rh.addNodeUnsafe_spec height s
  obtain rfl : rh' = result := by rw [added] at ran; injection ran
  have sAbsent : ∀ i, ∀ item ∈ rh.bucket i, item.key ≠ s := fun i item member same => by
    have found := wf.lookup_of_mem (i := i) member
    subst same
    rw [AList.lookup_erase] at found
    cases found
  have emptyIff : rh.len = 0 → ∀ i, rh.bucket i = [] := fun empty =>
    wf.len_eq_zero_iff.1 (by
      rw [len_eq_length_keys, List.length_eq_zero] at empty ⊢
      simp [AList.keys_erase, empty])
  have between := wf.between
  have maxLt : rh.maxHeight < rh.heights.length := wf.maxHeight_lt
  refine ⟨?_, ?_, fun i item member => ?_, fun i => ?_, fun id item => ?_, fun i nonempty => ?_⟩
  · rw [minEq, maxEq]; split <;> omega
  · rw [maxEq]; split <;> omega
  · rw [bucketEq] at member
    split at member
    · rcases List.mem_append.1 member with old | new
      · exact wf.filed i item old
      · simp_all
    · exact wf.filed i item member
  · rw [bucketEq]
    split
    · rw [List.map_append, List.nodup_append]
      exact ⟨wf.nodup i, by simp, by simpa using sAbsent i⟩
    · exact wf.nodup i
  · rw [lookupEq, bucketEq]
    by_cases same : id = s
    · subst id
      rw [AList.lookup_insert]
      constructor
      · rintro ⟨⟩; simp
      · rintro ⟨sameKey, member⟩
        split at member
        · rcases List.mem_append.1 member with old | new
          · exact absurd sameKey (sAbsent _ item old)
          · simp_all
        · exact absurd sameKey (sAbsent _ item member)
    · rw [AList.lookup_insert_ne same, ← AList.lookup_erase_ne same, wf.lookup_iff]
      refine and_congr_right fun sameKey => ?_
      split
      · simp only [List.mem_append, List.mem_singleton]
        exact ⟨.inl, fun member => member.resolve_right fun new => same (by simp [← sameKey, new])⟩
      · exact Iff.rfl
  · rw [bucketEq] at nonempty
    rw [minEq, maxEq]
    split at nonempty
    · subst i; split <;> omega
    · have range := between i nonempty
      split
      · exact absurd (emptyIff ‹_› i) nonempty
      · simp at range; omega

theorem addNodeUnsafe_minTight {height : Identifier → Nat} {s : Identifier} {rh' : RecomputeHeap}
    (tight : rh.MinTight) (added : rh.addNodeUnsafe height s = .ok rh') : rh'.MinTight := by
  obtain ⟨result, ran, -, bucketEq, minEq, -⟩ := rh.addNodeUnsafe_spec height s
  obtain rfl : rh' = result := by rw [added] at ran; injection ran
  intro _
  rw [bucketEq, minEq]
  by_cases empty : rh.len = 0
  · simp [empty]
  · have found := tight empty
    by_cases lower : height s ≤ rh.minHeight
    · simp [empty, Nat.min_eq_right lower]
    · simp [empty, Nat.min_eq_left (Nat.le_of_not_le lower), show rh.minHeight ≠ height s by omega,
        found]

/-- A key `lookup` files at one height is absent from every other bucket. -/
theorem WellFormed.filter_key_ne (wf : rh.WellFormed) {item : HeapItem}
    (found : rh.lookup.lookup item.key = some item) {i : Nat} (other : i ≠ item.value.height) :
    (rh.bucket i).filter (·.key ≠ item.key) = rh.bucket i := by
  refine List.filter_eq_self.2 fun other' member => ?_
  have filedAt := (wf.filed i other' member).1
  simp only [ne_eq, decide_eq_true_eq]
  intro sameKey
  rw [← sameKey, wf.lookup_of_mem member] at found
  cases found
  exact other filedAt.symm

/-- Unlinking an item that `lookup` holds from its bucket and from `lookup`: the heap
stays well formed and only that item leaves its bucket. -/
theorem WellFormed.unfileItem (wf : rh.WellFormed) {item : HeapItem}
    (found : rh.lookup.lookup item.key = some item) {list : HeightList}
    (atHeight : rh.heights[item.value.height]? = some (some list)) :
    ({ rh with
        heights := rh.heights.set item.value.height (some ⟨list.items.filter (·.key ≠ item.key)⟩)
        lookup := rh.lookup.erase item.key } : RecomputeHeap).WellFormed ∧
      ∀ i, bucketAt (rh.heights.set item.value.height
        (some ⟨list.items.filter (·.key ≠ item.key)⟩)) i = (rh.bucket i).filter (·.key ≠ item.key) := by
  obtain ⟨-, member⟩ := (wf.lookup_iff _ item).1 found
  have inside := lt_length_of_bucketAt_ne_nil (List.ne_nil_of_mem member)
  have listItems : list.items = rh.bucket item.value.height := by
    simp [RecomputeHeap.bucket, bucketAt, atHeight]
  refine ⟨wf.unfile inside (· = item.key) (list.items.filter (·.key ≠ item.key))
    (by rw [listItems]; exact List.filter_sublist _)
    (fun other member' => by rw [listItems]; simp [member'])
    (fun i other member' sameKey => by
      have same := wf.eq_of_key_eq member' member sameKey
      subst same
      exact (wf.filed i other member').1.symm)
    (rh.lookup.erase item.key) (fun id gone => by subst gone; exact AList.lookup_erase _ _)
    (fun id kept => AList.lookup_erase_ne kept), fun i => ?_⟩
  rw [bucketAt_set]
  by_cases same : item.value.height = i
  · subst i; simp [inside, listItems]
  · simp only [same, false_and, if_false, wf.filter_key_ne found (Ne.symm same)]; rfl

theorem lookup_erase_eq (lookup : AList fun _ : Identifier => HeapItem) (key id : Identifier) :
    (lookup.erase key).lookup id = if id = key then none else lookup.lookup id := by
  split
  · subst id; exact AList.lookup_erase _ _
  · exact AList.lookup_erase_ne ‹_›

/-- `removeItemUnsafe` of an item that `lookup` holds does not panic: it unlinks the
item from its bucket and from `lookup`, keeps the heap well formed, and keeps
`minHeight` the least non-empty bucket if it was. -/
theorem WellFormed.removeItemUnsafe_spec (wf : rh.WellFormed) {item : HeapItem}
    (found : rh.lookup.lookup item.key = some item) :
    ∃ rh', rh.removeItemUnsafe item = .ok rh' ∧ rh'.WellFormed ∧
      (∀ id, rh'.lookup.lookup id = if id = item.key then none else rh.lookup.lookup id) ∧
      (∀ i, rh'.bucket i = (rh.bucket i).filter (·.key ≠ item.key)) ∧
      (rh.MinTight → rh'.MinTight) := by
  obtain ⟨-, member⟩ := (wf.lookup_iff _ item).1 found
  obtain ⟨list, atHeight, -⟩ := getElem?_of_mem_bucketAt member
  have listItems : list.items = rh.bucket item.value.height := by
    simp [RecomputeHeap.bucket, bucketAt, atHeight]
  obtain ⟨unfiled, bucketEq⟩ := wf.unfileItem found atHeight
  have atHeight' : ({ rh with lookup := rh.lookup.erase item.key } : RecomputeHeap).heightsAt
      item.value.height = .ok (some list) := heightsAt_of_getElem? atHeight
  simp only [removeItemUnsafe, atHeight', except_ok_bind, KeyedList.removeUnsafe]
  split
  · obtain ⟨next, scanned, -⟩ := unfiled.nextMinHeightUnsafe_spec
    obtain ⟨wellFormed, tight⟩ := unfiled.withMinHeight scanned
    exact ⟨_, by rw [scanned]; rfl, wellFormed, lookup_erase_eq _ _, bucketEq, fun _ => tight⟩
  · rename_i notLast
    refine ⟨_, rfl, unfiled, lookup_erase_eq _ _, bucketEq, fun tight nonzero => ?_⟩
    simp only [bucket_mk, bucketEq]
    have heapNonzero : rh.len ≠ 0 := fun empty => nonzero (unfiled.len_eq_zero_iff.2 fun i => by
      rw [bucket_mk, bucketEq, wf.len_eq_zero_iff.1 empty i, List.filter_nil])
    by_cases atMin : item.value.height = rh.minHeight
    · simp only [KeyedList.lenUnsafe_eq, atMin, true_and] at notLast
      rw [← atMin, ← listItems]
      exact fun empty => notLast (List.length_eq_zero.2 empty)
    · rw [wf.filter_key_ne found (Ne.symm atMin)]
      exact tight heapNonzero

end RecomputeHeap

end Incr
