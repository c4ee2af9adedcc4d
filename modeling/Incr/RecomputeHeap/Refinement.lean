import Incr.RecomputeHeap.Abstract

namespace Incr

open Incr.Data

/-! # The recompute heap against its collection

`Refines rh abs` says that the bucket of every height holds, in order, the entries the
collection `abs` has at that height.  Every call keeps the relation, and each replies as
the collection does while `minHeight` names the least non-empty bucket (`MinTight`), which
every call but `Fix` keeps.

`fixUnsafe` unlinks an item with `removeUnsafe` and never moves `minHeight`, as
`removeItemUnsafe` does when it empties the bucket at `minHeight`.  After a `Fix` that bucket
can be empty while the heap is not; `RemoveMin` and `RemoveMinHeight` then reply with
nothing and change nothing, and that is the only way a run departs from the collection.
-/

/-- Whether a call is `Fix`. -/
def HeapCall.isFix : HeapCall → Bool
  | .fix .. => true
  | _ => false

namespace RecomputeHeap

/-- `rh` is well formed and its bucket at every height holds, in filing order, the
entries the collection has at that height. -/
structure Refines (rh : RecomputeHeap) (abs : AbstractHeap) : Prop where
  wellFormed : rh.WellFormed
  buckets : ∀ i, (rh.bucket i).map (·.value) = abs.atHeight i

variable {rh rh' : RecomputeHeap} {abs : AbstractHeap}

theorem newRecomputeHeap_refines {initialHeights : Nat} (positive : 0 < initialHeights) :
    (newRecomputeHeap initialHeights).Refines AbstractHeap.empty :=
  have wf := newRecomputeHeap_wellFormed positive
  ⟨wf, fun i => by rw [wf.len_eq_zero_iff.1 rfl i]; rfl⟩

theorem WellFormed.map_value_filter_key (wf : rh.WellFormed) (i : Nat) (s : Identifier) :
    ((rh.bucket i).filter (·.key ≠ s)).map (·.value) =
      ((rh.bucket i).map (·.value)).filter (·.node ≠ s) := by
  rw [List.filter_map]
  exact congrArg _ (List.filter_congr fun item member => by simp [(wf.filed i item member).2])

theorem MinTight.len_eq_zero (tight : rh.MinTight) (empty : rh.bucket rh.minHeight = []) :
    rh.len = 0 := by
  by_contra nonzero
  exact tight nonzero empty

namespace Refines

theorem mem_entries_iff (refines : rh.Refines abs) (entry : RecomputeHeapItem) :
    entry ∈ abs.entries ↔ ∃ item ∈ rh.bucket entry.height, item.value = entry := by
  have atHeight := congrArg (entry ∈ ·) (refines.buckets entry.height)
  simp only [List.mem_map, AbstractHeap.mem_atHeight, and_true, eq_iff_iff] at atHeight
  exact atHeight.symm

theorem has_eq (refines : rh.Refines abs) (n : Identifier) : rh.has n = abs.has n := by
  have wf := refines.wellFormed
  rw [Bool.eq_iff_iff, AbstractHeap.has_iff, has, Option.isSome_iff_exists]
  constructor
  · rintro ⟨item, found⟩
    obtain ⟨rfl, member⟩ := (wf.lookup_iff n item).1 found
    exact ⟨item.value, (refines.mem_entries_iff _).2 ⟨item, member, rfl⟩,
      (wf.filed _ item member).2.symm⟩
  · rintro ⟨entry, member, rfl⟩
    obtain ⟨item, inBucket, rfl⟩ := (refines.mem_entries_iff entry).1 member
    exact ⟨item, (wf.filed _ item inBucket).2 ▸ wf.lookup_of_mem inBucket⟩

/-- The heap's items, read as entries, are the collection's entries in another order. -/
theorem len_eq (refines : rh.Refines abs) : rh.len = abs.len := by
  have wf := refines.wellFormed
  have valuesNodup : (rh.items.map (·.value)).Nodup := by
    refine List.Nodup.of_map (·.node) ?_
    rw [List.map_map]
    refine (List.map_congr_left fun item member => ?_).symm ▸ wf.keys_nodup
    obtain ⟨i, inBucket⟩ := (rh.mem_items_iff item).1 member
    exact (wf.filed i item inBucket).2.symm
  have perm : (rh.items.map (·.value)).Perm abs.entries := by
    rw [List.perm_ext_iff_of_nodup valuesNodup (abs.nodup.of_map _)]
    intro entry
    simp only [List.mem_map, mem_items_iff, refines.mem_entries_iff]
    constructor
    · rintro ⟨item, ⟨i, member⟩, rfl⟩
      exact ⟨item, (wf.filed i item member).1 ▸ member, rfl⟩
    · rintro ⟨item, member, rfl⟩
      exact ⟨item, ⟨_, member⟩, rfl⟩
  rw [wf.len_eq_length_items, AbstractHeap.len, ← perm.length_eq, List.length_map]

theorem entries_eq_nil_iff (refines : rh.Refines abs) : abs.entries = [] ↔ rh.len = 0 := by
  rw [refines.len_eq, AbstractHeap.len, List.length_eq_zero]

/-- A non-empty bucket at `minHeight` makes `minHeight` the collection's least height. -/
theorem leastHeight_eq (refines : rh.Refines abs) (nonempty : rh.bucket rh.minHeight ≠ []) :
    abs.leastHeight = some rh.minHeight := by
  rw [AbstractHeap.leastHeight_eq_some_iff, ← refines.buckets]
  refine ⟨by simpa using nonempty, fun entry member => ?_⟩
  obtain ⟨item, inBucket, rfl⟩ := (refines.mem_entries_iff entry).1 member
  exact (refines.wellFormed.between _ (List.ne_nil_of_mem inBucket)).1

theorem leastHeight_of_minTight (refines : rh.Refines abs) (tight : rh.MinTight) :
    abs.leastHeight = if rh.len = 0 then none else some rh.minHeight := by
  split
  · rwa [AbstractHeap.leastHeight_eq_none_iff, refines.entries_eq_nil_iff]
  · exact refines.leastHeight_eq (tight ‹_›)

/-- A well-formed heap whose buckets changed as filing `s` at height `h` changes them
refines the collection with `s` refiled at `h`. -/
theorem file (refines : rh.Refines abs) {s : Identifier} {h : Nat} (wf' : rh'.WellFormed)
    (buckets' : ∀ i, rh'.bucket i =
      (rh.bucket i).filter (·.key ≠ s) ++ if i = h then [⟨s, ⟨s, h⟩⟩] else []) :
    rh'.Refines (abs.file s h) :=
  ⟨wf', fun i => by
    rw [buckets', List.map_append, refines.wellFormed.map_value_filter_key, refines.buckets,
      AbstractHeap.atHeight_file]
    split <;> rfl⟩

theorem erase (refines : rh.Refines abs) {s : Identifier} (wf' : rh'.WellFormed)
    (buckets' : ∀ i, rh'.bucket i = (rh.bucket i).filter (·.key ≠ s)) :
    rh'.Refines (abs.erase s) :=
  ⟨wf', fun i => by
    rw [buckets', refines.wellFormed.map_value_filter_key, refines.buckets,
      AbstractHeap.atHeight_erase]⟩

theorem addOneUnsafe_spec (refines : rh.Refines abs) (height : Identifier → Nat) (s : Identifier) :
    ∃ rh', addOneUnsafe height rh s = .ok rh' ∧ rh'.Refines (abs.file s (height s)) ∧
      (rh.MinTight → rh'.MinTight) := by
  obtain ⟨rh', added, wf', -, buckets', tight⟩ := refines.wellFormed.addOneUnsafe_spec height s
  exact ⟨rh', added, refines.file wf' buckets', tight⟩

theorem addUnsafe_spec (refines : rh.Refines abs) (height : Identifier → Nat)
    (nodes : List Identifier) :
    ∃ rh', rh.addUnsafe height nodes = .ok rh' ∧ rh'.Refines (abs.add height nodes) ∧
      (rh.MinTight → rh'.MinTight) := by
  induction nodes generalizing rh abs with
  | nil => exact ⟨rh, rfl, refines, id⟩
  | cons s rest ih =>
      obtain ⟨added, addedOk, addedRefines, addedTight⟩ := refines.addOneUnsafe_spec height s
      obtain ⟨rh', restOk, restRefines, restTight⟩ := ih addedRefines
      exact ⟨rh', by simpa only [addUnsafe, List.foldlM_cons, addedOk, except_ok_bind] using restOk,
        restRefines, restTight ∘ addedTight⟩

theorem fixOneUnsafe_spec (refines : rh.Refines abs) (height : Identifier → Nat) (id : Identifier) :
    ∃ rh', fixOneUnsafe height rh id = .ok rh' ∧
      rh'.Refines (if abs.has id then abs.file id (height id) else abs) := by
  cases found : rh.lookup.lookup id with
  | none =>
      have absent : abs.has id = false := by rw [← refines.has_eq, has, found]; rfl
      exact ⟨rh, by simp [fixOneUnsafe, found], by simpa [absent] using refines⟩
  | some item =>
      have present : abs.has id = true := by rw [← refines.has_eq, has, found]; rfl
      obtain ⟨rh', fixed, wf', -, buckets', -⟩ := refines.wellFormed.fixOneUnsafe_spec height found
      exact ⟨rh', fixed, by simpa [present] using refines.file wf' buckets'⟩

theorem fixUnsafe_spec (refines : rh.Refines abs) (height : Identifier → Nat) (ids : List Identifier) :
    ∃ rh', rh.fixUnsafe height ids = .ok rh' ∧ rh'.Refines (abs.fix height ids) := by
  induction ids generalizing rh abs with
  | nil => exact ⟨rh, rfl, refines⟩
  | cons id rest ih =>
      obtain ⟨fixed, fixedOk, fixedRefines⟩ := refines.fixOneUnsafe_spec height id
      obtain ⟨rh', restOk, restRefines⟩ := ih fixedRefines
      exact ⟨rh', by simpa only [fixUnsafe, List.foldlM_cons, fixedOk, except_ok_bind] using restOk,
        restRefines⟩

theorem remove_spec (refines : rh.Refines abs) (s : Identifier) :
    ∃ rh', rh.remove s = .ok (abs.has s, rh') ∧ rh'.Refines (abs.erase s) ∧
      (rh.MinTight → rh'.MinTight) := by
  obtain ⟨rh', removed, wf', -, buckets', tight⟩ := refines.wellFormed.remove_spec s
  exact ⟨rh', refines.has_eq s ▸ removed, refines.erase wf' buckets', tight⟩

/-- `RemoveMin` either replies as the collection does, leaving `minHeight` tight, or finds
the bucket at `minHeight` empty, replies `nil` and changes nothing. -/
theorem removeMin_cases (refines : rh.Refines abs) :
    ∃ result rh', rh.removeMin = .ok (result, rh') ∧
      ((result = abs.removeMin.1 ∧ rh'.Refines abs.removeMin.2 ∧ rh'.MinTight) ∨
        (rh.bucket rh.minHeight = [] ∧ result = none ∧ rh' = rh)) := by
  have wf := refines.wellFormed
  obtain ⟨result, rh', ran, wf', stale | ⟨item, rest, bucketIs, rfl, -, buckets', tight'⟩⟩ :=
    wf.removeMin_spec
  · exact ⟨result, rh', ran, .inr stale⟩
  have member : item ∈ rh.bucket rh.minHeight := bucketIs ▸ List.mem_cons_self _ _
  obtain ⟨filedAt, keyIs⟩ := wf.filed _ item member
  have first : abs.atHeight rh.minHeight = item.value :: rest.map (·.value) := by
    rw [← refines.buckets, bucketIs, List.map_cons]
  rw [AbstractHeap.removeMin_of_atHeight (refines.leastHeight_eq (List.ne_nil_of_mem member)) first]
  refine ⟨_, rh', ran, .inl ⟨rfl, refines.erase wf' fun i => ?_, tight'⟩⟩
  rw [buckets', ← keyIs]
  split
  · subst i
    have nodupMin := wf.nodup rh.minHeight
    rw [bucketIs, List.map_cons, List.nodup_cons] at nodupMin
    rw [bucketIs, List.filter_cons_of_neg (by simp), List.filter_eq_self.2 fun other inRest => ?_]
    simp only [ne_eq, decide_eq_true_eq]
    exact fun same => nodupMin.1 (same ▸ List.mem_map_of_mem _ inRest)
  · exact (wf.filter_key_ne (wf.lookup_of_mem member) (filedAt ▸ ‹_›)).symm

theorem removeMin_spec (refines : rh.Refines abs) (tight : rh.MinTight) :
    ∃ rh', rh.removeMin = .ok (abs.removeMin.1, rh') ∧ rh'.Refines abs.removeMin.2 ∧ rh'.MinTight := by
  obtain ⟨result, rh', ran, ⟨rfl, refines', tight'⟩ | ⟨empty, rfl, rfl⟩⟩ := refines.removeMin_cases
  · exact ⟨rh', ran, refines', tight'⟩
  · rw [AbstractHeap.removeMin_of_empty (refines.entries_eq_nil_iff.2 (tight.len_eq_zero empty))]
    exact ⟨_, ran, refines, tight⟩

/-- `RemoveMinHeight` either replies as the collection does, leaving `minHeight` tight, or
finds the bucket at `minHeight` empty, replies with no node and changes nothing. -/
theorem removeMinHeight_cases (refines : rh.Refines abs) :
    ∃ nodes rh', rh.removeMinHeight = .ok (nodes, rh') ∧
      ((nodes = abs.removeMinHeight.1 ∧ rh'.Refines abs.removeMinHeight.2 ∧ rh'.MinTight) ∨
        (rh.bucket rh.minHeight = [] ∧ nodes = [] ∧ rh' = rh)) := by
  obtain ⟨nodes, rh', ran, wf', rfl, ⟨empty, rfl⟩ | ⟨nonempty, -, buckets', tight'⟩⟩ :=
    refines.wellFormed.removeMinHeight_spec
  · exact ⟨_, _, ran, .inr ⟨empty, by simp [empty], rfl⟩⟩
  rw [AbstractHeap.removeMinHeight_of_least (refines.leastHeight_eq nonempty)]
  refine ⟨_, rh', ran, .inl ⟨refines.buckets _, ⟨wf', fun i => ?_⟩, tight'⟩⟩
  rw [buckets', AbstractHeap.atHeight_dropHeight]
  split
  · rfl
  · exact refines.buckets i

theorem removeMinHeight_spec (refines : rh.Refines abs) (tight : rh.MinTight) :
    ∃ rh', rh.removeMinHeight = .ok (abs.removeMinHeight.1, rh') ∧
      rh'.Refines abs.removeMinHeight.2 ∧ rh'.MinTight := by
  obtain ⟨nodes, rh', ran, ⟨rfl, refines', tight'⟩ | ⟨empty, rfl, rfl⟩⟩ :=
    refines.removeMinHeight_cases
  · exact ⟨rh', ran, refines', tight'⟩
  · rw [AbstractHeap.removeMinHeight_of_empty (refines.entries_eq_nil_iff.2 (tight.len_eq_zero empty))]
    exact ⟨_, ran, refines, tight⟩

/-- From a tight heap, every call but `Fix` replies as the collection does and leaves the
heap tight. -/
theorem call_spec (refines : rh.Refines abs) (tight : rh.MinTight) {c : HeapCall}
    (notFix : c.isFix = false) :
    ∃ rh', rh.call c = .ok ((abs.call c).1, rh') ∧ rh'.Refines (abs.call c).2 ∧ rh'.MinTight := by
  cases c with
  | add height nodes =>
      obtain ⟨rh', ran, refines', tight'⟩ := refines.addUnsafe_spec height nodes
      exact ⟨rh', by simp [call, add, ran, AbstractHeap.call], refines', tight' tight⟩
  | fix => cases notFix
  | remove node =>
      obtain ⟨rh', ran, refines', tight'⟩ := refines.remove_spec node
      exact ⟨rh', by simp [call, ran, AbstractHeap.call], refines', tight' tight⟩
  | removeMin =>
      obtain ⟨rh', ran, refines', tight'⟩ := refines.removeMin_spec tight
      exact ⟨rh', by simp [call, ran, AbstractHeap.call], refines', tight'⟩
  | removeMinHeight =>
      obtain ⟨rh', ran, refines', tight'⟩ := refines.removeMinHeight_spec tight
      exact ⟨rh', by simp [call, ran, AbstractHeap.call], refines', tight'⟩

theorem run_spec (refines : rh.Refines abs) (tight : rh.MinTight) {calls : List HeapCall}
    (fixFree : ∀ c ∈ calls, c.isFix = false) :
    ∃ rh', rh.run calls = .ok ((abs.run calls).1, rh') ∧ rh'.Refines (abs.run calls).2 ∧
      rh'.MinTight := by
  induction calls generalizing rh abs with
  | nil => exact ⟨rh, rfl, refines, tight⟩
  | cons first rest ih =>
      obtain ⟨next, called, nextRefines, nextTight⟩ :=
        refines.call_spec tight (fixFree first (List.mem_cons_self _ _))
      obtain ⟨rh', ran, refines', tight'⟩ :=
        ih nextRefines nextTight fun c member => fixFree c (List.mem_cons_of_mem _ member)
      exact ⟨rh', by simp [run, called, ran, AbstractHeap.run], refines', tight'⟩

/-- Any call, `Fix` included, either replies as the collection does, or is a `RemoveMin`
or `RemoveMinHeight` that finds the bucket at `minHeight` empty, replies with nothing and
changes nothing. -/
theorem call_cases (refines : rh.Refines abs) (c : HeapCall) :
    ∃ reply rh', rh.call c = .ok (reply, rh') ∧
      ((reply = (abs.call c).1 ∧ rh'.Refines (abs.call c).2) ∨
        (rh.bucket rh.minHeight = [] ∧ rh' = rh ∧
          (c = .removeMin ∧ reply = .node none ∨ c = .removeMinHeight ∧ reply = .nodes []))) := by
  cases c with
  | add height nodes =>
      obtain ⟨rh', ran, refines', -⟩ := refines.addUnsafe_spec height nodes
      exact ⟨_, rh', by simp [call, add, ran, AbstractHeap.call], .inl ⟨rfl, refines'⟩⟩
  | fix height ids =>
      obtain ⟨rh', ran, refines'⟩ := refines.fixUnsafe_spec height ids
      exact ⟨_, rh', by simp [call, fix, ran, AbstractHeap.call], .inl ⟨rfl, refines'⟩⟩
  | remove node =>
      obtain ⟨rh', ran, refines', -⟩ := refines.remove_spec node
      exact ⟨_, rh', by simp [call, ran, AbstractHeap.call], .inl ⟨rfl, refines'⟩⟩
  | removeMin =>
      obtain ⟨result, rh', ran, ⟨rfl, refines', -⟩ | ⟨empty, rfl, rfl⟩⟩ := refines.removeMin_cases
      · exact ⟨_, rh', by simp [call, ran, AbstractHeap.call], .inl ⟨rfl, refines'⟩⟩
      · exact ⟨_, _, by simp [call, ran], .inr ⟨empty, rfl, .inl ⟨rfl, rfl⟩⟩⟩
  | removeMinHeight =>
      obtain ⟨nodes, rh', ran, ⟨rfl, refines', -⟩ | ⟨empty, rfl, rfl⟩⟩ :=
        refines.removeMinHeight_cases
      · exact ⟨_, rh', by simp [call, ran, AbstractHeap.call], .inl ⟨rfl, refines'⟩⟩
      · exact ⟨_, _, by simp [call, ran], .inr ⟨empty, rfl, .inr ⟨rfl, rfl⟩⟩⟩

/-- Every state a run reaches refines some collection. -/
theorem run_exists (refines : rh.Refines abs) (calls : List HeapCall) :
    ∃ replies rh' abs', rh.run calls = .ok (replies, rh') ∧ rh'.Refines abs' := by
  induction calls generalizing rh abs with
  | nil => exact ⟨[], rh, abs, rfl, refines⟩
  | cons first rest ih =>
      obtain ⟨reply, next, called, ⟨-, nextRefines⟩ | ⟨-, rfl, -⟩⟩ := refines.call_cases first
      · obtain ⟨replies, rh', abs', ran, refines'⟩ := ih nextRefines
        exact ⟨reply :: replies, rh', abs', by simp [run, called, ran], refines'⟩
      · obtain ⟨replies, rh', abs', ran, refines'⟩ := ih refines
        exact ⟨reply :: replies, rh', abs', by simp [run, called, ran], refines'⟩

end Refines

/-- Without `Fix`, the heap answers every sequence of calls as the ordered collection
does: the same replies, the same `Has` and `Len` after it, and `minHeight` the least
height of an entry whenever there is one. -/
theorem recomputeHeap_refines_without_fix (initialHeights : Nat) (positive : 0 < initialHeights)
    (calls : List HeapCall) (fixFree : ∀ c ∈ calls, c.isFix = false) :
    ∃ rh, (newRecomputeHeap initialHeights).run calls = .ok ((AbstractHeap.empty.run calls).1, rh) ∧
      (∀ n, rh.has n = (AbstractHeap.empty.run calls).2.has n) ∧
      rh.len = (AbstractHeap.empty.run calls).2.len ∧
      (AbstractHeap.empty.run calls).2.leastHeight = if rh.len = 0 then none else some rh.minHeight := by
  have tight : (newRecomputeHeap initialHeights).MinTight := fun nonzero => absurd rfl nonzero
  obtain ⟨rh, ran, refines, tight'⟩ := (newRecomputeHeap_refines positive).run_spec tight fixFree
  exact ⟨rh, ran, refines.has_eq, refines.len_eq, refines.leastHeight_of_minTight tight'⟩

theorem recomputeHeap_refines_without_fix_pops :
    0 < 1 ∧ (∀ c ∈ [HeapCall.add (fun n => n % 3) [4, 3, 2], .removeMin, .remove 2,
        .removeMinHeight], c.isFix = false) ∧
      ∃ rh, (newRecomputeHeap 1).run [.add (fun n => n % 3) [4, 3, 2], .removeMin, .remove 2,
          .removeMinHeight] =
        .ok ((AbstractHeap.empty.run [.add (fun n => n % 3) [4, 3, 2], .removeMin, .remove 2,
          .removeMinHeight]).1, rh) ∧
      (∀ n, rh.has n = (AbstractHeap.empty.run [.add (fun n => n % 3) [4, 3, 2], .removeMin,
          .remove 2, .removeMinHeight]).2.has n) ∧
      rh.len = (AbstractHeap.empty.run [.add (fun n => n % 3) [4, 3, 2], .removeMin, .remove 2,
          .removeMinHeight]).2.len ∧
      (AbstractHeap.empty.run [.add (fun n => n % 3) [4, 3, 2], .removeMin, .remove 2,
          .removeMinHeight]).2.leastHeight = if rh.len = 0 then none else some rh.minHeight :=
  ⟨by decide, by decide, recomputeHeap_refines_without_fix 1 (by decide) _ (by decide)⟩

/-- Along every run, `Fix` included, the heap holds exactly the entries of some ordered
collection, with the same `Has` and `Len`, and the next call either replies as that
collection does or is a `RemoveMin` or `RemoveMinHeight` that finds the bucket at
`minHeight` empty, replies with nothing and leaves the heap as it was. -/
theorem recomputeHeap_departs_only_at_empty_minHeight (initialHeights : Nat)
    (positive : 0 < initialHeights) (calls : List HeapCall) (next : HeapCall) :
    ∃ replies rh abs, (newRecomputeHeap initialHeights).run calls = .ok (replies, rh) ∧
      rh.Refines abs ∧ (∀ n, rh.has n = abs.has n) ∧ rh.len = abs.len ∧
      ∃ reply rh', rh.call next = .ok (reply, rh') ∧
        ((reply = (abs.call next).1 ∧ rh'.Refines (abs.call next).2) ∨
          (rh.bucket rh.minHeight = [] ∧ rh' = rh ∧
            (next = .removeMin ∧ reply = .node none ∨ next = .removeMinHeight ∧ reply = .nodes []))) := by
  obtain ⟨replies, rh, abs, ran, refines⟩ := (newRecomputeHeap_refines positive).run_exists calls
  exact ⟨replies, rh, abs, ran, refines, refines.has_eq, refines.len_eq, refines.call_cases next⟩

theorem recomputeHeap_departs_only_at_empty_minHeight_after_fix :
    0 < 1 ∧ ∃ replies rh abs, (newRecomputeHeap 1).run [.add (fun _ => 0) [0], .fix (fun _ => 1) [0]] =
        .ok (replies, rh) ∧
      rh.Refines abs ∧ (∀ n, rh.has n = abs.has n) ∧ rh.len = abs.len ∧
      ∃ reply rh', rh.call .removeMin = .ok (reply, rh') ∧
        ((reply = (abs.call .removeMin).1 ∧ rh'.Refines (abs.call .removeMin).2) ∨
          (rh.bucket rh.minHeight = [] ∧ rh' = rh ∧
            (HeapCall.removeMin = .removeMin ∧ reply = .node none ∨
              HeapCall.removeMin = .removeMinHeight ∧ reply = .nodes []))) :=
  ⟨by decide, recomputeHeap_departs_only_at_empty_minHeight 1 (by decide) _ _⟩

/-- `Fix` moves the only node at `minHeight` one height up without moving `minHeight`, so
the next `RemoveMin` replies `nil` and the heap still holds the node, where the
collection returns it. -/
theorem removeMin_after_fix_returns_nil :
    ((newRecomputeHeap 1).run [.add (fun _ => 0) [0], .fix (fun _ => 1) [0], .removeMin]).map
        (fun result => (result.1, result.2.len)) =
      .ok ([.done, .done, .node none], 1) ∧
    (AbstractHeap.empty.run [.add (fun _ => 0) [0], .fix (fun _ => 1) [0], .removeMin]).1 =
      [.done, .done, .node (some 0)] :=
  ⟨rfl, rfl⟩

/-! ## `Add` is idempotent -/

/-- A well-formed bucket is determined by the entries it files: each item's key is its
node. -/
theorem WellFormed.bucket_eq_of_values (wf : rh.WellFormed) (wf' : rh'.WellFormed) {i : Nat}
    (same : (rh'.bucket i).map (·.value) = (rh.bucket i).map (·.value)) :
    rh'.bucket i = rh.bucket i := by
  have rebuilt : ∀ {rh : RecomputeHeap}, rh.WellFormed →
      ((rh.bucket i).map (·.value)).map (fun value => ⟨value.node, value⟩) = rh.bucket i := by
    intro rh wf
    rw [List.map_map]
    exact (List.map_congr_left fun item member => by simp [← (wf.filed i item member).2]).trans
      (List.map_id _)
  rw [← rebuilt wf', ← rebuilt wf, same]

/-- `Add` is idempotent.  From every state a run reaches, `Fix` included, a second
`Add(nodes)` at the same heights leaves every bucket the same list of items in the same
order, `lookup` the same for every identifier, and `Len` the same. -/
theorem recomputeHeap_add_idempotent (initialHeights : Nat) (positive : 0 < initialHeights)
    (calls : List HeapCall) (height : Identifier → Nat) (nodes : List Identifier) :
    ∃ replies rh once twice, (newRecomputeHeap initialHeights).run calls = .ok (replies, rh) ∧
      rh.add height nodes = .ok once ∧ once.add height nodes = .ok twice ∧
      (∀ i, twice.bucket i = once.bucket i) ∧
      (∀ id, twice.lookup.lookup id = once.lookup.lookup id) ∧ twice.len = once.len := by
  obtain ⟨replies, rh, abs, ran, refines⟩ := (newRecomputeHeap_refines positive).run_exists calls
  obtain ⟨once, addedOnce, refinesOnce, -⟩ := refines.addUnsafe_spec height nodes
  obtain ⟨twice, addedTwice, refinesTwice, -⟩ := refinesOnce.addUnsafe_spec height nodes
  rw [AbstractHeap.add_add] at refinesTwice
  obtain ⟨_, addedOnce', -, lookupOnce, -⟩ := refines.wellFormed.addUnsafe_spec height nodes
  obtain ⟨_, addedTwice', -, lookupTwice, -⟩ := refinesOnce.wellFormed.addUnsafe_spec height nodes
  obtain rfl := Except.ok.inj (addedOnce'.symm.trans addedOnce)
  obtain rfl := Except.ok.inj (addedTwice'.symm.trans addedTwice)
  refine ⟨replies, rh, _, _, ran, addedOnce, addedTwice, fun i => ?_, fun id => ?_,
    refinesTwice.len_eq.trans refinesOnce.len_eq.symm⟩
  · exact refinesOnce.wellFormed.bucket_eq_of_values refinesTwice.wellFormed
      (by rw [refinesTwice.buckets, refinesOnce.buckets])
  · by_cases named : id ∈ nodes <;> simp [lookupTwice, lookupOnce, named]

theorem recomputeHeap_add_idempotent_after_fix :
    0 < 1 ∧ ∃ replies rh once twice,
      (newRecomputeHeap 1).run [.add (fun _ => 0) [0, 1], .fix (fun _ => 1) [0]] = .ok (replies, rh) ∧
      rh.add (fun n => n % 2) [1, 0, 2] = .ok once ∧ once.add (fun n => n % 2) [1, 0, 2] = .ok twice ∧
      (∀ i, twice.bucket i = once.bucket i) ∧
      (∀ id, twice.lookup.lookup id = once.lookup.lookup id) ∧ twice.len = once.len :=
  ⟨by decide, recomputeHeap_add_idempotent 1 (by decide) _ _ _⟩

/-- `Remove` undoes `Add` on the buckets, `lookup` and `Len`.  From every state a run
reaches, `Fix` included, `Add([n])` then `Remove(n)` finds `n` and leaves every bucket,
`lookup` and `Len` as `Remove(n)` alone leaves them, which is as they were when the heap did
not hold `n`.  `minHeight`, `maxHeight` and the length of `heights` can differ, and with them
the next `RemoveMin`'s reply: `Add` can move the first two and grow `heights`. -/
theorem recomputeHeap_remove_undoes_add (initialHeights : Nat) (positive : 0 < initialHeights)
    (calls : List HeapCall) (height : Identifier → Nat) (n : Identifier) :
    ∃ replies rh added removed alone, (newRecomputeHeap initialHeights).run calls = .ok (replies, rh) ∧
      rh.add height [n] = .ok added ∧ added.remove n = .ok (true, removed) ∧
      rh.remove n = .ok (rh.has n, alone) ∧
      (∀ i, removed.bucket i = alone.bucket i) ∧
      (∀ id, removed.lookup.lookup id = alone.lookup.lookup id) ∧ removed.len = alone.len ∧
      (rh.has n = false → (∀ i, alone.bucket i = rh.bucket i) ∧
        ∀ id, alone.lookup.lookup id = rh.lookup.lookup id) := by
  obtain ⟨replies, rh, abs, ran, refines⟩ := (newRecomputeHeap_refines positive).run_exists calls
  obtain ⟨added, addedOk, refinesAdded, -⟩ := refines.addUnsafe_spec height [n]
  obtain ⟨_, addedOk', -, lookupAdded, -⟩ := refines.wellFormed.addUnsafe_spec height [n]
  obtain rfl := Except.ok.inj (addedOk.symm.trans addedOk')
  obtain ⟨removed, removedOk, wfRemoved, lookupRemoved, bucketRemoved, -⟩ :=
    refinesAdded.wellFormed.remove_spec n
  obtain ⟨alone, aloneOk, wfAlone, lookupAlone, bucketAlone, -⟩ := refines.wellFormed.remove_spec n
  have erased : (abs.add height [n]).erase n = abs.erase n := AbstractHeap.erase_file
  have refinesRemoved := erased ▸ refinesAdded.erase wfRemoved bucketRemoved
  have refinesAlone := refines.erase wfAlone bucketAlone
  have found : added.has n = true := by simp [has, lookupAdded]
  refine ⟨replies, rh, added, removed, alone, ran, addedOk, found ▸ removedOk, aloneOk,
    fun i => refinesAlone.wellFormed.bucket_eq_of_values refinesRemoved.wellFormed
      (by rw [refinesRemoved.buckets, refinesAlone.buckets]),
    fun id => by by_cases same : id = n <;> simp [lookupRemoved, lookupAlone, lookupAdded, same],
    refinesRemoved.len_eq.trans refinesAlone.len_eq.symm, fun absent => ?_⟩
  have missing : rh.lookup.lookup n = none :=
    Option.not_isSome_iff_eq_none.1 (by simpa [has] using absent)
  refine ⟨fun i => by rw [bucketAlone, refines.wellFormed.filter_key_ne_of_lookup_none missing],
    fun id => ?_⟩
  by_cases same : id = n
  · rw [lookupAlone, if_pos same, same, missing]
  · rw [lookupAlone, if_neg same]

theorem recomputeHeap_remove_undoes_add_fresh_node :
    0 < 1 ∧ ∃ replies rh added removed alone,
      (newRecomputeHeap 1).run [.add (fun _ => 0) [0, 1], .fix (fun _ => 1) [0]] = .ok (replies, rh) ∧
      rh.add id [2] = .ok added ∧ added.remove 2 = .ok (true, removed) ∧
      rh.remove 2 = .ok (rh.has 2, alone) ∧
      (∀ i, removed.bucket i = alone.bucket i) ∧
      (∀ id, removed.lookup.lookup id = alone.lookup.lookup id) ∧ removed.len = alone.len ∧
      (rh.has 2 = false → (∀ i, alone.bucket i = rh.bucket i) ∧
        ∀ id, alone.lookup.lookup id = rh.lookup.lookup id) :=
  ⟨by decide, recomputeHeap_remove_undoes_add 1 (by decide) _ _ _⟩

/-- `Fix` refiles a node whether or not its height changed.  From every state a run reaches,
`Fix([n])` for a node filed at its current height leaves that bucket holding the other
items in their order and then `n`, so the nodes filed after `n` at that height now come out
before it. -/
theorem recomputeHeap_fix_moves_unchanged_node_back (initialHeights : Nat)
    (positive : 0 < initialHeights) (calls : List HeapCall) (replies : List Reply) (rh : RecomputeHeap)
    (ran : (newRecomputeHeap initialHeights).run calls = .ok (replies, rh)) (height : Identifier → Nat)
    (n : Identifier) (filed : ∃ item ∈ rh.bucket (height n), item.key = n) :
    ∃ rh', rh.fix height [n] = .ok rh' ∧
      rh'.bucket (height n) = (rh.bucket (height n)).filter (·.key ≠ n) ++ [⟨n, ⟨n, height n⟩⟩] := by
  obtain ⟨_, rh', ran', wf⟩ := reachable_wellFormed initialHeights positive calls
  obtain ⟨-, rfl⟩ : replies = _ ∧ rh = rh' := by simpa [ran] using ran'
  obtain ⟨item, member, rfl⟩ := filed
  obtain ⟨fixed, fixedOk, -, -, buckets, -⟩ := wf.fixOneUnsafe_spec height (wf.lookup_of_mem member)
  exact ⟨fixed, by simpa [fix, fixUnsafe] using fixedOk, by simp [buckets]⟩

theorem recomputeHeap_fix_moves_unchanged_node_back_same_height :
    ∃ rh, 0 < 2 ∧ (newRecomputeHeap 2).run [.add (fun n => n % 2) [1, 3]] = .ok ([.done], rh) ∧
      (∃ item ∈ rh.bucket (1 % 2), item.key = 1) ∧
      rh.bucket 1 = [⟨1, ⟨1, 1⟩⟩, ⟨3, ⟨3, 1⟩⟩] ∧
      ∃ rh', rh.fix (fun n => n % 2) [1] = .ok rh' ∧
        rh'.bucket (1 % 2) = (rh.bucket (1 % 2)).filter (·.key ≠ 1) ++ [⟨1, ⟨1, 1 % 2⟩⟩] := by
  obtain ⟨rh, ran, filed, bucket⟩ : ∃ rh, (newRecomputeHeap 2).run [.add (fun n => n % 2) [1, 3]] =
      .ok ([.done], rh) ∧ (∃ item ∈ rh.bucket (1 % 2), item.key = 1) ∧
      rh.bucket 1 = [⟨1, ⟨1, 1⟩⟩, ⟨3, ⟨3, 1⟩⟩] := ⟨_, rfl, by decide, by decide⟩
  exact ⟨rh, by decide, ran, filed, bucket,
    recomputeHeap_fix_moves_unchanged_node_back 2 (by decide) _ _ rh ran (fun n => n % 2) 1 filed⟩

end RecomputeHeap

end Incr
