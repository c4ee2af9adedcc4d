import Incr.RecomputeHeap.Run

namespace Incr

open Incr.Data

/-! # `sanityCheck`

`sanityCheck` walks the buckets in height order and each bucket's items in order, and
fails at the first item filed under an index other than its recorded height, or whose
node's height in the graph is no longer the one it was filed under.  On every heap a
run reaches the first failure never happens: the check passes exactly when no filed
node has changed height, and otherwise names a node whose height moved.

The code ranges over `height.items`, the bucket's index map, so Go visits a bucket's
items in no fixed order.  The model visits them in bucket order.  Which failing item is
reported can depend on that order, but nothing proved below does.
-/

namespace RecomputeHeap

/-- The error for an item filed under an index other than its recorded height. -/
def indexMismatch (heightIndex itemHeight : Nat) : String :=
  s!"recompute heap; sanity check; at height {heightIndex} item has height {itemHeight}"

/-- The error for an item whose node has another height in the graph. -/
def nodeMismatch (heightIndex itemHeight nodeHeight : Nat) : String :=
  s!"recompute heap; sanity check; at height {heightIndex} item has height {itemHeight} and node has height {nodeHeight}"

/-- The loop of `sanityCheck` over the items of the bucket at `heightIndex`. -/
def sanityCheckItems (height : Identifier → Nat) (heightIndex : Nat) :
    List HeapItem → Except String Unit
  | [] => .ok ()
  | item :: rest =>
      if item.value.height ≠ heightIndex then .error (indexMismatch heightIndex item.value.height)
      else if item.value.height ≠ height item.value.node then
        .error (nodeMismatch heightIndex item.value.height (height item.value.node))
      else sanityCheckItems height heightIndex rest

/-- The loop of `sanityCheck` over the buckets from `heightIndex` on. -/
def sanityCheckFrom (height : Identifier → Nat) :
    Nat → List (Option HeightList) → Except String Unit
  | _, [] => .ok ()
  | heightIndex, none :: rest => sanityCheckFrom height (heightIndex + 1) rest
  | heightIndex, some list :: rest => do
      sanityCheckItems height heightIndex list.items
      sanityCheckFrom height (heightIndex + 1) rest

/-- `sanityCheck`, against the graph's node heights `height`. -/
def sanityCheck (rh : RecomputeHeap) (height : Identifier → Nat) : Except String Unit :=
  sanityCheckFrom height 0 rh.heights

/-- Whether an item passes both checks at `heightIndex`. -/
def Sane (height : Identifier → Nat) (heightIndex : Nat) (item : HeapItem) : Prop :=
  item.value.height = heightIndex ∧ item.value.height = height item.value.node

/-- The error `sanityCheck` reports for an item that fails a check at `heightIndex`. -/
def Reports (height : Identifier → Nat) (heightIndex : Nat) (item : HeapItem) (message : String) :
    Prop :=
  (item.value.height ≠ heightIndex ∧ message = indexMismatch heightIndex item.value.height) ∨
    (item.value.height = heightIndex ∧ item.value.height ≠ height item.value.node ∧
      message = nodeMismatch heightIndex item.value.height (height item.value.node))

variable (height : Identifier → Nat)

theorem sanityCheckItems_spec (heightIndex : Nat) (items : List HeapItem) :
    (sanityCheckItems height heightIndex items = .ok () ↔ ∀ item ∈ items, Sane height heightIndex item) ∧
      ∀ message, sanityCheckItems height heightIndex items = .error message →
        ∃ item ∈ items, Reports height heightIndex item message := by
  induction items with
  | nil => exact ⟨by simp [sanityCheckItems], fun _ failed => by cases failed⟩
  | cons item rest ih =>
      rw [List.forall_mem_cons]
      by_cases atIndex : item.value.height = heightIndex
      · by_cases atNode : item.value.height = height item.value.node
        · rw [sanityCheckItems, if_neg (not_not.2 atIndex), if_neg (not_not.2 atNode)]
          refine ⟨ih.1.trans ⟨fun sane => ⟨⟨atIndex, atNode⟩, sane⟩, fun sane => sane.2⟩,
            fun message failed => ?_⟩
          obtain ⟨other, member, reports⟩ := ih.2 message failed
          exact ⟨other, List.mem_cons_of_mem _ member, reports⟩
        · rw [sanityCheckItems, if_neg (not_not.2 atIndex), if_pos atNode]
          exact ⟨⟨nofun, fun sane => absurd sane.1.2 atNode⟩, fun message failed =>
            ⟨item, List.mem_cons_self _ _, .inr ⟨atIndex, atNode, by cases failed; rfl⟩⟩⟩
      · rw [sanityCheckItems, if_pos atIndex]
        exact ⟨⟨nofun, fun sane => absurd sane.1.1 atIndex⟩, fun message failed =>
          ⟨item, List.mem_cons_self _ _, .inl ⟨atIndex, by cases failed; rfl⟩⟩⟩

theorem sanityCheckFrom_spec (heightIndex : Nat) (heights : List (Option HeightList)) :
    (sanityCheckFrom height heightIndex heights = .ok () ↔
        ∀ i, ∀ item ∈ bucketAt heights i, Sane height (heightIndex + i) item) ∧
      ∀ message, sanityCheckFrom height heightIndex heights = .error message →
        ∃ i, ∃ item ∈ bucketAt heights i, Reports height (heightIndex + i) item message := by
  induction heights generalizing heightIndex with
  | nil => exact ⟨by simp [sanityCheckFrom, bucketAt], fun _ failed => by cases failed⟩
  | cons bucket rest ih =>
      have later : (∀ i, ∀ item ∈ bucketAt rest i, Sane height (heightIndex + 1 + i) item) ↔
          ∀ i, ∀ item ∈ bucketAt (bucket :: rest) (i + 1), Sane height (heightIndex + (i + 1)) item := by
        simp only [bucketAt_cons_succ, Nat.add_assoc, Nat.add_comm 1]
      have shift : ∀ message, (∃ i, ∃ item ∈ bucketAt rest i, Reports height (heightIndex + 1 + i) item message) →
          ∃ i, ∃ item ∈ bucketAt (bucket :: rest) i, Reports height (heightIndex + i) item message :=
        fun message ⟨i, item, member, reports⟩ =>
          ⟨i + 1, item, by simpa using member, by rwa [Nat.add_assoc, Nat.add_comm 1] at reports⟩
      cases bucket with
      | none =>
          refine ⟨(ih (heightIndex + 1)).1.trans (later.trans ⟨fun sane i => ?_, fun sane i => sane (i + 1)⟩),
            fun message failed => shift message ((ih (heightIndex + 1)).2 message failed)⟩
          cases i with
          | zero => simp
          | succ i => exact sane i
      | some list =>
          have here := sanityCheckItems_spec height heightIndex list.items
          cases first : sanityCheckItems height heightIndex list.items with
          | error message =>
              simp only [sanityCheckFrom, first, except_error_bind]
              obtain ⟨item, member, reports⟩ := here.2 message first
              refine ⟨⟨nofun, fun sane => ?_⟩, fun message' failed => ?_⟩
              · rcases reports with ⟨wrong, -⟩ | ⟨-, wrong, -⟩
                · exact (wrong (sane 0 item (by simpa using member)).1).elim
                · exact (wrong (sane 0 item (by simpa using member)).2).elim
              · cases failed
                exact ⟨0, item, by simpa using member, by simpa using reports⟩
          | ok =>
              simp only [sanityCheckFrom, first, except_ok_bind]
              refine ⟨(ih (heightIndex + 1)).1.trans (later.trans ⟨fun sane i => ?_,
                fun sane i => sane (i + 1)⟩), fun message failed =>
                  shift message ((ih (heightIndex + 1)).2 message failed)⟩
              cases i with
              | zero => simpa using here.1.1 first
              | succ i => exact sane i

/-- On a well-formed heap `sanityCheck` passes exactly when every entry's node still has
the height it was filed under, and otherwise reports such a node. -/
theorem WellFormed.sanityCheck_spec {rh : RecomputeHeap} (wf : rh.WellFormed) (height : Identifier → Nat) :
    (rh.sanityCheck height = .ok () ↔
        ∀ id item, rh.lookup.lookup id = some item → item.value.height = height id) ∧
      ∀ message, rh.sanityCheck height = .error message →
        ∃ id item, rh.lookup.lookup id = some item ∧ item.value.height ≠ height id ∧
          message = nodeMismatch item.value.height item.value.height (height id) := by
  have spec := sanityCheckFrom_spec height 0 rh.heights
  simp only [Nat.zero_add] at spec
  refine ⟨spec.1.trans ⟨fun sane id item found => ?_, fun moved i item member => ?_⟩,
    fun message failed => ?_⟩
  · obtain ⟨rfl, member⟩ := (wf.lookup_iff id item).1 found
    rw [(wf.filed _ item member).2]
    exact (sane _ item member).2
  · obtain ⟨filedAt, key⟩ := wf.filed i item member
    exact ⟨filedAt, key ▸ moved item.key item (wf.lookup_of_mem member)⟩
  · obtain ⟨i, item, member, reports⟩ := spec.2 message failed
    obtain ⟨filedAt, key⟩ := wf.filed i item member
    rcases reports with ⟨wrong, -⟩ | ⟨-, moved, rfl⟩
    · exact absurd filedAt wrong
    · refine ⟨item.key, item, wf.lookup_of_mem member, key ▸ moved, ?_⟩
      rw [key, filedAt]

/-- On every heap a run reaches, `sanityCheck` passes exactly when no entry's node has
changed height since it was filed, and its only possible report is such a node. -/
theorem recomputeHeap_sanityCheck (initialHeights : Nat) (positive : 0 < initialHeights)
    (calls : List HeapCall) :
    ∃ replies rh, (newRecomputeHeap initialHeights).run calls = .ok (replies, rh) ∧
      ∀ height : Identifier → Nat,
        (rh.sanityCheck height = .ok () ↔
            ∀ id item, rh.lookup.lookup id = some item → item.value.height = height id) ∧
          ∀ message, rh.sanityCheck height = .error message →
            ∃ id item, rh.lookup.lookup id = some item ∧ item.value.height ≠ height id ∧
              message = nodeMismatch item.value.height item.value.height (height id) := by
  obtain ⟨replies, rh, ran, wf⟩ := reachable_wellFormed initialHeights positive calls
  exact ⟨replies, rh, ran, wf.sanityCheck_spec⟩

theorem recomputeHeap_sanityCheck_moved_node :
    0 < 1 ∧ ∃ replies rh, (newRecomputeHeap 1).run [.add (fun n => n) [2, 5], .removeMin] =
        .ok (replies, rh) ∧
      ∀ height : Identifier → Nat,
        (rh.sanityCheck height = .ok () ↔
            ∀ id item, rh.lookup.lookup id = some item → item.value.height = height id) ∧
          ∀ message, rh.sanityCheck height = .error message →
            ∃ id item, rh.lookup.lookup id = some item ∧ item.value.height ≠ height id ∧
              message = nodeMismatch item.value.height item.value.height (height id) :=
  ⟨by decide, recomputeHeap_sanityCheck 1 (by decide) _⟩

end RecomputeHeap

end Incr
