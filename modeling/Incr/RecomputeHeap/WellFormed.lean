import Incr.RecomputeHeap.Basic

namespace Incr

open Incr.Data

/-! # Consistency of the recompute heap

The heap stores each waiting node twice: as an item in the bucket of the height it was
filed under, and in `lookup` under its identifier.  `WellFormed` says the two agree,
that buckets hold what their index says, and that every non-empty bucket lies between
`minHeight` and `maxHeight`, which lie inside `heights`.  It does not say `minHeight`
is the least non-empty bucket: `fixUnsafe` can leave it below that.
-/

/-- The items filed in a bucket; a nil bucket files none. -/
def bucketItems : Option HeightList → List HeapItem
  | some list => list.items
  | none => []

/-- The items at index `i` of a bucket array, none beyond its end. -/
def bucketAt (heights : List (Option HeightList)) (i : Nat) : List HeapItem :=
  bucketItems heights[i]?.join

@[simp] theorem bucketItems_some (list : HeightList) : bucketItems (some list) = list.items := rfl

@[simp] theorem bucketItems_none : bucketItems none = [] := rfl

theorem bucketAt_set (heights : List (Option HeightList)) (h i : Nat) (bucket : Option HeightList) :
    bucketAt (heights.set h bucket) i =
      if h = i ∧ h < heights.length then bucketItems bucket else bucketAt heights i := by
  by_cases same : h = i
  · subst same
    by_cases inside : h < heights.length
    · simp [bucketAt, List.getElem?_set, inside]
    · simp [bucketAt, List.getElem?_set, inside, List.getElem?_eq_none (Nat.le_of_not_lt inside)]
  · simp [bucketAt, List.getElem?_set, same]

theorem bucketAt_append_none (heights : List (Option HeightList)) (count i : Nat) :
    bucketAt (heights ++ List.replicate count none) i = bucketAt heights i := by
  by_cases inside : i < heights.length
  · simp [bucketAt, List.getElem?_append_left inside]
  · have beyond : heights[i]? = none := List.getElem?_eq_none (by omega)
    simp only [bucketAt, List.getElem?_append_right (Nat.le_of_not_lt inside), beyond]
    by_cases within : i - heights.length < count <;> simp [List.getElem?_replicate, within]

theorem bucketAt_eq_nil_of_le {heights : List (Option HeightList)} {i : Nat}
    (beyond : heights.length ≤ i) : bucketAt heights i = [] := by
  simp [bucketAt, List.getElem?_eq_none beyond]

theorem lt_length_of_bucketAt_ne_nil {heights : List (Option HeightList)} {i : Nat}
    (nonempty : bucketAt heights i ≠ []) : i < heights.length :=
  Nat.lt_of_not_le fun beyond => nonempty (bucketAt_eq_nil_of_le beyond)

theorem getElem?_of_mem_bucketAt {heights : List (Option HeightList)} {i : Nat} {item : HeapItem}
    (member : item ∈ bucketAt heights i) :
    ∃ list, heights[i]? = some (some list) ∧ item ∈ list.items := by
  unfold bucketAt at member
  rcases found : heights[i]? with _ | _ | list <;> simp_all

@[simp] theorem bucketAt_cons_zero (first : Option HeightList) (rest : List (Option HeightList)) :
    bucketAt (first :: rest) 0 = bucketItems first := by
  simp [bucketAt]

@[simp] theorem bucketAt_cons_succ (first : Option HeightList) (rest : List (Option HeightList))
    (i : Nat) : bucketAt (first :: rest) (i + 1) = bucketAt rest i := by
  simp [bucketAt]

theorem mem_flatMap_bucketItems (heights : List (Option HeightList)) (item : HeapItem) :
    item ∈ heights.flatMap bucketItems ↔ ∃ i, item ∈ bucketAt heights i := by
  induction heights with
  | nil => simp [bucketAt]
  | cons first rest ih =>
      simp only [List.flatMap_cons, List.mem_append, ih]
      constructor
      · rintro (here | ⟨i, later⟩)
        · exact ⟨0, by simpa using here⟩
        · exact ⟨i + 1, by simpa using later⟩
      · rintro ⟨_ | i, member⟩
        · exact .inl (by simpa using member)
        · exact .inr ⟨i, by simpa using member⟩

/-- Keys that are unique inside each bucket and never shared by two buckets are unique
over the whole array. -/
theorem keys_nodup_flatMap {heights : List (Option HeightList)}
    (nodup : ∀ i, ((bucketAt heights i).map (·.key)).Nodup)
    (unique : ∀ i j, ∀ first ∈ bucketAt heights i, ∀ second ∈ bucketAt heights j,
      first.key = second.key → i = j) :
    ((heights.flatMap bucketItems).map (·.key)).Nodup := by
  induction heights with
  | nil => simp
  | cons first rest ih =>
      rw [List.flatMap_cons, List.map_append, List.nodup_append]
      refine ⟨by simpa using nodup 0, ih (fun i => by simpa using nodup (i + 1))
        fun i j a am b bm same =>
          Nat.succ.inj (unique (i + 1) (j + 1) a (by simpa using am) b (by simpa using bm) same), ?_⟩
      intro key hereKey laterKey
      obtain ⟨a, am, rfl⟩ := List.mem_map.1 hereKey
      obtain ⟨b, bm, sameKey⟩ := List.mem_map.1 laterKey
      obtain ⟨i, bi⟩ := (mem_flatMap_bucketItems rest b).1 bm
      exact Nat.succ_ne_zero i (unique (i + 1) 0 b (by simpa using bi) a (by simpa using am) sameKey)

namespace RecomputeHeap

/-- The items `rh` files at height `i`. -/
def bucket (rh : RecomputeHeap) (i : Nat) : List HeapItem :=
  bucketAt rh.heights i

/-- Every item of every bucket, lowest height first. -/
def items (rh : RecomputeHeap) : List HeapItem :=
  rh.heights.flatMap bucketItems

theorem hasNodes_eq (rh : RecomputeHeap) (i : Nat) (bucket : Option HeightList)
    (found : rh.heights[i]? = some bucket) : hasNodes bucket = !(rh.bucket i).isEmpty := by
  cases bucket <;> simp [hasNodes, RecomputeHeap.bucket, bucketAt, found]

theorem heightsAt_of_lt (rh : RecomputeHeap) {i : Nat} (inside : i < rh.heights.length) :
    rh.heightsAt i = .ok rh.heights[i] := by
  simp [heightsAt, List.getElem?_eq_getElem inside]

structure WellFormed (rh : RecomputeHeap) : Prop where
  minHeight_le : rh.minHeight ≤ rh.maxHeight
  maxHeight_lt : rh.maxHeight < rh.heights.length
  filed : ∀ i, ∀ item ∈ rh.bucket i, item.value.height = i ∧ item.key = item.value.node
  nodup : ∀ i, ((rh.bucket i).map (·.key)).Nodup
  lookup_iff : ∀ id item,
    rh.lookup.lookup id = some item ↔ item.key = id ∧ item ∈ rh.bucket item.value.height
  between : ∀ i, rh.bucket i ≠ [] → rh.minHeight ≤ i ∧ i ≤ rh.maxHeight

/-- `minHeight` names the least non-empty bucket whenever the heap holds a node. -/
def MinTight (rh : RecomputeHeap) : Prop :=
  rh.len ≠ 0 → rh.bucket rh.minHeight ≠ []

theorem mem_items_iff (rh : RecomputeHeap) (item : HeapItem) :
    item ∈ rh.items ↔ ∃ i, item ∈ rh.bucket i :=
  mem_flatMap_bucketItems rh.heights item

theorem len_eq_length_keys (rh : RecomputeHeap) : rh.len = rh.lookup.keys.length := by
  simp [len, AList.keys, List.keys]

theorem length_items (rh : RecomputeHeap) :
    rh.items.length = (rh.heights.map fun bucket => (bucketItems bucket).length).sum := by
  unfold items
  induction rh.heights with
  | nil => rfl
  | cons first rest ih => simp [ih]

namespace WellFormed

variable {rh : RecomputeHeap}

theorem lookup_of_mem (wf : rh.WellFormed) {i : Nat} {item : HeapItem}
    (member : item ∈ rh.bucket i) : rh.lookup.lookup item.key = some item := by
  have filedAt := (wf.filed i item member).1
  exact (wf.lookup_iff item.key item).2 ⟨rfl, filedAt ▸ member⟩

theorem eq_of_key_eq (wf : rh.WellFormed) {i j : Nat} {first second : HeapItem}
    (firstMember : first ∈ rh.bucket i) (secondMember : second ∈ rh.bucket j)
    (sameKey : first.key = second.key) : first = second := by
  have found := wf.lookup_of_mem secondMember
  rw [← sameKey, wf.lookup_of_mem firstMember] at found
  exact Option.some.inj found

theorem mem_lookup_iff (wf : rh.WellFormed) (id : Identifier) :
    id ∈ rh.lookup ↔ ∃ i, ∃ item ∈ rh.bucket i, item.key = id := by
  rw [← AList.lookup_isSome, Option.isSome_iff_exists]
  constructor
  · rintro ⟨item, found⟩
    obtain ⟨rfl, member⟩ := (wf.lookup_iff id item).1 found
    exact ⟨_, item, member, rfl⟩
  · rintro ⟨i, item, member, rfl⟩
    exact ⟨item, wf.lookup_of_mem member⟩

theorem len_eq_zero_iff (wf : rh.WellFormed) : rh.len = 0 ↔ ∀ i, rh.bucket i = [] := by
  rw [len_eq_length_keys, List.length_eq_zero, List.eq_nil_iff_forall_not_mem]
  simp only [← AList.mem_keys, wf.mem_lookup_iff, List.eq_nil_iff_forall_not_mem]
  constructor
  · intro absent i item member
    exact absent item.key ⟨i, item, member, rfl⟩
  · rintro empty id ⟨i, item, member, -⟩
    exact empty i item member

theorem keys_nodup (wf : rh.WellFormed) : (rh.items.map (·.key)).Nodup :=
  keys_nodup_flatMap wf.nodup fun i j first firstMember second secondMember sameKey => by
    have same := wf.eq_of_key_eq firstMember secondMember sameKey
    subst same
    exact (wf.filed i first firstMember).1.symm.trans (wf.filed j first secondMember).1

theorem len_eq_length_items (wf : rh.WellFormed) : rh.len = rh.items.length := by
  have perm : rh.lookup.keys.Perm (rh.items.map (·.key)) := by
    rw [List.perm_ext_iff_of_nodup rh.lookup.keys_nodup wf.keys_nodup]
    intro id
    simp only [← AList.mem_keys, wf.mem_lookup_iff, List.mem_map, mem_items_iff]
    constructor
    · rintro ⟨i, item, member, rfl⟩
      exact ⟨item, ⟨i, member⟩, rfl⟩
    · rintro ⟨item, ⟨i, member⟩, rfl⟩
      exact ⟨i, item, member, rfl⟩
  rw [len_eq_length_keys, perm.length_eq, List.length_map]

end WellFormed

end RecomputeHeap

end Incr
