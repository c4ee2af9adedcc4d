import Incr.RecomputeHeap.Run

namespace Incr

/-! # The collection a recompute heap stands for

Seen from its callers, the heap is one list of `(node, height)` entries in the order
they were filed, each node at most once.  `Add` and `Fix` refile a node at the end of
the list, `Remove` drops it, `RemoveMin` takes the earliest-filed entry of least height
and `RemoveMinHeight` every entry of least height.  The definitions below follow that
description rather than the code; `Incr.RecomputeHeap.Refinement` relates the two.
-/

/-- Modelled from the spec: the heap's entries in filing order, each node at most once. -/
structure AbstractHeap where
  entries : List RecomputeHeapItem
  nodup : (entries.map (·.node)).Nodup

namespace AbstractHeap

def empty : AbstractHeap := ⟨[], List.nodup_nil⟩

def has (abs : AbstractHeap) (n : Identifier) : Bool :=
  abs.entries.any (·.node = n)

def len (abs : AbstractHeap) : Nat :=
  abs.entries.length

/-- The entries at height `h`, in filing order. -/
def atHeight (abs : AbstractHeap) (h : Nat) : List RecomputeHeapItem :=
  abs.entries.filter (·.height = h)

/-- The least height of an entry, `none` when there is no entry. -/
def leastHeight (abs : AbstractHeap) : Option Nat :=
  (abs.entries.map (·.height)).min?

theorem nodup_filter (abs : AbstractHeap) (p : RecomputeHeapItem → Bool) :
    ((abs.entries.filter p).map (·.node)).Nodup :=
  abs.nodup.sublist ((List.filter_sublist _).map _)

/-- Drops the entry of `n`, if there is one. -/
def erase (abs : AbstractHeap) (n : Identifier) : AbstractHeap :=
  ⟨abs.entries.filter (·.node ≠ n), abs.nodup_filter _⟩

/-- Drops every entry at height `h`. -/
def dropHeight (abs : AbstractHeap) (h : Nat) : AbstractHeap :=
  ⟨abs.entries.filter (·.height ≠ h), abs.nodup_filter _⟩

/-- Refiles `n` at height `h`: its old entry goes and `(n, h)` is appended. -/
def file (abs : AbstractHeap) (n : Identifier) (h : Nat) : AbstractHeap :=
  ⟨(abs.erase n).entries ++ [⟨n, h⟩], by
    rw [List.map_append, List.nodup_append]
    exact ⟨(abs.erase n).nodup, List.nodup_singleton _, by simp [erase]⟩⟩

/-- Modelled from the spec: `Add` refiles every node it names at its current height. -/
def add (abs : AbstractHeap) (height : Identifier → Nat) (nodes : List Identifier) : AbstractHeap :=
  nodes.foldl (fun abs n => abs.file n (height n)) abs

/-- Modelled from the spec: `Fix` refiles the node of every entry it names, and skips the
identifiers that have none. -/
def fix (abs : AbstractHeap) (height : Identifier → Nat) (ids : List Identifier) : AbstractHeap :=
  ids.foldl (fun abs id => if abs.has id then abs.file id (height id) else abs) abs

/-- Modelled from the spec: `RemoveMin` takes the earliest-filed entry of least height. -/
def removeMin (abs : AbstractHeap) : Option Identifier × AbstractHeap :=
  match abs.leastHeight.bind fun h => (abs.atHeight h).head? with
  | some entry => (some entry.node, abs.erase entry.node)
  | none => (none, abs)

/-- Modelled from the spec: `RemoveMinHeight` takes every entry of least height. -/
def removeMinHeight (abs : AbstractHeap) : List RecomputeHeapItem × AbstractHeap :=
  match abs.leastHeight with
  | some h => (abs.atHeight h, abs.dropHeight h)
  | none => ([], abs)

def call (abs : AbstractHeap) : HeapCall → Reply × AbstractHeap
  | .add height nodes => (.done, abs.add height nodes)
  | .fix height ids => (.done, abs.fix height ids)
  | .remove node => (.removed (abs.has node), abs.erase node)
  | .removeMin => (.node abs.removeMin.1, abs.removeMin.2)
  | .removeMinHeight => (.nodes abs.removeMinHeight.1, abs.removeMinHeight.2)

/-- The replies of a sequence of calls, and the collection they leave. -/
def run (abs : AbstractHeap) : List HeapCall → List Reply × AbstractHeap
  | [] => ([], abs)
  | first :: rest =>
      ((abs.call first).1 :: ((abs.call first).2.run rest).1, ((abs.call first).2.run rest).2)

@[simp] theorem mem_atHeight {abs : AbstractHeap} {h : Nat} {entry : RecomputeHeapItem} :
    entry ∈ abs.atHeight h ↔ entry ∈ abs.entries ∧ entry.height = h := by
  simp [atHeight]

theorem has_iff (abs : AbstractHeap) (n : Identifier) :
    abs.has n = true ↔ ∃ entry ∈ abs.entries, entry.node = n := by
  simp [has]

theorem atHeight_erase (abs : AbstractHeap) (n : Identifier) (i : Nat) :
    (abs.erase n).atHeight i = (abs.atHeight i).filter (·.node ≠ n) := by
  simp only [atHeight, erase, List.filter_filter, Bool.and_comm]

theorem atHeight_file (abs : AbstractHeap) (n : Identifier) (h i : Nat) :
    (abs.file n h).atHeight i =
      (abs.atHeight i).filter (·.node ≠ n) ++ if i = h then [⟨n, h⟩] else [] := by
  rw [atHeight, file, List.filter_append, ← atHeight, atHeight_erase]
  by_cases same : i = h
  · subst same; simp
  · simp [Ne.symm same, same]

theorem atHeight_dropHeight (abs : AbstractHeap) (h i : Nat) :
    (abs.dropHeight h).atHeight i = if i = h then [] else abs.atHeight i := by
  by_cases same : i = h
  · subst same; simp [atHeight, dropHeight]
  · simp only [atHeight, dropHeight, List.filter_filter, if_neg same]
    exact List.filter_congr fun entry _ => by by_cases at_i : entry.height = i <;> simp [at_i, same]

/-- The least height is the one that some entry has and no entry is below. -/
theorem leastHeight_eq_some_iff (abs : AbstractHeap) (h : Nat) :
    abs.leastHeight = some h ↔ abs.atHeight h ≠ [] ∧ ∀ entry ∈ abs.entries, h ≤ entry.height := by
  simp only [leastHeight, List.min?_eq_some_iff', List.mem_map, List.forall_mem_map,
    ne_eq, List.eq_nil_iff_forall_not_mem, mem_atHeight, not_forall, not_not, not_and]
  simp

@[simp] theorem leastHeight_eq_none_iff (abs : AbstractHeap) :
    abs.leastHeight = none ↔ abs.entries = [] := by
  simp [leastHeight]

theorem removeMin_of_atHeight {abs : AbstractHeap} {h : Nat} {entry : RecomputeHeapItem}
    {rest : List RecomputeHeapItem} (least : abs.leastHeight = some h)
    (first : abs.atHeight h = entry :: rest) :
    abs.removeMin = (some entry.node, abs.erase entry.node) := by
  simp [removeMin, least, first]

theorem removeMin_of_empty {abs : AbstractHeap} (empty : abs.entries = []) :
    abs.removeMin = (none, abs) := by
  simp [removeMin, (leastHeight_eq_none_iff abs).2 empty]

theorem removeMinHeight_of_least {abs : AbstractHeap} {h : Nat} (least : abs.leastHeight = some h) :
    abs.removeMinHeight = (abs.atHeight h, abs.dropHeight h) := by
  simp [removeMinHeight, least]

theorem removeMinHeight_of_empty {abs : AbstractHeap} (empty : abs.entries = []) :
    abs.removeMinHeight = ([], abs) := by
  simp [removeMinHeight, (leastHeight_eq_none_iff abs).2 empty]

/-! ## What each operation leaves -/

variable {abs : AbstractHeap} {n m : Identifier} {h : Nat} {entry : RecomputeHeapItem}

theorem ext_entries {other : AbstractHeap} (same : abs.entries = other.entries) : abs = other := by
  cases abs; cases other; cases same; rfl

theorem add_cons (height : Identifier → Nat) (rest : List Identifier) :
    abs.add height (n :: rest) = (abs.file n (height n)).add height rest :=
  rfl

@[simp] theorem mem_erase : entry ∈ (abs.erase n).entries ↔ entry ∈ abs.entries ∧ entry.node ≠ n := by
  simp [erase]

@[simp] theorem mem_dropHeight :
    entry ∈ (abs.dropHeight h).entries ↔ entry ∈ abs.entries ∧ entry.height ≠ h := by
  simp [dropHeight]

@[simp] theorem mem_file :
    entry ∈ (abs.file n h).entries ↔ entry ∈ abs.entries ∧ entry.node ≠ n ∨ entry = ⟨n, h⟩ := by
  simp [file]

/-- A node has at most one entry. -/
theorem eq_of_node_eq {other : RecomputeHeapItem} (member : entry ∈ abs.entries)
    (member' : other ∈ abs.entries) (same : entry.node = other.node) : entry = other :=
  List.inj_on_of_nodup_map abs.nodup member member' same

theorem has_erase_iff : (abs.erase n).has m = true ↔ abs.has m = true ∧ m ≠ n := by
  simp only [has_iff, mem_erase]
  exact ⟨fun ⟨entry, ⟨member, other⟩, named⟩ => ⟨⟨entry, member, named⟩, named ▸ other⟩,
    fun ⟨⟨entry, member, named⟩, other⟩ => ⟨entry, ⟨member, named ▸ other⟩, named⟩⟩

@[simp] theorem has_erase_self : (abs.erase n).has n = false :=
  Bool.eq_false_iff.2 fun present => (has_erase_iff.1 present).2 rfl

theorem has_erase_of_ne (other : m ≠ n) : (abs.erase n).has m = abs.has m :=
  Bool.eq_iff_iff.2 (has_erase_iff.trans (and_iff_left other))

theorem has_of_subset {other : AbstractHeap} (sub : ∀ entry ∈ other.entries, entry ∈ abs.entries)
    (present : other.has n = true) : abs.has n = true := by
  obtain ⟨entry, member, rfl⟩ := (has_iff _ _).1 present
  exact (has_iff _ _).2 ⟨entry, sub entry member, rfl⟩

theorem has_of_mem_atHeight (out : m ∈ (abs.atHeight h).map (·.node)) : abs.has m = true := by
  obtain ⟨entry, atH, rfl⟩ := List.mem_map.1 out
  exact (has_iff _ _).2 ⟨entry, (mem_atHeight.1 atH).1, rfl⟩

/-- Dropping a height drops every node filed at it and keeps every other node. -/
theorem has_dropHeight_of_mem (out : m ∈ (abs.atHeight h).map (·.node)) :
    (abs.dropHeight h).has m = false := by
  obtain ⟨entry, atH, rfl⟩ := List.mem_map.1 out
  obtain ⟨member, atHeight⟩ := mem_atHeight.1 atH
  refine Bool.eq_false_iff.2 fun present => ?_
  obtain ⟨other, kept, same⟩ := (has_iff _ _).1 present
  exact (mem_dropHeight.1 kept).2 (eq_of_node_eq (mem_dropHeight.1 kept).1 member same ▸ atHeight)

theorem has_dropHeight_of_not_mem (kept : m ∉ (abs.atHeight h).map (·.node)) :
    (abs.dropHeight h).has m = abs.has m := by
  refine Bool.eq_iff_iff.2 ⟨fun present => ?_, fun present => ?_⟩
  · obtain ⟨entry, member, rfl⟩ := (has_iff _ _).1 present
    exact (has_iff _ _).2 ⟨entry, (mem_dropHeight.1 member).1, rfl⟩
  · obtain ⟨entry, member, rfl⟩ := (has_iff _ _).1 present
    refine (has_iff _ _).2 ⟨entry, mem_dropHeight.2 ⟨member, fun atHeight => kept ?_⟩, rfl⟩
    exact List.mem_map.2 ⟨entry, mem_atHeight.2 ⟨member, atHeight⟩, rfl⟩

theorem has_file_iff : (abs.file n h).has m = true ↔ abs.has m = true ∨ m = n := by
  rw [has_iff, has_iff]
  constructor
  · rintro ⟨entry, member, rfl⟩
    rcases mem_file.1 member with ⟨member, -⟩ | rfl
    · exact .inl ⟨entry, member, rfl⟩
    · exact .inr rfl
  · rintro (⟨entry, member, rfl⟩ | rfl)
    · by_cases same : entry.node = n
      · exact ⟨⟨n, h⟩, mem_file.2 (.inr rfl), same.symm⟩
      · exact ⟨entry, mem_file.2 (.inl ⟨member, same⟩), rfl⟩
    · exact ⟨⟨m, h⟩, mem_file.2 (.inr rfl), rfl⟩

theorem has_add_iff (height : Identifier → Nat) (nodes : List Identifier) :
    (abs.add height nodes).has m = true ↔ abs.has m = true ∨ m ∈ nodes := by
  induction nodes generalizing abs with
  | nil => simp [add]
  | cons node rest ih =>
      rw [add_cons, ih, has_file_iff, List.mem_cons]
      tauto

theorem has_fix (height : Identifier → Nat) (ids : List Identifier) :
    (abs.fix height ids).has m = abs.has m := by
  induction ids generalizing abs with
  | nil => rfl
  | cons node rest ih =>
      rw [fix, List.foldl_cons, ← fix, ih]
      split
      next present => exact Bool.eq_iff_iff.2 (has_file_iff.trans (or_iff_left_of_imp (· ▸ present)))
      next => rfl

/-- An entry after `Add` was there before, or is a node it names at that node's height. -/
theorem mem_add {height : Identifier → Nat} {nodes : List Identifier}
    (member : entry ∈ (abs.add height nodes).entries) :
    entry ∈ abs.entries ∨ entry.node ∈ nodes ∧ entry.height = height entry.node := by
  induction nodes generalizing abs with
  | nil => exact .inl member
  | cons node rest ih =>
      rw [add_cons] at member
      rcases ih member with before | ⟨named, filed⟩
      · rcases mem_file.1 before with ⟨before, -⟩ | rfl
        · exact .inl before
        · exact .inr ⟨List.mem_cons_self _ _, rfl⟩
      · exact .inr ⟨List.mem_cons_of_mem _ named, filed⟩

/-- Dropping a node just filed drops it as if it had never been filed. -/
theorem erase_file : (abs.file n h).erase n = abs.erase n :=
  ext_entries (by simp [file, erase, List.filter_filter])

/-! ## `Add` is idempotent

Filing moves a node to the end of the list, so filing the same nodes again in the same
order puts them back where they are.  `Add` keeps the entries of the nodes it does not name,
and what it leaves depends only on those. -/

/-- Keeping the entries outside `n :: rest` is keeping those outside `rest` and dropping
`n`'s. -/
theorem filter_not_mem_cons (entries : List RecomputeHeapItem) (rest : List Identifier) :
    entries.filter (fun entry => entry.node ∉ n :: rest) =
      (entries.filter fun entry => entry.node ∉ rest).filter (·.node ≠ n) := by
  rw [List.filter_filter]
  exact List.filter_congr fun entry _ => by simp [not_or, Bool.and_comm]

theorem file_filter_not_mem (rest : List Identifier) :
    (abs.file n h).entries.filter (fun entry => entry.node ∉ rest) =
      abs.entries.filter (fun entry => entry.node ∉ n :: rest) ++
        if n ∈ rest then [] else [⟨n, h⟩] := by
  rw [filter_not_mem_cons]
  by_cases named : n ∈ rest <;> simp [file, erase, named, List.filter_filter, Bool.and_comm]

/-- `Add` leaves the entries of the nodes it does not name as they were, in order. -/
theorem add_filter_not_mem (height : Identifier → Nat) (nodes : List Identifier) :
    (abs.add height nodes).entries.filter (fun entry => entry.node ∉ nodes) =
      abs.entries.filter (fun entry => entry.node ∉ nodes) := by
  induction nodes generalizing abs with
  | nil => rfl
  | cons n rest ih =>
      rw [add_cons, filter_not_mem_cons, ih, file_filter_not_mem, List.filter_append]
      by_cases named : n ∈ rest <;> simp [named, List.filter_filter]

/-- What `Add` leaves depends only on the entries of the nodes it does not name. -/
theorem add_eq_of_filter_not_mem {other : AbstractHeap} (height : Identifier → Nat)
    (nodes : List Identifier) (same : abs.entries.filter (fun entry => entry.node ∉ nodes) =
      other.entries.filter (fun entry => entry.node ∉ nodes)) :
    abs.add height nodes = other.add height nodes := by
  induction nodes generalizing abs other with
  | nil => exact ext_entries (by simpa using same)
  | cons n rest ih =>
      rw [add_cons, add_cons]
      exact ih (by rw [file_filter_not_mem, file_filter_not_mem, same])

theorem add_add (height : Identifier → Nat) (nodes : List Identifier) :
    (abs.add height nodes).add height nodes = abs.add height nodes :=
  add_eq_of_filter_not_mem height nodes (add_filter_not_mem height nodes)

/-- `RemoveMin` takes nothing from an empty collection, and otherwise an entry of least
height. -/
theorem removeMin_cases (abs : AbstractHeap) :
    abs.removeMin = (none, abs) ∨ ∃ entry ∈ abs.entries, (∀ other ∈ abs.entries, entry.height ≤ other.height) ∧
      abs.removeMin = (some entry.node, abs.erase entry.node) := by
  rcases least : abs.leastHeight with _ | h
  · exact .inl (removeMin_of_empty ((leastHeight_eq_none_iff abs).1 least))
  obtain ⟨nonempty, lowest⟩ := (leastHeight_eq_some_iff abs h).1 least
  obtain ⟨entry, rest, first⟩ := List.exists_cons_of_ne_nil nonempty
  have member : entry ∈ abs.entries ∧ entry.height = h :=
    mem_atHeight.1 (first ▸ List.mem_cons_self entry rest)
  exact .inr ⟨entry, member.1, member.2 ▸ lowest, removeMin_of_atHeight least first⟩

/-- `RemoveMinHeight` takes nothing from an empty collection, and otherwise every entry at
the least height. -/
theorem removeMinHeight_cases (abs : AbstractHeap) :
    abs.removeMinHeight = ([], abs) ∨ ∃ h, (∀ other ∈ abs.entries, h ≤ other.height) ∧
      abs.removeMinHeight = (abs.atHeight h, abs.dropHeight h) := by
  rcases least : abs.leastHeight with _ | h
  · exact .inl (removeMinHeight_of_empty ((leastHeight_eq_none_iff abs).1 least))
  · exact .inr ⟨h, ((leastHeight_eq_some_iff abs h).1 least).2, removeMinHeight_of_least least⟩

end AbstractHeap

end Incr
