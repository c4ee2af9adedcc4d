import Incr.RecomputeHeap.Refinement

namespace Incr

/-! # The heap as the stabilizer's scheduler

The recompute heap is there to hand pending nodes to the stabilization loop, lowest
height first.  Two properties of whole runs say that it does.

No node is lost or handed out twice.  From every state a run reaches, along any further
run, `Fix` included and with node heights changing between calls, a node leaves the heap
(handed out by `RemoveMin` or `RemoveMinHeight`, or dropped by a `Remove` that found it) at
most once for being there and once for each `Add` that names it, and a node that is there
or is added is still there or has left.

Nodes come out in height order.  In a pass over a graph whose heights do not change,
where the caller adds only nodes above every node it has been handed (a node's dependents
sit higher than the node), the nodes handed out have non-decreasing heights and none is
handed out twice.

Without `Fix` the order holds; with it the heap can stall.  A `Fix` that raises the only
node at `minHeight` leaves `minHeight` on the emptied bucket, and from then on `RemoveMin`
and `RemoveMinHeight` hand out nothing and change nothing while the heap holds the node.
-/

/-- The nodes a reply hands to the caller: `RemoveMin`'s node and `RemoveMinHeight`'s. -/
def Reply.handedOut : Reply → List Identifier
  | .node (some n) => [n]
  | .nodes items => items.map (·.node)
  | _ => []

namespace HeapCall

/-- The nodes a call files: those `Add` names. -/
def filed : HeapCall → List Identifier
  | .add _ nodes => nodes
  | _ => []

/-- The nodes a call takes out of the heap, given its reply: those it hands out, and the
node of a `Remove` that found it. -/
def taken : HeapCall → Reply → List Identifier
  | .remove node, .removed true => [node]
  | _, reply => reply.handedOut

/-- What a pass over heights `height` asks of one call, given the nodes `out` handed out
before it: an `Add` reads `height` and names only nodes above all of `out`, and there is
no `Fix`. -/
def FilesAbove (height : Identifier → Nat) (out : List Identifier) : HeapCall → Prop
  | .add h nodes => h = height ∧ ∀ n ∈ nodes, ∀ m ∈ out, height m < height n
  | .fix _ _ => False
  | _ => True

end HeapCall

/-- The nodes a run's calls file. -/
def filedBy (calls : List HeapCall) : List Identifier :=
  calls.flatMap HeapCall.filed

@[simp] theorem filedBy_cons (c : HeapCall) (calls : List HeapCall) :
    filedBy (c :: calls) = c.filed ++ filedBy calls :=
  rfl

/-- The nodes a run's calls take out of the heap, given their replies. -/
def takenBy : List HeapCall → List Reply → List Identifier
  | c :: calls, reply :: replies => c.taken reply ++ takenBy calls replies
  | _, _ => []

/-- The nodes a run's replies hand out. -/
def handedOutBy (replies : List Reply) : List Identifier :=
  replies.flatMap Reply.handedOut

@[simp] theorem handedOutBy_cons (reply : Reply) (replies : List Reply) :
    handedOutBy (reply :: replies) = reply.handedOut ++ handedOutBy replies :=
  rfl

/-- Every call of a run is one of a pass over heights `height`, given the nodes `out`
handed out before the run and those its earlier replies hand out. -/
def AddsAbove (height : Identifier → Nat) : List Identifier → List HeapCall → List Reply → Prop
  | out, c :: calls, reply :: replies =>
      c.FilesAbove height out ∧ AddsAbove height (out ++ reply.handedOut) calls replies
  | _, _, _ => True

theorem HeapCall.FilesAbove.isFix_eq_false {height : Identifier → Nat} {out : List Identifier}
    {c : HeapCall} (filesAbove : c.FilesAbove height out) : c.isFix = false := by
  cases c <;> first | rfl | exact filesAbove.elim

namespace AbstractHeap

variable (abs : AbstractHeap) (n : Identifier)

theorem taken_removeMinHeight_nodup :
    ((HeapCall.removeMinHeight).taken (abs.call .removeMinHeight).1).Nodup := by
  rcases abs.removeMinHeight_cases with empty | ⟨h, -, removed⟩
  · simp [call, empty, HeapCall.taken, Reply.handedOut]
  · simpa [call, removed, HeapCall.taken, Reply.handedOut] using abs.nodup_filter (·.height = h)

/-- One call of the collection: a node leaves at most as often as it was there or was
filed, and a node that was there or was filed is there afterwards or has left. -/
theorem call_ledger (c : HeapCall) :
    (c.taken (abs.call c).1).count n + ((abs.call c).2.has n).toNat ≤
        (abs.has n).toNat + c.filed.count n ∧
      (abs.has n = true ∨ n ∈ c.filed → (abs.call c).2.has n = true ∨ n ∈ c.taken (abs.call c).1) := by
  cases c with
  | add height nodes =>
      have present : (abs.add height nodes).has n = true ↔ abs.has n = true ∨ n ∈ nodes :=
        has_add_iff height nodes
      by_cases named : n ∈ nodes
      · have filed : (abs.add height nodes).has n = true := present.2 (.inr named)
        have once := List.count_pos_iff.2 named
        refine ⟨?_, fun _ => .inl filed⟩
        simp [call, HeapCall.taken, HeapCall.filed, Reply.handedOut, filed]
        omega
      · have kept : (abs.add height nodes).has n = abs.has n :=
          Bool.eq_iff_iff.2 (by simpa [named] using present)
        simp [call, HeapCall.taken, HeapCall.filed, Reply.handedOut, kept, named]
  | fix height ids =>
      simp [call, HeapCall.taken, HeapCall.filed, Reply.handedOut, has_fix]
  | remove node =>
      by_cases same : n = node
      · subst same
        cases found : abs.has n <;> simp [call, HeapCall.taken, HeapCall.filed, Reply.handedOut, found]
      · cases found : abs.has node <;>
          simp [call, HeapCall.taken, HeapCall.filed, Reply.handedOut, found, has_erase_of_ne same, same]
  | removeMin =>
      rcases abs.removeMin_cases with empty | ⟨entry, member, -, removed⟩
      · simp [call, empty, HeapCall.taken, HeapCall.filed, Reply.handedOut]
      · have found : abs.has entry.node = true := (has_iff abs _).2 ⟨entry, member, rfl⟩
        by_cases same : n = entry.node
        · subst same
          simp [call, removed, HeapCall.taken, HeapCall.filed, Reply.handedOut, found]
        · simp [call, removed, HeapCall.taken, HeapCall.filed, Reply.handedOut, has_erase_of_ne same, same]
  | removeMinHeight =>
      have nodup := abs.taken_removeMinHeight_nodup
      rcases abs.removeMinHeight_cases with empty | ⟨h, -, removed⟩
      · simp [call, empty, HeapCall.taken, HeapCall.filed, Reply.handedOut]
      · simp only [call, removed, HeapCall.taken, Reply.handedOut] at nodup ⊢
        by_cases out : n ∈ (abs.atHeight h).map (·.node)
        · simp [HeapCall.filed, List.count_eq_one_of_mem nodup out, has_dropHeight_of_mem out,
            has_of_mem_atHeight out, out]
        · simp [HeapCall.filed, List.count_eq_zero.2 out, has_dropHeight_of_not_mem out, out]

/-- The collection in a pass over heights `height`, given the nodes `out` handed out so
far: every entry sits at its node's height and at or above every node handed out, no node
handed out is filed again, and those nodes are in height order, each once. -/
structure Scheduled (height : Identifier → Nat) (out : List Identifier) (abs : AbstractHeap) :
    Prop where
  filedAt : ∀ entry ∈ abs.entries, entry.height = height entry.node
  above : ∀ m ∈ out, ∀ entry ∈ abs.entries, height m ≤ entry.height
  gone : ∀ m ∈ out, abs.has m = false
  sorted : out.Pairwise fun m n => height m ≤ height n
  nodup : out.Nodup

theorem scheduled_empty (height : Identifier → Nat) : empty.Scheduled height [] :=
  ⟨by simp [empty], by simp, by simp, .nil, .nil⟩

namespace Scheduled

variable {abs abs' : AbstractHeap} {height : Identifier → Nat} {out : List Identifier}

theorem of_subset (scheduled : abs.Scheduled height out)
    (sub : ∀ entry ∈ abs'.entries, entry ∈ abs.entries) : abs'.Scheduled height out where
  filedAt entry member := scheduled.filedAt entry (sub entry member)
  above m handed entry member := scheduled.above m handed entry (sub entry member)
  gone m handed := Bool.eq_false_iff.2 fun present =>
    Bool.eq_false_iff.1 (scheduled.gone m handed) (has_of_subset sub present)
  sorted := scheduled.sorted
  nodup := scheduled.nodup

/-- Handing out `taken`, filed nodes in height order at or below every entry, and leaving
`abs'` without them keeps the invariant. -/
theorem handOut (scheduled : abs.Scheduled height out) {taken : List Identifier}
    (sub : ∀ entry ∈ abs'.entries, entry ∈ abs.entries)
    (lowest : ∀ m ∈ taken, ∀ entry ∈ abs.entries, height m ≤ entry.height)
    (filed : ∀ m ∈ taken, abs.has m = true) (gone : ∀ m ∈ taken, abs'.has m = false)
    (sorted : taken.Pairwise fun m n => height m ≤ height n) (nodup : taken.Nodup) :
    abs'.Scheduled height (out ++ taken) where
  filedAt := (scheduled.of_subset sub).filedAt
  above m handed entry member := (List.mem_append.1 handed).elim
    (fun before => scheduled.above m before entry (sub entry member))
    (fun now => lowest m now entry (sub entry member))
  gone m handed := (List.mem_append.1 handed).elim ((scheduled.of_subset sub).gone m) (gone m)
  sorted := List.pairwise_append.2 ⟨scheduled.sorted, sorted, fun m before n now => by
    obtain ⟨entry, member, rfl⟩ := (has_iff _ _).1 (filed n now)
    exact (scheduled.above m before entry member).trans_eq (scheduled.filedAt entry member)⟩
  nodup := List.nodup_append.2 ⟨scheduled.nodup, nodup, fun ⦃m⦄ before now =>
    Bool.eq_false_iff.1 (scheduled.gone m before) (filed m now)⟩

/-- `Add` at the pass's heights, of nodes above every node handed out, keeps the
invariant. -/
theorem add (scheduled : abs.Scheduled height out) {nodes : List Identifier}
    (higher : ∀ n ∈ nodes, ∀ m ∈ out, height m < height n) :
    (abs.add height nodes).Scheduled height out where
  filedAt entry member := (mem_add member).elim (scheduled.filedAt entry) And.right
  above m handed entry member := (mem_add member).elim (scheduled.above m handed entry)
    fun ⟨named, filed⟩ => filed ▸ (higher _ named m handed).le
  gone m handed := Bool.eq_false_iff.2 fun present =>
    ((has_add_iff height nodes).1 present).elim (Bool.eq_false_iff.1 (scheduled.gone m handed))
      fun named => lt_irrefl _ (higher m named m handed)
  sorted := scheduled.sorted
  nodup := scheduled.nodup

/-- Every call of a pass keeps the invariant, with the nodes it hands out appended. -/
theorem call (scheduled : abs.Scheduled height out) {c : HeapCall}
    (filesAbove : c.FilesAbove height out) :
    (abs.call c).2.Scheduled height (out ++ (abs.call c).1.handedOut) := by
  cases c with
  | add h nodes =>
      obtain ⟨rfl, higher⟩ := filesAbove
      simpa [AbstractHeap.call, Reply.handedOut] using scheduled.add higher
  | fix => exact filesAbove.elim
  | remove node =>
      simpa [AbstractHeap.call, Reply.handedOut] using
        scheduled.of_subset fun _ kept => (mem_erase.1 kept).1
  | removeMin =>
      rcases abs.removeMin_cases with empty | ⟨entry, member, least, removed⟩
      · simpa [AbstractHeap.call, empty, Reply.handedOut] using scheduled
      · simp only [AbstractHeap.call, removed, Reply.handedOut]
        refine scheduled.handOut (fun _ kept => (mem_erase.1 kept).1) ?_ ?_ ?_
          (List.pairwise_singleton _ _) (List.nodup_singleton _) <;>
          simp only [List.mem_singleton, forall_eq, has_erase_self]
        · exact fun other member' => scheduled.filedAt entry member ▸ least other member'
        · exact (has_iff _ _).2 ⟨entry, member, rfl⟩
  | removeMinHeight =>
      rcases abs.removeMinHeight_cases with empty | ⟨h, least, removed⟩
      · simpa [AbstractHeap.call, empty, Reply.handedOut] using scheduled
      · simp only [AbstractHeap.call, removed, Reply.handedOut]
        have atLeast : ∀ m ∈ (abs.atHeight h).map (·.node), height m = h := by
          intro m taken
          obtain ⟨entry, atH, rfl⟩ := List.mem_map.1 taken
          obtain ⟨member, atHeight⟩ := mem_atHeight.1 atH
          exact (scheduled.filedAt entry member).symm.trans atHeight
        exact scheduled.handOut (fun _ kept => (mem_dropHeight.1 kept).1)
          (fun m taken entry member => atLeast m taken ▸ least entry member)
          (fun _ taken => has_of_mem_atHeight taken) (fun _ taken => has_dropHeight_of_mem taken)
          (List.pairwise_of_forall_mem_list fun m taken n taken' =>
            ((atLeast m taken).trans (atLeast n taken').symm).le)
          (abs.nodup_filter _)

end Scheduled

end AbstractHeap

namespace RecomputeHeap

variable {rh rh' : RecomputeHeap} {abs : AbstractHeap} {calls : List HeapCall} {replies : List Reply}

theorem run_cons_eq_ok {c : HeapCall} (ran : rh.run (c :: calls) = .ok (replies, rh')) :
    ∃ reply next rest, rh.call c = .ok (reply, next) ∧ next.run calls = .ok (rest, rh') ∧
      replies = reply :: rest := by
  rcases called : rh.call c with _ | ⟨reply, next⟩
  · simp [run, called] at ran
  rcases ranRest : next.run calls with _ | ⟨rest, final⟩
  · simp [run, called, ranRest] at ran
  simp only [run, called, ranRest, bind, Except.bind, Except.ok.injEq, Prod.mk.injEq] at ran
  obtain ⟨rfl, rfl⟩ := ran
  exact ⟨reply, next, rest, rfl, ranRest, rfl⟩

namespace Refines

/-- One call of the heap, `Fix` included: the ledger of `AbstractHeap.call_ledger`. -/
theorem call_ledger (refines : rh.Refines abs) (c : HeapCall) :
    ∃ reply rh' abs', rh.call c = .ok (reply, rh') ∧ rh'.Refines abs' ∧ ∀ n,
      (c.taken reply).count n + (rh'.has n).toNat ≤ (rh.has n).toNat + c.filed.count n ∧
        (rh.has n = true ∨ n ∈ c.filed → rh'.has n = true ∨ n ∈ c.taken reply) := by
  obtain ⟨reply, rh', called, ⟨rfl, refines'⟩ | ⟨-, rfl, stuck⟩⟩ := refines.call_cases c
  · refine ⟨_, rh', _, called, refines', fun n => ?_⟩
    rw [refines.has_eq, refines'.has_eq]
    exact abs.call_ledger n c
  · refine ⟨reply, rh', abs, called, refines, fun n => ?_⟩
    rcases stuck with ⟨rfl, rfl⟩ | ⟨rfl, rfl⟩ <;> simp [HeapCall.taken, HeapCall.filed, Reply.handedOut]

theorem run_ledger (refines : rh.Refines abs) (calls : List HeapCall) :
    ∃ replies rh', rh.run calls = .ok (replies, rh') ∧ ∀ n,
      (takenBy calls replies).count n + (rh'.has n).toNat ≤ (rh.has n).toNat + (filedBy calls).count n ∧
        (rh.has n = true ∨ n ∈ filedBy calls → rh'.has n = true ∨ n ∈ takenBy calls replies) := by
  induction calls generalizing rh abs with
  | nil => exact ⟨[], rh, rfl, fun n => by simp [takenBy, filedBy]⟩
  | cons c rest ih =>
      obtain ⟨reply, next, _, called, nextRefines, step⟩ := refines.call_ledger c
      obtain ⟨replies, rh', ran, run⟩ := ih nextRefines
      refine ⟨reply :: replies, rh', by simp [RecomputeHeap.run, called, ran], fun n => ?_⟩
      obtain ⟨stepCount, stepKept⟩ := step n
      obtain ⟨runCount, runKept⟩ := run n
      simp only [takenBy, filedBy_cons, List.count_append, List.mem_append]
      refine ⟨by omega, fun filed => ?_⟩
      rcases or_assoc.2 filed with before | later
      · rcases stepKept before with kept | taken
        · exact (runKept (.inl kept)).imp_right .inr
        · exact .inr (.inl taken)
      · exact (runKept (.inr later)).imp_right .inr

/-- A run of a pass, from a tight heap, keeps the collection it refines scheduled. -/
theorem run_scheduled {height : Identifier → Nat} {out : List Identifier}
    (refines : rh.Refines abs) (tight : rh.MinTight) (scheduled : abs.Scheduled height out)
    (ran : rh.run calls = .ok (replies, rh')) (above : AddsAbove height out calls replies) :
    ∃ abs', rh'.Refines abs' ∧ abs'.Scheduled height (out ++ handedOutBy replies) := by
  induction calls generalizing rh abs out replies with
  | nil =>
      cases ran
      exact ⟨abs, refines, by simpa [handedOutBy] using scheduled⟩
  | cons c rest ih =>
      obtain ⟨reply, next, replies, called, ranRest, rfl⟩ := run_cons_eq_ok ran
      obtain ⟨filesAbove, aboveRest⟩ := above
      obtain ⟨next', called', nextRefines, nextTight⟩ :=
        refines.call_spec tight filesAbove.isFix_eq_false
      obtain ⟨rfl, rfl⟩ : (abs.call c).1 = reply ∧ next' = next := by
        simpa [called'] using called
      obtain ⟨abs', refines', scheduled'⟩ :=
        ih nextRefines nextTight (scheduled.call filesAbove) ranRest aboveRest
      exact ⟨abs', refines', by simpa using scheduled'⟩

end Refines

/-- The heap loses no node and hands none out twice.  From every state a run from
`newRecomputeHeap` reaches, along every further run, `Fix` included and with heights changing
between calls, a node leaves the heap (handed out by `RemoveMin` or `RemoveMinHeight`, or
dropped by a `Remove` that found it) at most once for being there and once for each `Add`
that names it, one fewer if it is there at the end; and a node that is there or that `Add`
names is there at the end or has left.  Being there counts once, so a node that has left
leaves again only after an `Add` names it. -/
theorem recomputeHeap_loses_and_duplicates_no_node (initialHeights : Nat)
    (positive : 0 < initialHeights) (calls : List HeapCall) (replies : List Reply) (rh : RecomputeHeap)
    (ran : (newRecomputeHeap initialHeights).run calls = .ok (replies, rh)) (more : List HeapCall) :
    ∃ replies' rh', rh.run more = .ok (replies', rh') ∧ ∀ n,
      (takenBy more replies').count n + (rh'.has n).toNat ≤ (rh.has n).toNat + (filedBy more).count n ∧
        (rh.has n = true ∨ n ∈ filedBy more → rh'.has n = true ∨ n ∈ takenBy more replies') := by
  obtain ⟨_, reached, abs, ran', refines⟩ := (newRecomputeHeap_refines positive).run_exists calls
  obtain ⟨-, rfl⟩ : replies = _ ∧ rh = reached := by simpa [ran] using ran'
  exact refines.run_ledger more

theorem recomputeHeap_loses_and_duplicates_no_node_added_twice :
    ∃ replies rh, 0 < 1 ∧
      (newRecomputeHeap 1).run [.add (fun _ => 0) [0], .add (fun _ => 0) [0]] = .ok (replies, rh) ∧
      ∃ replies' rh', rh.run [.removeMin, .removeMin] = .ok (replies', rh') ∧ ∀ n,
        (takenBy [.removeMin, .removeMin] replies').count n + (rh'.has n).toNat ≤
            (rh.has n).toNat + (filedBy [.removeMin, .removeMin]).count n ∧
          (rh.has n = true ∨ n ∈ filedBy [.removeMin, .removeMin] →
            rh'.has n = true ∨ n ∈ takenBy [.removeMin, .removeMin] replies') := by
  obtain ⟨replies, rh, ran⟩ : ∃ replies rh,
      (newRecomputeHeap 1).run [.add (fun _ => 0) [0], .add (fun _ => 0) [0]] = .ok (replies, rh) :=
    ⟨_, _, rfl⟩
  exact ⟨replies, rh, by decide, ran, recomputeHeap_loses_and_duplicates_no_node 1 (by decide) _ _ rh ran _⟩

/-- The heap schedules a pass in height order.  Over a run from `newRecomputeHeap` in which
heights do not change, there is no `Fix`, and every `Add` names only nodes above all the
nodes handed out before it (a node's dependents sit above it), the nodes handed out come
in non-decreasing height, none twice, none of them is still in the heap, and every node
still in the heap is at or above all of them. -/
theorem recomputeHeap_hands_out_by_height (initialHeights : Nat) (positive : 0 < initialHeights)
    (height : Identifier → Nat) (calls : List HeapCall) (replies : List Reply) (rh : RecomputeHeap)
    (ran : (newRecomputeHeap initialHeights).run calls = .ok (replies, rh))
    (above : AddsAbove height [] calls replies) :
    (handedOutBy replies).Pairwise (fun m n => height m ≤ height n) ∧ (handedOutBy replies).Nodup ∧
      ∀ m ∈ handedOutBy replies, rh.has m = false ∧ ∀ n, rh.has n = true → height m ≤ height n := by
  have tight : (newRecomputeHeap initialHeights).MinTight := fun nonzero => absurd rfl nonzero
  obtain ⟨abs, refines, scheduled⟩ := (newRecomputeHeap_refines positive).run_scheduled tight
    (AbstractHeap.scheduled_empty height) ran above
  rw [List.nil_append] at scheduled
  refine ⟨scheduled.sorted, scheduled.nodup, fun m handed =>
    ⟨(refines.has_eq m).trans (scheduled.gone m handed), fun n present => ?_⟩⟩
  obtain ⟨entry, member, rfl⟩ := (AbstractHeap.has_iff _ _).1 ((refines.has_eq n).symm.trans present)
  exact (scheduled.above m handed entry member).trans_eq (scheduled.filedAt entry member)

theorem recomputeHeap_hands_out_by_height_in_a_pass :
    ∃ rh, 0 < 4 ∧
      (newRecomputeHeap 4).run [.add id [2, 1], .removeMinHeight, .add id [3], .removeMin, .removeMin] =
        .ok ([.done, .nodes [⟨1, 1⟩], .done, .node (some 2), .node (some 3)], rh) ∧
      AddsAbove id [] [.add id [2, 1], .removeMinHeight, .add id [3], .removeMin, .removeMin]
        [.done, .nodes [⟨1, 1⟩], .done, .node (some 2), .node (some 3)] ∧
      (handedOutBy [.done, .nodes [⟨1, 1⟩], .done, .node (some 2), .node (some 3)]).Pairwise
          (fun m n => id m ≤ id n) ∧
        (handedOutBy [.done, .nodes [⟨1, 1⟩], .done, .node (some 2), .node (some 3)]).Nodup ∧
        ∀ m ∈ handedOutBy [.done, .nodes [⟨1, 1⟩], .done, .node (some 2), .node (some 3)],
          rh.has m = false ∧ ∀ n, rh.has n = true → id m ≤ id n := by
  obtain ⟨rh, ran⟩ : ∃ rh, (newRecomputeHeap 4).run
      [.add id [2, 1], .removeMinHeight, .add id [3], .removeMin, .removeMin] =
        .ok ([.done, .nodes [⟨1, 1⟩], .done, .node (some 2), .node (some 3)], rh) := ⟨_, rfl⟩
  have above : AddsAbove id [] [.add id [2, 1], .removeMinHeight, .add id [3], .removeMin,
      .removeMin] [.done, .nodes [⟨1, 1⟩], .done, .node (some 2), .node (some 3)] := by
    simp [AddsAbove, HeapCall.FilesAbove, Reply.handedOut]
  exact ⟨rh, by decide, ran, above, recomputeHeap_hands_out_by_height 4 (by decide) id _ _ rh ran above⟩

theorem WellFormed.removeMin_of_empty (wf : rh.WellFormed) (empty : rh.bucket rh.minHeight = []) :
    rh.removeMin = .ok (none, rh) := by
  obtain ⟨result, rh', ran, -, ⟨-, rfl, rfl⟩ | ⟨item, rest, nonempty, -⟩⟩ := wf.removeMin_spec
  · exact ran
  · simp [empty] at nonempty

theorem WellFormed.removeMinHeight_of_empty (wf : rh.WellFormed) (empty : rh.bucket rh.minHeight = []) :
    rh.removeMinHeight = .ok ([], rh) := by
  obtain ⟨nodes, rh', ran, -, rfl, ⟨-, rfl⟩ | ⟨nonempty, -⟩⟩ := wf.removeMinHeight_spec
  · simpa [empty] using ran
  · exact absurd empty nonempty

/-- From a heap whose bucket at `minHeight` is empty, `RemoveMin` and `RemoveMinHeight`
hand out nothing and change nothing, however many of them run. -/
theorem WellFormed.drain_stalls (wf : rh.WellFormed) (empty : rh.bucket rh.minHeight = [])
    (removing : ∀ c ∈ calls, c = .removeMin ∨ c = .removeMinHeight) :
    ∃ drained, rh.run calls = .ok (drained, rh) ∧ handedOutBy drained = [] := by
  induction calls with
  | nil => exact ⟨[], rfl, rfl⟩
  | cons c rest ih =>
      obtain ⟨drained, ran, nothing⟩ := ih fun c member => removing c (List.mem_cons_of_mem _ member)
      rcases removing c (List.mem_cons_self _ _) with rfl | rfl
      · exact ⟨.node none :: drained, by simp [run, call, wf.removeMin_of_empty empty, ran],
          by simpa [Reply.handedOut] using nothing⟩
      · exact ⟨.nodes [] :: drained, by simp [run, call, wf.removeMinHeight_of_empty empty, ran],
          by simpa [Reply.handedOut] using nothing⟩

/-- `Fix` can stall the heap.  On every state a run reaches, a `Fix` that raises the only
node filed at `minHeight` empties that bucket and leaves `minHeight` on it while the node stays
in the heap; from there every sequence of `RemoveMin` and `RemoveMinHeight` calls hands out no
node and leaves the heap as it is, so a loop that removes until `Len` is zero never ends. -/
theorem recomputeHeap_fix_stalls_drain (initialHeights : Nat) (positive : 0 < initialHeights)
    (calls : List HeapCall) (replies : List Reply) (rh : RecomputeHeap)
    (ran : (newRecomputeHeap initialHeights).run calls = .ok (replies, rh)) (height : Identifier → Nat)
    (item : HeapItem) (only : rh.bucket rh.minHeight = [item]) (raised : rh.minHeight < height item.key) :
    ∃ rh', rh.fix height [item.key] = .ok rh' ∧ rh'.minHeight = rh.minHeight ∧
      rh'.bucket rh'.minHeight = [] ∧ rh'.has item.key = true ∧ 0 < rh'.len ∧
      ∀ drain : List HeapCall, (∀ c ∈ drain, c = .removeMin ∨ c = .removeMinHeight) →
        ∃ drained, rh'.run drain = .ok (drained, rh') ∧ handedOutBy drained = [] := by
  obtain ⟨_, reached, ran', wf⟩ := reachable_wellFormed initialHeights positive calls
  obtain ⟨-, rfl⟩ : replies = _ ∧ rh = reached := by simpa [ran] using ran'
  obtain ⟨fixed, fixedOk, fixedWf, lookupFixed, buckets, minFixed⟩ :=
    wf.fixOneUnsafe_spec height (wf.lookup_of_mem (only ▸ List.mem_singleton_self item))
  have stays : fixed.minHeight = rh.minHeight := minFixed.trans (min_eq_left raised.le)
  have emptied : fixed.bucket fixed.minHeight = [] := by
    simp [stays, buckets, only, raised.ne]
  have present : fixed.lookup.lookup item.key = some ⟨item.key, ⟨item.key, height item.key⟩⟩ := by
    rw [lookupFixed, if_pos rfl]
  exact ⟨fixed, by simpa [fix, fixUnsafe] using fixedOk, stays, emptied, by simp [has, present],
    Nat.pos_of_ne_zero (len_ne_zero_of_lookup present), fun _ removing => fixedWf.drain_stalls emptied removing⟩

theorem recomputeHeap_fix_stalls_drain_two_nodes :
    ∃ rh, 0 < 2 ∧ (newRecomputeHeap 2).run [.add id [0, 2]] = .ok ([.done], rh) ∧
      rh.bucket rh.minHeight = [⟨0, ⟨0, 0⟩⟩] ∧ rh.minHeight < 0 + 1 ∧
      ∃ rh', rh.fix (· + 1) [0] = .ok rh' ∧ rh'.minHeight = rh.minHeight ∧
        rh'.bucket rh'.minHeight = [] ∧ rh'.has 0 = true ∧ 0 < rh'.len ∧
        ∀ drain : List HeapCall, (∀ c ∈ drain, c = .removeMin ∨ c = .removeMinHeight) →
          ∃ drained, rh'.run drain = .ok (drained, rh') ∧ handedOutBy drained = [] := by
  obtain ⟨rh, ran, only, raised⟩ : ∃ rh, (newRecomputeHeap 2).run [.add id [0, 2]] = .ok ([.done], rh) ∧
      rh.bucket rh.minHeight = [⟨0, ⟨0, 0⟩⟩] ∧ rh.minHeight < 0 + 1 := ⟨_, rfl, by decide, by decide⟩
  exact ⟨rh, by decide, ran, only, raised,
    recomputeHeap_fix_stalls_drain 2 (by decide) _ _ rh ran (· + 1) _ only raised⟩

end RecomputeHeap


end Incr
