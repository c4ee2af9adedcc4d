import Incr.Bind.Outcome

namespace Incr

/-! # The edges `Stabilize` leaves at a bind

After every call of `Stabilize` on a bind `b`, whether it returned nil or an error,
`b.bindChange` is nil exactly when `b.bound` is, the current bound hangs under the
current bind-change node and above `b`, and no node `b` bound earlier, and no
bind-change node `b` made earlier, keeps an edge that joins it to `b`'s other nodes.

This needs more than the restrictions on `fn`: the relinking loop links every
necessary bind in `b`'s scope, and a bind there that is bound to one of `b`'s
bind-change nodes gets its edge from that node back after `b` has moved on.  So
`Allowed` also asks that no bind in the scope names a bind-change node of `b`, and that
none is `b` or has `b` as its bind-change node or bound; a bind there may read `b`.

The proof carries `Linked`, which fixes every edge at `b`'s own nodes from `b`'s
fields alone, through each helper of `Stabilize` and then along the run.
-/

namespace BindIncr

variable (b : BindIncr)

/-- A node that is neither the bind nor one of its bind-change nodes. -/
def Foreign (r : NodeRef) : Prop :=
  r ≠ b.self ∧ r.isBindChangeOf b.id = false

instance (r : NodeRef) : Decidable (b.Foreign r) :=
  inferInstanceAs (Decidable (_ ∧ _))

/-- What a call of `Stabilize` must satisfy to keep the bind's edges: `fn` returns none of
the bind's bind-change nodes; no bind in its scope, at any depth, names one of them; and
none is the bind or has it as its bind-change node or bound. -/
structure Allowed (env : StabilizeEnv) : Prop where
  fnResult : ∀ n, env.fnResult = .ok (some n) → n.isBindChangeOf b.id = false
  scope : ∀ r ∈ scopeRefs env.rhsNodes, r.isBindChangeOf b.id = false
  targets : ∀ r ∈ scopeTargets env.rhsNodes, b.Foreign r

/-- The edges at the bind after a call, of the state `s` a run reaches and the nodes
`bounds` the bind has bound: the bind-change node and the bound are nil together, the
current bound hangs from the current bind-change node under the input and above the bind,
and no earlier bound or bind-change node keeps an edge that joins it to the bind's other
nodes. -/
structure BindEdges (s : BindState) (bounds : List NodeRef) : Prop where
  bindChange_eq_none_iff : s.bindChange = none ↔ s.bound = none
  current : ∀ c d, s.bindChange = some c → s.bound = some d →
    (b.input, c) ∈ s.edges ∧ (c, d) ∈ s.edges ∧ (d, b.self) ∈ s.edges
  oldBound : ∀ d ∈ bounds, s.bound ≠ some d →
    (d, b.self) ∉ s.edges ∧ ∀ k < s.created, (.bindChange b.id k, d) ∉ s.edges
  oldBindChange : ∀ k < s.created, s.bindChange ≠ some (.bindChange b.id k) →
    (b.input, .bindChange b.id k) ∉ s.edges ∧ ∀ d ∈ bounds, (.bindChange b.id k, d) ∉ s.edges

/-- The edges at the bind's own nodes, fixed by its fields: an edge leaves a
bind-change node only from the current one to the current bound, enters one only from
the input to the current one, and of the nodes the bind has bound only the current
bound has an edge to it. -/
structure Linked (s : BindState) (bounds : List NodeRef) : Prop where
  bindChange_made : ∀ c, s.bindChange = some c → ∃ k < s.created, c = .bindChange b.id k
  bound_recorded : ∀ d, s.bound = some d → d ∈ bounds
  recorded_not_bindChange : ∀ d ∈ bounds, d.isBindChangeOf b.id = false
  out_iff : ∀ k x, (.bindChange b.id k, x) ∈ s.edges ↔
    s.bindChange = some (.bindChange b.id k) ∧ s.bound = some x
  in_iff : ∀ k x, (x, .bindChange b.id k) ∈ s.edges ↔
    s.bindChange = some (.bindChange b.id k) ∧ x = b.input
  self_iff : ∀ d ∈ bounds, (d, b.self) ∈ s.edges ↔ s.bound = some d

/-- `Linked` between calls, when the bind-change node and the bound are nil together. -/
structure Invariant (s : BindState) (bounds : List NodeRef) extends b.Linked s bounds : Prop where
  bindChange_eq_none_iff : s.bindChange = none ↔ s.bound = none

@[simp] theorem input_ne_bindChange (k : Nat) : b.input ≠ .bindChange b.id k := fun same => by
  simpa [same, NodeRef.isBindChangeOf] using b.input_not_bindChange

@[simp] theorem bindChange_ne_input (k : Nat) : NodeRef.bindChange b.id k ≠ b.input :=
  fun same => b.input_ne_bindChange k same.symm

@[simp] theorem self_ne_bindChange (owner k : Nat) : b.self ≠ .bindChange owner k := nofun

@[simp] theorem bindChange_ne_self (owner k : Nat) : NodeRef.bindChange owner k ≠ b.self := nofun

theorem invariant_initial {edges : Edges}
    (fresh : ∀ e ∈ edges, e.1.isBindChangeOf b.id = false ∧ e.2.isBindChangeOf b.id = false)
    (boundAt : Nat) : b.Invariant ⟨none, none, boundAt, 0, edges⟩ [] where
  bindChange_made := nofun
  bound_recorded := nofun
  recorded_not_bindChange := nofun
  out_iff k x := ⟨fun member => by simpa [NodeRef.isBindChangeOf] using (fresh _ member).1,
    fun ⟨noneEq, _⟩ => nomatch noneEq⟩
  in_iff k x := ⟨fun member => by simpa [NodeRef.isBindChangeOf] using (fresh _ member).2,
    fun ⟨noneEq, _⟩ => nomatch noneEq⟩
  self_iff := nofun
  bindChange_eq_none_iff := Iff.rfl

variable {b} {s : BindState} {bounds : List NodeRef}

theorem Invariant.bindEdges (invariant : b.Invariant s bounds) : b.BindEdges s bounds where
  bindChange_eq_none_iff := invariant.bindChange_eq_none_iff
  current c d hasChange hasBound := by
    obtain ⟨k, -, rfl⟩ := invariant.bindChange_made c hasChange
    exact ⟨(invariant.in_iff k _).2 ⟨hasChange, rfl⟩, (invariant.out_iff k d).2 ⟨hasChange, hasBound⟩,
      (invariant.self_iff d (invariant.bound_recorded d hasBound)).2 hasBound⟩
  oldBound d recorded notBound :=
    ⟨fun member => notBound ((invariant.self_iff d recorded).1 member),
      fun k _ member => notBound ((invariant.out_iff k d).1 member).2⟩
  oldBindChange k _ notCurrent :=
    ⟨fun member => notCurrent ((invariant.in_iff k _).1 member).1,
      fun d _ member => notCurrent ((invariant.out_iff k d).1 member).1⟩

/-- Recording the current bound among the bound nodes keeps `Linked`. -/
theorem Linked.record (linked : b.Linked s bounds) : b.Linked s (bounds ++ s.bound.toList) where
  __ := linked
  bound_recorded d hasBound := List.mem_append_left _ (linked.bound_recorded d hasBound)
  recorded_not_bindChange d member := by
    rcases List.mem_append.1 member with old | current
    · exact linked.recorded_not_bindChange d old
    · exact linked.recorded_not_bindChange d (linked.bound_recorded d (Option.mem_toList.1 current))
  self_iff d member := by
    rcases List.mem_append.1 member with old | current
    · exact linked.self_iff d old
    · exact linked.self_iff d (linked.bound_recorded d (Option.mem_toList.1 current))

/-- Adding edges that leave no bind-change node and enter only foreign nodes keeps
`Linked`. -/
theorem Linked.addForeign (linked : b.Linked s bounds) {edges : Edges}
    (adds : Adds (Joins (·.isBindChangeOf b.id = false) b.Foreign) s.edges edges) :
    b.Linked { s with edges := edges } bounds where
  __ := linked
  out_iff k x := by
    refine ⟨fun member => (linked.out_iff k x).1 (((adds _).2 member).resolve_right ?_),
      fun current => (adds _).1 ((linked.out_iff k x).2 current)⟩
    exact fun joins => by simpa [NodeRef.isBindChangeOf] using joins.1
  in_iff k x := by
    refine ⟨fun member => (linked.in_iff k x).1 (((adds _).2 member).resolve_right ?_),
      fun current => (adds _).1 ((linked.in_iff k x).2 current)⟩
    exact fun joins => by simpa [NodeRef.isBindChangeOf] using joins.2.2
  self_iff d recorded := by
    refine ⟨fun member => (linked.self_iff d recorded).1 (((adds _).2 member).resolve_right ?_),
      fun current => (adds _).1 ((linked.self_iff d recorded).2 current)⟩
    exact fun joins => joins.2.1 rfl

/-- Unbinding `d` removes its edges `bindChange → d` and `d → b`, the only ones it had at
the bind's own nodes. -/
theorem Linked.unlinkOldBound (linked : b.Linked s bounds) :
    b.Linked (b.unlinkOldBound s) bounds := by
  cases hasBound : s.bound with
  | none => simpa [BindIncr.unlinkOldBound, hasBound] using linked
  | some d =>
      have unlinked : ∀ e, e ∈ (b.unlinkOldBound s).edges ↔
          e ∈ s.edges ∧ (∀ c, s.bindChange = some c → e ≠ (c, d)) ∧ e ≠ (d, b.self) := fun e => by
        simp [mem_unlinkOldBound_edges, hasBound]
      refine ⟨by simpa using linked.bindChange_made, by simp, linked.recorded_not_bindChange,
        fun k x => ?_, fun k x => ?_, fun d' recorded => ?_⟩
      · simp only [unlinked, unlinkOldBound_bound, reduceCtorEq, and_false, iff_false]
        rintro ⟨member, notCurrent, -⟩
        obtain ⟨hasChange, same⟩ := (linked.out_iff k x).1 member
        exact notCurrent _ hasChange (by rw [Option.some.inj (hasBound.symm.trans same)])
      · rw [unlinked, unlinkOldBound_bindChange]
        refine ⟨fun member => (linked.in_iff k x).1 member.1, fun ⟨hasChange, input⟩ => ?_⟩
        subst input
        refine ⟨(linked.in_iff k _).2 ⟨hasChange, rfl⟩, fun c current same => ?_, by simp⟩
        obtain rfl := Option.some.inj (hasChange.symm.trans current)
        exact b.input_ne_bindChange k (Prod.mk.inj same).1
      · simp only [unlinked, unlinkOldBound_bound, reduceCtorEq, iff_false]
        rintro ⟨member, -, notOld⟩
        have same := (linked.self_iff d' recorded).1 member
        exact notOld (by rw [Option.some.inj (hasBound.symm.trans same)])

/-- Dropping the bind-change node `c` removes its edges `input → c` and `c → bound`, the only
ones it had. -/
theorem Linked.unlinkBindChange (linked : b.Linked s bounds) :
    b.Linked (b.unlinkBindChange s) bounds := by
  cases hasChange : s.bindChange with
  | none => simpa [BindIncr.unlinkBindChange, hasChange] using linked
  | some c =>
      have unlinked : ∀ e, e ∈ (b.unlinkBindChange s).edges ↔
          e ∈ s.edges ∧ (∀ d, s.bound = some d → e ≠ (c, d)) ∧ e ≠ (b.input, c) := fun e => by
        simp [mem_unlinkBindChange_edges, hasChange]
      obtain ⟨j, -, rfl⟩ := linked.bindChange_made _ hasChange
      refine ⟨by simp, by simpa using linked.bound_recorded, linked.recorded_not_bindChange,
        fun k x => ?_, fun k x => ?_, fun d recorded => ?_⟩
      · simp only [unlinked, unlinkBindChange_bindChange, reduceCtorEq, false_and, iff_false]
        rintro ⟨member, notCurrent, -⟩
        obtain ⟨current, hasBound⟩ := (linked.out_iff k x).1 member
        exact notCurrent x hasBound (by rw [Option.some.inj (hasChange.symm.trans current)])
      · simp only [unlinked, unlinkBindChange_bindChange, reduceCtorEq, false_and, iff_false]
        rintro ⟨member, -, notInput⟩
        obtain ⟨current, rfl⟩ := (linked.in_iff k x).1 member
        exact notInput (by rw [Option.some.inj (hasChange.symm.trans current)])
      · rw [unlinked, unlinkBindChange_bound]
        refine ⟨fun member => (linked.self_iff d recorded).1 member.1, fun hasBound => ?_⟩
        have notChange := linked.recorded_not_bindChange d recorded
        refine ⟨(linked.self_iff d recorded).2 hasBound, fun d' _ same => ?_, by simp⟩
        simp only [Prod.mk.injEq] at same
        simp [same.1, NodeRef.isBindChangeOf] at notChange

theorem Linked.withBoundAt (linked : b.Linked s bounds) (t : Nat) :
    b.Linked (s.withBoundAt t) bounds :=
  ⟨linked.bindChange_made, linked.bound_recorded, linked.recorded_not_bindChange, linked.out_iff,
    linked.in_iff, linked.self_iff⟩

theorem Linked.linkBindChange (linked : b.Linked s bounds) (noChange : s.bindChange = none)
    (noBound : s.bound = none) : b.Linked (b.linkBindChange s) bounds where
  bindChange_made c made := ⟨s.created, Nat.lt_succ_self _, (Option.some.inj made).symm⟩
  bound_recorded := linked.bound_recorded
  recorded_not_bindChange := linked.recorded_not_bindChange
  out_iff k x := by simp [linked.out_iff, noChange, noBound]
  in_iff k x := by
    simp only [linkBindChange_edges, Edges.mem_link_some, Prod.mk.injEq, linked.in_iff, noChange,
      linkBindChange_bindChange, Option.some.injEq]
    simp [and_comm, eq_comm]
  self_iff d recorded := by simp [linked.self_iff d recorded]

/-- Filing `n` as the new bound under the bind-change node `c`, before the relinking
loop: the edges `n → b` and `c → n`. -/
theorem Linked.bindNew (linked : b.Linked s bounds) {c n : NodeRef} (hasChange : s.bindChange = some c)
    (noBound : s.bound = none) (notChange : n.isBindChangeOf b.id = false) :
    b.Linked { s with bound := some n, edges := (s.edges.link b.self (some n)).link n (some c) }
      (bounds ++ [n]) := by
  obtain ⟨j, -, rfl⟩ := linked.bindChange_made _ hasChange
  have notRecorded : ∀ d ∈ bounds ++ [n], d.isBindChangeOf b.id = false := fun d member => by
    rcases List.mem_append.1 member with old | new
    · exact linked.recorded_not_bindChange d old
    · rwa [List.mem_singleton.1 new]
  refine ⟨linked.bindChange_made, fun d same => by simp_all, notRecorded, fun k x => ?_,
    fun k x => ?_, fun d recorded => ?_⟩
  · have : n ≠ .bindChange b.id k := by rintro rfl; simp [NodeRef.isBindChangeOf] at notChange
    simp [linked.out_iff, hasChange, noBound, this, eq_comm]
  · have : n ≠ .bindChange b.id k := by rintro rfl; simp [NodeRef.isBindChangeOf] at notChange
    simp [linked.in_iff, hasChange, this, Ne.symm this]
  · have notChange' : d ≠ .bindChange b.id j := fun same => by
      simpa [same, NodeRef.isBindChangeOf] using notRecorded d recorded
    rcases List.mem_append.1 recorded with old | new
    · simp [linked.self_iff d old, noBound, notChange', eq_comm]
    · simp [List.mem_singleton.1 new]

theorem Linked.linkNewBound (linked : b.Linked s bounds) {env : StabilizeEnv} {c n : NodeRef}
    (allowed : b.Allowed env) (hasChange : s.bindChange = some c) (noBound : s.bound = none)
    (notChange : n.isBindChangeOf b.id = false) :
    b.Linked (b.linkNewBound env s n).1 (bounds ++ [n]) := by
  have filed := linked.bindNew hasChange noBound notChange
  have relinked := filed.addForeign ((linkScope_adds env.rhsNodes _).joins_mono allowed.scope allowed.targets)
  simpa [BindIncr.linkNewBound, linkBound, hasChange] using relinked

/-- Relinking the current bound adds only edges that are there already, and those of the
scope's binds. -/
theorem Linked.link (linked : b.Linked s bounds) {env : StabilizeEnv} {c d : NodeRef}
    (allowed : b.Allowed env) (hasChange : s.bindChange = some c) (hasBound : s.bound = some d) :
    b.Linked (b.link env s).1 bounds := by
  obtain ⟨j, -, rfl⟩ := linked.bindChange_made _ hasChange
  have present : ∀ e ∈ [(b.input, .bindChange b.id j), (d, b.self), (.bindChange b.id j, d)],
      e ∈ s.edges := by
    simp only [List.mem_cons, List.mem_singleton, List.not_mem_nil, or_false]
    rintro e (rfl | rfl | rfl)
    · exact (linked.in_iff j _).2 ⟨hasChange, rfl⟩
    · exact (linked.self_iff d (linked.bound_recorded d hasBound)).2 hasBound
    · exact (linked.out_iff j d).2 ⟨hasChange, hasBound⟩
  have relinked : Adds (Joins (·.isBindChangeOf b.id = false) b.Foreign) s.edges (b.link env s).1.edges := by
    simp only [BindIncr.link, linkWith, hasChange, hasBound, linkBound]
    split
    · have present' : Adds (Joins (·.isBindChangeOf b.id = false) b.Foreign) s.edges
          (((s.edges.link (.bindChange b.id j) (some b.input)).link b.self (some d)).link d
            (some (.bindChange b.id j))) := by
        intro e
        simp only [Edges.mem_link_some]
        refine ⟨fun member => .inr (.inr (.inr member)), fun member => .inl ?_⟩
        rcases member with rfl | rfl | rfl | member
        · exact present _ (by simp)
        · exact present _ (by simp)
        · exact present _ (by simp)
        · exact member
      exact present'.trans ((linkScope_adds env.rhsNodes _).joins_mono allowed.scope allowed.targets)
    · exact .refl _
  exact linked.addForeign relinked

theorem Invariant.withBoundAt (invariant : b.Invariant s bounds) (t : Nat) :
    b.Invariant (s.withBoundAt t) bounds :=
  ⟨invariant.toLinked.withBoundAt t, invariant.bindChange_eq_none_iff⟩

/-- One call of `Stabilize`, nil or error, keeps the invariant, with the bound it leaves
recorded. -/
theorem Invariant.stabilize (invariant : b.Invariant s bounds) {env : StabilizeEnv}
    (allowed : b.Allowed env) :
    b.Invariant (b.stabilize env s).1 (bounds ++ (b.stabilize env s).1.bound.toList) := by
  have linked := invariant.toLinked
  have kept : b.Invariant s (bounds ++ s.bound.toList) := ⟨linked.record, invariant.bindChange_eq_none_iff⟩
  rcases b.stabilize_cases env s with ⟨-, result⟩ | ⟨num, -, -, result⟩ | ⟨_, _, -, -, -, result⟩ |
    ⟨-, -, result⟩ | ⟨num, -, hasBound, -, result⟩ | ⟨n, t, ran, noBound, result⟩ |
    ⟨n, t, ran, hasBound, -, result⟩ | ⟨d, num, t, -, hasBound, -, result⟩ <;> rw [result]
  · exact kept
  · exact kept.withBoundAt num
  · exact kept
  · exact kept
  · rw [BindState.withBoundAt_bound, unlinkBindChange_bound, unlinkOldBound_bound]
    exact (show b.Invariant _ (bounds ++ []) from
      ⟨by simpa using linked.unlinkOldBound.unlinkBindChange, by simp⟩).withBoundAt num
  · have noChange := invariant.bindChange_eq_none_iff.2 noBound
    have filed := (linked.linkBindChange noChange noBound).linkNewBound allowed
      (linkBindChange_bindChange _ _) (by simp [noBound]) (allowed.fnResult n (fnResult_of_returned ran))
    rw [BindState.withBoundAt_bound, linkNewBound_bound]
    exact (show b.Invariant _ (bounds ++ [n]) from ⟨filed, by simp⟩).withBoundAt t
  · have unlinked := linked.unlinkOldBound.unlinkBindChange
    have filed := (unlinked.linkBindChange (by simp) (by simp)).linkNewBound allowed
      (linkBindChange_bindChange _ _) (by simp) (allowed.fnResult n (fnResult_of_returned ran))
    rw [BindState.withBoundAt_bound, linkNewBound_bound]
    exact (show b.Invariant _ (bounds ++ [n]) from ⟨filed, by simp⟩).withBoundAt t
  · obtain ⟨c, hasChange⟩ := Option.ne_none_iff_exists'.1
      (mt invariant.bindChange_eq_none_iff.1 (by simp [hasBound]))
    rw [BindState.withBoundAt_bound]
    exact (show b.Invariant (b.link env s).1 (bounds ++ (b.link env s).1.bound.toList) from
      ⟨(linked.link allowed hasChange hasBound).record, invariant.bindChange_eq_none_iff⟩).withBoundAt t

/-- Every call of a run keeps the invariant, with the bound after each call recorded. -/
theorem Invariant.stabilizeRun (invariant : b.Invariant s bounds) {envs : List StabilizeEnv}
    (allowed : ∀ env ∈ envs, b.Allowed env) :
    b.Invariant (b.stabilizeRun s envs).2 (bounds ++ b.boundsAfter s envs) := by
  induction envs generalizing s bounds with
  | nil => simpa [BindIncr.stabilizeRun, BindIncr.boundsAfter] using invariant
  | cons env rest ih =>
      have next := ih (invariant.stabilize (allowed env (List.mem_cons_self _ _)))
        fun env' member => allowed env' (List.mem_cons_of_mem _ member)
      simpa [BindIncr.stabilizeRun, BindIncr.boundsAfter, List.append_assoc] using next

end BindIncr

/-- After every call of a run of `Stabilize` on a new bind `b` (nothing bound, no
bind-change node yet, so no edge at one), nil or error, the bind-change node is nil
exactly when the bound is, the current bound hangs from the current bind-change node
under the input and above `b`, no earlier bound keeps an edge to `b` or from a
bind-change node of `b`, and no earlier bind-change node keeps an edge from the input
or to a node `b` has bound — provided no call's `fn` returns a bind-change node of `b`,
no bind in `b`'s scope names a bind-change node of `b`, and none is `b` or has `b` as its
bind-change node or bound. -/
theorem stabilize_keeps_bind_edges (b : BindIncr) (edges : Edges)
    (fresh : ∀ e ∈ edges, e.1.isBindChangeOf b.id = false ∧ e.2.isBindChangeOf b.id = false)
    (boundAt : Nat) (envs : List StabilizeEnv) (allowed : ∀ env ∈ envs, b.Allowed env) :
    b.BindEdges (b.stabilizeRun ⟨none, none, boundAt, 0, edges⟩ envs).2
      (b.boundsAfter ⟨none, none, boundAt, 0, edges⟩ envs) := by
  simpa using ((b.invariant_initial fresh boundAt).stabilizeRun allowed).bindEdges

theorem stabilize_keeps_bind_edges_rebinding :
    (∀ e ∈ ([(.node 1, .node 0)] : Edges),
      e.1.isBindChangeOf 0 = false ∧ e.2.isBindChangeOf 0 = false) ∧
    (∀ env ∈ [⟨some 1, 1, 0, 0, .ok (some (.node 2)), [.bind 2 (.node 4) true true none none []]⟩,
        ⟨some 2, 2, 1, 0, .ok (some (.node 3)), [.bind 2 (.node 4) true true none none []]⟩],
      BindIncr.Allowed ⟨0, .node 1, rfl⟩ env) ∧
    BindIncr.BindEdges ⟨0, .node 1, rfl⟩
      (BindIncr.stabilizeRun ⟨0, .node 1, rfl⟩ ⟨none, none, 0, 0, [(.node 1, .node 0)]⟩
        [⟨some 1, 1, 0, 0, .ok (some (.node 2)), [.bind 2 (.node 4) true true none none []]⟩,
          ⟨some 2, 2, 1, 0, .ok (some (.node 3)), [.bind 2 (.node 4) true true none none []]⟩]).2
      (BindIncr.boundsAfter ⟨0, .node 1, rfl⟩ ⟨none, none, 0, 0, [(.node 1, .node 0)]⟩
        [⟨some 1, 1, 0, 0, .ok (some (.node 2)), [.bind 2 (.node 4) true true none none []]⟩,
          ⟨some 2, 2, 1, 0, .ok (some (.node 3)), [.bind 2 (.node 4) true true none none []]⟩]) := by
  have allowed : ∀ env ∈ [⟨some 1, 1, 0, 0, .ok (some (.node 2)), [.bind 2 (.node 4) true true none none []]⟩,
      ⟨some 2, 2, 1, 0, .ok (some (.node 3)), [.bind 2 (.node 4) true true none none []]⟩],
      BindIncr.Allowed ⟨0, .node 1, rfl⟩ env := by
    simp only [List.mem_cons, List.mem_singleton, List.not_mem_nil, or_false]
    rintro env (rfl | rfl) <;> exact ⟨fun n found => by cases found; rfl, by decide, by decide⟩
  exact ⟨by decide, allowed, stabilize_keeps_bind_edges _ _ (by decide) 0 _ allowed⟩

/-- Without the condition on the scope the edges are not kept.  `b` first binds `node 2`, a
necessary bind made in its scope; that bind then binds `b`'s bind-change node
`bindChange 0 0`.  When `b` moves to `node 3`, the relinking loop links `node 2` under
`bindChange 0 0` again, so an old bind-change node keeps an edge to a node `b` has
bound.  Each `fn` result is neither `b`, its input, nor a bind-change node of `b`, and
nothing has an edge into the input. -/
theorem stabilize_relinks_old_bindChange :
    (∀ env ∈ [⟨some 1, 1, 0, 0, .ok (some (.node 2)), [.bind 2 (.node 4) true true none none []]⟩,
        ⟨some 2, 2, 1, 0, .ok (some (.node 3)),
          [.bind 2 (.node 4) true true (some (.node 5)) (some (.bindChange 0 0)) []]⟩],
      ∀ n, StabilizeEnv.fnResult env = .ok (some n) →
        n ≠ .node 0 ∧ n ≠ .node 1 ∧ n.isBindChangeOf 0 = false) ∧
    (∀ e ∈ (BindIncr.stabilizeRun ⟨0, .node 1, rfl⟩ ⟨none, none, 0, 0, []⟩
        [⟨some 1, 1, 0, 0, .ok (some (.node 2)), [.bind 2 (.node 4) true true none none []]⟩,
          ⟨some 2, 2, 1, 0, .ok (some (.node 3)),
            [.bind 2 (.node 4) true true (some (.node 5)) (some (.bindChange 0 0)) []]⟩]).2.edges,
      e.2 ≠ .node 1) ∧
    ¬ BindIncr.BindEdges ⟨0, .node 1, rfl⟩
      (BindIncr.stabilizeRun ⟨0, .node 1, rfl⟩ ⟨none, none, 0, 0, []⟩
        [⟨some 1, 1, 0, 0, .ok (some (.node 2)), [.bind 2 (.node 4) true true none none []]⟩,
          ⟨some 2, 2, 1, 0, .ok (some (.node 3)),
            [.bind 2 (.node 4) true true (some (.node 5)) (some (.bindChange 0 0)) []]⟩]).2
      (BindIncr.boundsAfter ⟨0, .node 1, rfl⟩ ⟨none, none, 0, 0, []⟩
        [⟨some 1, 1, 0, 0, .ok (some (.node 2)), [.bind 2 (.node 4) true true none none []]⟩,
          ⟨some 2, 2, 1, 0, .ok (some (.node 3)),
            [.bind 2 (.node 4) true true (some (.node 5)) (some (.bindChange 0 0)) []]⟩]) := by
  refine ⟨?_, by decide, fun edgesKept => ?_⟩
  · simp only [List.mem_cons, List.mem_singleton, List.not_mem_nil, or_false]
    rintro env (rfl | rfl) n found <;> cases found <;> decide
  · exact (edgesKept.oldBindChange 0 (by decide) (by decide)).2 (.node 2) (by decide) (by decide)

end Incr
