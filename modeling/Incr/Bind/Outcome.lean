import Incr.Bind.Link

namespace Incr

/-! # What one call of `Stabilize` does

`stabilize_cases` says, branch by branch of the source, what a call reports and the
state it leaves; every fact below about one call is read off it, and the facts about
runs follow by induction over the calls.

`fn` runs only when the graph is set and the input changed, and once it has returned a
node the bind is bound to it on every path, failed ones included, because `linkNewBound`
sets `bound` before the relinking loop can fail.  The only edges a call removes are at the
bind's bind-change nodes and from its old bound to the bind.
-/

/-- The state with `boundAt` set to `t`: no edge depends on it. -/
def BindState.withBoundAt (s : BindState) (t : Nat) : BindState :=
  { s with boundAt := t }

namespace BindState

variable (s : BindState) (t : Nat)

@[simp] theorem withBoundAt_bound : (s.withBoundAt t).bound = s.bound := rfl

@[simp] theorem withBoundAt_bindChange : (s.withBoundAt t).bindChange = s.bindChange := rfl

@[simp] theorem withBoundAt_edges : (s.withBoundAt t).edges = s.edges := rfl

@[simp] theorem withBoundAt_boundAt_self : s.withBoundAt s.boundAt = s := rfl

end BindState

namespace BindIncr

/-- What `fn` returned, in a call that runs it without error: the graph is set and the
input changed. -/
def returned (b : BindIncr) (env : StabilizeEnv) : Option (Option NodeRef) :=
  match env.stabilizationNum with
  | none => none
  | some _ => if b.didInputChange env then env.fnResult.toOption else none

/-- What the last call of a run that ran `fn` without error returned, or `bound` if no
call did. -/
def lastReturned (b : BindIncr) (bound : Option NodeRef) : List StabilizeEnv → Option NodeRef
  | [] => bound
  | env :: rest => b.lastReturned ((b.returned env).getD bound) rest

variable (b : BindIncr)

/-- What one call of `Stabilize` does, branch by branch: it reports the unset graph; it
stamps `boundAt` when the input did not change; it returns the error of `fn`; it does
nothing when `fn` returns nil and nothing is bound; it unbinds; it binds a first node;
it rebinds to another node; or it relinks the same node.  The last three report what
linking reported and leave `boundAt` at some `t`. -/
theorem stabilize_cases (env : StabilizeEnv) (s : BindState) :
    (env.stabilizationNum = none ∧ b.stabilize env s = (s, some (.graphUnset b.id))) ∨
    (∃ num, env.stabilizationNum = some num ∧ b.didInputChange env = false ∧
      b.stabilize env s = (s.withBoundAt num, none)) ∨
    (∃ message num, env.stabilizationNum = some num ∧ b.didInputChange env = true ∧
      env.fnResult = .error message ∧ b.stabilize env s = (s, some (.fn message))) ∨
    (b.returned env = some none ∧ s.bound = none ∧ b.stabilize env s = (s, none)) ∨
    (∃ num, b.returned env = some none ∧ s.bound ≠ none ∧ env.stabilizationNum = some num ∧
      b.stabilize env s = ((b.unlinkBindChange (b.unlinkOldBound s)).withBoundAt num, none)) ∨
    (∃ n t, b.returned env = some (some n) ∧ s.bound = none ∧
      b.stabilize env s = ((b.linkNewBound env (b.linkBindChange s) n).1.withBoundAt t,
        (b.linkNewBound env (b.linkBindChange s) n).2)) ∨
    (∃ n t, b.returned env = some (some n) ∧ s.bound ≠ none ∧ s.bound ≠ some n ∧
      b.stabilize env s =
        ((b.linkNewBound env (b.linkBindChange (b.unlinkBindChange (b.unlinkOldBound s))) n).1.withBoundAt t,
          (b.linkNewBound env (b.linkBindChange (b.unlinkBindChange (b.unlinkOldBound s))) n).2)) ∨
    (∃ n num t, b.returned env = some (some n) ∧ s.bound = some n ∧ env.stabilizationNum = some num ∧
      b.stabilize env s = ((b.link env s).1.withBoundAt t, (b.link env s).2)) := by
  rcases graph : env.stabilizationNum with _ | num
  · exact .inl ⟨rfl, by simp [stabilize, graph]⟩
  cases changed : b.didInputChange env
  · exact .inr (.inl ⟨num, rfl, rfl, by simp [stabilize, graph, changed, BindState.withBoundAt]⟩)
  have ran : b.returned env = env.fnResult.toOption := by simp [returned, graph, changed]
  rcases fn : env.fnResult with message | _ | n <;> rw [fn, Except.toOption] at ran
  · exact .inr (.inr (.inl ⟨message, num, rfl, rfl, rfl, by simp [stabilize, graph, changed, fn]⟩))
  · rcases hasBound : s.bound with _ | d
    · exact .inr (.inr (.inr (.inl ⟨ran, rfl, by simp [stabilize, graph, changed, fn, hasBound]⟩)))
    · exact .inr (.inr (.inr (.inr (.inl ⟨num, ran, nofun, rfl,
        by simp [stabilize, graph, changed, fn, hasBound, BindState.withBoundAt]⟩))))
  rcases hasBound : s.bound with _ | d
  · refine .inr (.inr (.inr (.inr (.inr (.inl ⟨n, ?_⟩)))))
    rcases linked : b.linkNewBound env (b.linkBindChange s) n with ⟨s', _ | error⟩ <;>
      [refine ⟨num, ?_⟩; refine ⟨s'.boundAt, ?_⟩] <;>
      exact ⟨ran, rfl, by simp [stabilize, BindState.withBoundAt, graph, changed, fn, hasBound, linked]⟩
  by_cases same : d = n
  · subst same
    refine .inr (.inr (.inr (.inr (.inr (.inr (.inr ⟨d, num, ?_⟩))))))
    rcases linked : b.link env s with ⟨s', _ | error⟩
    · by_cases bindChanged : env.boundChangedAt > s.boundAt <;> [refine ⟨num, ?_⟩; refine ⟨s'.boundAt, ?_⟩] <;>
        exact ⟨ran, rfl, rfl, by simp [stabilize, BindState.withBoundAt, graph, changed, fn, hasBound, linked,
          bindChanged]⟩
    · exact ⟨s'.boundAt, ran, rfl, rfl, by simp [stabilize, graph, changed, fn, hasBound, linked]⟩
  · refine .inr (.inr (.inr (.inr (.inr (.inr (.inl ⟨n, ?_⟩))))))
    rcases linked : b.linkNewBound env (b.linkBindChange (b.unlinkBindChange (b.unlinkOldBound s))) n
      with ⟨s', _ | error⟩ <;> [refine ⟨num, ?_⟩; refine ⟨s'.boundAt, ?_⟩] <;>
      exact ⟨ran, nofun, by simpa using same, by
        simp [stabilize, BindState.withBoundAt, graph, changed, fn, hasBound, same, linked]⟩

variable {b} {env : StabilizeEnv} {s : BindState}

theorem fnResult_of_returned {r : Option NodeRef} (ran : b.returned env = some r) :
    env.fnResult = .ok r := by
  unfold returned at ran
  split at ran
  · nomatch ran
  · split at ran
    · cases fn : env.fnResult <;> simp_all [Except.toOption]
    · nomatch ran

variable (b)

/-! ## The bound -/

/-- One call binds what `fn` returned, if it ran `fn` without error, whatever the
relinking that follows reports. -/
theorem stabilize_bound (env : StabilizeEnv) (s : BindState) :
    (b.stabilize env s).1.bound = (b.returned env).getD s.bound := by
  rcases b.stabilize_cases env s with ⟨graph, result⟩ | ⟨num, graph, unchanged, result⟩ |
    ⟨message, num, graph, changed, fn, result⟩ | ⟨ran, hasBound, result⟩ | ⟨num, ran, -, -, result⟩ |
    ⟨n, t, ran, -, result⟩ | ⟨n, t, ran, -, -, result⟩ | ⟨n, num, t, ran, hasBound, -, result⟩ <;>
    rw [result]
  · simp [returned, graph]
  · simp [returned, graph, unchanged]
  · simp [returned, graph, changed, fn, Except.toOption]
  all_goals simp_all

theorem stabilizeRun_bound (s : BindState) (envs : List StabilizeEnv) :
    (b.stabilizeRun s envs).2.bound = b.lastReturned s.bound envs := by
  induction envs generalizing s with
  | nil => rfl
  | cons env rest ih => rw [stabilizeRun, lastReturned, ih, stabilize_bound]

/-- After any run of `Stabilize` calls on a bind, from any state and whatever each call
reported, the bind is bound to what `fn` returned in the last call that ran it without
error, or to its first bound if none did, and `Value()` reads through that node. -/
theorem stabilizeRun_binds_last_returned {β : Type} [Inhabited β] (s : BindState)
    (envs : List StabilizeEnv) :
    (b.stabilizeRun s envs).2.bound = b.lastReturned s.bound envs ∧
      ∀ values : NodeRef → β,
        b.value values (b.stabilizeRun s envs).2 = (b.lastReturned s.bound envs).elim default values :=
  ⟨b.stabilizeRun_bound s envs, fun values => by
    rw [value, stabilizeRun_bound]
    cases b.lastReturned s.bound envs <;> rfl⟩

/-! ## The errors -/

variable {b} {error : StabilizeError}

theorem linkNewBound_error {n : NodeRef} (failed : (b.linkNewBound env s n).2 = some error) :
    ∃ id, error = .linkGraphUnset id ∧ (id, false, true) ∈ scopeBinds env.rhsNodes :=
  linkScope_error _ _ failed

/-- Relinking from `Stabilize`, which has checked the graph, never reports the bind's own
unset graph. -/
theorem link_error {num : Nat} (graph : env.stabilizationNum = some num)
    (failed : (b.link env s).2 = some error) :
    ∃ id, error = .linkGraphUnset id ∧ (id, false, true) ∈ scopeBinds env.rhsNodes := by
  simp only [link, graph, Option.isSome_some] at failed
  obtain ⟨edges', failed⟩ := linkWith_error_of_graphSet failed
  exact linkScope_error _ _ failed

variable (b env s error)

/-- Every error of `Stabilize` is the unset graph, reported with the bind untouched; an
error of `fn`, in a call that ran it, again with the bind untouched; or the unset graph
of a necessary bind of the scope, at any depth.  The bind's own `Link` never reports an
unset graph. -/
theorem stabilize_error_sources (failed : (b.stabilize env s).2 = some error) :
    (env.stabilizationNum = none ∧ error = .graphUnset b.id ∧ (b.stabilize env s).1 = s) ∨
      (∃ message, env.stabilizationNum ≠ none ∧ b.didInputChange env = true ∧
        env.fnResult = .error message ∧ error = .fn message ∧ (b.stabilize env s).1 = s) ∨
      ∃ id, error = .linkGraphUnset id ∧ (id, false, true) ∈ scopeBinds env.rhsNodes := by
  rcases b.stabilize_cases env s with ⟨graph, result⟩ | ⟨_, -, -, result⟩ |
    ⟨message, num, graph, changed, fn, result⟩ | ⟨-, -, result⟩ | ⟨_, -, -, -, result⟩ |
    ⟨_, _, -, -, result⟩ | ⟨_, _, -, -, -, result⟩ | ⟨_, num, _, -, -, graph, result⟩ <;>
    rw [result] at failed ⊢
  · exact .inl ⟨graph, (Option.some.inj failed).symm, rfl⟩
  · nomatch failed
  · exact .inr (.inl ⟨message, by simp [graph], changed, fn, (Option.some.inj failed).symm, rfl⟩)
  · nomatch failed
  · nomatch failed
  · exact .inr (.inr (linkNewBound_error failed))
  · exact .inr (.inr (linkNewBound_error failed))
  · exact .inr (.inr (link_error graph failed))

theorem stabilize_error_sources_unset_scope_bind :
    (BindIncr.stabilize ⟨0, .node 1, rfl⟩
        ⟨some 1, 1, 0, 0, .ok (some (.node 2)), [.bind 5 (.node 6) false true none none []]⟩
        ⟨none, none, 0, 0, []⟩).2 = some (.linkGraphUnset 5) ∧
      ((some 1 = none ∧ StabilizeError.linkGraphUnset 5 = .graphUnset 0 ∧
          (BindIncr.stabilize ⟨0, .node 1, rfl⟩
            ⟨some 1, 1, 0, 0, .ok (some (.node 2)), [.bind 5 (.node 6) false true none none []]⟩
            ⟨none, none, 0, 0, []⟩).1 = ⟨none, none, 0, 0, []⟩) ∨
        (∃ message, some 1 ≠ none ∧
          BindIncr.didInputChange ⟨0, .node 1, rfl⟩
            ⟨some 1, 1, 0, 0, .ok (some (.node 2)), [.bind 5 (.node 6) false true none none []]⟩ = true ∧
          (.ok (some (.node 2)) : Except String (Option NodeRef)) = .error message ∧
          StabilizeError.linkGraphUnset 5 = .fn message ∧
          (BindIncr.stabilize ⟨0, .node 1, rfl⟩
            ⟨some 1, 1, 0, 0, .ok (some (.node 2)), [.bind 5 (.node 6) false true none none []]⟩
            ⟨none, none, 0, 0, []⟩).1 = ⟨none, none, 0, 0, []⟩) ∨
        ∃ id, StabilizeError.linkGraphUnset 5 = .linkGraphUnset id ∧
          (id, false, true) ∈ scopeBinds [.bind 5 (.node 6) false true none none []]) :=
  ⟨rfl, stabilize_error_sources ⟨0, .node 1, rfl⟩
    ⟨some 1, 1, 0, 0, .ok (some (.node 2)), [.bind 5 (.node 6) false true none none []]⟩
    ⟨none, none, 0, 0, []⟩ (.linkGraphUnset 5) rfl⟩

/-! ## The edges a successful call leaves -/

variable {b env s}

/-- A fresh bind-change node and a new bound, relinked: the `Link` of the bind with that
bind-change node and bound. -/
theorem linkNewBound_linkBindChange (n : NodeRef) :
    b.linkNewBound env (b.linkBindChange s) n =
      ({ b.linkBindChange s with
          bound := some n
          edges := (linkWith (fun edges => linkScope edges env.rhsNodes) s.edges b.id b.input true
            (some (.bindChange b.id s.created)) (some n)).1 },
        (linkWith (fun edges => linkScope edges env.rhsNodes) s.edges b.id b.input true
          (some (.bindChange b.id s.created)) (some n)).2) := rfl

theorem linkNewBound_links {n : NodeRef} (linked : (b.linkNewBound env (b.linkBindChange s) n).2 = none) :
    ∀ e ∈ linkedBy b.id b.input (some (.bindChange b.id s.created)) (some n) (scopeLinked env.rhsNodes),
      e ∈ (b.linkNewBound env (b.linkBindChange s) n).1.edges := by
  rw [linkNewBound_linkBindChange] at linked ⊢
  exact linkWith_links (fun edges e => ((linkScope_adds env.rhsNodes edges) e).1)
    (fun edges => linkScope_links edges env.rhsNodes) linked

theorem link_links {num : Nat} (graph : env.stabilizationNum = some num)
    (linked : (b.link env s).2 = none) :
    ∀ e ∈ linkedBy b.id b.input s.bindChange s.bound (scopeLinked env.rhsNodes),
      e ∈ (b.link env s).1.edges := by
  simp only [link, graph, Option.isSome_some] at linked ⊢
  exact linkWith_links (fun edges e => ((linkScope_adds env.rhsNodes edges) e).1)
    (fun edges => linkScope_links edges env.rhsNodes) linked

variable (b env s)

/-- When a call of `Stabilize` runs `fn`, `fn` returns a node and the call returns nil,
the bind is bound to that node, which hangs under the bind and from its bind-change node
under the input, and every necessary bind of the scope that the relinking loop reaches is
linked the same way. -/
theorem stabilize_links_returned_node {n : NodeRef} (ran : b.returned env = some (some n))
    (linked : (b.stabilize env s).2 = none) :
    (b.stabilize env s).1.bound = some n ∧
      ∀ e ∈ linkedBy b.id b.input (b.stabilize env s).1.bindChange (some n) (scopeLinked env.rhsNodes),
        e ∈ (b.stabilize env s).1.edges := by
  refine ⟨by rw [stabilize_bound, ran]; rfl, ?_⟩
  rcases b.stabilize_cases env s with ⟨graph, -⟩ | ⟨_, graph, unchanged, -⟩ |
    ⟨_, _, graph, changed, fn, -⟩ | ⟨none, -⟩ | ⟨_, none, -⟩ | ⟨n', t, ran', -, result⟩ |
    ⟨n', t, ran', -, -, result⟩ | ⟨n', num, t, ran', hasBound, graph, result⟩
  · simp [returned, graph] at ran
  · simp [returned, graph, unchanged] at ran
  · simp [returned, graph, changed, fn, Except.toOption] at ran
  · simp [none] at ran
  · simp [none] at ran
  all_goals
    obtain rfl : n' = n := by simpa [ran'] using ran
    rw [result] at linked ⊢
  · simpa using linkNewBound_links linked
  · simpa using linkNewBound_links linked
  · simpa [hasBound] using link_links graph linked

theorem stabilize_links_returned_node_nested_bind :
    BindIncr.returned ⟨0, .node 1, rfl⟩
        ⟨some 1, 1, 0, 0, .ok (some (.node 2)), [.bind 5 (.node 6) true true (some (.node 7)) (some (.node 8)) []]⟩ =
      some (some (.node 2)) ∧
    (BindIncr.stabilize ⟨0, .node 1, rfl⟩
        ⟨some 1, 1, 0, 0, .ok (some (.node 2)), [.bind 5 (.node 6) true true (some (.node 7)) (some (.node 8)) []]⟩
        ⟨none, none, 0, 0, []⟩).2 = none ∧
    (BindIncr.stabilize ⟨0, .node 1, rfl⟩
        ⟨some 1, 1, 0, 0, .ok (some (.node 2)), [.bind 5 (.node 6) true true (some (.node 7)) (some (.node 8)) []]⟩
        ⟨none, none, 0, 0, []⟩).1.bound = some (.node 2) ∧
      ∀ e ∈ linkedBy 0 (.node 1)
          (BindIncr.stabilize ⟨0, .node 1, rfl⟩
            ⟨some 1, 1, 0, 0, .ok (some (.node 2)), [.bind 5 (.node 6) true true (some (.node 7)) (some (.node 8)) []]⟩
            ⟨none, none, 0, 0, []⟩).1.bindChange
          (some (.node 2)) (scopeLinked [.bind 5 (.node 6) true true (some (.node 7)) (some (.node 8)) []]),
        e ∈ (BindIncr.stabilize ⟨0, .node 1, rfl⟩
          ⟨some 1, 1, 0, 0, .ok (some (.node 2)), [.bind 5 (.node 6) true true (some (.node 7)) (some (.node 8)) []]⟩
          ⟨none, none, 0, 0, []⟩).1.edges :=
  ⟨rfl, rfl, stabilize_links_returned_node ⟨0, .node 1, rfl⟩
    ⟨some 1, 1, 0, 0, .ok (some (.node 2)), [.bind 5 (.node 6) true true (some (.node 7)) (some (.node 8)) []]⟩
    ⟨none, none, 0, 0, []⟩ rfl rfl⟩

/-! ## The edges a call keeps -/

variable {b env s} {e : NodeRef × NodeRef}

/-- Unbinding and dropping the bind-change node, when that node is one the bind made,
keep every edge that touches none of the bind's bind-change nodes and is not
`bound → b`. -/
theorem unlink_keeps (owned : ∀ c, s.bindChange = some c → c.isBindChangeOf b.id = true)
    (member : e ∈ s.edges) (foreign : e.1.isBindChangeOf b.id = false ∧ e.2.isBindChangeOf b.id = false)
    (notBound : e.2 = b.self → s.bound ≠ some e.1) :
    e ∈ (b.unlinkBindChange (b.unlinkOldBound s)).edges := by
  rw [mem_unlinkBindChange_edges, mem_unlinkOldBound_edges]
  refine ⟨⟨member, fun d hasBound => ⟨fun c hasChange same => ?_, fun same => ?_⟩⟩,
    fun c hasChange => ⟨by simp, fun same => ?_⟩⟩
  · simpa [same, owned c hasChange] using foreign.1
  · exact notBound (by rw [same]) (by rw [hasBound, same])
  · simpa [same, owned c (by simpa using hasChange)] using foreign.2

/-- One call keeps every edge that touches none of the bind's bind-change nodes and is not
`bound → b` for the bound it starts from. -/
theorem stabilize_keeps (owned : ∀ c, s.bindChange = some c → c.isBindChangeOf b.id = true)
    (member : e ∈ s.edges) (foreign : e.1.isBindChangeOf b.id = false ∧ e.2.isBindChangeOf b.id = false)
    (notBound : e.2 = b.self → s.bound ≠ some e.1) : e ∈ (b.stabilize env s).1.edges := by
  rcases b.stabilize_cases env s with ⟨-, result⟩ | ⟨_, -, -, result⟩ | ⟨_, _, -, -, -, result⟩ |
    ⟨-, -, result⟩ | ⟨_, -, -, -, result⟩ | ⟨n, _, -, -, result⟩ | ⟨n, _, -, -, -, result⟩ |
    ⟨_, _, _, -, -, -, result⟩ <;> rw [result]
  · exact member
  · exact member
  · exact member
  · exact member
  · exact unlink_keeps owned member foreign notBound
  · exact linkNewBound_keeps env n (linkBindChange_keeps member)
  · exact linkNewBound_keeps env n (linkBindChange_keeps (unlink_keeps owned member foreign notBound))
  · exact link_keeps env member

/-- Every bind-change node a call leaves the bind holding is one the bind made. -/
theorem stabilize_owned (owned : ∀ c, s.bindChange = some c → c.isBindChangeOf b.id = true) :
    ∀ c, (b.stabilize env s).1.bindChange = some c → c.isBindChangeOf b.id = true := by
  rcases b.stabilize_cases env s with ⟨-, result⟩ | ⟨_, -, -, result⟩ | ⟨_, _, -, -, -, result⟩ |
    ⟨-, -, result⟩ | ⟨_, -, -, -, result⟩ | ⟨_, _, -, -, result⟩ | ⟨_, _, -, -, -, result⟩ |
    ⟨_, _, _, -, -, -, result⟩ <;> rw [result] <;> first | exact owned | simp [NodeRef.isBindChangeOf]

theorem stabilizeRun_keeps {envs : List StabilizeEnv}
    (owned : ∀ c, s.bindChange = some c → c.isBindChangeOf b.id = true) (member : e ∈ s.edges)
    (foreign : e.1.isBindChangeOf b.id = false ∧ e.2.isBindChangeOf b.id = false)
    (notBound : e.2 = b.self → e.1 ∉ s.bound.toList ++ b.boundsAfter s envs) :
    e ∈ (b.stabilizeRun s envs).2.edges := by
  induction envs generalizing s with
  | nil => exact member
  | cons env rest ih =>
      refine ih (stabilize_owned owned) (stabilize_keeps owned member foreign ?_) fun self recorded => ?_
      · exact fun self same => notBound self (by simp [same])
      · exact notBound self (List.mem_append_right _ (by simpa [boundsAfter] using recorded))

variable (b)

/-- A run of `Stabilize` calls on a new bind, nil or error, keeps every edge it starts
with that touches none of the bind's bind-change nodes, unless it is `d → b` for a node
`d` the bind was bound to during the run. -/
theorem stabilizeRun_keeps_other_edges (edges : Edges) (boundAt : Nat) (envs : List StabilizeEnv)
    (member : e ∈ edges) (foreign : e.1.isBindChangeOf b.id = false ∧ e.2.isBindChangeOf b.id = false)
    (notUnbound : e.2 = b.self → e.1 ∉ b.boundsAfter ⟨none, none, boundAt, 0, edges⟩ envs) :
    e ∈ (b.stabilizeRun ⟨none, none, boundAt, 0, edges⟩ envs).2.edges :=
  stabilizeRun_keeps nofun member foreign (by simpa using notUnbound)

theorem stabilizeRun_keeps_other_edges_input_edge :
    ((NodeRef.node 1, NodeRef.node 0) ∈ ([(.node 1, .node 0)] : Edges)) ∧
    ((NodeRef.node 1).isBindChangeOf 0 = false ∧ (NodeRef.node 0).isBindChangeOf 0 = false) ∧
    (NodeRef.node 0 = BindIncr.self ⟨0, .node 1, rfl⟩ →
      NodeRef.node 1 ∉ BindIncr.boundsAfter ⟨0, .node 1, rfl⟩ ⟨none, none, 0, 0, [(.node 1, .node 0)]⟩
        [⟨some 1, 1, 0, 0, .ok (some (.node 2)), []⟩, ⟨some 2, 2, 1, 0, .ok (some (.node 3)), []⟩]) ∧
    (NodeRef.node 1, NodeRef.node 0) ∈
      (BindIncr.stabilizeRun ⟨0, .node 1, rfl⟩ ⟨none, none, 0, 0, [(.node 1, .node 0)]⟩
        [⟨some 1, 1, 0, 0, .ok (some (.node 2)), []⟩, ⟨some 2, 2, 1, 0, .ok (some (.node 3)), []⟩]).2.edges :=
  ⟨by decide, by decide, by decide, stabilizeRun_keeps_other_edges ⟨0, .node 1, rfl⟩ [(.node 1, .node 0)] 0
    [⟨some 1, 1, 0, 0, .ok (some (.node 2)), []⟩, ⟨some 2, 2, 1, 0, .ok (some (.node 3)), []⟩]
    (by decide) (by decide) (by decide)⟩

/-! ## `boundAt` -/

variable {b}

/-- A call that reports no error either stamps `boundAt` with the stabilization number or
leaves both the bound and `boundAt` as they were. -/
theorem stabilize_stamps {num : Nat} (graph : env.stabilizationNum = some num)
    (ok : (b.stabilize env s).2 = none) :
    (b.stabilize env s).1.boundAt = num ∨
      (b.stabilize env s).1.bound = s.bound ∧ (b.stabilize env s).1.boundAt = s.boundAt := by
  cases changed : b.didInputChange env
  · exact .inl (by simp [stabilize, graph, changed])
  rcases fn : env.fnResult with message | _ | newIncr
  · simp [stabilize, graph, changed, fn] at ok
  · cases hasBound : s.bound <;> simp [stabilize, graph, changed, fn, hasBound]
  rcases hasBound : s.bound with _ | bound
  · rcases linked : b.linkNewBound env (b.linkBindChange s) newIncr with ⟨_, _ | _⟩ <;>
      simp [stabilize, graph, changed, fn, hasBound, linked] at ok ⊢
  by_cases same : bound = newIncr
  · subst same
    rcases linked : b.link env s with ⟨s', _ | _⟩
    · have kept : s'.bound = s.bound ∧ s'.boundAt = s.boundAt := by
        have link : (b.link env s).1 = s' := congrArg Prod.fst linked
        rw [← link]
        exact ⟨rfl, rfl⟩
      by_cases bindChanged : env.boundChangedAt > s.boundAt <;>
        simp [stabilize, graph, changed, fn, hasBound, linked, bindChanged, kept]
    · simp [stabilize, graph, changed, fn, hasBound, linked] at ok
  · rcases linked : b.linkNewBound env (b.linkBindChange (b.unlinkBindChange (b.unlinkOldBound s)))
      newIncr with ⟨_, _ | _⟩ <;> simp [stabilize, graph, changed, fn, hasBound, same, linked] at ok ⊢

section Late

variable {t : Nat} {envs : List StabilizeEnv}
  (late : ∀ env ∈ envs, ∃ num, env.stabilizationNum = some num ∧ t ≤ num)
  (ok : ∀ error ∈ (b.stabilizeRun s envs).1, error = none)
include late ok

/-- Over calls that all succeed at stabilization numbers from `t` on, `boundAt` stays at `t`
or above once it is there. -/
theorem le_boundAt_stabilizeRun (atLeast : t ≤ s.boundAt) : t ≤ (b.stabilizeRun s envs).2.boundAt := by
  induction envs generalizing s with
  | nil => exact atLeast
  | cons env rest ih =>
      obtain ⟨num, graph, lateEnough⟩ := late env (List.mem_cons_self _ _)
      simp only [stabilizeRun, List.mem_cons, forall_eq_or_imp] at ok ⊢
      refine ih (fun env member => late env (List.mem_cons_of_mem _ member)) ok.2 ?_
      rcases stabilize_stamps graph ok.1 with stamped | ⟨-, kept⟩ <;> omega

end Late

variable (b)

/-- `boundAt` is stamped at every rebinding.  From any state, over calls at stabilization
numbers from `t` on that all report no error, a run that leaves `boundAt` below `t` leaves
the bind bound to the node it was bound to before: every call that changes the bound, to
another node or to nil, stamps `boundAt` with its stabilization number. -/
theorem stabilizeRun_keeps_bound_while_boundAt_below (s : BindState) (envs : List StabilizeEnv)
    (t : Nat) (late : ∀ env ∈ envs, ∃ num, env.stabilizationNum = some num ∧ t ≤ num)
    (ok : ∀ error ∈ (b.stabilizeRun s envs).1, error = none)
    (below : (b.stabilizeRun s envs).2.boundAt < t) :
    (b.stabilizeRun s envs).2.bound = s.bound := by
  induction envs generalizing s with
  | nil => rfl
  | cons env rest ih =>
      obtain ⟨num, graph, lateEnough⟩ := late env (List.mem_cons_self _ _)
      have later := fun e member => late e (List.mem_cons_of_mem _ member)
      simp only [stabilizeRun, List.mem_cons, forall_eq_or_imp] at ok below ⊢
      rcases stabilize_stamps graph ok.1 with stamped | ⟨kept, -⟩
      · exact absurd (le_boundAt_stabilizeRun later ok.2 (stamped ▸ lateEnough)) (Nat.not_le.2 below)
      · exact (ih _ later ok.2 below).trans kept

theorem stabilizeRun_keeps_bound_while_boundAt_below_same_node :
    (∀ env ∈ [(⟨some 5, 6, 2, 1, .ok (some (.node 2)), []⟩ : StabilizeEnv)],
        ∃ num, env.stabilizationNum = some num ∧ 4 ≤ num) ∧
    (∀ error ∈ (BindIncr.stabilizeRun ⟨0, .node 1, rfl⟩ ⟨some (.bindChange 0 0), some (.node 2), 3, 1, []⟩
        [⟨some 5, 6, 2, 1, .ok (some (.node 2)), []⟩]).1, error = none) ∧
    (BindIncr.stabilizeRun ⟨0, .node 1, rfl⟩ ⟨some (.bindChange 0 0), some (.node 2), 3, 1, []⟩
        [⟨some 5, 6, 2, 1, .ok (some (.node 2)), []⟩]).2.boundAt < 4 ∧
    (BindIncr.stabilizeRun ⟨0, .node 1, rfl⟩ ⟨some (.bindChange 0 0), some (.node 2), 3, 1, []⟩
        [⟨some 5, 6, 2, 1, .ok (some (.node 2)), []⟩]).2.bound = some (.node 2) :=
  ⟨by simp, by decide, by decide, stabilizeRun_keeps_bound_while_boundAt_below ⟨0, .node 1, rfl⟩
    ⟨some (.bindChange 0 0), some (.node 2), 3, 1, []⟩ [⟨some 5, 6, 2, 1, .ok (some (.node 2)), []⟩] 4
    (by simp) (by decide) (by decide)⟩

end BindIncr

end Incr
