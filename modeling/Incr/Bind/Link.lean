import Incr.Bind.Basic

namespace Incr

/-! # What linking does to the edges

`Link` and `Unlink` change one edge each.  The relinking loop over a scope only adds
edges, and every edge it adds runs from a node that some bind of the scope names as itself,
its input, its bind-change node or its bound to one it names as anything but its input.
`Adds allowed before after` says that `after` keeps every edge of `before` and adds only
`allowed` ones.

When the loop succeeds it leaves every edge of every necessary bind it reaches
(`scopeLinked`); it fails only at a bind whose graph is unset.
-/

namespace Edges

variable {edges : Edges} {child parent : NodeRef} {e : NodeRef × NodeRef}

@[simp] theorem mem_link_some : e ∈ edges.link child (some parent) ↔ e = (parent, child) ∨ e ∈ edges :=
  List.mem_insert_iff

@[simp] theorem link_none : edges.link child none = edges := rfl

theorem mem_link_of_mem (member : e ∈ edges) (parent : Option NodeRef) : e ∈ edges.link child parent := by
  cases parent <;> simp [member]

@[simp] theorem mem_unlink_some :
    e ∈ edges.unlink child (some parent) ↔ e ∈ edges ∧ e ≠ (parent, child) := by
  simp [unlink]

@[simp] theorem unlink_none : edges.unlink child none = edges := rfl

end Edges

/-- `after` keeps every edge of `before`, and every edge it adds is `allowed`. -/
def Adds (allowed : NodeRef × NodeRef → Prop) (before after : Edges) : Prop :=
  ∀ e, (e ∈ before → e ∈ after) ∧ (e ∈ after → e ∈ before ∨ allowed e)

namespace Adds

variable {allowed allowed' : NodeRef × NodeRef → Prop} {first second third : Edges}

theorem refl (edges : Edges) : Adds allowed edges edges := fun _ => ⟨id, .inl⟩

theorem trans (before : Adds allowed first second) (after : Adds allowed second third) :
    Adds allowed first third := fun e =>
  ⟨fun member => (after e).1 ((before e).1 member), fun member =>
    ((after e).2 member).elim (before e).2 .inr⟩

theorem mono (adds : Adds allowed first second) (weaker : ∀ e, allowed e → allowed' e) :
    Adds allowed' first second := fun e =>
  ⟨(adds e).1, fun member => ((adds e).2 member).imp_right (weaker e)⟩

theorem link (edges : Edges) (child : NodeRef) (parent : Option NodeRef)
    (linked : ∀ p ∈ parent, allowed (p, child)) : Adds allowed edges (edges.link child parent) := by
  cases parent with
  | none => exact refl edges
  | some p =>
      intro e
      simp only [Edges.mem_link_some]
      exact ⟨.inr, fun member => member.elim (fun same => .inr (same ▸ linked p rfl)) .inl⟩

end Adds

/-- The edge runs from a node that satisfies `source` to one that satisfies `target`. -/
def Joins (source target : NodeRef → Prop) (e : NodeRef × NodeRef) : Prop :=
  source e.1 ∧ target e.2

theorem Adds.joins_mono {source target source' target' : NodeRef → Prop} {first second : Edges}
    (adds : Adds (Joins source target) first second) (sources : ∀ r, source r → source' r)
    (targets : ∀ r, target r → target' r) : Adds (Joins source' target') first second :=
  adds.mono fun _ joins => ⟨sources _ joins.1, targets _ joins.2⟩

/-- `linkRhs` adds only edges from nodes that satisfy `source` to nodes that satisfy
`target`. -/
def AddsJoining (source target : NodeRef → Prop) (linkRhs : Edges → Edges × Option StabilizeError) :
    Prop :=
  ∀ edges, Adds (Joins source target) edges (linkRhs edges).1

section LinkWith

variable {source target : NodeRef → Prop} {linkRhs : Edges → Edges × Option StabilizeError}

theorem AddsJoining.mono {source' target' : NodeRef → Prop} (adds : AddsJoining source target linkRhs)
    (sources : ∀ r, source r → source' r) (targets : ∀ r, target r → target' r) :
    AddsJoining source' target' linkRhs := fun edges =>
  (adds edges).joins_mono sources targets

theorem linkBound_adds (rhs : AddsJoining source target linkRhs) (edges : Edges) {id : Identifier}
    {bound : NodeRef} {bindChange : Option NodeRef} (self : target (.node id))
    (boundSource : source bound) (boundTarget : target bound)
    (bindChangeSource : ∀ c ∈ bindChange, source c) :
    Adds (Joins source target) edges (linkBound linkRhs edges id bound bindChange).1 :=
  ((Adds.link _ _ _ fun _ same => by cases same; exact ⟨boundSource, self⟩).trans
    (Adds.link _ _ _ fun c member => ⟨bindChangeSource c member, boundTarget⟩)).trans (rhs _)

theorem linkWith_adds (rhs : AddsJoining source target linkRhs) (edges : Edges) {id : Identifier}
    {input : NodeRef} {graphSet : Bool} {bindChange bound : Option NodeRef}
    (self : target (.node id)) (inputSource : source input)
    (bindChangeSource : ∀ c ∈ bindChange, source c) (bindChangeTarget : ∀ c ∈ bindChange, target c)
    (boundSource : ∀ d ∈ bound, source d) (boundTarget : ∀ d ∈ bound, target d) :
    Adds (Joins source target) edges (linkWith linkRhs edges id input graphSet bindChange bound).1 := by
  cases graphSet
  · exact .refl edges
  cases bindChange with
  | none =>
      cases bound with
      | none => exact .refl edges
      | some d =>
          exact linkBound_adds rhs edges self (boundSource d rfl) (boundTarget d rfl) bindChangeSource
  | some c =>
      have linkedChange : Adds (Joins source target) edges (edges.link c (some input)) :=
        .link _ _ _ fun _ same => by cases same; exact ⟨inputSource, bindChangeTarget c rfl⟩
      cases bound with
      | none => exact linkedChange
      | some d =>
          exact linkedChange.trans
            (linkBound_adds rhs _ self (boundSource d rfl) (boundTarget d rfl) bindChangeSource)

end LinkWith

theorem linkScope_cons (edges : Edges) (n : ScopeNode) (rest : List ScopeNode) :
    linkScope edges (n :: rest) =
      if n.isNecessaryBind then
        match n.link edges with
        | (edges, none) => linkScope edges rest
        | failed => failed
      else linkScope edges rest := rfl

theorem Adds.scope_head {n : ScopeNode} {rest : List ScopeNode} {first second : Edges}
    (adds : Adds (Joins (· ∈ n.refs) (· ∈ n.targets)) first second) :
    Adds (Joins (· ∈ scopeRefs (n :: rest)) (· ∈ scopeTargets (n :: rest))) first second :=
  adds.joins_mono (fun r member => by simp [scopeRefs, member]) fun r member => by simp [scopeTargets, member]

theorem Adds.scope_tail {n : ScopeNode} {rest : List ScopeNode} {first second : Edges}
    (adds : Adds (Joins (· ∈ scopeRefs rest) (· ∈ scopeTargets rest)) first second) :
    Adds (Joins (· ∈ scopeRefs (n :: rest)) (· ∈ scopeTargets (n :: rest))) first second :=
  adds.joins_mono (fun r member => by simp [scopeRefs, member]) fun r member => by simp [scopeTargets, member]

/-- The relinking loop over a scope adds only edges from a node its binds name to one that
is a bind of the scope, a bind-change node or a bound, never to an input. -/
theorem linkScope_adds (nodes : List ScopeNode) :
    AddsJoining (· ∈ scopeRefs nodes) (· ∈ scopeTargets nodes) (fun edges => linkScope edges nodes) :=
  fun edges =>
  linkScope.induct (fun edges n => Adds (Joins (· ∈ n.refs) (· ∈ n.targets)) edges (n.link edges).1)
    (fun edges nodes => Adds (Joins (· ∈ scopeRefs nodes) (· ∈ scopeTargets nodes)) edges
      (linkScope edges nodes).1)
    (fun edges => .refl edges)
    (fun edges id input graphSet necessary bindChange bound rhsNodes rhs => by
      have rhs : AddsJoining (· ∈ scopeRefs rhsNodes) (· ∈ scopeTargets rhsNodes)
          (fun edges => linkScope edges rhsNodes) := rhs
      refine linkWith_adds (rhs.mono (fun r member => ?_) fun r member => ?_) edges ?_ ?_ ?_ ?_ ?_ ?_ <;>
        simp_all [ScopeNode.refs, ScopeNode.targets])
    (fun edges => .refl edges)
    (fun edges n rest necessary linked first head tail => by
      dsimp only at head tail ⊢
      rw [linkScope_cons, if_pos necessary, first]
      rw [first] at head
      exact head.scope_head.trans tail.scope_tail)
    (fun edges n rest necessary failed head => by
      dsimp only at head ⊢
      rw [linkScope_cons, if_pos necessary]
      cases result : n.link edges with
      | mk edges' error =>
          cases error with
          | none => exact absurd result (failed edges')
          | some error =>
              exact (result ▸ head).scope_head)
    (fun edges n rest skipped tail => by
      dsimp only at tail ⊢
      rw [linkScope_cons, if_neg skipped]
      exact tail.scope_tail)
    edges nodes

/-- The edges the `Link` of a bind makes when it succeeds, given those the loop over its
scope makes: `input → bindChange`, and once bound, `bound → bind`, `bindChange → bound`
and the scope's. -/
def linkedBy (id : Identifier) (input : NodeRef) (bindChange bound : Option NodeRef)
    (rhsLinked : Edges) : Edges :=
  bindChange.toList.map (input, ·) ++
    match bound with
    | some d => (d, .node id) :: bindChange.toList.map (·, d) ++ rhsLinked
    | none => []

mutual

/-- The edges the `Link` of a scope node makes when it succeeds. -/
def ScopeNode.linked : ScopeNode → Edges
  | .other => []
  | .bind id input _ _ bindChange bound rhsNodes =>
      linkedBy id input bindChange bound (scopeLinked rhsNodes)

/-- The edges the relinking loop over a scope makes when it succeeds: those of its
necessary binds. -/
def scopeLinked : List ScopeNode → Edges
  | [] => []
  | n :: rest => (if n.isNecessaryBind then n.linked else []) ++ scopeLinked rest

end

section Links

variable {linkRhs : Edges → Edges × Option StabilizeError} {edges : Edges} {id : Identifier}
  {input : NodeRef} {graphSet : Bool} {bindChange bound : Option NodeRef} {error : StabilizeError}

/-- A `Link` that succeeds leaves every edge it makes, provided the loop over its scope
keeps the edges it is given and, when it succeeds, leaves those it makes. -/
theorem linkWith_links {rhsLinked : Edges} (keeps : ∀ edges, ∀ e ∈ edges, e ∈ (linkRhs edges).1)
    (rhs : ∀ edges, (linkRhs edges).2 = none → ∀ e ∈ rhsLinked, e ∈ (linkRhs edges).1)
    (linked : (linkWith linkRhs edges id input graphSet bindChange bound).2 = none) :
    ∀ e ∈ linkedBy id input bindChange bound rhsLinked,
      e ∈ (linkWith linkRhs edges id input graphSet bindChange bound).1 := by
  cases graphSet
  · nomatch linked
  cases bound with
  | none => cases bindChange <;> simp [linkedBy, linkWith]
  | some d =>
      intro e member
      simp only [linkedBy, List.mem_append, List.mem_cons] at member
      rcases member with fromInput | (rfl | toBound) | scope
      · exact keeps _ e (by cases bindChange <;> simp_all)
      · exact keeps _ _ (Edges.mem_link_of_mem (by simp) _)
      · exact keeps _ e (by cases bindChange <;> simp_all)
      · exact rhs _ linked e scope

/-- A relinking loop that succeeds leaves every edge of every necessary bind of the
scope, at any depth it reaches. -/
theorem linkScope_links (edges : Edges) (nodes : List ScopeNode)
    (linked : (linkScope edges nodes).2 = none) : ∀ e ∈ scopeLinked nodes, e ∈ (linkScope edges nodes).1 :=
  linkScope.induct
    (fun edges n => (n.link edges).2 = none → ∀ e ∈ n.linked, e ∈ (n.link edges).1)
    (fun edges nodes => (linkScope edges nodes).2 = none →
      ∀ e ∈ scopeLinked nodes, e ∈ (linkScope edges nodes).1)
    (fun _ _ _ member => nomatch member)
    (fun _ _ _ _ _ _ _ rhsNodes rhs linked =>
      linkWith_links (fun edges e => ((linkScope_adds rhsNodes edges) e).1) rhs linked)
    (fun _ _ _ member => nomatch member)
    (fun edges n rest necessary linkedEdges first head tail linked e member => by
      rw [linkScope_cons, if_pos necessary, first] at linked ⊢
      simp only [scopeLinked, necessary, if_true, List.mem_append] at member
      rcases member with here | later
      · have made := head (by rw [first]) e here
        rw [first] at made
        exact ((linkScope_adds rest linkedEdges) e).1 made
      · exact tail linked e later)
    (fun edges n rest necessary notLinked _ linked => by
      rw [linkScope_cons, if_pos necessary] at linked
      rcases result : n.link edges with ⟨edges', _ | error⟩
      · exact absurd result (notLinked edges')
      · rw [result] at linked
        nomatch linked)
    (fun edges n rest skipped tail linked e member => by
      rw [linkScope_cons, if_neg skipped] at linked ⊢
      simp only [scopeLinked, skipped, if_false, List.nil_append] at member
      exact tail linked e member)
    edges nodes linked

/-- The `Link` of a bind whose graph is set fails only where the loop over its scope
fails. -/
theorem linkWith_error_of_graphSet
    (failed : (linkWith linkRhs edges id input true bindChange bound).2 = some error) :
    ∃ edges', (linkRhs edges').2 = some error := by
  cases bound with
  | none => simp [linkWith] at failed
  | some d => exact ⟨_, failed⟩

theorem linkWith_error (failed : (linkWith linkRhs edges id input graphSet bindChange bound).2 = some error) :
    (graphSet = false ∧ error = .linkGraphUnset id) ∨ ∃ edges', (linkRhs edges').2 = some error := by
  cases graphSet
  · simp only [linkWith, Bool.false_eq_true, if_false, Option.some.injEq] at failed
    exact .inl ⟨rfl, failed.symm⟩
  · exact .inr (linkWith_error_of_graphSet failed)

mutual

/-- The binds of a scope node at any depth, each with whether its graph is set and
whether it is necessary. -/
def ScopeNode.binds : ScopeNode → List (Identifier × Bool × Bool)
  | .other => []
  | .bind id _ graphSet necessary _ _ rhsNodes => (id, graphSet, necessary) :: scopeBinds rhsNodes

def scopeBinds : List ScopeNode → List (Identifier × Bool × Bool)
  | [] => []
  | n :: rest => n.binds ++ scopeBinds rest

end

/-- The relinking loop over a scope fails only at a necessary bind of the scope, at any
depth, whose graph is unset. -/
theorem linkScope_error (edges : Edges) (nodes : List ScopeNode) {error : StabilizeError}
    (failed : (linkScope edges nodes).2 = some error) :
    ∃ id, error = .linkGraphUnset id ∧ (id, false, true) ∈ scopeBinds nodes :=
  linkScope.induct
    (fun edges n => n.isNecessaryBind = true → ∀ error, (n.link edges).2 = some error →
      ∃ id, error = .linkGraphUnset id ∧ (id, false, true) ∈ n.binds)
    (fun edges nodes => ∀ error, (linkScope edges nodes).2 = some error →
      ∃ id, error = .linkGraphUnset id ∧ (id, false, true) ∈ scopeBinds nodes)
    (fun _ _ _ failed => nomatch failed)
    (fun _ id _ _ _ _ _ _ rhs necessary error failed => by
      rcases linkWith_error failed with ⟨rfl, rfl⟩ | ⟨edges', failed⟩
      · exact ⟨id, rfl, by simp_all [ScopeNode.binds, ScopeNode.isNecessaryBind]⟩
      · obtain ⟨id', rfl, member⟩ := rhs edges' error failed
        exact ⟨id', rfl, by simp [ScopeNode.binds, member]⟩)
    (fun _ _ failed => nomatch failed)
    (fun edges n rest necessary _ first _ tail error failed => by
      rw [linkScope_cons, if_pos necessary, first] at failed
      obtain ⟨id, rfl, member⟩ := tail error failed
      exact ⟨id, rfl, by simp [scopeBinds, member]⟩)
    (fun edges n rest necessary notLinked head error failed => by
      rw [linkScope_cons, if_pos necessary] at failed
      rcases result : n.link edges with ⟨edges', _ | e⟩
      · exact absurd result (notLinked edges')
      · rw [result] at failed
        obtain ⟨id, rfl, member⟩ := head necessary error (by rw [result]; exact failed)
        exact ⟨id, rfl, by simp [scopeBinds, member]⟩)
    (fun edges n rest skipped tail error failed => by
      rw [linkScope_cons, if_neg skipped] at failed
      obtain ⟨id, rfl, member⟩ := tail error failed
      exact ⟨id, rfl, by simp [scopeBinds, member]⟩)
    edges nodes error failed

end Links

namespace BindIncr

variable (b : BindIncr) (s : BindState)

@[simp] theorem unlinkOldBound_bound : (b.unlinkOldBound s).bound = none := by
  unfold unlinkOldBound; split <;> simp_all

@[simp] theorem unlinkOldBound_bindChange : (b.unlinkOldBound s).bindChange = s.bindChange := by
  unfold unlinkOldBound; split <;> rfl

@[simp] theorem unlinkOldBound_created : (b.unlinkOldBound s).created = s.created := by
  unfold unlinkOldBound; split <;> rfl

@[simp] theorem unlinkBindChange_bindChange : (b.unlinkBindChange s).bindChange = none := by
  unfold unlinkBindChange; split <;> simp_all

@[simp] theorem unlinkBindChange_bound : (b.unlinkBindChange s).bound = s.bound := by
  unfold unlinkBindChange; split <;> rfl

@[simp] theorem unlinkBindChange_created : (b.unlinkBindChange s).created = s.created := by
  unfold unlinkBindChange; split <;> rfl

/-- Unbinding removes `bindChange → bound` and `bound → b`. -/
theorem mem_unlinkOldBound_edges {e : NodeRef × NodeRef} : e ∈ (b.unlinkOldBound s).edges ↔
    e ∈ s.edges ∧ ∀ d, s.bound = some d → (∀ c, s.bindChange = some c → e ≠ (c, d)) ∧ e ≠ (d, b.self) := by
  cases hasBound : s.bound <;> cases hasChange : s.bindChange <;>
    simp [unlinkOldBound, hasBound, hasChange, and_assoc]

/-- Dropping the bind-change node removes `bindChange → bound` and `input → bindChange`. -/
theorem mem_unlinkBindChange_edges {e : NodeRef × NodeRef} : e ∈ (b.unlinkBindChange s).edges ↔
    e ∈ s.edges ∧ ∀ c, s.bindChange = some c → (∀ d, s.bound = some d → e ≠ (c, d)) ∧ e ≠ (b.input, c) := by
  cases hasBound : s.bound <;> cases hasChange : s.bindChange <;>
    simp [unlinkBindChange, hasBound, hasChange, and_assoc]

@[simp] theorem linkBindChange_bindChange :
    (b.linkBindChange s).bindChange = some (.bindChange b.id s.created) := rfl

@[simp] theorem linkBindChange_bound : (b.linkBindChange s).bound = s.bound := rfl

@[simp] theorem linkBindChange_created : (b.linkBindChange s).created = s.created + 1 := rfl

@[simp] theorem linkBindChange_edges :
    (b.linkBindChange s).edges = s.edges.link (.bindChange b.id s.created) (some b.input) := rfl

@[simp] theorem linkNewBound_bound (env : StabilizeEnv) (newIncr : NodeRef) :
    (b.linkNewBound env s newIncr).1.bound = some newIncr := rfl

@[simp] theorem linkNewBound_bindChange (env : StabilizeEnv) (newIncr : NodeRef) :
    (b.linkNewBound env s newIncr).1.bindChange = s.bindChange := rfl

@[simp] theorem linkNewBound_created (env : StabilizeEnv) (newIncr : NodeRef) :
    (b.linkNewBound env s newIncr).1.created = s.created := rfl

@[simp] theorem link_bound (env : StabilizeEnv) : (b.link env s).1.bound = s.bound := rfl

@[simp] theorem link_bindChange (env : StabilizeEnv) : (b.link env s).1.bindChange = s.bindChange := rfl

@[simp] theorem link_created (env : StabilizeEnv) : (b.link env s).1.created = s.created := rfl

variable {b s} {e : NodeRef × NodeRef}

theorem linkBindChange_keeps (member : e ∈ s.edges) : e ∈ (b.linkBindChange s).edges := by
  simp [member]

theorem linkNewBound_keeps (env : StabilizeEnv) (newIncr : NodeRef) (member : e ∈ s.edges) :
    e ∈ (b.linkNewBound env s newIncr).1.edges :=
  ((linkScope_adds env.rhsNodes _) e).1 (Edges.mem_link_of_mem (Edges.mem_link_of_mem member _) _)

theorem link_keeps (env : StabilizeEnv) (member : e ∈ s.edges) : e ∈ (b.link env s).1.edges :=
  ((linkWith_adds ((linkScope_adds env.rhsNodes).mono (fun _ _ => trivial) fun _ _ => trivial) s.edges
    trivial trivial (fun _ _ => trivial) (fun _ _ => trivial) (fun _ _ => trivial) (fun _ _ => trivial))
    e).1 member

end BindIncr

end Incr
