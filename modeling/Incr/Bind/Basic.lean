import Incr.RecomputeHeap.Basic

namespace Incr

/-! # Bind nodes and the edges they link

`bindIncr.Stabilize` runs the bind's `fn` when its input changed and swaps the
right-hand side it is bound to: it unlinks the old bound and the old bind-change node,
makes a fresh bind-change node under the input, links the new bound under it and above
the bind, and relinks every necessary bind that `fn` made in the bind's scope.

The graph is its set of `parent → child` edges, which `Link` adds and `Unlink` removes.
`fn` is not modelled: each call's `StabilizeEnv` holds what it returned and the scope
it left, along with the stamps and the graph that `Stabilize` reads.  A bind made in
the scope is a `ScopeNode`, with the fields its own `Link` reads.
-/

/-- A node of the graph.  `NewNode` gives every node a fresh identifier; the
bind-change nodes a bind makes are `bindChange bind index`, the `index`-th one
`bind` made, so they are distinct from every other node by construction. -/
inductive NodeRef where
  | node (id : Identifier)
  | bindChange (bind : Identifier) (index : Nat)
deriving DecidableEq, Repr

/-- Whether a node is one of the bind-change nodes bind `bind` made. -/
def NodeRef.isBindChangeOf (bind : Identifier) : NodeRef → Bool
  | .bindChange owner _ => owner = bind
  | .node _ => false

/-- The graph's edges, each `(parent, child)`. -/
abbrev Edges := List (NodeRef × NodeRef)

/-- Modelled from the spec: `Link(child, parent)` adds the edge `parent → child`; a nil
parent adds none. -/
def Edges.link (edges : Edges) (child : NodeRef) : Option NodeRef → Edges
  | some parent => edges.insert (parent, child)
  | none => edges

/-- Modelled from the spec: `Unlink(child, parent)` removes the edge `parent → child`. -/
def Edges.unlink (edges : Edges) (child : NodeRef) : Option NodeRef → Edges
  | some parent => edges.filter (· ≠ (parent, child))
  | none => edges

/-- The errors `Stabilize` returns. -/
inductive StabilizeError where
  /-- `"%v graph is unset"`, from `Stabilize`. -/
  | graphUnset (bind : Identifier)
  /-- `"%v has unset graph"`, from the `Link` of the bind or of a bind in its scope. -/
  | linkGraphUnset (bind : Identifier)
  /-- The error `fn` returned. -/
  | fn (error : String)
deriving DecidableEq, Repr

/-- A node `fn` made in a bind's scope (`scope.rhsNodes`): a bind, with the fields its
`Link` reads and whether it is necessary, or a node of any other kind. -/
inductive ScopeNode where
  | other
  | bind (id : Identifier) (input : NodeRef) (graphSet necessary : Bool)
      (bindChange bound : Option NodeRef) (rhsNodes : List ScopeNode)

/-- `n.(IBind)` succeeds and `n.Node().isNecessary()`. -/
def ScopeNode.isNecessaryBind : ScopeNode → Bool
  | .bind _ _ _ necessary _ _ _ => necessary
  | .other => false

/-- `Link(b, b.bound); Link(b.bound, b.bindChange)`, then the loop over the scope's
`rhsNodes`, passed in as `linkRhs`. -/
def linkBound (linkRhs : Edges → Edges × Option StabilizeError) (edges : Edges) (id : Identifier)
    (bound : NodeRef) (bindChange : Option NodeRef) : Edges × Option StabilizeError :=
  linkRhs (((edges.link (.node id) (some bound)).link bound bindChange))

/-- `bindIncr.Link` of the bind `id`, with the loop over its scope's `rhsNodes` passed
in as `linkRhs`. -/
def linkWith (linkRhs : Edges → Edges × Option StabilizeError) (edges : Edges) (id : Identifier)
    (input : NodeRef) (graphSet : Bool) (bindChange bound : Option NodeRef) :
    Edges × Option StabilizeError :=
  if graphSet then
    let edges := match bindChange with
      | some bindChange => edges.link bindChange (some input)
      | none => edges
    match bound with
    | some bound => linkBound linkRhs edges id bound bindChange
    | none => (edges, none)
  else (edges, some (.linkGraphUnset id))

mutual

/-- `typed.Link(ctx)` of a bind in a scope; a node of another kind links nothing. -/
def ScopeNode.link (edges : Edges) : ScopeNode → Edges × Option StabilizeError
  | .other => (edges, none)
  | .bind id input graphSet _ bindChange bound rhsNodes =>
      linkWith (fun edges => linkScope edges rhsNodes) edges id input graphSet bindChange bound

/-- The loop over a scope's `rhsNodes`: `Link` every necessary bind, stopping at the
first error. -/
def linkScope (edges : Edges) : List ScopeNode → Edges × Option StabilizeError
  | [] => (edges, none)
  | n :: rest =>
      if n.isNecessaryBind then
        match n.link edges with
        | (edges, none) => linkScope edges rest
        | failed => failed
      else linkScope edges rest

end

mutual

/-- The nodes the `Link` of a scope node can touch: the bind, its input, bind-change
node and bound, and those of the binds in its own scope. -/
def ScopeNode.refs : ScopeNode → List NodeRef
  | .other => []
  | .bind id input _ _ bindChange bound rhsNodes =>
      .node id :: input :: bindChange.toList ++ bound.toList ++ scopeRefs rhsNodes

def scopeRefs : List ScopeNode → List NodeRef
  | [] => []
  | n :: rest => n.refs ++ scopeRefs rest

end

mutual

/-- The nodes an edge made by the `Link` of a scope node can end at: those it can touch
other than the inputs of its binds. -/
def ScopeNode.targets : ScopeNode → List NodeRef
  | .other => []
  | .bind id _ _ _ bindChange bound rhsNodes =>
      .node id :: bindChange.toList ++ bound.toList ++ scopeTargets rhsNodes

def scopeTargets : List ScopeNode → List NodeRef
  | [] => []
  | n :: rest => n.targets ++ scopeTargets rest

end

/-- What one `Stabilize` call reads from outside the bind's own fields. -/
structure StabilizeEnv where
  /-- `b.n.graph`: nil, or the graph's `stabilizationNum`. -/
  stabilizationNum : Option Nat
  /-- `b.input.Node().changedAt`. -/
  inputChangedAt : Nat
  /-- `b.n.changedAt`. -/
  changedAt : Nat
  /-- `b.bound.Node().changedAt`, read when `fn` returns the bound node again. -/
  boundChangedAt : Nat
  /-- What `fn` returned: a node, nil, or an error. -/
  fnResult : Except String (Option NodeRef)
  /-- `b.scope.rhsNodes` once `fn` has returned. -/
  rhsNodes : List ScopeNode

/-- The fields of a `bindIncr` that never change: its identifier and its input, which
existed before the bind and so is none of its bind-change nodes. -/
structure BindIncr where
  id : Identifier
  input : NodeRef
  input_not_bindChange : input.isBindChangeOf id = false

/-- The fields of a `bindIncr` that `Stabilize` writes, with the graph's edges.
`created` counts the bind-change nodes made so far, so `NewNode` names the next one
`bindChange id created`. -/
structure BindState where
  bindChange : Option NodeRef
  bound : Option NodeRef
  boundAt : Nat
  created : Nat
  edges : Edges

namespace BindIncr

/-- The bind itself as a node of the graph. -/
def self (b : BindIncr) : NodeRef := .node b.id

/-- `Value()`: the bound node's value, read from `values`, or the zero value while
nothing is bound. -/
def value {β : Type} [Inhabited β] (_b : BindIncr) (values : NodeRef → β) (s : BindState) : β :=
  match s.bound with
  | some bound => values bound
  | none => default

def didInputChange (_b : BindIncr) (env : StabilizeEnv) : Bool :=
  env.inputChangedAt ≥ env.changedAt

def unlinkOldBound (b : BindIncr) (s : BindState) : BindState :=
  match s.bound with
  | some bound =>
      { s with edges := (s.edges.unlink bound s.bindChange).unlink b.self (some bound), bound := none }
  | none => s

def unlinkBindChange (b : BindIncr) (s : BindState) : BindState :=
  match s.bindChange with
  | some bindChange =>
      let edges := match s.bound with
        | some bound => s.edges.unlink bound (some bindChange)
        | none => s.edges
      { s with edges := edges.unlink bindChange (some b.input), bindChange := none }
  | none => s

/-- `linkBindChange`, which never fails: a fresh bind-change node linked under the
input. -/
def linkBindChange (b : BindIncr) (s : BindState) : BindState :=
  let bindChange := NodeRef.bindChange b.id s.created
  { s with
    bindChange := some bindChange
    created := s.created + 1
    edges := s.edges.link bindChange (some b.input) }

def linkNewBound (b : BindIncr) (env : StabilizeEnv) (s : BindState) (newIncr : NodeRef) :
    BindState × Option StabilizeError :=
  let linked := linkBound (fun edges => linkScope edges env.rhsNodes) s.edges b.id newIncr s.bindChange
  ({ s with bound := some newIncr, edges := linked.1 }, linked.2)

/-- `b.Link(ctx)`. -/
def link (b : BindIncr) (env : StabilizeEnv) (s : BindState) : BindState × Option StabilizeError :=
  let linked := linkWith (fun edges => linkScope edges env.rhsNodes) s.edges b.id b.input
    env.stabilizationNum.isSome s.bindChange s.bound
  ({ s with edges := linked.1 }, linked.2)

def stabilize (b : BindIncr) (env : StabilizeEnv) (s : BindState) :
    BindState × Option StabilizeError :=
  match env.stabilizationNum with
  | none => (s, some (.graphUnset b.id))
  | some stabilizationNum =>
      if !b.didInputChange env then ({ s with boundAt := stabilizationNum }, none)
      else
        match env.fnResult with
        | .error error => (s, some (.fn error))
        | .ok newIncr =>
            match s.bound, newIncr with
            | some bound, some newIncr =>
                if bound ≠ newIncr then
                  match b.linkNewBound env (b.linkBindChange (b.unlinkBindChange (b.unlinkOldBound s)))
                      newIncr with
                  | (s, none) => ({ s with boundAt := stabilizationNum }, none)
                  | failed => failed
                else
                  -- the same node again: continue if it changed since the last bind
                  let bindChanged := decide (env.boundChangedAt > s.boundAt)
                  match b.link env s with
                  | (s, none) => (if bindChanged then { s with boundAt := stabilizationNum } else s, none)
                  | failed => failed
            | none, some newIncr =>
                match b.linkNewBound env (b.linkBindChange s) newIncr with
                | (s, none) => ({ s with boundAt := stabilizationNum }, none)
                | failed => failed
            | some _, none =>
                ({ b.unlinkBindChange (b.unlinkOldBound s) with boundAt := stabilizationNum }, none)
            | none, none => (s, none)

/-- `Stabilize` once per environment: each call's error, and the state after the last. -/
def stabilizeRun (b : BindIncr) (s : BindState) : List StabilizeEnv →
    List (Option StabilizeError) × BindState
  | [] => ([], s)
  | env :: rest =>
      ((b.stabilize env s).2 :: (b.stabilizeRun (b.stabilize env s).1 rest).1,
        (b.stabilizeRun (b.stabilize env s).1 rest).2)

/-- The node bound after each call of a run (nil adds none). -/
def boundsAfter (b : BindIncr) (s : BindState) : List StabilizeEnv → List NodeRef
  | [] => []
  | env :: rest => (b.stabilize env s).1.bound.toList ++ b.boundsAfter (b.stabilize env s).1 rest

end BindIncr

end Incr
