import Mathlib.Data.List.Basic

namespace Incr

/-! # Node kinds whose `Stabilize` recomputes a value

`map2Incr`, `map2Node`, `customIncr` and `WatchIncr` read their inputs' current values
when they are stabilized.  Those values are arguments here, as node heights are for the
recompute heap; each structure holds the fields its `Stabilize` writes.

`map2Incr` moves its node's `changedAt` only when Go's `!=` finds the new value different
from the old one, and dependents compare `changedAt` with the generation they last read at.
`!=` on a comparable type is taken as the value type's `BEq`: for float64 it is IEEE's, where
`+0 == -0` and `NaN != NaN`, and only where `==` is lawful does an unchanged `changedAt` mean an
unchanged value (`map2Incr_unchanged_node_holds_final_value`).
-/

variable {α β γ ε : Type}

/-- The fields of a `map2Incr` that `Stabilize` writes: its `value` and its node's
`changedAt`. -/
structure Map2Incr (γ : Type) where
  value : γ
  changedAt : Nat
deriving DecidableEq, Repr

namespace Map2Incr

variable [BEq γ] (fn : α → β → γ)

/-- `Stabilize(ctx, g)` with `left = i0.Value()` and `right = i1.Value()`; it returns nil.
`oldValue != m.value` is `!=` of the value type's `==`. -/
def stabilize (m : Map2Incr γ) (g : Nat) (left : α) (right : β) : Map2Incr γ :=
  let value := fn left right
  ⟨value, if m.value != value then g else m.changedAt⟩

/-- `Stabilize` once per `(g, left, right)`, in order. -/
def stabilizeRun (m : Map2Incr γ) : List (Nat × α × β) → Map2Incr γ
  | [] => m
  | (g, left, right) :: rest => (m.stabilize fn g left right).stabilizeRun rest

variable {fn} {m : Map2Incr γ} {g t : Nat} {left : α} {right : β}

theorem stabilize_changedAt_of_bne (changed : (m.value != fn left right) = true) :
    (m.stabilize fn g left right).changedAt = g :=
  if_pos changed

theorem stabilize_changedAt_of_not_bne (same : (m.value != fn left right) = false) :
    (m.stabilize fn g left right).changedAt = m.changedAt :=
  if_neg (by simp [same])

/-- `changedAt` never drops below a bound that it and every generation of the run meet. -/
theorem le_changedAt_stabilizeRun {steps : List (Nat × α × β)} (above : ∀ step ∈ steps, t ≤ step.1)
    (atLeast : t ≤ m.changedAt) : t ≤ (m.stabilizeRun fn steps).changedAt := by
  induction steps generalizing m with
  | nil => exact atLeast
  | cons step rest ih =>
      obtain ⟨g, left, right⟩ := step
      refine ih (fun step member => above step (List.mem_cons_of_mem _ member)) ?_
      cases changed : m.value != fn left right
      · rwa [stabilize_changedAt_of_not_bne changed]
      · rw [stabilize_changedAt_of_bne changed]
        exact above _ (List.mem_cons_self _ _)

/-- A run that leaves `changedAt` below `t` saw no difference at generation `t` or later. -/
theorem not_bne_of_changedAt_lt {steps : List (Nat × α × β)}
    (ordered : steps.Pairwise fun first later => first.1 ≤ later.1)
    (below : (m.stabilizeRun fn steps).changedAt < t) :
    ∀ before g left right after, steps = before ++ (g, left, right) :: after → t ≤ g →
      ((m.stabilizeRun fn before).value != fn left right) = false := by
  induction steps generalizing m with
  | nil => intro before _ _ _ _ split; simp at split
  | cons step rest ih =>
      obtain ⟨g₀, left₀, right₀⟩ := step
      obtain ⟨first, ordered⟩ := List.pairwise_cons.1 ordered
      rintro (_ | ⟨step, before⟩) g left right after split atLeast
      · simp only [List.nil_append, List.cons.injEq, Prod.mk.injEq] at split
        obtain ⟨⟨rfl, rfl, rfl⟩, rfl⟩ := split
        refine Bool.eq_false_iff.2 fun changed => absurd below (Nat.not_lt.2 ?_)
        exact le_changedAt_stabilizeRun (m := m.stabilize fn g₀ left₀ right₀)
          (fun step member => atLeast.trans (first step member))
          ((stabilize_changedAt_of_bne (m := m) changed).symm ▸ atLeast)
      · simp only [List.cons_append, List.cons.injEq] at split
        obtain ⟨rfl, split⟩ := split
        exact ih ordered below before g left right after split atLeast

/-- From a node last changed before `t`, a run that sees no difference at generation `t` or
later leaves `changedAt` below `t`. -/
theorem changedAt_lt_of_not_bne {steps : List (Nat × α × β)} (start : m.changedAt < t)
    (quiet : ∀ before g left right after, steps = before ++ (g, left, right) :: after → t ≤ g →
      ((m.stabilizeRun fn before).value != fn left right) = false) :
    (m.stabilizeRun fn steps).changedAt < t := by
  induction steps generalizing m with
  | nil => exact start
  | cons step rest ih =>
      obtain ⟨g, left, right⟩ := step
      refine ih ?_ fun before g' left' right' after split =>
        quiet ((g, left, right) :: before) g' left' right' after (by rw [split]; rfl)
      cases changed : m.value != fn left right
      · rwa [stabilize_changedAt_of_not_bne changed]
      · rw [stabilize_changedAt_of_bne changed]
        exact Nat.lt_of_not_le fun atLeast =>
          Bool.false_ne_true ((quiet [] g left right rest rfl atLeast).symm.trans changed)

section Lawful

variable [LawfulBEq γ]

/-- The same value again leaves the node as it was. -/
theorem stabilize_of_eq (same : m.value = fn left right) : m.stabilize fn g left right = m := by
  simp only [stabilize, same, bne_self_eq_false, Bool.false_eq_true, if_false]
  rw [← same]

/-- A run at generations from `t` on that leaves `changedAt` below `t` keeps the value. -/
theorem value_stabilizeRun_of_changedAt_lt {steps : List (Nat × α × β)}
    (above : ∀ step ∈ steps, t ≤ step.1) (below : (m.stabilizeRun fn steps).changedAt < t) :
    (m.stabilizeRun fn steps).value = m.value := by
  induction steps generalizing m with
  | nil => rfl
  | cons step rest ih =>
      obtain ⟨g, left, right⟩ := step
      have later : ∀ step ∈ rest, t ≤ step.1 := fun step member => above step (List.mem_cons_of_mem _ member)
      rw [stabilizeRun] at below ⊢
      by_cases same : m.value = fn left right
      · rw [stabilize_of_eq same] at below ⊢
        exact ih later below
      · have moved : t ≤ (m.stabilize fn g left right).changedAt := by
          rw [stabilize_changedAt_of_bne (bne_iff_ne.2 same)]
          exact above _ (List.mem_cons_self _ _)
        exact absurd (le_changedAt_stabilizeRun later moved) (Nat.not_le.2 below)

end Lawful

end Map2Incr

/-- `changedAt` records the changes Go's `!=` sees.  Over a run of stabilizations in
non-decreasing generations, from a node last changed before `t`, `changedAt` ends below `t`
exactly when no stabilization at generation `t` or later found its new value `!=` the value
the node held before it.  With IEEE `==` that is not the same as the value staying put. -/
theorem map2Incr_changedAt_records_changes [BEq γ] (fn : α → β → γ) (m : Map2Incr γ)
    (steps : List (Nat × α × β)) (ordered : steps.Pairwise fun first later => first.1 ≤ later.1)
    (t : Nat) (start : m.changedAt < t) :
    (m.stabilizeRun fn steps).changedAt < t ↔
      ∀ before g left right after, steps = before ++ (g, left, right) :: after → t ≤ g →
        ((m.stabilizeRun fn before).value != fn left right) = false :=
  ⟨Map2Incr.not_bne_of_changedAt_lt ordered, Map2Incr.changedAt_lt_of_not_bne start⟩

theorem map2Incr_changedAt_records_changes_cutoff :
    [(1, 1, 1), (2, 0, 2), (3, 2, 0)].Pairwise (fun (first later : Nat × Nat × Nat) => first.1 ≤ later.1) ∧
    (⟨0, 0⟩ : Map2Incr Nat).changedAt < 2 ∧
    (((⟨0, 0⟩ : Map2Incr Nat).stabilizeRun (· + ·) [(1, 1, 1), (2, 0, 2), (3, 2, 0)]).changedAt < 2 ↔
      ∀ before g left right after, [(1, 1, 1), (2, 0, 2), (3, 2, 0)] = before ++ (g, left, right) :: after →
        2 ≤ g → (((⟨0, 0⟩ : Map2Incr Nat).stabilizeRun (· + ·) before).value != left + right) = false) :=
  ⟨by decide, by decide, map2Incr_changedAt_records_changes (· + ·) ⟨0, 0⟩ _ (by decide) 2 (by decide)⟩

/-- Where `==` is lawful, an unchanged `changedAt` means an unchanged value.  Over a run of
stabilizations in non-decreasing generations that leaves `changedAt` below `t`, every
stabilization at generation `t` or later computed the node's final value, so a dependent that
last read the node before `t` has nothing to recompute. -/
theorem map2Incr_unchanged_node_holds_final_value [BEq γ] [LawfulBEq γ] (fn : α → β → γ)
    (m : Map2Incr γ) (steps : List (Nat × α × β))
    (ordered : steps.Pairwise fun first later => first.1 ≤ later.1) (t : Nat)
    (below : (m.stabilizeRun fn steps).changedAt < t) :
    ∀ g left right, (g, left, right) ∈ steps → t ≤ g → fn left right = (m.stabilizeRun fn steps).value := by
  induction steps generalizing m with
  | nil => exact fun _ _ _ member => absurd member (List.not_mem_nil _)
  | cons step rest ih =>
      obtain ⟨g, left, right⟩ := step
      obtain ⟨first, ordered⟩ := List.pairwise_cons.1 ordered
      intro g' left' right' member atLeast
      rcases List.mem_cons.1 member with head | later
      · obtain ⟨rfl, rfl, rfl⟩ : g' = g ∧ left' = left ∧ right' = right := by simpa using head
        exact (Map2Incr.value_stabilizeRun_of_changedAt_lt
          (fun step member => atLeast.trans (first step member)) below).symm
      · exact ih (m := m.stabilize fn g left right) ordered below g' left' right' later atLeast

theorem map2Incr_unchanged_node_holds_final_value_cutoff :
    [(1, 1, 1), (2, 0, 2), (3, 2, 0)].Pairwise (fun (first later : Nat × Nat × Nat) => first.1 ≤ later.1) ∧
    ((⟨0, 0⟩ : Map2Incr Nat).stabilizeRun (· + ·) [(1, 1, 1), (2, 0, 2), (3, 2, 0)]).changedAt < 2 ∧
    ∀ g left right, (g, left, right) ∈ [(1, 1, 1), (2, 0, 2), (3, 2, 0)] → 2 ≤ g →
      left + right = ((⟨0, 0⟩ : Map2Incr Nat).stabilizeRun (· + ·) [(1, 1, 1), (2, 0, 2), (3, 2, 0)]).value :=
  ⟨by decide, by decide,
    map2Incr_unchanged_node_holds_final_value (· + ·) ⟨0, 0⟩ _ (by decide) 2 (by decide)⟩

/-- The `val` of a `map2Node`, from the `Map2` whose `fn` can fail. -/
structure Map2Node (γ : Type) where
  val : γ

namespace Map2Node

/-- `Stabilize`: `fn`'s error is returned and `val` kept; otherwise `val` is the new value. -/
def stabilize (fn : α → β → Except ε γ) (mn : Map2Node γ) (left : α) (right : β) :
    Map2Node γ × Option ε :=
  match fn left right with
  | .error err => (mn, some err)
  | .ok nv => (⟨nv⟩, none)

/-- `Stabilize` once per pair of input values: each call's error, and the node after the
last. -/
def stabilizeRun (fn : α → β → Except ε γ) (mn : Map2Node γ) : List (α × β) → List (Option ε) × Map2Node γ
  | [] => ([], mn)
  | (left, right) :: rest =>
      let (mn', err) := mn.stabilize fn left right
      (err :: (mn'.stabilizeRun fn rest).1, (mn'.stabilizeRun fn rest).2)

/-- A failed recomputation keeps the last good value: after any run, `val` is what `fn`
returned in the last call that did not fail, or the first `val` if every call failed. -/
theorem stabilizeRun_keeps_last_computed (fn : α → β → Except ε γ) (mn : Map2Node γ)
    (inputs : List (α × β)) :
    (mn.stabilizeRun fn inputs).2.val =
      ((inputs.filterMap fun input => (fn input.1 input.2).toOption).getLast?).getD mn.val := by
  induction inputs generalizing mn with
  | nil => rfl
  | cons input rest ih =>
      obtain ⟨left, right⟩ := input
      cases result : fn left right <;>
        simp [stabilizeRun, stabilize, result, ih, Except.toOption, List.getLast?_cons]

end Map2Node

/-- The `value` of a `customIncr`. -/
structure CustomIncr (α : Type) where
  value : α

/-- `customIncr.Stabilize` with `input = a.Value()`; it returns nil. -/
def CustomIncr.stabilize (_c : CustomIncr α) (input : α) : CustomIncr α :=
  ⟨input⟩

/-- The fields of a `WatchIncr` that `Stabilize` writes.  `Watch` leaves `n` nil, and no
function here reads it. -/
structure WatchIncr (α : Type) where
  value : α
  values : List α

namespace WatchIncr

/-- `Stabilize` with `input = incr.Value()`; it returns nil. -/
def stabilize (w : WatchIncr α) (input : α) : WatchIncr α :=
  ⟨input, w.values ++ [input]⟩

end WatchIncr

end Incr
