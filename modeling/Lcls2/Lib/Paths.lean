import Mathlib

/-!
# Paths in a graph of objects

A graph is given by a function `child` that says where a labelled edge of a node leads. `follow child v path` is the
node that a path leads to. The graph may have cycles and nodes that several paths lead to; what a change of the graph
does to a path is decided by the nodes that the path visits (`follow_congr`).
-/

namespace Lcls2.Lib

variable {V L : Type*} {child child' : V → L → Option V} {v u : V} {p q : List L}

/-- The node that a path leads to. -/
def follow (child : V → L → Option V) (v : V) : List L → Option V
  | [] => some v
  | l :: path => (child v l).bind fun u => follow child u path

/-- A path that is followed in two parts. -/
lemma follow_append : follow child v (p ++ q) = (follow child v p).bind fun u => follow child u q := by
  induction p generalizing v with
  | nil => rfl
  | cons l p ih =>
    rw [List.cons_append, follow, follow, Option.bind_assoc]
    apply Option.bind_congr
    intro u _
    exact ih

/-- The second part of a path that is followed in two parts. -/
lemma follow_from (first : follow child v p = some u) : follow child v (p ++ q) = follow child u q := by
  rw [follow_append, first, Option.bind_some]

/-- One more step. -/
lemma follow_concat {l : L} (first : follow child v p = some u) : follow child v (p ++ [l]) = child u l := by
  rw [follow_from first, follow]
  cases child u l with
  | none => rfl
  | some w => rfl

/-- The last step of a path. -/
lemma follow_concat_some {l : L} {w : V} (whole : follow child v (p ++ [l]) = some w) :
    ∃ u, follow child v p = some u ∧ child u l = some w := by
  cases first : follow child v p with
  | none =>
    rw [follow_append, first] at whole
    cases whole
  | some u => exact ⟨u, rfl, (follow_concat first).symm.trans whole⟩

/-- A path that leads nowhere breaks off somewhere. -/
lemma follow_none {path : List L} (nowhere : follow child v path = none) :
    ∃ p l q u, path = p ++ l :: q ∧ follow child v p = some u ∧ child u l = none := by
  induction path generalizing v with
  | nil => cases nowhere
  | cons l path ih =>
    cases step : child v l with
    | none => exact ⟨[], l, path, v, rfl, rfl, step⟩
    | some w =>
      rw [follow, step] at nowhere
      obtain ⟨p, l', q, u, rfl, there, off⟩ := ih nowhere
      refine ⟨l :: p, l', q, u, rfl, ?_, off⟩
      rw [follow, step]
      exact there

/-- Where two graphs agree on the edges that a path takes in one of them, it leads to the same node in both. -/
lemma follow_congr (same : ∀ p l q u, follow child v p = some u → p ++ l :: q = path → child' u l = child u l) :
    follow child' v path = follow child v path := by
  induction path generalizing v with
  | nil => rfl
  | cons l path ih =>
    have first := same [] l path v rfl rfl
    rw [follow, follow, first]
    apply Option.bind_congr
    intro u step
    apply ih
    intro p l' q w there whole
    apply same (l :: p) l' q w
    · rw [follow, step]
      exact there
    · rw [List.cons_append, whole]

/-- Nodes that are not left by a step are not left by a path. -/
lemma follow_closed {S : V → Prop} (closed : ∀ u l w, S u → child u l = some w → S w) (start : S v)
    (there : follow child v p = some u) : S u := by
  induction p generalizing v with
  | nil =>
    cases there
    exact start
  | cons l p ih =>
    obtain ⟨w, step, rest⟩ := Option.bind_eq_some_iff.mp there
    exact ih (closed v l w start step) rest

end Lcls2.Lib
