import Mathlib

/-!
# Scanning a doubly linked list from a cursor

A doubly linked list with a cursor in it is a zipper: the elements before the cursor, nearest
first, and the elements from the cursor on. `scanForward` walks forward from the cursor while the
keys are too small and turns round at the first key that is too large; `scanReverse` is the leg
that walks back. The result is a `Spot`: the element with the key, or the gap where it belongs.

On a list that is strictly sorted by key, `scanForward_spec` says that the spot does not depend on
where the cursor stands: a hit has the key, and a gap separates the smaller from the larger keys.
-/

namespace Lcls2.Lib

variable {α κ : Type*} [LinearOrder κ]

/-- Where a scan ends; `before` is kept nearest first. -/
inductive Spot (α : Type*) where
  | hit (before : List α) (found : α) (next : List α)
  | gap (before : List α) (next : List α)

/-- The list a spot lies in. -/
def Spot.whole : Spot α → List α
  | .hit before found next => before.reverse ++ found :: next
  | .gap before next => before.reverse ++ next

/-- The leg of the scan that walks back. -/
def scanReverse (key : α → κ) (k : κ) : List α → List α → Spot α
  | [], next => .gap [] next
  | x :: before, next =>
    if k = key x then .hit before x next
    else if key x < k then .gap (x :: before) next
    else scanReverse key k before (x :: next)

/-- The scan from the cursor: forward, and back once a key is too large. -/
def scanForward (key : α → κ) (k : κ) : List α → List α → Spot α
  | before, [] => .gap before []
  | before, x :: next =>
    if k = key x then .hit before x next
    else if key x < k then scanForward key k (x :: before) next
    else scanReverse key k before (x :: next)

/-- A spot is right for `k`: a hit has the key, a gap separates the smaller and the larger keys. -/
def Spot.Right (key : α → κ) (k : κ) : Spot α → Prop
  | .hit _ found _ => key found = k
  | .gap before next => (∀ x ∈ before, key x < k) ∧ ∀ x ∈ next, k < key x

variable {key : α → κ} {k : κ}

/-- In a list that is strictly sorted by key, the key tells the elements apart. -/
lemma sorted_inj {l : List α} (sorted : l.Pairwise (key · < key ·)) {x y} (hx : x ∈ l) (hy : y ∈ l)
    (h : key x = key y) : x = y := by
  have nodup : (l.map key).Nodup :=
    List.pairwise_map.mpr (sorted.imp fun lt => ne_of_lt lt)
  exact List.inj_on_of_nodup_map nodup hx hy h

variable (key k) in
@[simp] lemma scanReverse_whole (before next : List α) :
    (scanReverse key k before next).whole = before.reverse ++ next := by
  induction before generalizing next with
  | nil => simp [scanReverse, Spot.whole]
  | cons x before ih =>
    simp only [scanReverse]
    split
    · simp [Spot.whole]
    · split
      · simp [Spot.whole]
      · rw [ih]; simp

variable (key k) in
@[simp] lemma scanForward_whole (before next : List α) :
    (scanForward key k before next).whole = before.reverse ++ next := by
  induction next generalizing before with
  | nil => simp [scanForward, Spot.whole]
  | cons x next ih =>
    simp only [scanForward]
    split
    · simp [Spot.whole]
    · split
      · rw [ih]; simp
      · simp

/-- The leg back ends at the right spot when all that lies ahead is larger. -/
lemma scanReverse_spec {before next : List α}
    (sorted : (before.reverse ++ next).Pairwise (key · < key ·))
    (larger : ∀ x ∈ next, k < key x) : (scanReverse key k before next).Right key k := by
  induction before generalizing next with
  | nil => exact ⟨by simp, larger⟩
  | cons x before ih =>
    simp only [scanReverse]
    split
    · rename_i e; exact e.symm
    · rename_i ne
      split
      · rename_i lt
        refine ⟨?_, larger⟩
        intro y hy
        rcases List.mem_cons.mp hy with rfl | hy
        · exact lt
        · simp only [List.reverse_cons, List.append_assoc] at sorted
          have h := (List.pairwise_append.mp sorted).2.2 y (by simpa using hy) x (by simp)
          exact h.trans lt
      · rename_i nlt
        have gt : k < key x := lt_of_le_of_ne (not_lt.mp nlt) ne
        refine ih (by simpa using sorted) ?_
        intro y hy
        rcases List.mem_cons.mp hy with rfl | hy
        · exact gt
        · exact larger y hy

/-- On a sorted list the scan ends at the right spot, wherever it starts. -/
lemma scanForward_spec {before next : List α}
    (sorted : (before.reverse ++ next).Pairwise (key · < key ·))
    (start : next = [] → ∀ x ∈ before, key x < k) :
    (scanForward key k before next).Right key k := by
  induction next generalizing before with
  | nil => exact ⟨start rfl, by simp⟩
  | cons x next ih =>
    simp only [scanForward]
    split
    · rename_i e; exact e.symm
    · rename_i ne
      split
      · rename_i lt
        refine ih (by simpa using sorted) ?_
        intro _ y hy
        rcases List.mem_cons.mp hy with rfl | hy
        · exact lt
        · have h := (List.pairwise_append.mp sorted).2.2 y (by simpa using hy) x (by simp)
          exact h.trans lt
      · rename_i nlt
        have gt : k < key x := lt_of_le_of_ne (not_lt.mp nlt) ne
        refine scanReverse_spec sorted ?_
        intro y hy
        rcases List.mem_cons.mp hy with rfl | hy
        · exact gt
        · have tail := (List.pairwise_append.mp sorted).2.1
          exact gt.trans (List.rel_of_pairwise_cons tail hy)

end Lcls2.Lib
