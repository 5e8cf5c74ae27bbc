import Mathlib

/-!
# Dealing in turn

Items that are dealt to `n` queues in turn, the first one as number `k`, and are taken back in the same turn,
come back in their order: what is at the front of the queue whose turn it is is the first of all. When `n` take
turns from `i` on, each has its turn once in any `n`.
-/

namespace Lcls2.Lib

variable {α : Type*} (n q : Nat)

/-- What the queue `q` of `n` gets of items that are dealt in turn from number `k` on. -/
def dealt : Nat → List α → List α
  | _, [] => []
  | k, x :: xs => if k % n = q then x :: dealt (k + 1) xs else dealt (k + 1) xs

variable {n q} {k : Nat}

/-- The queue whose turn it is gets the first item. -/
lemma dealt_self (x : α) (xs : List α) : dealt n (k % n) k (x :: xs) = x :: dealt n (k % n) (k + 1) xs := by
  rw [dealt, if_pos rfl]

/-- The others do not. -/
lemma dealt_other (other : k % n ≠ q) (x : α) (xs : List α) : dealt n q k (x :: xs) = dealt n q (k + 1) xs := by
  rw [dealt, if_neg other]

/-- What is at the front of the queue whose turn it is is the first of all. -/
lemma eq_cons_of_dealt {x : α} {xs ys : List α} (h : dealt n (k % n) k xs = x :: ys) : ∃ later, xs = x :: later := by
  cases xs with
  | nil => cases h
  | cons y later =>
    rw [dealt_self] at h
    cases h
    exact ⟨later, rfl⟩

/-- The queue whose turn it is gets one more item. -/
lemma dealt_append (xs : List α) (x : α) :
    dealt n q k (xs ++ [x]) = if (k + xs.length) % n = q then dealt n q k xs ++ [x] else dealt n q k xs := by
  induction xs generalizing k with
  | nil =>
    rw [List.nil_append, List.length_nil, Nat.add_zero, dealt]
    rfl
  | cons y ys ih =>
    have number : k + 1 + ys.length = k + (ys.length + 1) := by omega
    rw [List.cons_append, dealt, ih, dealt, List.length_cons, number]
    by_cases turn : k % n = q
    · rw [if_pos turn, if_pos turn]
      split
      · rfl
      · rfl
    · rw [if_neg turn, if_neg turn]

/-- What a queue gets was dealt. -/
lemma mem_of_mem_dealt {x : α} {xs : List α} (h : x ∈ dealt n q k xs) : x ∈ xs := by
  induction xs generalizing k with
  | nil => exact h
  | cons y ys ih =>
    rw [dealt] at h
    split at h
    · cases List.mem_cons.mp h with
      | inl same => exact same ▸ List.mem_cons_self
      | inr later => exact List.mem_cons_of_mem y (ih later)
    · exact List.mem_cons_of_mem y (ih h)

/-- Each item is in a queue. -/
lemma exists_mem_dealt (pos : 0 < n) {x : α} {xs : List α} (h : x ∈ xs) : ∃ q < n, x ∈ dealt n q k xs := by
  induction xs generalizing k with
  | nil => cases h
  | cons y ys ih =>
    cases List.mem_cons.mp h with
    | inl same =>
      refine ⟨k % n, Nat.mod_lt k pos, ?_⟩
      rw [dealt_self, same]
      exact List.mem_cons_self
    | inr later =>
      obtain ⟨q, lt, mem⟩ := ih (k := k + 1) later
      refine ⟨q, lt, ?_⟩
      rw [dealt]
      split
      · exact List.mem_cons_of_mem y mem
      · exact mem

/-- A queue gets what it is dealt in the order of all items. -/
lemma dealt_sublist (xs : List α) : (dealt n q k xs).Sublist xs := by
  induction xs generalizing k with
  | nil => exact .slnil
  | cons y ys ih =>
    rw [dealt]
    split
    · exact .cons_cons y ih
    · exact .cons y ih

/-! ## Turns -/

variable (n) in
/-- Whose the next `k` turns are, from `i` on. -/
def turns : Nat → Nat → List Nat
  | 0, _ => []
  | k + 1, i => i :: turns k ((i + 1) % n)

@[simp] lemma length_turns (i : Nat) : (turns n k i).length = k := by
  induction k generalizing i with
  | zero => rfl
  | succ k ih =>
    rw [turns, List.length_cons, ih]

/-- The turns go round. -/
lemma turns_eq_map {i : Nat} (lt : i < n) : turns n k i = (List.range k).map (fun j => (i + j) % n) := by
  induction k generalizing i with
  | zero => rfl
  | succ k ih =>
    have later : (fun j => ((i + 1) % n + j) % n) = (fun j => (i + j) % n) ∘ Nat.succ := by
      funext j
      rw [Nat.mod_add_mod, Function.comp_apply, Nat.succ_eq_add_one, Nat.add_assoc, Nat.add_comm 1 j]
    rw [turns, ih (Nat.mod_lt _ (by omega)), List.range_succ_eq_map, List.map_cons, List.map_map, later,
      Nat.add_zero, Nat.mod_eq_of_lt lt]

/-- In `n` turns each has one. -/
lemma mem_turns {i j : Nat} (lt : i < n) : j ∈ turns n n i ↔ j < n := by
  rw [turns_eq_map lt, List.mem_map]
  constructor
  · rintro ⟨m, -, rfl⟩
    exact Nat.mod_lt _ (by omega)
  · intro below
    cases Nat.lt_or_ge j i with
    | inl before =>
      refine ⟨j + n - i, List.mem_range.mpr (by omega), ?_⟩
      have round : i + (j + n - i) = j + n := by omega
      rw [round, Nat.add_mod_right, Nat.mod_eq_of_lt below]
    | inr after =>
      refine ⟨j - i, List.mem_range.mpr (by omega), ?_⟩
      rw [Nat.add_sub_of_le after, Nat.mod_eq_of_lt below]

/-- In `n` turns nobody has two. -/
lemma nodup_turns {i : Nat} (lt : i < n) : (turns n n i).Nodup := by
  rw [turns_eq_map lt]
  refine List.Nodup.map_on (fun x xlt y ylt same => ?_) List.nodup_range
  have xlt := List.mem_range.mp xlt
  have ylt := List.mem_range.mp ylt
  have same : i + x ≡ i + y [MOD n] := same
  exact (Nat.ModEq.add_left_cancel' i same).eq_of_lt_of_lt xlt ylt

end Lcls2.Lib
