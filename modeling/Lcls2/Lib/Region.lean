import Mathlib

/-!
# Chains in a region of slots

A region is a map from slots to entries. A chain is laid out in consecutive slots and is read from
its first slot up to and including the first entry that is marked as the last one.

* `slots` are the entries of a range of slots, `chain` is the reader and `walk` what it sees; a list
  with `IsChain` is read to its end.
* `Laid` says that a range of slots holds given entries and that no mark stands before its end;
  `Laid.walk` is what a reader gets once the end is marked.
* `Laid.snoc` and `Laid.update` are what a write at the end of the range, and one elsewhere, do to it.
-/

namespace Lcls2.Lib

variable {α β : Type*}

/-- Reading up to and including the first entry that is the last one. -/
def chain (last : α → Bool) : List α → Option (List α)
  | [] => none
  | a :: as => if last a then some [a] else (chain last as).map (a :: ·)

/-- A reader stops at the first mark. -/
lemma chain_append {last : α → Bool} {as : List α} {a : α} (rest : List α)
    (unmarked : ∀ x ∈ as, last x = false) (marked : last a = true) :
    chain last (as ++ a :: rest) = some (as ++ [a]) := by
  induction as with
  | nil => simp [chain, marked]
  | cons x as ih =>
    have hx := unmarked x List.mem_cons_self
    have ih := ih fun y hy => unmarked y (List.mem_cons_of_mem x hy)
    simp [chain, hx, ih]

/-- A list is a chain if a reader stops at its end. -/
def IsChain (last : α → Bool) (l : List α) : Prop := chain last l = some l

instance [DecidableEq α] (last : α → Bool) (l : List α) : Decidable (IsChain last l) :=
  inferInstanceAs (Decidable (chain last l = some l))

/-- A chain ends at its first entry that is the last one. -/
lemma isChain_cons {last : α → Bool} {a : α} {as : List α} :
    IsChain last (a :: as) ↔ (last a = true ∧ as = []) ∨ (last a = false ∧ IsChain last as) := by
  cases h : last a with
  | true => simp [IsChain, chain, h, eq_comm]
  | false => simp [IsChain, chain, h]

lemma IsChain.ne {last : α → Bool} {l : List α} (h : IsChain last l) : l ≠ [] := by
  intro e
  rw [e] at h
  cases h

/-- What a reader sees of the entries it visits. -/
def walk (last : α → Bool) (view : α → β) (l : List α) : Option (List β) :=
  (chain last l).map (List.map view)

/-- The entries of `n` slots from `s` on. -/
def slots (mem : ℕ → α) (s n : ℕ) : List α := (List.range' s n).map mem

@[simp] lemma slots_zero (mem : ℕ → α) (s : ℕ) : slots mem s 0 = [] := rfl

@[simp] lemma slots_length (mem : ℕ → α) (s n : ℕ) : (slots mem s n).length = n := by
  simp [slots]

lemma slots_succ (mem : ℕ → α) (s n : ℕ) : slots mem s (n + 1) = slots mem s n ++ [mem (s + n)] := by
  simp [slots, List.range'_concat]

lemma slots_cons (mem : ℕ → α) (s n : ℕ) : slots mem s (n + 1) = mem s :: slots mem (s + 1) n := by
  simp [slots, List.range'_succ]

lemma slots_add (mem : ℕ → α) (s n k : ℕ) :
    slots mem s (n + k) = slots mem s n ++ slots mem (s + n) k := by
  rw [slots, ← List.range'_append_1, List.map_append]
  rfl

lemma mem_slots {mem : ℕ → α} {s n : ℕ} {a : α} :
    a ∈ slots mem s n ↔ ∃ i, s ≤ i ∧ i < s + n ∧ mem i = a := by
  simp [slots, List.mem_range'_1, and_assoc]

/-- A range of slots only depends on what they hold. -/
lemma slots_congr {mem mem' : ℕ → α} {s n : ℕ} (same : ∀ i, s ≤ i → i < s + n → mem' i = mem i) :
    slots mem' s n = slots mem s n := by
  apply List.map_congr_left
  intro i hi
  obtain ⟨lo, hi⟩ := List.mem_range'_1.mp hi
  exact same i lo hi

/-- The slots from `s` on hold `as`, seen through `view`, and no mark stands before the last. -/
structure Laid (last : α → Bool) (view : α → β) (mem : ℕ → α) (s : ℕ) (as : List β) : Prop where
  ne : as ≠ []
  view : (slots mem s as.length).map view = as
  unmarked : ∀ i, s ≤ i → i + 1 < s + as.length → last (mem i) = false

namespace Laid

variable {last : α → Bool} {view : α → β} {mem mem' : ℕ → α} {s : ℕ} {as : List β}

lemma pos (laid : Laid last view mem s as) : 0 < as.length := List.length_pos_iff.mpr laid.ne

/-- One entry is a chain. -/
lemma single (s : ℕ) : Laid last view mem s [view (mem s)] where
  ne := by simp
  view := by simp [slots]
  unmarked i lo hi := by
    simp only [List.length_singleton] at hi
    omega

/-- What a reader gets once the end is marked, however long the region is. -/
lemma walk (laid : Laid last view mem s as) {e n : ℕ} (len : e + 1 = s + as.length)
    (fits : e < s + n) (marked : last (mem e) = true) :
    Lib.walk last view (slots mem s n) = some as := by
  have pos := laid.pos
  obtain ⟨k, hk⟩ : ∃ k, as.length = k + 1 := ⟨as.length - 1, by omega⟩
  obtain ⟨r, hr⟩ : ∃ r, n = as.length + r := ⟨n - as.length, by omega⟩
  have he : e = s + k := by omega
  have reads : chain last (slots mem s n) = some (slots mem s as.length) := by
    rw [hr, slots_add, hk, slots_succ, List.append_assoc, List.singleton_append]
    apply chain_append
    · intro x hx
      obtain ⟨i, lo, hi, rfl⟩ := mem_slots.mp hx
      exact laid.unmarked i lo (by omega)
    · rw [← he]
      exact marked
  rw [Lib.walk, reads, Option.map_some, laid.view]

/-- A chain whose end is not marked grows by the slot behind it. -/
lemma snoc (laid : Laid last view mem s as) {e : ℕ} (len : e + 1 = s + as.length)
    (unmarked : last (mem e) = false) : Laid last view mem s (as ++ [view (mem (e + 1))]) where
  ne := by simp
  view := by
    rw [List.length_append, List.length_singleton, slots_succ, List.map_append, laid.view, ← len]
    rfl
  unmarked i lo hi := by
    simp only [List.length_append, List.length_singleton] at hi
    rcases (by omega : i = e ∨ i + 1 < s + as.length) with rfl | hi
    · exact unmarked
    · exact laid.unmarked i lo hi

/-- A chain does not see what changes outside it, nor what its view hides of its last entry. -/
lemma update (laid : Laid last view mem s as)
    (same : ∀ i, s ≤ i → i < s + as.length → view (mem' i) = view (mem i))
    (inner : ∀ i, s ≤ i → i + 1 < s + as.length → last (mem' i) = last (mem i)) :
    Laid last view mem' s as where
  ne := laid.ne
  view := by
    have h : slots (fun i => view (mem' i)) s as.length =
        slots (fun i => view (mem i)) s as.length := slots_congr same
    have e := laid.view
    simp only [slots, List.map_map] at h e ⊢
    exact h.trans e
  unmarked i lo hi := (inner i lo hi).trans (laid.unmarked i lo hi)

/-- The entry behind the first slot. -/
lemma head (laid : Laid last view mem s as) : as.head? = some (view (mem s)) := by
  have pos := laid.pos
  obtain ⟨k, hk⟩ : ∃ k, as.length = k + 1 := ⟨as.length - 1, by omega⟩
  have e := laid.view
  rw [hk, slots_cons] at e
  rw [← e]
  rfl

/-- The entry behind the last slot. -/
lemma getLast (laid : Laid last view mem s as) {e : ℕ} (len : e + 1 = s + as.length) :
    as.getLast? = some (view (mem e)) := by
  have pos := laid.pos
  obtain ⟨k, hk⟩ : ∃ k, as.length = k + 1 := ⟨as.length - 1, by omega⟩
  have h := laid.view
  rw [hk, slots_succ] at h
  rw [← h, show e = s + k by omega]
  simp

end Laid

/-- In a list of parts without duplicates every entry is in one part. -/
lemma existsUnique_part {l : List α} {f : α → List β} (nodup : (l.flatMap f).Nodup) {e : β}
    (he : e ∈ l.flatMap f) : ∃! i : ℕ, ∃ c, l[i]? = some c ∧ e ∈ f c := by
  obtain ⟨_, apart⟩ := List.nodup_flatMap.mp nodup
  obtain ⟨c, hc, he⟩ := List.mem_flatMap.mp he
  obtain ⟨i, hi, rfl⟩ := List.mem_iff_getElem.mp hc
  refine ⟨i, ⟨l[i], List.getElem?_eq_getElem hi, he⟩, ?_⟩
  rintro j ⟨c', hj, he'⟩
  obtain ⟨lt, rfl⟩ := List.getElem?_eq_some_iff.mp hj
  rcases Nat.lt_trichotomy i j with before | eq | after
  · exact absurd he' (List.pairwise_iff_getElem.mp apart i j hi lt before he)
  · exact eq.symm
  · exact absurd he (List.pairwise_iff_getElem.mp apart j i lt hi after he')

end Lcls2.Lib
