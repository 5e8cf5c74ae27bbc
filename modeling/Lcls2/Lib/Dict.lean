import Mathlib

/-!
# Dictionaries in order of insertion

A dictionary as the list of its items, in the order in which their keys first came. Setting a key that is there
replaces its value in place, another key goes to the end. Of two items with one key a lookup would see the first,
but `Nodup` of the keys is kept by every operation, and then items and lookups are the same (`mem_iff_lookup`).
-/

namespace Lcls2.Lib

variable {K V W : Type*} [DecidableEq K]

/-- The items of a dictionary. -/
abbrev Dict (K V : Type*) := List (K × V)

namespace Dict

/-- The keys. -/
def keys (d : Dict K V) : List K := d.map Prod.fst

/-- `d[k] = v`. -/
def setItem (d : Dict K V) (k : K) (v : V) : Dict K V :=
  match d with
  | [] => [(k, v)]
  | (k', v') :: d => if k' = k then (k, v) :: d else (k', v') :: setItem d k v

/-- `d.update(e)`. -/
def update (d e : Dict K V) : Dict K V := e.foldl (fun d item => d.setItem item.1 item.2) d

/-- A lookup looks at the first item first. -/
lemma lookup_cons_eq (k₁ : K) (v₁ : V) (d : Dict K V) (k : K) :
    List.lookup k ((k₁, v₁) :: d) = if k = k₁ then some v₁ else List.lookup k d := by
  by_cases h : k = k₁
  · simp [h]
  · have ne : (k == k₁) = false := beq_false_of_ne h
    rw [List.lookup_cons, ne, if_neg h]

/-- What is looked up is an item. -/
lemma mem_of_lookup {d : Dict K V} {k : K} {v : V} (h : d.lookup k = some v) : (k, v) ∈ d := by
  obtain ⟨before, after, rfl, _⟩ := List.lookup_eq_some_iff.mp h
  exact List.mem_append_right _ List.mem_cons_self

/-- What is set is seen, and nothing else changes. -/
@[simp] lemma lookup_setItem (d : Dict K V) (k : K) (v : V) (k' : K) :
    (d.setItem k v).lookup k' = if k' = k then some v else d.lookup k' := by
  induction d with
  | nil => exact lookup_cons_eq k v [] k'
  | cons item d ih =>
    obtain ⟨k₁, v₁⟩ := item
    simp only [setItem]
    by_cases h₁ : k₁ = k
    · subst h₁
      rw [if_pos rfl, lookup_cons_eq, lookup_cons_eq]
      split <;> rfl
    · rw [if_neg h₁, lookup_cons_eq, lookup_cons_eq, ih]
      by_cases h : k' = k₁
      · subst h
        rw [if_pos rfl, if_pos rfl, if_neg h₁]
      · rw [if_neg h, if_neg h]

/-- Of two values that are set for one key, the second one stays. -/
lemma setItem_setItem (d : Dict K V) (k : K) (u v : V) : (d.setItem k u).setItem k v = d.setItem k v := by
  induction d with
  | nil => exact if_pos rfl
  | cons item d ih =>
    obtain ⟨k₁, v₁⟩ := item
    simp only [setItem]
    split
    · exact if_pos rfl
    · rename_i other
      rw [setItem, if_neg other, ih]

/-- The keys after a key is set. -/
lemma mem_keys_setItem {d : Dict K V} {k : K} {v : V} {k' : K} :
    k' ∈ (d.setItem k v).keys ↔ k' = k ∨ k' ∈ d.keys := by
  induction d with
  | nil => simp [setItem, keys]
  | cons item d ih =>
    obtain ⟨k₁, v₁⟩ := item
    simp only [setItem]
    split
    · rename_i h
      subst h
      simp [keys]
    · have ih : k' ∈ (Dict.setItem d k v).map Prod.fst ↔ k' = k ∨ k' ∈ d.map Prod.fst := ih
      simp only [keys, List.map_cons, List.mem_cons, ih]
      tauto

/-- Setting a key keeps the keys distinct. -/
lemma nodup_setItem {d : Dict K V} (nodup : d.keys.Nodup) (k : K) (v : V) : (d.setItem k v).keys.Nodup := by
  induction d with
  | nil => exact List.nodup_singleton k
  | cons item d ih =>
    obtain ⟨k₁, v₁⟩ := item
    obtain ⟨fresh, rest⟩ := List.nodup_cons.mp nodup
    simp only [setItem]
    split
    · rename_i h
      subst h
      exact nodup
    · rename_i h
      refine List.nodup_cons.mpr ⟨?_, ih rest⟩
      intro mem
      cases mem_keys_setItem.mp mem with
      | inl e => exact h e
      | inr old => exact fresh old

/-- Of the items that are set one after the other, the last one with a key is seen. -/
lemma lookup_foldl_set (f : W → V) (items : List (K × W)) (d : Dict K V) (k : K) :
    (items.foldl (fun d item => Dict.setItem d item.1 (f item.2)) d).lookup k =
      ((items.reverse.lookup k).map f).or (d.lookup k) := by
  induction items using List.reverseRecOn with
  | nil => rfl
  | append_singleton items item ih =>
    rw [List.foldl_append, List.foldl_cons, List.foldl_nil, lookup_setItem, ih, List.reverse_append,
      List.reverse_singleton, List.singleton_append]
    obtain ⟨k', w⟩ := item
    rw [lookup_cons_eq]
    by_cases h : k = k'
    · simp [h]
    · simp [h]

/-- Keys that are set one after the other stay distinct. -/
lemma nodup_foldl_set (f : W → V) (items : List (K × W)) {d : Dict K V} (nodup : d.keys.Nodup) :
    (items.foldl (fun d item => Dict.setItem d item.1 (f item.2)) d |> Dict.keys).Nodup := by
  induction items generalizing d with
  | nil => exact nodup
  | cons item items ih => exact ih (nodup_setItem nodup item.1 _)

/-- Where keys are distinct, an item is what its key looks up. -/
lemma mem_iff_lookup {d : Dict K V} (nodup : d.keys.Nodup) {k : K} {v : V} :
    (k, v) ∈ d ↔ d.lookup k = some v := by
  induction d with
  | nil => simp
  | cons item d ih =>
    obtain ⟨k₁, v₁⟩ := item
    obtain ⟨fresh, rest⟩ := List.nodup_cons.mp nodup
    rw [lookup_cons_eq, List.mem_cons, Prod.mk.injEq, ih rest]
    by_cases h : k = k₁
    · subst h
      have absent : d.lookup k ≠ some v := by
        intro found
        exact fresh (List.mem_map.mpr ⟨(k, v), (ih rest).mpr found, rfl⟩)
      simp [absent, eq_comm]
    · simp [h]

/-- Where keys are distinct, the order of the items does not matter to a lookup. -/
lemma lookup_reverse {d : Dict K V} (nodup : d.keys.Nodup) (k : K) : d.reverse.lookup k = d.lookup k := by
  have nodup' : keys d.reverse |>.Nodup := by
    rw [keys, List.map_reverse]
    exact List.nodup_reverse.mpr nodup
  apply Option.ext
  intro v
  rw [← mem_iff_lookup nodup, ← List.mem_reverse]
  exact (mem_iff_lookup nodup').symm

/-- What an update brings is seen first. -/
lemma lookup_update (d : Dict K V) {e : Dict K V} (nodup : e.keys.Nodup) (k : K) :
    (d.update e).lookup k = (e.lookup k).or (d.lookup k) := by
  have h := lookup_foldl_set id e d k
  rw [Option.map_id, lookup_reverse nodup] at h
  exact h

lemma nodup_update {d : Dict K V} (nodup : d.keys.Nodup) (e : Dict K V) : (d.update e).keys.Nodup :=
  nodup_foldl_set id e nodup

end Dict

end Lcls2.Lib
