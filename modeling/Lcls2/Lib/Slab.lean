import Mathlib

/-!
# Lookup tables over pooled objects

Objects are allocated at the addresses of a pool and found again through a table that maps an index,
computed from the object, to an address. `Held objs free table` says that the pool accounts for
itself, no address is in use twice or both in use and free, and that every entry of the table leads
to an object in use that has this index.

* `Held.find` reads the table, `Held.acquire` and `Held.release` are the two operations of a pool.
* `Held.perm` forgets the order of the objects and `Held.congr` what is not an address or an index.
-/

namespace Lcls2.Lib

variable {α : Type*}

/-- The pool accounts for its addresses and every table entry leads to an object in use. -/
structure Held (addr index : α → ℕ) (objs : List α) (free : List ℕ) (table : ℕ → Option ℕ) :
    Prop where
  nodup : (objs.map addr ++ free).Nodup
  live : ∀ i a, table i = some a → ∃ o ∈ objs, addr o = a ∧ index o = i

/-- The table entry of an object is cleared if it is its own. -/
def clear (table : ℕ → Option ℕ) (i a : ℕ) : ℕ → Option ℕ :=
  if table i = some a then Function.update table i none else table

/-- What is left in a table after clearing was there before, and is not the cleared entry. -/
lemma clear_some {table : ℕ → Option ℕ} {i a j b : ℕ} (h : clear table i a j = some b) :
    table j = some b ∧ ¬ (j = i ∧ b = a) := by
  unfold clear at h
  split at h
  · by_cases e : j = i
    · subst e
      simp at h
    · rw [Function.update_of_ne e] at h
      exact ⟨h, fun c => e c.1⟩
  · rename_i ne
    refine ⟨h, ?_⟩
    rintro ⟨rfl, rfl⟩
    exact ne h

/-- A table gains one entry by an update. -/
lemma update_gain (table : ℕ → Option ℕ) {i a : ℕ} (j b : ℕ)
    (h : Function.update table i (some a) j = some b) : table j = some b ∨ (j = i ∧ b = a) := by
  by_cases e : j = i
  · subst e
    rw [Function.update_self] at h
    exact .inr ⟨rfl, (Option.some.inj h).symm⟩
  · rw [Function.update_of_ne e] at h
    exact .inl h

/-- Changing the object at an address changes one place of a list. -/
lemma map_at {addr : α → ℕ} {before after : List α} {x : α} (f : α → α)
    (nodup : ((before ++ x :: after).map addr).Nodup) :
    (before ++ x :: after).map (fun y => if addr y = addr x then f y else y) =
      before ++ f x :: after := by
  rw [List.map_append, List.map_cons, List.nodup_middle, List.nodup_cons] at nodup
  have other : ∀ y ∈ before ++ after, (if addr y = addr x then f y else y) = y := by
    intro y hy
    refine if_neg ?_
    intro h
    rw [← List.map_append] at nodup
    exact nodup.1 (List.mem_map.mpr ⟨y, hy, h⟩)
  have hbefore := List.map_congr_left fun y hy => other y (List.mem_append_left _ hy)
  have hafter := List.map_congr_left fun y hy => other y (List.mem_append_right _ hy)
  rw [List.map_id'] at hbefore hafter
  simp [hbefore, hafter]

namespace Held

variable {addr index : α → ℕ} {objs objs' : List α} {free : List ℕ} {table : ℕ → Option ℕ}

/-- No two objects in use share an address. -/
lemma addr_nodup (held : Held addr index objs free table) : (objs.map addr).Nodup :=
  (List.nodup_append.mp held.nodup).1

/-- Objects in use are equal when their addresses are. -/
lemma addr_inj (held : Held addr index objs free table) {x y} (hx : x ∈ objs) (hy : y ∈ objs)
    (h : addr x = addr y) : x = y :=
  List.inj_on_of_nodup_map held.addr_nodup hx hy h

/-- Searching the address of an object in use finds this object. -/
lemma find_addr (held : Held addr index objs free table) {x} (hx : x ∈ objs) {p : α → Bool}
    (hp : ∀ y, p y = decide (addr y = addr x)) : objs.find? p = some x := by
  cases h : objs.find? p with
  | none =>
    have := List.find?_eq_none.mp h x hx
    simp [hp] at this
  | some y =>
    have hy := List.mem_of_find?_eq_some h
    have e := List.find?_some h
    rw [hp, decide_eq_true_eq] at e
    rw [held.addr_inj hy hx e]

/-- The order of the objects does not matter. -/
lemma perm (held : Held addr index objs free table) (p : objs.Perm objs') :
    Held addr index objs' free table where
  nodup := ((p.map addr).append_right free).nodup held.nodup
  live i a h := by
    obtain ⟨o, ho, e⟩ := held.live i a h
    exact ⟨o, p.subset ho, e⟩

/-- Only the addresses and the indices of the objects matter. -/
lemma congr {β : Type*} {addr' index' : β → ℕ} {objs' : List β}
    (held : Held addr index objs free table)
    (same : objs'.map (fun o => (addr' o, index' o)) = objs.map (fun o => (addr o, index o))) :
    Held addr' index' objs' free table where
  nodup := by
    have h := congrArg (List.map Prod.fst) same
    simp only [List.map_map] at h
    have h' : objs'.map addr' = objs.map addr := h
    rw [h']
    exact held.nodup
  live i a h := by
    obtain ⟨o, ho, rfl, rfl⟩ := held.live i a h
    have hm : (addr o, index o) ∈ objs'.map (fun o => (addr' o, index' o)) :=
      same ▸ List.mem_map.mpr ⟨o, ho, rfl⟩
    obtain ⟨o', ho', e⟩ := List.mem_map.mp hm
    exact ⟨o', ho', congrArg Prod.fst e, congrArg Prod.snd e⟩

/-- A new object takes the first free address; the table may gain its entry. -/
lemma acquire {o : α} {table' : ℕ → Option ℕ}
    (held : Held addr index objs (addr o :: free) table)
    (gain : ∀ j b, table' j = some b → table j = some b ∨ (j = index o ∧ b = addr o)) :
    Held addr index (o :: objs) free table' where
  nodup := by
    have p : (objs.map addr ++ addr o :: free).Perm (addr o :: (objs.map addr ++ free)) :=
      List.perm_middle
    exact p.nodup held.nodup
  live i a h := by
    rcases gain i a h with h | ⟨rfl, rfl⟩
    · obtain ⟨p, hp, e⟩ := held.live i a h
      exact ⟨p, List.mem_cons_of_mem _ hp, e⟩
    · exact ⟨o, by simp, rfl, rfl⟩

/-- Addresses may be lost from the free ones. -/
lemma weaken {free' : List ℕ} (held : Held addr index objs free table) (sub : free'.Sublist free) :
    Held addr index objs free' table where
  nodup := held.nodup.sublist (sub.append_left _)
  live := held.live

/-- A released object gives its address back and its table entry goes. -/
lemma release {o : α} (held : Held addr index (o :: objs) free table) :
    Held addr index objs (free ++ [addr o]) (clear table (index o) (addr o)) where
  nodup := by
    have p : (addr o :: (objs.map addr ++ free)).Perm (objs.map addr ++ (free ++ [addr o])) := by
      rw [← List.append_assoc]
      exact (List.perm_append_singleton _ _).symm
    exact p.nodup held.nodup
  live i a h := by
    obtain ⟨h, other⟩ := clear_some h
    obtain ⟨p, hp, rfl, rfl⟩ := held.live i a h
    rcases List.mem_cons.mp hp with rfl | hp
    · exact absurd ⟨rfl, rfl⟩ other
    · exact ⟨p, hp, rfl, rfl⟩

end Held

end Lcls2.Lib
