import Mathlib

/-!
# The FIFO of the DRP

Model of `Pds::Fifo` (`service/Fifo.hh`): a ring of `size` slots. References to slots outlive the
operations, as they do in the source: `front` is the slot `head`, and a slot that was popped keeps
its item until it is pushed to again.
-/

namespace Lcls2.Drp

/-- `Fifo`; the slot behind the tail is the one behind the last item. -/
structure Fifo (α : Type) where
  size : Nat
  head : Nat
  tail : Nat
  count : Nat
  array : Nat → α
  head_lt : head < size
  count_le : count ≤ size
  tail_next : (tail + 1) % size = (head + count) % size

namespace Fifo

variable {α : Type} (f : Fifo α)

/-- `Fifo::Fifo`, with `item` as the default item. -/
def new (size : Nat) (pos : 0 < size) (item : α) : Fifo α where
  size := size
  head := 0
  tail := size - 1
  count := 0
  array _ := item
  head_lt := pos
  count_le := Nat.zero_le size
  tail_next := by rw [Nat.sub_add_cancel pos, Nat.mod_self, Nat.add_zero, Nat.zero_mod]

/-- The items, the front first. -/
def toList : List α := (List.range f.count).map fun i => f.array ((f.head + i) % f.size)

/-- `Fifo::push`; true when the FIFO was full. -/
def push (item : α) : Fifo α × Bool :=
  if h : f.size ≤ f.count then (f, true)
  else
    ({ f with
      tail := (f.tail + 1) % f.size
      array := Function.update f.array ((f.tail + 1) % f.size) item
      count := f.count + 1
      count_le := Nat.lt_of_not_le h
      tail_next := by rw [Nat.mod_add_mod, Nat.add_mod, f.tail_next, ← Nat.add_mod]; rfl }, false)

/-- `Fifo::front`. -/
def front : α := f.array f.head

/-- `Fifo::empty`. -/
def empty : Bool := f.count = 0

/-- `Fifo::pop`; the item is `front`. An empty FIFO stays as it is. -/
def pop : Fifo α :=
  if h : f.count = 0 then f
  else
    { f with
      head := (f.head + 1) % f.size
      count := f.count - 1
      head_lt := Nat.mod_lt _ (Nat.zero_lt_of_lt f.head_lt)
      count_le := Nat.le_trans (Nat.sub_le f.count 1) f.count_le
      tail_next := by
        have e : f.head + 1 + (f.count - 1) = f.head + f.count := by omega
        rw [Nat.mod_add_mod, e, f.tail_next] }

/-- An assignment through a reference to a slot. -/
def set (slot : Nat) (item : α) : Fifo α := { f with array := Function.update f.array slot item }

variable {f}

@[simp] lemma toList_length : f.toList.length = f.count := by simp [toList]

@[simp] lemma push_size (item : α) : (f.push item).1.size = f.size := by
  rw [push]
  split
  · rfl
  · rfl

@[simp] lemma pop_size : f.pop.size = f.size := by
  rw [pop]
  split
  · rfl
  · rfl

/-- A pop leaves the slots alone. -/
lemma pop_array : f.pop.array = f.array := by
  rw [pop]
  split
  · rfl
  · rfl

@[simp] lemma set_size (slot : Nat) (item : α) : (f.set slot item).size = f.size := rfl

/-- Different offsets are different slots. -/
lemma slot_inj {a i j n : Nat} (hi : i < n) (hj : j < n) (h : (a + i) % n = (a + j) % n) : i = j := by
  have h : i ≡ j [MOD n] := Nat.ModEq.add_left_cancel' a h
  exact Nat.ModEq.eq_of_lt_of_lt h hi hj

/-- A FIFO that is not full takes an item at its end. -/
lemma toList_push (item : α) (h : f.count < f.size) : (f.push item).1.toList = f.toList ++ [item] := by
  rw [push, dif_neg (Nat.not_le_of_lt h)]
  simp only [toList, List.range_succ, List.map_append, List.map_cons, List.map_nil, f.tail_next,
    Function.update_self]
  congr 1
  apply List.map_congr_left
  intro i hi
  have hi : i < f.count := List.mem_range.mp hi
  apply Function.update_of_ne
  intro e
  exact Nat.ne_of_lt hi (slot_inj (Nat.lt_trans hi h) h e)

/-- The front of a FIFO and the rest. -/
lemma toList_pop (h : f.count ≠ 0) : f.toList = f.front :: f.pop.toList := by
  obtain ⟨n, hn⟩ := Nat.exists_eq_succ_of_ne_zero h
  rw [pop, dif_neg h]
  simp only [toList, hn, List.range_succ_eq_map, List.map_cons, List.map_map, Nat.add_zero,
    Nat.mod_eq_of_lt f.head_lt, front, Nat.succ_sub_one]
  congr 1
  apply List.map_congr_left
  intro i _
  show f.array ((f.head + (i + 1)) % f.size) = f.array (((f.head + 1) % f.size + i) % f.size)
  rw [Nat.mod_add_mod, Nat.add_assoc, Nat.add_comm 1 i]

lemma count_ne_zero {x : α} {xs : List α} (h : f.toList = x :: xs) : f.count ≠ 0 := by
  rw [← toList_length, h]
  exact Nat.succ_ne_zero _

lemma front_eq {x : α} {xs : List α} (h : f.toList = x :: xs) : f.front = x := by
  rw [toList_pop (count_ne_zero h)] at h
  exact (List.cons.inj h).1

lemma pop_eq {x : α} {xs : List α} (h : f.toList = x :: xs) : f.pop.toList = xs := by
  rw [toList_pop (count_ne_zero h)] at h
  exact (List.cons.inj h).2

/-- An assignment to the front. -/
lemma toList_set_front {x y : α} {xs : List α} (h : f.toList = x :: xs) :
    (f.set f.head y).toList = y :: xs := by
  have hne : f.count ≠ 0 := count_ne_zero h
  have hne' : (f.set f.head y).count ≠ 0 := hne
  have hpop : (f.set f.head y).pop.toList = f.pop.toList := by
    have hle := f.count_le
    rw [pop, pop, dif_neg hne, dif_neg hne']
    apply List.map_congr_left
    intro i hi
    have hi : i < f.count - 1 := List.mem_range.mp hi
    apply Function.update_of_ne
    show ((f.head + 1) % f.size + i) % f.size ≠ f.head
    intro e
    rw [Nat.mod_add_mod, Nat.add_assoc] at e
    have e : (f.head + (1 + i)) % f.size = (f.head + 0) % f.size := by
      rw [e, Nat.add_zero, Nat.mod_eq_of_lt f.head_lt]
    have := slot_inj (by omega) (by omega) e
    omega
  have hfront : (f.set f.head y).front = y := Function.update_self _ _ _
  rw [toList_pop hne', hfront, hpop, pop_eq h]

/-- The slot that was popped last. -/
def Vacated (f : Fifo α) (slot : Nat) : Prop :=
  slot < f.size ∧ (slot + 1) % f.size = f.head ∧ f.count < f.size

lemma vacated_pop (h : f.count ≠ 0) : f.pop.Vacated f.head := by
  have := f.count_le
  rw [pop, dif_neg h]
  exact ⟨f.head_lt, rfl, by show f.count - 1 < f.size; omega⟩

/-- The items are elsewhere. -/
lemma Vacated.apart {slot i : Nat} (v : f.Vacated slot) (hi : i + 1 < f.size) :
    (f.head + i) % f.size ≠ slot := by
  obtain ⟨lt, next, -⟩ := v
  intro e
  rw [← next, Nat.mod_add_mod, Nat.add_assoc] at e
  have e : (slot + (1 + i)) % f.size = (slot + 0) % f.size := by
    rw [e, Nat.add_zero, Nat.mod_eq_of_lt lt]
  have := slot_inj (by omega) (by omega) e
  omega

/-- An assignment to the slot that was popped last leaves the items alone. -/
lemma Vacated.toList_set {slot : Nat} (v : f.Vacated slot) (item : α) :
    (f.set slot item).toList = f.toList := by
  apply List.map_congr_left
  intro i hi
  have hi : i < f.count := List.mem_range.mp hi
  have := v.2.2
  exact Function.update_of_ne (v.apart (by omega)) _ _

/-- A push that leaves a slot free leaves the slot that was popped last alone. -/
lemma Vacated.push {slot : Nat} (v : f.Vacated slot) (item : α) (h : f.count + 1 < f.size) :
    (f.push item).1.Vacated slot ∧ (f.push item).1.array slot = f.array slot := by
  have free : ¬ f.size ≤ f.count := by omega
  rw [Fifo.push, dif_neg free]
  refine ⟨⟨v.1, v.2.1, h⟩, ?_⟩
  apply Function.update_of_ne
  rw [f.tail_next]
  exact (v.apart h).symm

end Fifo

end Lcls2.Drp
