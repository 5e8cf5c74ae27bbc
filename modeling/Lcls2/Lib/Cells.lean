import Lcls2.Lib.Bytes

/-!
# Cells of a memory

`At mem a bs` says that some bytes are at an address of a memory. A write puts its bytes there and leaves alone every
cell that it does not touch, and what is read of a part of a cell is that part. `Changed lo hi` says of two memories
that they are the same outside of some addresses.
-/

namespace Lcls2.Lib

/-- Some bytes are at an address. -/
def At (mem : Bytes) (a : Nat) (bs : Bytes) : Prop := slice mem a (a + bs.length) = bs

section cells
variable {mem bs cs data : Bytes} {a b offset : Nat}

/-- A write within a memory leaves it as long as it was. -/
lemma length_writeAt (fits : offset + data.length ≤ mem.length) : (writeAt mem offset data).length = mem.length := by
  rw [writeAt, List.length_append, List.length_append, List.length_take, List.length_drop]
  omega

/-- What is read at a place that a write does not touch. -/
lemma slice_writeAt_apart (fits : offset + data.length ≤ mem.length) (apart : b ≤ offset ∨ offset + data.length ≤ a) :
    slice (writeAt mem offset data) a b = slice mem a b := by
  have front : (mem.take offset).length = offset := by rw [List.length_take, Nat.min_eq_left (by omega)]
  cases apart with
  | inl before =>
    rw [slice, slice, writeAt, List.append_assoc, List.take_append_of_le_length (by omega), List.take_take,
      Nat.min_eq_left before]
  | inr after =>
    have both : (mem.take offset ++ data).length = offset + data.length := by rw [List.length_append, front]
    obtain ⟨k, rfl⟩ := Nat.exists_eq_add_of_le after
    rw [slice, slice, List.drop_take, List.drop_take, writeAt, ← both, List.drop_length_add_append, List.drop_drop]

namespace At

/-- A write puts its bytes at their address. -/
lemma write (fits : offset + data.length ≤ mem.length) : At (writeAt mem offset data) offset data :=
  (slice_writeAt data (by omega)).1

/-- A part of a cell. -/
lemma part (here : At mem a bs) {k n : Nat} (within : k + n ≤ bs.length) :
    slice mem (a + k) (a + k + n) = slice bs k (k + n) := by
  have whole := slice_slice mem k (show a + (k + n) ≤ a + bs.length by omega)
  rw [here, ← Nat.add_assoc] at whole
  exact whole.symm

/-- A cell in a cell. -/
lemma within (here : At mem a bs) {k : Nat} (part_ : slice bs k (k + cs.length) = cs)
    (within : k + cs.length ≤ bs.length) : At mem (a + k) cs := by
  rw [At, here.part within]
  exact part_

/-- What is read from the start of a cell, and perhaps further, begins with it. -/
lemma prefix_slice (here : At mem a bs) {n : Nat} (long : bs.length ≤ n) : bs <+: slice mem a (a + n) := by
  have start := @slice_slice mem a (a + n) 0 bs.length (Nat.add_le_add_left long a)
  rw [Nat.add_zero, here, slice, List.drop_zero] at start
  conv_lhs => rw [← start]
  exact List.take_prefix _ _

end At

end cells

/-- A memory is as long as before, and changed between two addresses only. -/
structure Changed (lo hi : Nat) (mem mem' : Bytes) : Prop where
  length : mem'.length = mem.length
  apart : ∀ a b, b ≤ lo ∨ hi ≤ a → slice mem' a b = slice mem a b

namespace Changed

variable {mem mem' mem'' bs data : Bytes} {lo hi lo' hi' a offset : Nat}

/-- Nothing is changed. -/
lemma refl : Changed lo hi mem mem := ⟨rfl, fun _ _ _ => rfl⟩

/-- A write changes what is written. -/
lemma write (fits : offset + data.length ≤ mem.length) :
    Changed offset (offset + data.length) mem (writeAt mem offset data) :=
  ⟨length_writeAt fits, fun _ _ apart => slice_writeAt_apart fits apart⟩

/-- A part of what may be changed. -/
lemma widen (h : Changed lo hi mem mem') (low : lo' ≤ lo) (high : hi ≤ hi') : Changed lo' hi' mem mem' := by
  refine ⟨h.length, ?_⟩
  intro a b apart
  exact h.apart a b (apart.imp (Nat.le_trans · low) (Nat.le_trans high))

/-- One change after the other. -/
lemma trans (h : Changed lo hi mem mem') (h' : Changed lo hi mem' mem'') : Changed lo hi mem mem'' := by
  refine ⟨h'.length.trans h.length, ?_⟩
  intro a b apart
  exact (h'.apart a b apart).trans (h.apart a b apart)

/-- A cell beside a change stays. -/
lemma kept (h : Changed lo hi mem mem') (here : At mem a bs) (apart : a + bs.length ≤ lo ∨ hi ≤ a) : At mem' a bs := by
  rw [At, h.apart a _ apart]
  exact here

end Changed

end Lcls2.Lib
