import Mathlib

/-!
# Bytes

Little-endian numbers of a fixed width, slices of byte strings, and tables of records of one width.
-/

namespace Lcls2.Lib

/-- A byte string. -/
abbrev Bytes := List UInt8

/-- The `k` low bytes of a number, the lowest first. -/
def toLe : Nat → Nat → Bytes
  | 0, _ => []
  | k + 1, n => UInt8.ofNat n :: toLe k (n / 256)

/-- The number with the given bytes, the lowest first. -/
def ofLe : Bytes → Nat
  | [] => 0
  | b :: bs => b.toNat + 256 * ofLe bs

@[simp] lemma toLe_length (k n : Nat) : (toLe k n).length = k := by
  induction k generalizing n with
  | zero => rfl
  | succ k ih => rw [toLe, List.length_cons, ih]

/-- A number that fits its width is read back. -/
lemma ofLe_toLe {k n : Nat} (h : n < 256 ^ k) : ofLe (toLe k n) = n := by
  induction k generalizing n with
  | zero =>
    rw [pow_zero, Nat.lt_one_iff] at h
    exact h.symm
  | succ k ih =>
    have low : n / 256 < 256 ^ k := by
      rw [pow_succ, Nat.mul_comm] at h
      exact Nat.div_lt_of_lt_mul h
    rw [toLe, ofLe, ih low, UInt8.toNat_ofNat']
    exact Nat.mod_add_div n 256

/-- A number is bounded by its width. -/
lemma ofLe_lt (bs : Bytes) : ofLe bs < 256 ^ bs.length := by
  induction bs with
  | nil => exact Nat.one_pos
  | cons b bs ih =>
    have byte := b.toNat_lt
    rw [ofLe, List.length_cons, pow_succ]
    omega

/-- The slice from `start` up to `stop`. -/
def slice (bs : Bytes) (start stop : Nat) : Bytes := (bs.take stop).drop start

/-- The last `k` bytes. -/
def lastBytes (bs : Bytes) (k : Nat) : Bytes := bs.drop (bs.length - k)

/-- A slice that covers one part of a concatenation. -/
lemma slice_append (before bs after : Bytes) :
    slice (before ++ bs ++ after) before.length (before.length + bs.length) = bs := by
  rw [slice, ← List.length_append, List.take_left, List.drop_left]

/-- A slice of one part of a concatenation. -/
lemma slice_within {before bs after : Bytes} {a b : Nat} (h : b ≤ bs.length) :
    slice (before ++ bs ++ after) (before.length + a) (before.length + b) = slice bs a b := by
  rw [slice, slice, List.append_assoc, List.take_length_add_append, List.drop_length_add_append,
    List.take_append_of_le_length h]

/-- A slice of a slice. -/
lemma slice_slice (bs : Bytes) {start stop : Nat} (a : Nat) {b : Nat} (h : start + b ≤ stop) :
    slice (slice bs start stop) a b = slice bs (start + a) (start + b) := by
  rw [slice, slice, slice, List.take_drop, List.drop_drop, List.take_take, Nat.min_eq_left h]

/-- A slice is as long as its bounds are apart. -/
lemma slice_length {bs : Bytes} (start : Nat) {stop : Nat} (h : stop ≤ bs.length) :
    (slice bs start stop).length = stop - start := by
  rw [slice, List.length_drop, List.length_take, Nat.min_eq_left h]

/-- What is taken, and the slice after it. -/
lemma take_append_slice (bs : Bytes) (start k : Nat) :
    bs.take start ++ slice bs start (start + k) = bs.take (start + k) := by
  rw [slice, List.drop_take, Nat.add_sub_cancel_left, ← List.take_add]

/-- Writing to memory at an offset. -/
def writeAt (bs : Bytes) (offset : Nat) (data : Bytes) : Bytes :=
  bs.take offset ++ data ++ bs.drop (offset + data.length)

/-- Up to the end of what is written. -/
lemma take_writeAt {bs : Bytes} {offset : Nat} (data : Bytes) (h : offset ≤ bs.length) :
    (writeAt bs offset data).take (offset + data.length) = bs.take offset ++ data := by
  have length : (bs.take offset ++ data).length = offset + data.length := by
    rw [List.length_append, List.length_take, Nat.min_eq_left h]
  rw [writeAt, ← length, List.take_left]

/-- What is written, and what is before it. -/
lemma slice_writeAt {bs : Bytes} {offset : Nat} (data : Bytes) (h : offset ≤ bs.length) :
    slice (writeAt bs offset data) offset (offset + data.length) = data ∧
      (writeAt bs offset data).take offset = bs.take offset := by
  have length : (bs.take offset).length = offset := by rw [List.length_take, Nat.min_eq_left h]
  constructor
  · rw [slice, take_writeAt data h]
    exact List.drop_left' length
  · rw [writeAt, List.append_assoc]
    exact List.take_left' length

lemma lastBytes_append {bs tail : Bytes} {k : Nat} (h : tail.length = k) :
    lastBytes (bs ++ tail) k = tail := by
  rw [lastBytes, List.length_append, h, Nat.add_sub_cancel, List.drop_left]

/-- The records of a table of fixed width. -/
lemma slice_table {α : Type*} {f : α → Bytes} {w : Nat} (width : ∀ a, (f a).length = w) (as : List α)
    (tail : Bytes) {i : Nat} (hi : i < as.length) :
    slice (as.flatMap f ++ tail) (w * i) (w * i + w) = f as[i] := by
  have before : ((as.take i).flatMap f).length = w * i := by
    rw [List.length_flatMap, List.map_congr_left fun a _ => width a, List.map_const',
      List.sum_replicate, List.length_take, Nat.min_eq_left (Nat.le_of_lt hi), smul_eq_mul,
      Nat.mul_comm]
  have split : as.flatMap f ++ tail =
      (as.take i).flatMap f ++ f as[i] ++ ((as.drop (i + 1)).flatMap f ++ tail) := by
    conv_lhs => rw [← List.take_append_drop i as, List.drop_eq_getElem_cons hi]
    simp only [List.flatMap_append, List.flatMap_cons, List.append_assoc]
  have h := slice_append ((as.take i).flatMap f) (f as[i]) ((as.drop (i + 1)).flatMap f ++ tail)
  rwa [← split, before, width] at h

/-- The length of a table of fixed width. -/
lemma table_length {α : Type*} {f : α → Bytes} {w : Nat} (width : ∀ a, (f a).length = w)
    (as : List α) : (as.flatMap f).length = w * as.length := by
  rw [List.length_flatMap, List.map_congr_left fun a _ => width a, List.map_const',
    List.sum_replicate, smul_eq_mul, Nat.mul_comm]

/-- The parts of a concatenation, cut out by their lengths. -/
lemma slice_flatten (parts : List Bytes) (tail : Bytes) {i : Nat} (hi : i < parts.length) :
    slice (parts.flatten ++ tail) ((parts.map List.length).take i).sum
      (((parts.map List.length).take i).sum + parts[i].length) = parts[i] := by
  have before : ((parts.map List.length).take i).sum = (parts.take i).flatten.length := by
    rw [List.length_flatten, List.map_take]
  have split : parts.flatten ++ tail =
      (parts.take i).flatten ++ parts[i] ++ ((parts.drop (i + 1)).flatten ++ tail) := by
    conv_lhs => rw [← List.take_append_drop i parts, List.drop_eq_getElem_cons hi]
    simp only [List.flatten_append, List.flatten_cons, List.append_assoc]
  rw [before, split, slice_append]

/-- A success goes on with its value. -/
lemma ok_bind {α β ε : Type _} (a : α) (f : α → Except ε β) : (Except.ok a >>= f) = f a := rfl

/-- A computation that succeeds on every element. -/
lemma mapM_ok {α β ε : Type _} {f : α → Except ε β} {g : α → β} {as : List α}
    (h : ∀ a ∈ as, f a = .ok (g a)) : as.mapM f = .ok (as.map g) := by
  induction as with
  | nil => rfl
  | cons a as ih =>
    have ih := ih fun b hb => h b (List.mem_cons_of_mem a hb)
    rw [List.mapM_cons, h a List.mem_cons_self, ih]
    rfl

/-- Each result of a computation that succeeds on every element is the one of its element. -/
lemma mapM_getElem? {α β ε : Type _} {f : α → Except ε β} {as : List α} {bs : List β}
    (h : as.mapM f = .ok bs) :
    bs.length = as.length ∧ ∀ (i : Nat) (a : α), as[i]? = some a → ∃ b, f a = .ok b ∧ bs[i]? = some b := by
  induction as generalizing bs with
  | nil =>
    cases h
    exact ⟨rfl, nofun⟩
  | cons a as ih =>
    rw [List.mapM_cons] at h
    cases first : f a with
    | error e =>
      rw [first] at h
      cases h
    | ok b =>
      rw [first, ok_bind] at h
      cases others : as.mapM f with
      | error e =>
        rw [others] at h
        cases h
      | ok bs' =>
        rw [others] at h
        cases h
        obtain ⟨length, each⟩ := ih others
        refine ⟨congrArg (· + 1) length, ?_⟩
        intro i a' hi
        cases i with
        | zero =>
          cases hi
          exact ⟨b, first, rfl⟩
        | succ i => exact each i a' hi

/-- A computation that succeeds on every element, with some results. -/
lemma mapM_exists {α β ε : Type _} {f : α → Except ε β} {as : List α}
    (h : ∀ a ∈ as, ∃ b, f a = .ok b) : ∃ bs, as.mapM f = .ok bs := by
  induction as with
  | nil => exact ⟨[], rfl⟩
  | cons a as ih =>
    obtain ⟨b, first⟩ := h a List.mem_cons_self
    obtain ⟨bs, others⟩ := ih fun a' ha => h a' (List.mem_cons_of_mem a ha)
    refine ⟨b :: bs, ?_⟩
    rw [List.mapM_cons, first, ok_bind, others]
    rfl

end Lcls2.Lib
