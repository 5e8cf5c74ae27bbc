import Lcls2.Lib.Bytes

/-!
# Frames of a byte stream

`front` says how long the frame at the front of a byte string is, if there is one. Frames are cut off the front
as long as there is one; what is left has none at its front.
-/

namespace Lcls2.Lib

variable (front : Bytes → Option Nat)

/-- The first frames of a byte string, `k` at most, and what is left. -/
def framesUpTo : Nat → Bytes → List Bytes × Bytes
  | 0, bs => ([], bs)
  | k + 1, bs =>
    match front bs with
    | none => ([], bs)
    | some n =>
      let rest := framesUpTo k (bs.drop n)
      (bs.take n :: rest.1, rest.2)

/-- All frames of a byte string, and what is left. A byte string has no more frames than bytes. -/
def frames (bs : Bytes) : List Bytes × Bytes := framesUpTo front bs.length bs

/-- A frame has bytes, and they are all there. -/
def Framing : Prop := ∀ bs n, front bs = some n → 0 < n ∧ n ≤ bs.length

variable {front}

lemma framesUpTo_none {bs : Bytes} (found : front bs = none) (k : Nat) : framesUpTo front k bs = ([], bs) := by
  cases k with
  | zero => rfl
  | succ k => simp only [framesUpTo, found]

lemma framesUpTo_some {bs : Bytes} {n : Nat} (found : front bs = some n) (k : Nat) :
    framesUpTo front (k + 1) bs =
      (bs.take n :: (framesUpTo front k (bs.drop n)).1, (framesUpTo front k (bs.drop n)).2) := by
  simp only [framesUpTo, found]

/-- Any bound that is no less than the number of bytes gives all frames. -/
lemma framesUpTo_eq (framing : Framing front) {k : Nat} {bs : Bytes} (le : bs.length ≤ k) :
    framesUpTo front k bs = frames front bs := by
  unfold frames
  generalize bound : bs.length = m
  induction m using Nat.strong_induction_on generalizing k bs with
  | _ m ih =>
    cases found : front bs with
    | none => rw [framesUpTo_none found, framesUpTo_none found]
    | some n =>
      obtain ⟨pos, there⟩ := framing bs n found
      have length : (bs.drop n).length = bs.length - n := List.length_drop
      obtain ⟨m, rfl⟩ : ∃ m', m = m' + 1 := ⟨m - 1, by omega⟩
      obtain ⟨k, rfl⟩ : ∃ k', k = k' + 1 := ⟨k - 1, by omega⟩
      have long := @ih (bs.drop n).length (by omega) k (bs.drop n) (by omega) rfl
      have short := @ih (bs.drop n).length (by omega) m (bs.drop n) (by omega) rfl
      rw [framesUpTo_some found, framesUpTo_some found, long, short]

/-- Without a frame at its front, a byte string has none. -/
lemma frames_none {bs : Bytes} (found : front bs = none) : frames front bs = ([], bs) := framesUpTo_none found _

/-- The frame at the front is the first, and the others are those of what follows it. -/
lemma frames_some (framing : Framing front) {bs : Bytes} {n : Nat} (found : front bs = some n) :
    frames front bs = (bs.take n :: (frames front (bs.drop n)).1, (frames front (bs.drop n)).2) := by
  obtain ⟨pos, there⟩ := framing bs n found
  have length : (bs.drop n).length = bs.length - n := List.length_drop
  obtain ⟨k, bound⟩ : ∃ k, bs.length = k + 1 := ⟨bs.length - 1, by omega⟩
  rw [frames, bound, framesUpTo_some found, framesUpTo_eq framing (by omega)]

end Lcls2.Lib
