import Lcls2.Lib.Bytes

/-!
# Xtc headers

The layout of `XtcData::Xtc` (`xtc/Xtc.hh`) and of `XtcData::Dgram` (`xtc/Dgram.hh`) in memory, as far as the
readers below need it. Memory is a byte string and a pointer an offset into it. The extent of an `Xtc` counts
its header.
-/

namespace Lcls2.Xtc
open Lib

/-- `sizeof(Xtc)`: `src`, `damage`, `contains` and `extent`. -/
def sizeofXtc : Nat := 12

/-- `sizeof(Dgram)`: `time`, `env` and `xtc`. -/
def sizeofDgram : Nat := 24

/-- Where the `xtc` of a `Dgram` is. -/
def xtcOfDgram : Nat := 12

/-- The fields of the `Xtc` at an offset. -/
def damage (mem : Bytes) (xtc : Nat) : Nat := ofLe (slice mem (xtc + 4) (xtc + 6))
def contains (mem : Bytes) (xtc : Nat) : Nat := ofLe (slice mem (xtc + 6) (xtc + 8))
def extent (mem : Bytes) (xtc : Nat) : Nat := ofLe (slice mem (xtc + 8) (xtc + 12))

/-- `Xtc::sizeofPayload`: a `uint32_t` less a `size_t`, as an `int`. -/
def sizeofPayload (extent : Nat) : Int := ((extent : Int) - sizeofXtc).bmod (2 ^ 32)

/-- `(size_t)` of an `int`. -/
def toSize (n : Int) : Nat := (n % 2 ^ 64).toNat

/-- An extent has 32 bits. -/
lemma extent_lt (mem : Bytes) (xtc : Nat) : extent mem xtc < 2 ^ 32 := by
  have width : (slice mem (xtc + 8) (xtc + 12)).length ≤ 4 := by
    rw [slice, List.length_drop, List.length_take]
    omega
  calc extent mem xtc < 256 ^ (slice mem (xtc + 8) (xtc + 12)).length := ofLe_lt _
    _ ≤ 256 ^ 4 := Nat.pow_le_pow_right (by decide) width

/-- An extent that a positive `int` can count the payload of. -/
lemma sizeofPayload_of_le {extent : Nat} (le : extent < 2 ^ 31 + 12) : sizeofPayload extent = (extent : Int) - 12 := by
  unfold sizeofPayload sizeofXtc
  rw [Int.bmod_eq_of_le]
  · rfl
  · omega
  · omega

/-- A larger one makes it negative. -/
lemma sizeofPayload_of_ge {extent : Nat} (lt : extent < 2 ^ 32) (ge : 2 ^ 31 + 12 ≤ extent) :
    sizeofPayload extent = (extent : Int) - 12 - 2 ^ 32 := by
  unfold sizeofPayload sizeofXtc
  rw [Int.bmod_eq_iff (by decide)]
  refine ⟨by omega, by omega, ?_⟩
  omega

end Lcls2.Xtc
