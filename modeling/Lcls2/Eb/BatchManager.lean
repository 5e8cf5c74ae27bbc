import Lcls2.Lib.Epoch

/-!
# The batch region

Model of `Pds::Eb::BatchManager` (`eb/BatchManager.hh`): the mask that cuts pulse IDs into batch
epochs and the test for the end of an epoch. The region itself is a map from slots of `maxEntrySize`
bytes to datagrams; it belongs to the state of its users.
-/

namespace Lcls2.Eb
open Lcls2.Lib

/-- `BatchManager`: what `initialize` keeps of the batch size. -/
structure BatchManager where
  maxEntries : BitVec 32

namespace BatchManager

/-- `_mask`. -/
def mask (m : BatchManager) : BitVec 64 := ~~~((m.maxEntries - 1#32).setWidth 64)

/-- The batch epoch of a pulse ID. -/
def epoch (m : BatchManager) (pid : Nat) : BitVec 64 := BitVec.ofNat 64 pid &&& m.mask

/-- `BatchManager::expired`. -/
def expired (m : BatchManager) (pid start : Nat) : Bool :=
  (BitVec.ofNat 64 pid ^^^ BitVec.ofNat 64 start) &&& m.mask ≠ 0#64

/-- A batch expires for the pulse IDs of another epoch than that of its start. -/
lemma expired_iff {m : BatchManager} {pid start : Nat} :
    m.expired pid start = true ↔ m.epoch pid ≠ m.epoch start := by
  have xor_and : (BitVec.ofNat 64 pid ^^^ BitVec.ofNat 64 start) &&& m.mask =
      m.epoch pid ^^^ m.epoch start := by
    ext i hi
    simp only [epoch, BitVec.getElem_and, BitVec.getElem_xor]
    cases m.mask[i] <;> simp
  rw [expired, decide_eq_true_iff, xor_and, ne_eq, ne_eq, BitVec.xor_eq_zero_iff]

lemma not_expired_iff {m : BatchManager} {pid start : Nat} :
    m.expired pid start = false ↔ m.epoch pid = m.epoch start := by
  rw [← not_iff_not, Bool.not_eq_false]
  exact expired_iff

/-- With a power of two as batch size an epoch is a block of that many pulse IDs. -/
lemma epoch_eq_iff {m : BatchManager} {k pid pid' : Nat} (hk : m.maxEntries.toNat = 2 ^ k)
    (h : pid < 2 ^ 64) (h' : pid' < 2 ^ 64) :
    m.epoch pid = m.epoch pid' ↔ pid / 2 ^ k = pid' / 2 ^ k := by
  have pos : 0 < 2 ^ k := Nat.two_pow_pos k
  have lt := m.maxEntries.isLt
  have low : ((m.maxEntries - 1#32).setWidth 64).toNat = 2 ^ k - 1 := by
    rw [BitVec.toNat_setWidth, BitVec.toNat_sub, BitVec.toNat_ofNat]
    omega
  exact and_not_low_eq_iff low h h'

end BatchManager

end Lcls2.Eb
