import Mathlib
import Lcls2.Bld.RoundTrip
import Lcls2.Lib.Region

/-!
# The events in a packet of the high-performance system

Model of `Bld::HpsEventIterator` (`bld/HpsEventIterator.cc`). The memory at the packet is a map from the index
of a word to the word; the packet is its first `sz` bytes, and `reach` counts the words up to the last one that
was read. What the receiver goes through is the loop of `hpsBldServer`: the event of the first record, and one
more for each `next()` that succeeds.
-/

namespace Lcls2.Bld
open Lib

/-- `HpsEvent`, with the words that follow it. -/
structure HpsEvent where
  timeStamp : UInt64
  pulseId : UInt64
  beam : UInt32
  channels : UInt32
  sevr : UInt64
  channelData : List UInt32
  deriving DecidableEq

/-- `HpsEventIterator`. -/
structure HpsEventIterator where
  buff : Nat → UInt32
  sz : UInt64
  next_ : Nat
  ts : UInt64
  pid : UInt64
  nch : Nat
  valid : Bool
  v : HpsEvent
  reach : Nat

/-- Two words, the upper one first. -/
def word2 (hi lo : UInt32) : UInt64 := (hi.toUInt64 <<< 32) ||| lo.toUInt64

/-- Clearing the lowest bit of a number makes it smaller. -/
lemma clear_lt {m : UInt32} (some_ : m ≠ 0) : (m &&& (m - 1)).toNat < m.toNat := by
  have pos : 0 < m.toNat := by
    apply Nat.pos_of_ne_zero
    intro zero
    exact some_ (UInt32.toNat_inj.mp zero)
  have less : (m - 1).toNat = m.toNat - 1 := by
    rw [UInt32.toNat_sub_of_le]
    · rfl
    · exact pos
  rw [UInt32.toNat_and]
  have le := @Nat.and_le_right m.toNat (m - 1).toNat
  omega

/-- `for(unsigned m=_buff[4]; m!=0; m&=(m-1)) channels[_nch++] = _buff[i++];` -/
def channelLoop (buff : Nat → UInt32) (m : UInt32) (i : Nat) : List UInt32 :=
  if h : m = 0 then []
  else
    have := clear_lt h
    buff i :: channelLoop buff (m &&& (m - 1)) (i + 1)
termination_by m.toNat

namespace HpsEventIterator

/-- The constructor, with `_first`. -/
def new (buff : Nat → UInt32) (sz : UInt64) : HpsEventIterator :=
  let ts := ((buff 1).toUInt64 <<< 32) + (buff 0).toUInt64
  let pid := ((buff 3).toUInt64 <<< 32) + (buff 2).toUInt64
  let channels := channelLoop buff (buff 4) 6
  let i := 6 + channels.length
  let sizeofFirst := UInt64.ofNat (4 * (i + 2))
  let sizeofNext := sizeofFirst - 16
  { buff
    sz
    next_ := i + 2
    ts
    pid
    nch := channels.length
    valid := (sz - sizeofFirst) % sizeofNext = 0
    v :=
      { timeStamp := ts
        pulseId := pid
        beam := buff 5
        channels := buff 4
        sevr := word2 (buff i) (buff (i + 1))
        channelData := channels }
    reach := i + 2 }

variable (it : HpsEventIterator)

/-- `next`. -/
def next : Option HpsEventIterator :=
  if it.sz.toNat ≤ 4 * it.next_ then none
  else
    let word := it.buff it.next_
    some { it with
      v :=
        { timeStamp := it.ts + ((word >>> 0) &&& 0xfffff).toUInt64
          pulseId := it.pid + ((word >>> 20) &&& 0xfff).toUInt64
          beam := it.buff (it.next_ + 1)
          channels := it.v.channels
          sevr := word2 (it.buff (it.next_ + 2 + it.nch)) (it.buff (it.next_ + 2 + it.nch))
          channelData := slots it.buff (it.next_ + 2) it.nch }
      next_ := it.next_ + (4 + it.nch)
      reach := max it.reach (it.next_ + 3 + it.nch) }

/-- A record is left, and is stepped over. -/
lemma next_spec {it it' : HpsEventIterator} (h : it.next = some it') :
    4 * it.next_ < it.sz.toNat ∧ it'.sz = it.sz ∧ it'.next_ = it.next_ + (4 + it.nch) := by
  rw [next] at h
  split at h
  · cases h
  · cases h
    exact ⟨Nat.lt_of_not_le ‹_›, rfl, rfl⟩

end HpsEventIterator

/-- The iterator, for each event that the receiver goes through. -/
def HpsEventIterator.states (it : HpsEventIterator) : List HpsEventIterator :=
  it :: match _h : it.next with
    | none => []
    | some it' => it'.states
termination_by it.sz.toNat - 4 * it.next_
decreasing_by
  obtain ⟨left, size, next⟩ := next_spec _h
  rw [size]
  omega

/-- The events that it goes through. -/
def HpsEventIterator.events (it : HpsEventIterator) : List HpsEvent := it.states.map (·.v)

/-- The number of set bits. -/
def setBits (m : UInt32) : Nat := ((List.range 32).filter m.toNat.testBit).length

/-- The words of a number, the lower one first. -/
def loWord (n : UInt64) : UInt32 := n.toUInt32
def hiWord (n : UInt64) : UInt32 := (n >>> 32).toUInt32

namespace HpsEvent

/-- The words of the first record. -/
def firstWords (f : HpsEvent) : List UInt32 :=
  [loWord f.timeStamp, hiWord f.timeStamp, loWord f.pulseId, hiWord f.pulseId, f.channels, f.beam] ++
    f.channelData ++ [hiWord f.sevr, loWord f.sevr]

/-- The words of a record that follows. -/
def nextWords (f e : HpsEvent) : List UInt32 :=
  [Header.offsets e.pulseId e.timeStamp f.pulseId f.timeStamp, e.beam] ++
    e.channelData ++ [hiWord e.sevr, loWord e.sevr]

/-- The differences fit into their fields, and there is a word for each channel of the mask. -/
structure Fits (f e : HpsEvent) : Prop where
  channels : e.channels = f.channels
  channelData : e.channelData.length = setBits f.channels
  timeStamp : (e.timeStamp - f.timeStamp).toNat < 2 ^ 20
  pulseId : (e.pulseId - f.pulseId).toNat < 2 ^ 12

/-- The words of a packet. -/
def packet (f : HpsEvent) (rest : List HpsEvent) : List UInt32 := f.firstWords ++ rest.flatMap f.nextWords

end HpsEvent

/-- These words lie at the start of the memory and are what was received. -/
structure Received (f : HpsEvent) (rest : List HpsEvent) (buff : Nat → UInt32) (sz : UInt64) : Prop where
  fits : ∀ e ∈ f :: rest, f.Fits e
  size : sz.toNat = 4 * (f.packet rest).length
  words : slots buff 0 (f.packet rest).length = f.packet rest

/-- The packet is found to be valid, and its events are these. -/
def Decodes (f : HpsEvent) (rest : List HpsEvent) (buff : Nat → UInt32) (sz : UInt64) : Prop :=
  (HpsEventIterator.new buff sz).valid = true ∧ (HpsEventIterator.new buff sz).events = f :: rest

/-- The packet is found not to be valid, or nothing is read beyond it. -/
def Safe (buff : Nat → UInt32) (sz : UInt64) : Prop :=
  (HpsEventIterator.new buff sz).valid = false ∨
    ∀ it ∈ (HpsEventIterator.new buff sz).states, 4 * it.reach ≤ sz.toNat

/-- The bytes of the first record with this mask. -/
def firstSize (mask : UInt32) : Nat := 4 * (8 + setBits mask)

section bits

/-- The bits of a number, the lowest first. -/
lemma bits_succ (w n : Nat) :
    ((List.range (w + 1)).filter n.testBit).length = n % 2 + ((List.range w).filter (n / 2).testBit).length := by
  have tail : (List.map Nat.succ (List.range w)).filter n.testBit =
      ((List.range w).filter (n / 2).testBit).map Nat.succ := by
    rw [List.filter_map]
    congr 2
    funext i
    exact Nat.testBit_succ n i
  rw [List.range_succ_eq_map, List.filter_cons, tail, Nat.testBit_zero]
  cases Nat.mod_two_eq_zero_or_one n with
  | inl even => simp [even]
  | inr odd => simp [odd, Nat.add_comm]

/-- Clearing the lowest bit leaves one fewer. -/
lemma bits_clear {w n : Nat} (pos : 0 < n) (lt : n < 2 ^ w) :
    ((List.range w).filter (n &&& (n - 1)).testBit).length + 1 = ((List.range w).filter n.testBit).length := by
  induction w generalizing n with
  | zero => omega
  | succ w ih =>
    rw [bits_succ, bits_succ, Nat.and_div_two]
    rw [Nat.pow_succ] at lt
    cases Nat.mod_two_eq_zero_or_one n with
    | inl even =>
      have low : (n &&& (n - 1)) % 2 = 0 := by
        cases Nat.mod_two_eq_zero_or_one (n &&& (n - 1)) with
        | inl zero => exact zero
        | inr one =>
          have := (Nat.and_mod_two_eq_one.mp one).1
          omega
      have half : (n - 1) / 2 = n / 2 - 1 := by omega
      rw [low, even, half, Nat.zero_add, Nat.zero_add]
      exact ih (by omega) (by omega)
    | inr odd =>
      have low : (n &&& (n - 1)) % 2 = 0 := by
        cases Nat.mod_two_eq_zero_or_one (n &&& (n - 1)) with
        | inl zero => exact zero
        | inr one =>
          have := (Nat.and_mod_two_eq_one.mp one).2
          omega
      have half : (n - 1) / 2 = n / 2 := by omega
      rw [low, odd, half, Nat.and_self]
      omega

/-- The loop over the bits of the mask takes a word for each. -/
lemma channelLoop_eq (buff : Nat → UInt32) (m : UInt32) (i : Nat) :
    channelLoop buff m i = slots buff i (setBits m) := by
  generalize size : m.toNat = n
  induction n using Nat.strong_induction_on generalizing m i with
  | _ n ih =>
    rw [channelLoop]
    split
    · rename_i zero
      subst zero
      rfl
    · rename_i more
      have pos : 0 < m.toNat := by
        apply Nat.pos_of_ne_zero
        intro zero
        exact more (UInt32.toNat_inj.mp zero)
      have bits : setBits m = setBits (m &&& (m - 1)) + 1 := by
        have cleared := bits_clear pos m.toNat_lt
        have less : (m - 1).toNat = m.toNat - 1 := UInt32.toNat_sub_of_le _ _ pos
        rw [setBits, setBits, UInt32.toNat_and, less]
        exact cleared.symm
      rw [bits, slots_cons, ih _ (size ▸ clear_lt more) _ _ rfl]

end bits

section words

/-- The two words of a number. -/
lemma hiWord_toNat (n : UInt64) : (hiWord n).toNat = n.toNat / 2 ^ 32 := by
  rw [hiWord, UInt64.toNat_toUInt32, UInt64.toNat_shiftRight, Nat.shiftRight_eq_div_pow]
  apply Nat.mod_eq_of_lt
  exact Nat.div_lt_of_lt_mul n.toNat_lt

lemma loWord_toNat (n : UInt64) : (loWord n).toNat = n.toNat % 2 ^ 32 := UInt64.toNat_toUInt32 n

/-- Two words side by side. -/
lemma shift_toNat (hi : UInt32) : (hi.toUInt64 <<< 32).toNat = hi.toNat * 2 ^ 32 := by
  have lt := hi.toNat_lt
  rw [UInt64.toNat_shiftLeft, UInt32.toNat_toUInt64]
  show hi.toNat <<< 32 % 2 ^ 64 = _
  rw [Nat.shiftLeft_eq]
  apply Nat.mod_eq_of_lt
  omega

lemma word2_toNat (hi lo : UInt32) : (word2 hi lo).toNat = hi.toNat * 2 ^ 32 + lo.toNat := by
  rw [word2, UInt64.toNat_or, shift_toNat, UInt32.toNat_toUInt64, ← Nat.shiftLeft_eq,
    ← Nat.shiftLeft_add_eq_or_of_lt lo.toNat_lt, Nat.shiftLeft_eq]

/-- A number is made of its words, by either of the ways that the iterator has. -/
lemma word2_words (n : UInt64) : word2 (hiWord n) (loWord n) = n := by
  apply UInt64.toNat_inj.mp
  rw [word2_toNat, hiWord_toNat, loWord_toNat]
  exact Nat.div_add_mod' _ _

lemma add_words (n : UInt64) : ((hiWord n).toUInt64 <<< 32) + (loWord n).toUInt64 = n := by
  apply UInt64.toNat_inj.mp
  have lt := n.toNat_lt
  rw [UInt64.toNat_add, shift_toNat, UInt32.toNat_toUInt64, hiWord_toNat, loWord_toNat, Nat.div_add_mod']
  exact Nat.mod_eq_of_lt lt

/-- The upper word twice is the number where its words are equal. -/
lemma word2_hi_iff (n : UInt64) : word2 (hiWord n) (hiWord n) = n ↔ hiWord n = loWord n := by
  constructor
  · intro same
    have value := congrArg UInt64.toNat same
    rw [word2_toNat] at value
    apply UInt32.toNat_inj.mp
    have hi := hiWord_toNat n
    rw [loWord_toNat]
    omega
  · intro same
    calc word2 (hiWord n) (hiWord n) = word2 (hiWord n) (loWord n) := by rw [← same]
      _ = n := word2_words n

/-- The differences are read back from the word that holds them. -/
lemma offsets_read {f e : HpsEvent} (fits : f.Fits e) :
    f.timeStamp + ((Header.offsets e.pulseId e.timeStamp f.pulseId f.timeStamp >>> 0) &&& 0xfffff).toUInt64 =
        e.timeStamp ∧
      f.pulseId + ((Header.offsets e.pulseId e.timeStamp f.pulseId f.timeStamp >>> 20) &&& 0xfff).toUInt64 =
        e.pulseId := by
  have low : ∀ {n m : UInt64} {k : Nat}, n.toNat < 2 ^ k → m.toNat = 2 ^ k - 1 → n &&& m = n := by
    intro n m k lt mask
    apply UInt64.toNat_inj.mp
    rw [UInt64.toNat_and, mask, Nat.and_two_pow_sub_one_eq_mod, Nat.mod_eq_of_lt lt]
  have timeStamp := Header.offsets_timeStamp e.pulseId e.timeStamp f.pulseId f.timeStamp
  have pulseId := Header.offsets_pulseId e.pulseId e.timeStamp f.pulseId f.timeStamp
  rw [low fits.timeStamp rfl] at timeStamp
  rw [low fits.pulseId rfl] at pulseId
  constructor
  · rw [UInt32.shiftRight_zero, timeStamp]
    exact add_sub_cancel _ _
  · rw [UInt32.toUInt64_and, pulseId]
    rw [show (0xfff : UInt32).toUInt64 = 0xfff from rfl, low fits.pulseId rfl]
    exact add_sub_cancel _ _

/-- The words that lie in the memory, one by one and in parts. -/
lemma slots_cons_iff {buff : Nat → UInt32} {s : Nat} {a : UInt32} {l : List UInt32} :
    slots buff s (a :: l).length = a :: l ↔ buff s = a ∧ slots buff (s + 1) l.length = l := by
  rw [List.length_cons, slots_cons, List.cons.injEq]

lemma slots_append_iff {buff : Nat → UInt32} {s : Nat} {l m : List UInt32} :
    slots buff s (l ++ m).length = l ++ m ↔
      slots buff s l.length = l ∧ slots buff (s + l.length) m.length = m := by
  rw [List.length_append, slots_add]
  constructor
  · intro same
    exact List.append_inj same (slots_length _ _ _)
  · rintro ⟨left, right⟩
    rw [left, right]

end words

namespace HpsEvent

/-- A following event as the iterator decodes it: the upper word of the severity stands for both. -/
def seen (e : HpsEvent) : HpsEvent := { e with sevr := word2 (hiWord e.sevr) (hiWord e.sevr) }

/-- That is the event where these words are equal. -/
lemma seen_iff (e : HpsEvent) : e.seen = e ↔ hiWord e.sevr = loWord e.sevr := by
  rw [← word2_hi_iff]
  constructor
  · intro same
    exact congrArg sevr same
  · intro same
    rw [seen, same]

variable {f e : HpsEvent} {rest : List HpsEvent}

lemma Fits.nextWords_length (fits : f.Fits e) : (f.nextWords e).length = 4 + setBits f.channels := by
  simp only [nextWords, List.length_append, List.length_cons, List.length_nil, fits.channelData]
  omega

lemma Fits.firstWords_length (fits : f.Fits f) : f.firstWords.length = 8 + setBits f.channels := by
  simp only [firstWords, List.length_append, List.length_cons, List.length_nil, fits.channelData]
  omega

/-- The records that follow are of one length. -/
lemma flatMap_length (fits : ∀ e ∈ rest, f.Fits e) :
    (rest.flatMap f.nextWords).length = (4 + setBits f.channels) * rest.length := by
  induction rest with
  | nil => rfl
  | cons e rest ih =>
    rw [List.flatMap_cons, List.length_append, (fits e List.mem_cons_self).nextWords_length,
      ih fun e he => fits e (List.mem_cons_of_mem _ he), List.length_cons, Nat.mul_succ, Nat.add_comm]

end HpsEvent

namespace HpsEventIterator
variable {it it' : HpsEventIterator} {f e : HpsEvent} {rest : List HpsEvent} {buff : Nat → UInt32} {sz : UInt64}

/-- The iterator stands before these records of a packet that began with this event. -/
structure At (f : HpsEvent) (it : HpsEventIterator) (rest : List HpsEvent) : Prop where
  ts : it.ts = f.timeStamp
  pid : it.pid = f.pulseId
  nch : it.nch = setBits f.channels
  channels : it.v.channels = f.channels
  size : it.sz.toNat = 4 * (it.next_ + (rest.flatMap f.nextWords).length)
  words : slots it.buff it.next_ (rest.flatMap f.nextWords).length = rest.flatMap f.nextWords

/-- At the end of the packet there is no other event. -/
lemma At.done (at_ : it.At f []) : it.next = none := by
  rw [next, if_pos]
  rw [at_.size]
  exact Nat.le_refl _

/-- Before that there is one. -/
lemma At.next (at_ : it.At f (e :: rest)) (fits : f.Fits e) :
    ∃ it', it.next = some it' ∧ it'.v = e.seen ∧ it'.At f rest := by
  have length := fits.nextWords_length
  have size := at_.size
  rw [List.flatMap_cons, List.length_append, length] at size
  have words := at_.words
  rw [List.flatMap_cons] at words
  obtain ⟨record, after⟩ := slots_append_iff.mp words
  rw [HpsEvent.nextWords, List.append_assoc, List.cons_append, List.cons_append, List.nil_append, slots_cons_iff,
    slots_cons_iff, slots_append_iff, slots_cons_iff, fits.channelData] at record
  obtain ⟨word, beam, data, hi, -⟩ := record
  rw [length] at after
  have read := offsets_read fits
  refine ⟨_, if_neg (by omega), ?_, at_.ts, at_.pid, at_.nch, at_.channels, ?_, ?_⟩
  · simp only [at_.nch, at_.ts, at_.pid, at_.channels, word, beam, data, hi, read, HpsEvent.seen, fits.channels]
  · rw [size, at_.nch]
    exact congrArg (4 * ·) (Nat.add_assoc _ _ _).symm
  · rw [at_.nch]
    exact after

/-- What is gone through from there. -/
lemma At.events (at_ : it.At f rest) (fits : ∀ e ∈ rest, f.Fits e) :
    it.events = it.v :: rest.map HpsEvent.seen := by
  induction rest generalizing it with
  | nil =>
    rw [HpsEventIterator.events, states]
    split
    · rfl
    · rename_i more
      rw [at_.done] at more
      cases more
  | cons e rest ih =>
    obtain ⟨it', next, v, at'⟩ := at_.next (fits e List.mem_cons_self)
    have later := ih at' fun e he => fits e (List.mem_cons_of_mem _ he)
    rw [HpsEventIterator.events, states]
    split
    · rename_i more
      rw [next] at more
      cases more
    · rename_i more
      cases next.symm.trans more
      rw [List.map_cons, List.map_cons, ← v, ← later]
      rfl

/-- A mask has 32 bits. -/
lemma setBits_le (m : UInt32) : setBits m ≤ 32 := by
  have le := List.length_filter_le m.toNat.testBit (List.range 32)
  rwa [List.length_range] at le

/-- The length of a packet is that of its first record and a number of others. -/
lemma valid_iff (buff : Nat → UInt32) (sz : UInt64) :
    (new buff sz).valid = true ↔
      (2 ^ 64 + sz.toNat - firstSize (buff 4)) % 2 ^ 64 % (firstSize (buff 4) - 16) = 0 := by
  have le := setBits_le (buff 4)
  have count : 4 * (6 + (channelLoop buff (buff 4) 6).length + 2) = firstSize (buff 4) := by
    rw [channelLoop_eq, slots_length, firstSize]
    omega
  have small : firstSize (buff 4) < 2 ^ 64 := by
    rw [firstSize]
    omega
  have first : (UInt64.ofNat (firstSize (buff 4))).toNat = firstSize (buff 4) := UInt64.toNat_ofNat_of_lt small
  have next : (UInt64.ofNat (firstSize (buff 4)) - 16).toNat = firstSize (buff 4) - 16 := by
    rw [UInt64.toNat_sub_of_le, first]
    · rfl
    · apply UInt64.le_iff_toNat_le.mpr
      rw [first, firstSize]
      show 16 ≤ _
      omega
  show decide ((sz - UInt64.ofNat _) % (UInt64.ofNat _ - 16) = 0) = true ↔ _
  rw [count, decide_eq_true_iff, ← UInt64.toNat_inj, UInt64.toNat_mod, UInt64.toNat_sub, first, next]
  have sum : 2 ^ 64 - firstSize (buff 4) + sz.toNat = 2 ^ 64 + sz.toNat - firstSize (buff 4) := by omega
  rw [sum]
  rfl

/-- The iterator on a packet. -/
lemma new_packet (received : Received f rest buff sz) :
    (new buff sz).v = f ∧ (new buff sz).At f rest ∧ (new buff sz).valid = true := by
  have fits := received.fits f List.mem_cons_self
  have length := fits.firstWords_length
  have words := received.words
  rw [HpsEvent.packet] at words
  obtain ⟨record, after⟩ := slots_append_iff.mp words
  rw [HpsEvent.firstWords, List.append_assoc, List.cons_append, List.cons_append, List.cons_append, List.cons_append,
    List.cons_append, List.cons_append, List.nil_append, slots_cons_iff, slots_cons_iff, slots_cons_iff,
    slots_cons_iff, slots_cons_iff, slots_cons_iff, slots_append_iff, slots_cons_iff, slots_cons_iff,
    fits.channelData] at record
  obtain ⟨ts0, ts1, pid0, pid1, mask, beam, data, hi, lo, -⟩ := record
  simp only [Nat.reduceAdd, Nat.zero_add] at ts0 ts1 pid0 pid1 mask beam data hi lo
  have size := received.size
  rw [HpsEvent.packet, List.length_append, length] at size
  rw [length, Nat.zero_add] at after
  have channels : channelLoop buff (buff 4) 6 = f.channelData := by
    rw [channelLoop_eq, mask]
    exact data
  rw [mask] at channels
  have count := fits.channelData
  refine ⟨?_, ⟨?_, ?_, ?_, mask, ?_, ?_⟩, ?_⟩
  · simp only [new, ts0, ts1, pid0, pid1, mask, beam, channels, count, hi, lo, add_words, word2_words]
  · simp only [new, ts0, ts1, add_words]
  · simp only [new, pid0, pid1, add_words]
  · simp only [new, mask, channels, count]
  · simp only [new, mask, channels, count, size]
    omega
  · have start : 6 + setBits f.channels + 2 = 8 + setBits f.channels := by omega
    simp only [new, mask, channels, count, start]
    exact after
  · rw [HpsEvent.flatMap_length fun e he => received.fits e (List.mem_cons_of_mem _ he)] at size
    have whole : 2 ^ 64 + sz.toNat - firstSize f.channels =
        (4 * (4 + setBits f.channels)) * rest.length + 2 ^ 64 := by
      rw [size, firstSize, Nat.mul_assoc]
      omega
    have next : firstSize f.channels - 16 = 4 * (4 + setBits f.channels) := by
      rw [firstSize]
      omega
    have small : (4 * (4 + setBits f.channels)) * rest.length < 2 ^ 64 := by
      have lt := sz.toNat_lt
      rw [size] at lt
      rw [Nat.mul_assoc]
      omega
    rw [valid_iff, mask, whole, next, Nat.add_mod_right, Nat.mod_eq_of_lt small]
    exact Nat.mul_mod_right _ _

/-- The iterator is within the packet and a number of records away from its end. -/
structure Within (it : HpsEventIterator) : Prop where
  reach : 4 * it.reach ≤ it.sz.toNat
  left : 4 * it.next_ ≤ it.sz.toNat
  records : 4 * (4 + it.nch) ∣ it.sz.toNat - 4 * it.next_

/-- Each record is within the packet. -/
lemma Within.next (within : it.Within) (h : it.next = some it') : it'.Within ∧ it'.sz = it.sz := by
  have left := within.left
  obtain ⟨more, -, -⟩ := next_spec h
  have room : 4 * (4 + it.nch) ≤ it.sz.toNat - 4 * it.next_ :=
    Nat.le_of_dvd (Nat.sub_pos_of_lt more) within.records
  rw [HpsEventIterator.next, if_neg (Nat.not_le.mpr more)] at h
  cases h
  refine ⟨⟨?_, ?_, ?_⟩, rfl⟩
  · have reach := within.reach
    show 4 * max it.reach (it.next_ + 3 + it.nch) ≤ it.sz.toNat
    cases Nat.le_total it.reach (it.next_ + 3 + it.nch) with
    | inl further =>
      rw [Nat.max_eq_right further]
      omega
    | inr before =>
      rw [Nat.max_eq_left before]
      exact reach
  · show 4 * (it.next_ + (4 + it.nch)) ≤ it.sz.toNat
    omega
  · show 4 * (4 + it.nch) ∣ it.sz.toNat - 4 * (it.next_ + (4 + it.nch))
    rw [Nat.mul_add 4 it.next_, ← Nat.sub_sub]
    exact Nat.dvd_sub within.records (dvd_refl _)

/-- And so is all that is read from there. -/
lemma Within.states (within : it.Within) : ∀ it' ∈ it.states, 4 * it'.reach ≤ it.sz.toNat := by
  generalize size : it.sz.toNat - 4 * it.next_ = n
  induction n using Nat.strong_induction_on generalizing it with
  | _ n ih =>
    rw [HpsEventIterator.states]
    intro it' mem
    cases List.mem_cons.mp mem with
    | inl here =>
      subst here
      exact within.reach
    | inr later =>
      split at later
      · cases later
      · rename_i next
        obtain ⟨within', sz⟩ := within.next next
        obtain ⟨more, -, step⟩ := next_spec next
        rw [← sz]
        refine ih _ ?_ within' rfl it' later
        rw [sz]
        omega

/-- A packet is decoded exactly where the words of each severity but the first are equal. -/
lemma decodes_iff (received : Received f rest buff sz) :
    Decodes f rest buff sz ↔ ∀ e ∈ rest, hiWord e.sevr = loWord e.sevr := by
  obtain ⟨v, at_, valid⟩ := new_packet received
  have events := at_.events fun e he => received.fits e (List.mem_cons_of_mem _ he)
  rw [Decodes, and_iff_right valid, events, v, List.cons.injEq, and_iff_right rfl]
  have same := @List.map_inj_left _ _ rest HpsEvent.seen id
  rw [List.map_id] at same
  rw [same]
  exact forall₂_congr fun e _ => e.seen_iff

/-- Nothing is read beyond a packet that is found to be valid exactly where it holds its first record. -/
lemma safe_iff (buff : Nat → UInt32) (sz : UInt64) :
    Safe buff sz ↔ firstSize (buff 4) ≤ sz.toNat ∨
      (2 ^ 64 + sz.toNat - firstSize (buff 4)) % (firstSize (buff 4) - 16) ≠ 0 := by
  have start : (new buff sz).reach = 8 + setBits (buff 4) := by
    show 6 + (channelLoop buff (buff 4) 6).length + 2 = _
    rw [channelLoop_eq, slots_length]
    omega
  have lt := sz.toNat_lt
  cases Nat.lt_or_ge sz.toNat (firstSize (buff 4)) with
  | inl short =>
    have wraps : (2 ^ 64 + sz.toNat - firstSize (buff 4)) % 2 ^ 64 = 2 ^ 64 + sz.toNat - firstSize (buff 4) := by
      apply Nat.mod_eq_of_lt
      omega
    rw [or_iff_right (Nat.not_le.mpr short), Safe, ← Bool.not_eq_true, valid_iff, wraps]
    apply or_iff_left
    intro inside
    have first := inside _ (by rw [states]; exact List.mem_cons_self)
    rw [start] at first
    rw [firstSize] at short
    omega
  | inr holds =>
    refine iff_of_true ?_ (.inl holds)
    cases valid : (new buff sz).valid with
    | false => exact .inl valid
    | true =>
      rw [valid_iff] at valid
      have left : (2 ^ 64 + sz.toNat - firstSize (buff 4)) % 2 ^ 64 = sz.toNat - firstSize (buff 4) := by
        omega
      have size : firstSize (buff 4) = 4 * (8 + setBits (buff 4)) := rfl
      have count : (new buff sz).nch = setBits (buff 4) := by
        show (channelLoop buff (buff 4) 6).length = _
        rw [channelLoop_eq, slots_length]
      have within : (new buff sz).Within := by
        constructor
        · rw [start, ← size]
          exact holds
        · show 4 * (new buff sz).reach ≤ sz.toNat
          rw [start, ← size]
          exact holds
        · show 4 * (4 + (new buff sz).nch) ∣ sz.toNat - 4 * (new buff sz).reach
          have next : firstSize (buff 4) - 16 = 4 * (4 + setBits (buff 4)) := by omega
          rw [start, ← size, count, ← next, ← left]
          exact Nat.dvd_of_mod_eq_zero valid
      exact .inr within.states

/-- The iterator does what is asked of it, on the packets that it decodes and on all others, exactly where the words
    of the severities that follow the first are equal, and a packet that is shorter than its first record is not as
    much shorter as makes the difference, in 64 bits, a number of records. -/
theorem iterator_iff (buff : Nat → UInt32) (sz : UInt64) :
    ((∀ f rest, Received f rest buff sz → Decodes f rest buff sz) ∧ Safe buff sz) ↔
      (∀ f rest, Received f rest buff sz → ∀ e ∈ rest, hiWord e.sevr = loWord e.sevr) ∧
      (firstSize (buff 4) ≤ sz.toNat ∨
        (2 ^ 64 + sz.toNat - firstSize (buff 4)) % (firstSize (buff 4) - 16) ≠ 0) := by
  rw [safe_iff]
  refine and_congr_left fun _ => ?_
  exact forall₃_congr fun f rest received => decodes_iff received

/-- An event without channels. -/
def plainEvent (sevr : UInt64) : HpsEvent := ⟨0, 0, 0, 0, sevr, []⟩

/-- The lower word of a severity that follows is lost, and a packet of four words is taken for one that is valid, of
    which eight are read. -/
theorem lower_word_lost :
    Received (plainEvent 0) [plainEvent 1] (((plainEvent 0).packet [plainEvent 1]).getD · 0) 48 ∧
      ¬ Decodes (plainEvent 0) [plainEvent 1] (((plainEvent 0).packet [plainEvent 1]).getD · 0) 48 ∧
      ¬ Safe (fun _ => 0) 16 := by
  have fits : ∀ e ∈ [plainEvent 0, plainEvent 1], (plainEvent 0).Fits e := by
    intro e mem
    have plain : e.channels = 0 ∧ e.channelData = [] ∧ e.timeStamp = 0 ∧ e.pulseId = 0 := by
      cases List.mem_pair.mp mem with
      | inl first =>
        subst first
        exact ⟨rfl, rfl, rfl, rfl⟩
      | inr second =>
        subst second
        exact ⟨rfl, rfl, rfl, rfl⟩
    obtain ⟨channels, data, timeStamp, pulseId⟩ := plain
    constructor
    · exact channels
    · rw [data]
      decide
    · rw [timeStamp]
      decide
    · rw [pulseId]
      decide
  have received : Received (plainEvent 0) [plainEvent 1] (((plainEvent 0).packet [plainEvent 1]).getD · 0) 48 :=
    ⟨fits, by decide, by decide⟩
  refine ⟨received, ?_, ?_⟩
  · rw [decodes_iff received]
    decide
  · rw [safe_iff]
    decide

end HpsEventIterator

end Lcls2.Bld
