import Lcls2.Lib.Lines
import Lcls2.Drp.EventBatcher

/-!
# Subframes of a batch

Going through any buffer should throw, or give subframes that are within the buffer and do not overlap; and going
through a batch should give its subframes. Three things are not checked: that a line has room for a tail, that the
total size of a subframe does not wrap around, and that it does not with the line of its tail added. `batches_iff` says
that this is all.
-/

namespace Lcls2.Drp
open Lib

/-- The width of a line of the batch in a buffer. -/
def batchLine (buf : Bytes) : Nat := lineWidth (headerWidth (buf.getD 0 0))

/-- Two ranges of bytes have no byte in common. -/
def Apart (a : Int) (s : Nat) (b : Int) (t : Nat) : Prop := a + s ≤ b ∨ b + t ≤ a

namespace EvtBatcherSubFrameTail

/-- The width of a line of a tail, which is its own. -/
def line (t : EvtBatcherSubFrameTail) : Nat := lineWidth t.width.toNat

/-- The size with its padding. -/
def padded (t : EvtBatcherSubFrameTail) : Nat := roundUp t.size.toNat t.line

/-- How far it is from a tail to the one before: its padded data and a line, added in 32 bits. -/
def jump (t : EvtBatcherSubFrameTail) (lw : Nat) : Nat := (t.padded + lw) % 2 ^ 32

/-- The data of a subframe is in the buffer after the header, and apart from its tail. -/
structure Inside (buf : Bytes) (t : EvtBatcherSubFrameTail) : Prop where
  after_header : (batchLine buf : Int) ≤ t.data
  in_buffer : t.data + t.size.toNat ≤ buf.length
  own_tail : Apart t.data t.size.toNat t.pos 8

/-- Two subframes do not overlap. -/
structure Disjoint (t u : EvtBatcherSubFrameTail) : Prop where
  data : Apart t.data t.size.toNat u.data u.size.toNat
  tail : Apart t.data t.size.toNat u.pos 8
  tail' : Apart u.data u.size.toNat t.pos 8

end EvtBatcherSubFrameTail

open EvtBatcherSubFrameTail EvtBatcherIterator

/-- Going through a buffer ends, by itself or with the exception, and gives subframes in the buffer that do not
    overlap. -/
def Safe (buf : Bytes) : Prop :=
  ∃ fuel frames e, subframes buf fuel = (frames, e) ∧ (e = .done ∨ e = .fault .corrupt) ∧
    (∀ t ∈ frames, t.Inside buf) ∧ frames.Pairwise Disjoint

/-- Where the tails of a buffer are: in its last line, and a jump before another tail, when its padded data leave room
    for something after the header. -/
inductive TailAt (buf : Bytes) : Int → Prop where
  | last :
    TailAt buf ((buf.length : Int) - batchLine buf)
  | before {p t} :
    TailAt buf p →
    read buf p = .ok t →
    (batchLine buf : Int) < p - t.padded →
    TailAt buf (p - t.jump (batchLine buf))

/-- A tail at some place has data that would start in the header. -/
def CorruptAt (buf : Bytes) (p : Int) : Prop := ∀ u, read buf p = .ok u → p - u.padded < batchLine buf

/-- A line has room for a tail and is in the buffer, and the widths and sizes of the tails are in the range of their
    types. A jump is in this range as well, or happens to lead to a tail that is found to be corrupt. -/
structure Sound (buf : Bytes) : Prop where
  header : buf ≠ []
  room : 8 ≤ batchLine buf
  line : batchLine buf ≤ buf.length
  widths : ∀ p t, TailAt buf p → read buf p = .ok t → t.width.toNat < 31
  sizes : ∀ p t, TailAt buf p → read buf p = .ok t → (batchLine buf : Int) ≤ p → t.size.toNat + t.line ≤ 2 ^ 32
  jumps : ∀ p t, TailAt buf p → read buf p = .ok t → (batchLine buf : Int) < p - t.padded →
    t.padded + batchLine buf < 2 ^ 32 ∨ CorruptAt buf (p - t.jump (batchLine buf))

/-- A subframe that goes into a batch. -/
structure SubFrame where
  data : Bytes
  tdest : UInt8
  tuser_first : UInt8
  tuser_last : UInt8

/-- The bytes of the tail of a subframe. -/
def SubFrame.tail (f : SubFrame) (w : Nat) : Bytes :=
  toLe 4 f.data.length ++ [f.tdest, f.tuser_first, f.tuser_last, .ofNat w]

/-- A batch of some width with its subframes, the last one first, and where their data are. -/
inductive Batched (w : Nat) : Bytes → List (Nat × SubFrame) → Prop where
  | header {first line} :
    headerWidth first = w →
    (first :: line).length = lineWidth w →
    Batched w (first :: line) []
  | frame {bs fs pad line} {f : SubFrame} :
    Batched w bs fs →
    f.data.length < 2 ^ 32 →
    (f.data ++ pad).length = roundUp f.data.length (lineWidth w) →
    (f.tail w ++ line).length = roundUp 8 (lineWidth w) →
    Batched w (bs ++ (f.data ++ pad) ++ (f.tail w ++ line)) ((bs.length, f) :: fs)

/-- A tail is that of a subframe whose data are somewhere. -/
structure Gives (buf : Bytes) (t : EvtBatcherSubFrameTail) (f : Nat × SubFrame) : Prop where
  data : t.data = f.1
  size : t.size.toNat = f.2.data.length
  tdest : t.tdest = f.2.tdest
  bytes : slice buf f.1 (f.1 + f.2.data.length) = f.2.data

/-- Going through a batch gives its subframes. -/
def Decodes (buf : Bytes) (fs : List (Nat × SubFrame)) : Prop :=
  ∃ fuel frames, subframes buf fuel = (frames, .done) ∧ List.Forall₂ (Gives buf) frames fs

lemma lineWidth_eq (w : Nat) : lineWidth w = 2 ^ (w + 1) := by
  rw [lineWidth, Nat.shiftLeft_eq, Nat.pow_succ, Nat.mul_comm]

lemma lineWidth_pos (w : Nat) : 0 < lineWidth w := by
  rw [lineWidth_eq]
  exact Nat.two_pow_pos _

namespace EvtBatcherSubFrameTail

variable {buf : Bytes} {p : Int} {t : EvtBatcherSubFrameTail}

/-- A tail that is read is in the buffer. -/
lemma read_ok (h : read buf p = .ok t) : 0 ≤ p ∧ p + 8 ≤ buf.length ∧ t.pos = p := by
  simp only [read] at h
  split at h
  · rename_i inside
    cases h
    exact ⟨inside.1, inside.2, rfl⟩
  · cases h

/-- A place for a tail in the buffer. -/
lemma exists_read (h₀ : 0 ≤ p) (h₁ : p + 8 ≤ buf.length) : ∃ t, read buf p = .ok t :=
  ⟨_, if_pos ⟨h₀, h₁⟩⟩

lemma size_le_padded (t : EvtBatcherSubFrameTail) : t.size.toNat ≤ t.padded :=
  le_roundUp (lineWidth_pos _) _

lemma padded_lt (t : EvtBatcherSubFrameTail) : t.padded < t.size.toNat + t.line :=
  roundUp_lt (lineWidth_pos _) _

/-- A line divides what there is in 32 bits. -/
lemma line_dvd (hw : t.width.toNat < 31) : t.line ∣ 2 ^ 32 := by
  rw [line, lineWidth_eq]
  exact Nat.pow_dvd_pow 2 (by omega)

/-- Where the size does not wrap around, the padded one does not. -/
lemma padded_le (hw : t.width.toNat < 31) (hs : t.size.toNat + t.line ≤ 2 ^ 32) : t.padded + t.line ≤ 2 ^ 32 := by
  have pos : 0 < t.line := lineWidth_pos _
  have dvd : t.line ∣ 2 ^ 32 - t.line := Nat.dvd_sub (line_dvd hw) (Nat.dvd_refl _)
  have le : t.padded ≤ 2 ^ 32 - t.line := (roundUp_le_iff pos dvd).mpr (by omega)
  omega

/-- The total size is the padded one, unless it wraps around. -/
lemma totSize_eq (hw : t.width.toNat < 31) :
    ∃ tot, t.totSize = .ok tot ∧ tot.toNat = if t.size.toNat + t.line ≤ 2 ^ 32 then t.padded else 0 := by
  refine ⟨_, if_pos hw, ?_⟩
  rw [padded, line, lineWidth_eq]
  exact toNat_mask (by omega) t.size

/-- The data are right before the tail. -/
lemma data_eq (hw : t.width.toNat < 31) (hs : t.size.toNat + t.line ≤ 2 ^ 32) : t.data = t.pos - t.padded := by
  obtain ⟨tot, h, eq⟩ := totSize_eq hw
  rw [if_pos hs] at eq
  simp only [data, h, eq]

/-- Where the total size wraps around, the data are not apart from the tail. -/
lemma not_inside (hw : t.width.toNat < 31) (hs : ¬ t.size.toNat + t.line ≤ 2 ^ 32) : t.data = t.pos ∧
    ¬ t.Inside buf := by
  obtain ⟨tot, h, eq⟩ := totSize_eq hw
  rw [if_neg hs] at eq
  have at_tail : t.data = t.pos := by
    simp only [data, h, eq]
    omega
  refine ⟨at_tail, ?_⟩
  intro inside
  have own := inside.own_tail
  have line : t.line ≤ 2 ^ 31 := by
    rw [EvtBatcherSubFrameTail.line, lineWidth_eq]
    exact Nat.pow_le_pow_right Nat.two_pos (by omega)
  rw [Apart, at_tail] at own
  omega

end EvtBatcherSubFrameTail

namespace EvtBatcherIterator

variable {buf : Bytes} {lw : Nat} {p : Int} {t : EvtBatcherSubFrameTail}

/-- The iterator at some place. -/
def at_ (lw : Nat) (p : Int) : EvtBatcherIterator := ⟨lw, some p, lw⟩

/-- A step where nothing wraps around. -/
lemma next_eq (h : read buf p = .ok t) (hw : t.width.toNat < 31)
    (hs : (lw : Int) ≤ p → t.size.toNat + t.line ≤ 2 ^ 32) :
    (at_ lw p).next buf =
      if p - t.padded < lw then .error .corrupt
      else if p - t.padded = lw then .ok (some t, ⟨lw, none, lw⟩)
      else .ok (some t, at_ lw (p - t.jump lw)) := by
  obtain ⟨tot, total, eq⟩ := totSize_eq hw
  have step : (at_ lw p).next buf =
      if p - tot.toNat < lw then .error .corrupt
      else if p - tot.toNat = lw then .ok (some t, ⟨lw, none, lw⟩)
      else .ok (some t, at_ lw (p - ((tot.toNat + lw) % 2 ^ 32 : Nat))) := by
    simp only [next, at_, h, ok_bind, total, BitVec.toNat_add, BitVec.toNat_ofNat, Nat.add_mod_mod]
  rw [step, eq]
  split
  · rfl
  · -- a total size that wraps around is not reached
    rename_i wraps
    have early : ¬ (lw : Int) ≤ p := fun le => wraps (hs le)
    rw [if_pos (by omega), if_pos (by omega)]

/-- A step that wraps around yields a subframe at its own tail. -/
lemma next_wraps (h : read buf p = .ok t) (hw : t.width.toNat < 31) (hp : (lw : Int) ≤ p)
    (hs : ¬ t.size.toNat + t.line ≤ 2 ^ 32) : ∃ it, (at_ lw p).next buf = .ok (some t, it) := by
  obtain ⟨tot, total, eq⟩ := totSize_eq hw
  rw [if_neg hs] at eq
  simp only [next, at_, h, ok_bind, total, eq]
  rw [if_neg (by omega)]
  split
  · exact ⟨_, rfl⟩
  · exact ⟨_, rfl⟩

/-- Without a tail to read, or where its width is out of range, the step is undefined. -/
lemma next_undefined (h : (∃ f, read buf p = .error f) ∨ ∃ t, read buf p = .ok t ∧ ¬ t.width.toNat < 31) :
    (at_ lw p).next buf = .error .outside ∨ (at_ lw p).next buf = .error .shift := by
  cases h with
  | inl h =>
    obtain ⟨f, h⟩ := h
    left
    have outside : f = .outside := by
      simp only [EvtBatcherSubFrameTail.read] at h
      split at h
      · cases h
      · cases h
        rfl
    simp only [next, at_, h, outside]
    rfl
  | inr h =>
    obtain ⟨t, h, hw⟩ := h
    right
    simp only [next, at_, h, ok_bind, totSize, if_neg hw]
    rfl

end EvtBatcherIterator

/-- Subframes one below the other, each with its data between the header and its tail, the first tail not above a
    place. -/
inductive Below (lw : Nat) : Int → List EvtBatcherSubFrameTail → Prop where
  | nil {p} :
    Below lw p []
  | cons {p ts} {t : EvtBatcherSubFrameTail} :
    t.pos ≤ p →
    (lw : Int) ≤ t.data →
    t.data + t.size.toNat ≤ t.pos →
    Below lw (t.data - lw) ts →
    Below lw p (t :: ts)

namespace Below

variable {lw : Nat} {p : Int} {ts : List EvtBatcherSubFrameTail}

lemma bounds (below : Below lw p ts) :
    ∀ t ∈ ts, t.pos ≤ p ∧ (lw : Int) ≤ t.data ∧ t.data + t.size.toNat ≤ t.pos := by
  induction below with
  | nil => exact fun _ h => absurd h List.not_mem_nil
  | cons pos start size _ ih =>
    intro t ht
    cases ht with
    | head => exact ⟨pos, start, size⟩
    | tail _ ht =>
      obtain ⟨pos', rest⟩ := ih t ht
      exact ⟨by omega, rest⟩

lemma pairwise (room : 8 ≤ lw) (below : Below lw p ts) : ts.Pairwise Disjoint := by
  induction below with
  | nil => exact .nil
  | @cons p ts t pos start size below ih =>
    refine .cons ?_ ih
    intro u hu
    obtain ⟨pos', start', size'⟩ := below.bounds u hu
    refine ⟨.inr ?_, .inr ?_, .inl ?_⟩ <;> omega

end Below

section Iteration

variable {buf : Bytes}

/-- Going on from some place is defined, and gives these subframes, which are in the buffer and do not overlap. -/
def Yields (buf : Bytes) (p : Int) (frames : List EvtBatcherSubFrameTail) : Prop :=
  ∃ fuel e, iterate buf fuel (at_ (batchLine buf) p) = (frames, e) ∧ (e = .done ∨ e = .fault .corrupt) ∧
    (∀ t ∈ frames, t.Inside buf) ∧ frames.Pairwise Disjoint

/-- What it takes to go on, and where to. -/
lemma Yields.step {p : Int} {frames : List EvtBatcherSubFrameTail} (yields : Yields buf p frames) :
    ∃ t, read buf p = .ok t ∧ t.width.toNat < 31 ∧ ((batchLine buf : Int) ≤ p → t.size.toNat + t.line ≤ 2 ^ 32) ∧
      ((batchLine buf : Int) ≤ p - t.padded → frames.head? = some t) ∧
      ((batchLine buf : Int) < p - t.padded →
        ∃ rest, frames = t :: rest ∧ Yields buf (p - t.jump (batchLine buf)) rest) := by
  obtain ⟨fuel, e, run, good, inside, disjoint⟩ := yields
  cases fuel with
  | zero =>
    cases run
    cases good with
    | inl h => cases h
    | inr h => cases h
  | succ fuel =>
    simp only [iterate] at run
    -- A read or a shift that is undefined would end the run badly.
    have defined : ¬ ((at_ (batchLine buf) p).next buf = .error .outside ∨
        (at_ (batchLine buf) p).next buf = .error .shift) := by
      rintro (h | h)
      all_goals
        rw [h] at run
        cases run
        cases good with
        | inl h => cases h
        | inr h => cases h
    cases h : read buf p with
    | error f => exact absurd (next_undefined (.inl ⟨f, h⟩)) defined
    | ok t =>
      by_cases hw : t.width.toNat < 31
      swap
      · exact absurd (next_undefined (.inr ⟨t, h, hw⟩)) defined
      -- A size that wraps around gives a subframe whose data leave the buffer.
      have hs : (batchLine buf : Int) ≤ p → t.size.toNat + t.line ≤ 2 ^ 32 := by
        intro hp
        by_contra hs
        obtain ⟨it, step⟩ := next_wraps h hw hp hs
        rw [step] at run
        cases run
        exact (not_inside hw hs).2 (inside t List.mem_cons_self)
      rw [next_eq h hw hs] at run
      refine ⟨t, rfl, hw, hs, ?_, ?_⟩
      · intro found
        rw [if_neg (Int.not_lt.mpr found)] at run
        by_cases last : p - t.padded = batchLine buf
        · rw [if_pos last] at run
          cases run
          rfl
        · rw [if_neg last] at run
          cases run
          rfl
      · intro more
        rw [if_neg (by omega), if_neg (by omega)] at run
        cases run
        refine ⟨_, rfl, fuel, _, rfl, good, ?_, ?_⟩
        · intro u hu
          exact inside u (List.mem_cons_of_mem _ hu)
        · exact (List.pairwise_cons.mp disjoint).2

lemma batchLine_le (buf : Bytes) : batchLine buf ≤ 2 ^ 16 := by
  have lt := (buf.getD 0 0).toNat_lt
  rw [batchLine, lineWidth_eq, headerWidth]
  exact Nat.pow_le_pow_right Nat.two_pos (by omega)

/-- A jump that wraps around leads into the data of its own tail, or back to it. -/
lemma not_disjoint {p : Int} {t u : EvtBatcherSubFrameTail} (h : read buf p = .ok t) (hw : t.width.toNat < 31)
    (hs : t.size.toNat + t.line ≤ 2 ^ 32) (hu : read buf (p - t.jump (batchLine buf)) = .ok u)
    (wraps : 2 ^ 32 ≤ t.padded + batchLine buf) : ¬ Disjoint t u := by
  intro disjoint
  have lw := batchLine_le buf
  have pos := (read_ok h).2.2
  have pos' := (read_ok hu).2.2
  have data := data_eq hw hs
  have padded := padded_le hw hs
  have last := t.padded_lt
  have distance : t.jump (batchLine buf) = t.padded + batchLine buf - 2 ^ 32 := by
    rw [jump, Nat.mod_eq_sub_mod wraps, Nat.mod_eq_of_lt (by omega)]
  cases Nat.eq_zero_or_pos (t.jump (batchLine buf)) with
  | inl back =>
    rw [back, Nat.cast_zero, Int.sub_zero, h] at hu
    cases hu
    have own := disjoint.data
    rw [Apart] at own
    omega
  | inr forth =>
    -- both lines are powers of two, and that of the tail is the smaller one
    have dvd : t.line ∣ batchLine buf := by
      have le : t.line ≤ batchLine buf := by omega
      rw [line, batchLine, lineWidth_eq, lineWidth_eq] at le ⊢
      exact Nat.pow_dvd_pow 2 ((Nat.pow_le_pow_iff_right Nat.one_lt_two).mp le)
    have whole : t.line ∣ t.jump (batchLine buf) := by
      rw [distance]
      exact Nat.dvd_sub (Nat.dvd_add (dvd_roundUp _ _) dvd) (line_dvd hw)
    have far := Nat.le_of_dvd forth whole
    have tail := disjoint.tail
    rw [Apart] at tail
    omega

/-- From what is yielded, a jump is in range or leads to a corrupt tail. -/
lemma Yields.jump {p : Int} {frames : List EvtBatcherSubFrameTail} {t : EvtBatcherSubFrameTail}
    (yields : Yields buf p frames) (h : read buf p = .ok t) (more : (batchLine buf : Int) < p - t.padded) :
    t.padded + batchLine buf < 2 ^ 32 ∨ CorruptAt buf (p - t.jump (batchLine buf)) := by
  obtain ⟨t', h', hw, hs, -, next⟩ := yields.step
  rw [h] at h'
  cases h'
  obtain ⟨rest, rfl, later⟩ := next more
  obtain ⟨_, _, _, _, _, disjoint⟩ := yields
  refine or_iff_not_imp_left.mpr fun wraps u hu => ?_
  by_contra found
  obtain ⟨u', hu', -, -, here, -⟩ := later.step
  rw [hu] at hu'
  cases hu'
  have second : u ∈ rest := List.mem_of_mem_head? (here (Int.not_lt.mp found))
  exact not_disjoint h hw (hs (by omega)) hu (Nat.not_lt.mp wraps) ((List.pairwise_cons.mp disjoint).1 u second)

/-- Where a tail is corrupt, nothing more is yielded. -/
lemma iterate_corrupt {lw : Nat} {p : Int} {t : EvtBatcherSubFrameTail} (fuel : Nat) (h : read buf p = .ok t)
    (hw : t.width.toNat < 31) (hs : (lw : Int) ≤ p → t.size.toNat + t.line ≤ 2 ^ 32) (early : p - t.padded < lw) :
    iterate buf (fuel + 1) (at_ lw p) = ([], .fault .corrupt) := by
  simp only [iterate]
  rw [next_eq h hw hs, if_pos early]

/-- Where everything is in range, an iteration ends. -/
lemma iterate_ends (sound : Sound buf) (fuel : Nat) {p : Int} (tail : TailAt buf p) (h₀ : 0 ≤ p)
    (h₁ : p + 8 ≤ buf.length) (hf : p < fuel) :
    ∃ frames e, iterate buf (fuel + 1) (at_ (batchLine buf) p) = (frames, e) ∧ (e = .done ∨ e = .fault .corrupt) ∧
      Below (batchLine buf) p frames := by
  induction fuel generalizing p with
  | zero => omega
  | succ fuel ih =>
    obtain ⟨t, h⟩ := exists_read h₀ h₁
    have hw := sound.widths p t tail h
    have hs := sound.sizes p t tail h
    have room := sound.room
    have pos := (read_ok h).2.2
    have padded := t.size_le_padded
    by_cases early : p - t.padded < batchLine buf
    · exact ⟨[], .fault .corrupt, iterate_corrupt _ h hw hs early, .inr rfl, .nil⟩
    rw [iterate, next_eq h hw hs, if_neg early]
    have data := data_eq hw (hs (by omega))
    by_cases last : p - t.padded = batchLine buf
    · rw [if_pos last]
      exact ⟨[t], .done, rfl, .inl rfl, .cons (by omega) (by omega) (by omega) .nil⟩
    · rw [if_neg last]
      have more : (batchLine buf : Int) < p - t.padded := by omega
      have next := tail.before h more
      cases sound.jumps p t tail h more with
      | inl short =>
        have distance : t.jump (batchLine buf) = t.padded + batchLine buf := Nat.mod_eq_of_lt short
        obtain ⟨frames, e, run, good, below⟩ := ih next (by omega) (by omega) (by omega)
        refine ⟨t :: frames, e, ?_, good, ?_⟩
        · simp only [run]
        · refine .cons (by omega) (by omega) (by omega) ?_
          rw [data, pos, Int.sub_sub, ← Nat.cast_add, ← distance]
          exact below
      | inr corrupt =>
        -- wherever the jump leads to, the iteration ends there
        have near : t.jump (batchLine buf) ≤ t.padded + batchLine buf := Nat.mod_le ..
        obtain ⟨u, hu⟩ := @exists_read buf (p - t.jump (batchLine buf)) (by omega) (by omega)
        have ends := iterate_corrupt fuel hu (sound.widths _ u next hu) (sound.sizes _ u next hu) (corrupt u hu)
        refine ⟨[t], .fault .corrupt, ?_, .inr rfl, .cons (by omega) (by omega) (by omega) .nil⟩
        simp only [ends]

/-- The iteration of a buffer starts in its last line. -/
lemma subframes_eq (h : buf ≠ []) (fuel : Nat) :
    subframes buf fuel = iterate buf fuel (at_ (batchLine buf) ((buf.length : Int) - batchLine buf)) := by
  cases buf with
  | nil => exact absurd rfl h
  | cons first rest => rfl

/-- Going through a buffer is safe just when everything is in range. -/
lemma safe_iff (buf : Bytes) : Safe buf ↔ Sound buf := by
  constructor
  · rintro ⟨fuel, frames, e, run, good, inside, disjoint⟩
    have header : buf ≠ [] := by
      rintro rfl
      cases run
      cases good with
      | inl h => cases h
      | inr h => cases h
    rw [subframes_eq header] at run
    have start : Yields buf ((buf.length : Int) - batchLine buf) frames := ⟨fuel, e, run, good, inside, disjoint⟩
    have all : ∀ p, TailAt buf p → ∃ frames, Yields buf p frames := by
      intro p tail
      induction tail with
      | last => exact ⟨frames, start⟩
      | before tail h more ih =>
        obtain ⟨frames, yields⟩ := ih
        obtain ⟨t, h', -, -, -, next⟩ := yields.step
        rw [h] at h'
        cases h'
        obtain ⟨rest, -, yields⟩ := next more
        exact ⟨rest, yields⟩
    obtain ⟨t, h, -, -, -⟩ := start.step
    obtain ⟨h₀, h₁, -⟩ := read_ok h
    refine ⟨header, by omega, by omega, ?_, ?_, ?_⟩
    · intro p t tail h
      obtain ⟨frames, yields⟩ := all p tail
      obtain ⟨t', h', hw, -⟩ := yields.step
      rw [h] at h'
      cases h'
      exact hw
    · intro p t tail h
      obtain ⟨frames, yields⟩ := all p tail
      obtain ⟨t', h', -, hs, -⟩ := yields.step
      rw [h] at h'
      cases h'
      exact hs
    · intro p t tail h more
      obtain ⟨frames, yields⟩ := all p tail
      exact yields.jump h more
  · intro sound
    have room := sound.room
    have line := sound.line
    obtain ⟨frames, e, run, good, below⟩ := iterate_ends sound (buf.length + 1) .last (by omega) (by omega) (by omega)
    refine ⟨buf.length + 2, frames, e, ?_, good, ?_, below.pairwise room⟩
    · rw [subframes_eq sound.header, run]
    · intro t ht
      obtain ⟨pos, start, size⟩ := below.bounds t ht
      exact ⟨start, by omega, .inl size⟩

end Iteration

namespace Batched

variable {w : Nat} {bs : Bytes} {fs : List (Nat × SubFrame)}

/-- The width of a batch is in its header, which takes a line. -/
lemma line (batch : Batched w bs fs) (rest : Bytes) :
    w < 16 ∧ bs ++ rest ≠ [] ∧ batchLine (bs ++ rest) = lineWidth w := by
  induction batch generalizing rest with
  | @header first line width =>
    refine ⟨?_, List.cons_ne_nil _ _, congrArg lineWidth width⟩
    have := first.toNat_lt
    rw [← width, headerWidth]
    omega
  | @frame bs fs pad line f _ _ _ _ ih =>
    rw [List.append_assoc, List.append_assoc]
    exact ih _

/-- There is just the header in a batch without subframes. -/
lemma length (room : 8 ≤ lineWidth w) (batch : Batched w bs fs) :
    lineWidth w ≤ bs.length ∧ (bs.length = lineWidth w ↔ fs = []) := by
  cases batch with
  | header _ length => exact ⟨length.ge, iff_of_true length rfl⟩
  | @frame bs fs pad line f batch _ _ htail =>
    have start : 0 < bs.length := by
      cases batch with
      | header => exact Nat.succ_pos _
      | frame _ _ _ h =>
        have := le_roundUp (lineWidth_pos w) 8
        rw [← h] at this
        simp only [List.length_append] at this ⊢
        omega
    have tail : lineWidth w ≤ (f.tail w ++ line).length := by
      rw [htail, roundUp]
      have := Nat.div_pos (show lineWidth w ≤ 8 + lineWidth w - 1 by omega) (lineWidth_pos w)
      exact Nat.le_mul_of_pos_left _ this
    rw [List.length_append, List.length_append]
    refine ⟨by omega, iff_of_false (by omega) (List.cons_ne_nil _ _)⟩

end Batched

/-- A tail takes one line where there is room for it. -/
lemma roundUp_tail {w : Nat} (room : 8 ≤ lineWidth w) : roundUp 8 (lineWidth w) = lineWidth w := by
  rw [roundUp, Nat.div_eq_of_lt_le (k := 1) (by omega) (by omega), Nat.one_mul]

/-- A tail is read as it was written. -/
lemma read_tail (w : Nat) (f : SubFrame) (short : f.data.length < 2 ^ 32) (before after : Bytes) :
    read (before ++ f.tail w ++ after) before.length =
      .ok ⟨before.length, .ofNat 32 f.data.length, f.tdest, f.tuser_first, f.tuser_last, .ofNat w⟩ := by
  have length : (f.tail w).length = 8 := by
    rw [SubFrame.tail, List.length_append, toLe_length]
    rfl
  have here : slice (before ++ f.tail w ++ after) before.length (before.length + 8) = f.tail w := by
    rw [← length]
    exact slice_append ..
  have size : ofLe ((f.tail w).take 4) = f.data.length := by
    rw [SubFrame.tail, List.take_left' (toLe_length ..)]
    exact ofLe_toLe short
  rw [EvtBatcherSubFrameTail.read, if_pos (by simp [length])]
  simp only [Int.toNat_natCast, here, size]
  rfl

section Decoding

variable {w : Nat}

/-- The iteration from a place before a subframe gives what is below it. -/
def Reads (buf : Bytes) (lw : Nat) (p : Int) (fs : List (Nat × SubFrame)) : Prop :=
  ∃ fuel frames, iterate buf fuel (at_ lw p) = (frames, .done) ∧ List.Forall₂ (Gives buf) frames fs

/-- In the header nothing is found. -/
lemma not_reads_header {buf : Bytes} {lw : Nat} (pos : 0 < lw) (fs : List (Nat × SubFrame)) : ¬ Reads buf lw 0 fs := by
  rintro ⟨fuel, frames, run, -⟩
  have throws : ∃ f, (at_ lw 0).next buf = .error f := by
    cases h : read buf 0 with
    | error f => exact (next_undefined (.inl ⟨f, h⟩)).elim (fun h => ⟨_, h⟩) fun h => ⟨_, h⟩
    | ok t =>
      by_cases hw : t.width.toNat < 31
      · rw [next_eq h hw (by omega), if_pos (by omega)]
        exact ⟨_, rfl⟩
      · exact (next_undefined (.inr ⟨t, h, hw⟩)).elim (fun h => ⟨_, h⟩) fun h => ⟨_, h⟩
  obtain ⟨f, throws⟩ := throws
  cases fuel with
  | zero => cases run
  | succ fuel =>
    simp only [iterate, throws] at run
    cases run

/-- An iterator that stays where it is does not end. -/
lemma iterate_stays {buf : Bytes} {lw : Nat} {p : Int} {t : EvtBatcherSubFrameTail}
    (stays : (at_ lw p).next buf = .ok (some t, at_ lw p)) (fuel : Nat) : (iterate buf fuel (at_ lw p)).2 = .fuel := by
  induction fuel with
  | zero => rfl
  | succ fuel ih =>
    rw [iterate, stays]
    exact ih

/-- Reading a subframe whose tail is at some place, and what is below it. -/
lemma reads_cons {buf : Bytes} {lw start : Nat} {p : Int} {t : EvtBatcherSubFrameTail} {f : SubFrame}
    {fs : List (Nat × SubFrame)} (h : read buf p = .ok t) (hw : t.width.toNat < 31) (place : p - t.padded = start)
    (size : t.size.toNat = f.data.length) (tdest : t.tdest = f.tdest)
    (bytes : slice buf start (start + f.data.length) = f.data) (le : lw ≤ start) (only : start = lw ↔ fs = [])
    (same : t.line = lw) :
    Reads buf lw p ((start, f) :: fs) ↔
      t.size.toNat + lw ≤ 2 ^ 32 ∧
        (fs ≠ [] → t.size.toNat + 2 * lw ≤ 2 ^ 32 ∧ Reads buf lw ((start : Int) - lw) fs) := by
  subst same
  have pos := (read_ok h).2.2
  have padded := t.size_le_padded
  by_cases hs : t.size.toNat + t.line ≤ 2 ^ 32
  · rw [and_iff_right hs]
    have data := data_eq hw hs
    have gives : Gives buf t (start, f) := ⟨by simp only; omega, size, tdest, bytes⟩
    have step := @next_eq _ t.line _ _ h hw fun _ => hs
    rw [if_neg (by omega)] at step
    cases fs with
    | nil =>
      have last := only.mpr rfl
      rw [if_pos (by omega)] at step
      refine iff_of_true ⟨2, [t], ?_, .cons gives .nil⟩ fun h => absurd rfl h
      simp only [iterate, step]
      rfl
    | cons f' fs =>
      have more : start ≠ t.line := fun e => List.cons_ne_nil _ _ (only.mp e)
      rw [if_neg (by omega)] at step
      have short : t.padded + t.line < 2 ^ 32 ↔ t.size.toNat + 2 * t.line ≤ 2 ^ 32 :=
        roundUp_add_lt_iff (lineWidth_pos _) (line_dvd hw)
      by_cases hj : t.size.toNat + 2 * t.line ≤ 2 ^ 32
      · have below : p - (t.jump t.line : Int) = start - t.line := by
          rw [EvtBatcherSubFrameTail.jump, Nat.mod_eq_of_lt (short.mpr hj)]
          omega
        rw [below] at step
        constructor
        · rintro ⟨fuel, frames, run, given⟩ -
          refine ⟨hj, ?_⟩
          cases fuel with
          | zero => cases run
          | succ fuel =>
            simp only [iterate, step] at run
            cases run_rest : iterate buf fuel (at_ t.line ((start : Int) - t.line)) with
            | mk frames' e =>
              rw [run_rest] at run
              cases run
              cases given with
              | cons _ given => exact ⟨fuel, frames', run_rest, given⟩
        · intro reads
          obtain ⟨fuel, frames, run, given⟩ := (reads (List.cons_ne_nil _ _)).2
          refine ⟨fuel + 1, t :: frames, ?_, .cons gives given⟩
          simp only [iterate, step, run]
      · -- the jump wraps around to nothing
        have padded := padded_le hw hs
        have wraps := mt short.mp hj
        have none_ : t.jump t.line = 0 := by
          rw [EvtBatcherSubFrameTail.jump, Nat.le_antisymm padded (Nat.not_lt.mp wraps)]
          exact Nat.mod_self _
        rw [none_, Nat.cast_zero, Int.sub_zero] at step
        refine iff_of_false ?_ fun h => hj (h (List.cons_ne_nil _ _)).1
        rintro ⟨fuel, frames, run, -⟩
        have never := iterate_stays step fuel
        rw [run] at never
        cases never
  · -- the data of the subframe are not where they should be
    refine iff_of_false ?_ fun h => hs h.1
    rintro ⟨fuel, frames, run, given⟩
    obtain ⟨it, step⟩ := @next_wraps _ t.line _ _ h hw (by omega) hs
    have there := (@not_inside buf t hw hs).1
    have line : t.line ≤ 2 ^ 31 := by
      rw [EvtBatcherSubFrameTail.line, lineWidth_eq]
      exact Nat.pow_le_pow_right Nat.two_pos (by omega)
    cases fuel with
    | zero => cases run
    | succ fuel =>
      simp only [iterate, step, Prod.mk.injEq] at run
      rw [← run.1] at given
      cases given with
      | cons gives _ =>
        have data := gives.data
        simp only at data
        omega

/-- Reading the subframes of a batch. -/
lemma reads_batch {buf : Bytes} {fs : List (Nat × SubFrame)} (room : 8 ≤ lineWidth w) (batch : Batched w buf fs)
    (rest : Bytes) :
    Reads (buf ++ rest) (lineWidth w) ((buf.length : Int) - lineWidth w) fs ↔
      fs ≠ [] ∧ (∀ f ∈ fs, f.2.data.length + lineWidth w ≤ 2 ^ 32) ∧
        ∀ f ∈ fs.dropLast, f.2.data.length + 2 * lineWidth w ≤ 2 ^ 32 := by
  induction batch generalizing rest with
  | header _ length =>
    rw [length, Int.sub_self]
    exact iff_of_false (not_reads_header (lineWidth_pos w) []) fun h => h.1 rfl
  | @frame bs fs pad line f batch short hpad htail ih =>
    obtain ⟨hw, -, -⟩ := batch.line []
    obtain ⟨le, only⟩ := batch.length room
    rw [roundUp_tail room] at htail
    have place : ((bs ++ (f.data ++ pad) ++ (f.tail w ++ line)).length : Int) - lineWidth w =
        (bs ++ (f.data ++ pad)).length := by
      rw [List.length_append, htail]
      omega
    have width : (UInt8.ofNat w).toNat = w := Nat.mod_eq_of_lt (by omega)
    have size : (BitVec.ofNat 32 f.data.length).toNat = f.data.length := Nat.mod_eq_of_lt short
    have bytes := slice_append bs f.data (pad ++ (f.tail w ++ line) ++ rest)
    have tail := read_tail w f short (bs ++ (f.data ++ pad)) (line ++ rest)
    have below := ih ((f.data ++ pad) ++ (f.tail w ++ line) ++ rest)
    simp only [List.append_assoc] at bytes tail below place ⊢
    rw [place, reads_cons tail (by simp only [width]; omega) ?_ size rfl bytes le only (congrArg lineWidth width)]
    · rw [List.forall_mem_cons, and_iff_right (List.cons_ne_nil _ _), below]
      simp only [size]
      rw [and_assoc]
      refine and_congr_right fun _ => ?_
      cases fs with
      | nil => simp
      | cons g fs =>
        rw [List.dropLast_cons_of_ne_nil (List.cons_ne_nil g fs), List.forall_mem_cons (a := (bs.length, f))]
        constructor
        · intro h
          obtain ⟨here, -, all, inner⟩ := h (List.cons_ne_nil _ _)
          exact ⟨all, here, inner⟩
        · rintro ⟨all, here, inner⟩ more
          exact ⟨here, more, all, inner⟩
    · simp only [EvtBatcherSubFrameTail.padded, EvtBatcherSubFrameTail.line, width, size, ← hpad, List.length_append]
      omega

/-- A batch is decoded just when it has subframes, a line has room for a tail, and no size is in the last line, nor, but
    for the first subframe, in the line before. -/
lemma decodes_iff {buf : Bytes} {fs : List (Nat × SubFrame)} (batch : Batched w buf fs) :
    Decodes buf fs ↔ fs ≠ [] ∧ 2 ≤ w ∧ (∀ f ∈ fs, f.2.data.length + lineWidth w ≤ 2 ^ 32) ∧
      ∀ f ∈ fs.dropLast, f.2.data.length + 2 * lineWidth w ≤ 2 ^ 32 := by
  obtain ⟨-, header, line⟩ := batch.line []
  rw [List.append_nil] at header line
  have reads : Decodes buf fs ↔ Reads buf (lineWidth w) ((buf.length : Int) - lineWidth w) fs := by
    simp only [Decodes, Reads, subframes_eq header, line]
  rw [reads]
  by_cases hw : 2 ≤ w
  · have room : 8 ≤ lineWidth w := by
      rw [lineWidth_eq]
      exact Nat.pow_le_pow_right Nat.two_pos (show 3 ≤ w + 1 by omega)
    have h := reads_batch room batch []
    rw [List.append_nil] at h
    rw [h, and_iff_right hw]
  · -- the first tail that is read ends outside the buffer
    refine iff_of_false ?_ fun h => hw h.2.1
    rintro ⟨fuel, frames, run, -⟩
    have narrow : lineWidth w < 8 := by
      rw [lineWidth_eq]
      exact Nat.pow_lt_pow_right Nat.one_lt_two (show w + 1 < 3 by omega)
    have outside : read buf ((buf.length : Int) - lineWidth w) = .error .outside := if_neg (by omega)
    cases fuel with
    | zero => cases run
    | succ fuel =>
      obtain h | h := @next_undefined _ (lineWidth w) _ (.inl ⟨_, outside⟩)
      all_goals
        simp only [iterate, h] at run
        cases run

end Decoding

/-- Going through a buffer is safe just when its tails are in range; and going through a batch gives its subframes just
when there are some, a line has room for a tail, and no size is in the last line of its type, nor, but for the first
subframe, in the line before. -/
theorem batches_iff (buf : Bytes) {w : Nat} {bytes : Bytes} {fs : List (Nat × SubFrame)} (batch : Batched w bytes fs) :
    (Safe buf ↔ Sound buf) ∧
      (Decodes bytes fs ↔ fs ≠ [] ∧ 2 ≤ w ∧ (∀ f ∈ fs, f.2.data.length + lineWidth w ≤ 2 ^ 32) ∧
        ∀ f ∈ fs.dropLast, f.2.data.length + 2 * lineWidth w ≤ 2 ^ 32) :=
  ⟨safe_iff buf, decodes_iff batch⟩

/-- A subframe of three bytes, and a batch of it in lines of eight bytes. -/
def threeBytes : SubFrame := ⟨[1, 2, 3], 7, 0, 0⟩
def oneSubFrame : Bytes := [32, 0, 0, 0, 0, 0, 0, 0, 1, 2, 3, 0, 0, 0, 0, 0, 3, 0, 0, 0, 7, 0, 0, 2]

/-- The batch of one subframe is safe to go through, and gives it. -/
theorem batches_one : Safe oneSubFrame ∧ Decodes oneSubFrame [(8, threeBytes)] := by
  have tail : ∀ p, TailAt oneSubFrame p → p = 16 := by
    intro p tail
    induction tail with
    | last => rfl
    | @before p t _ h more ih =>
      subst ih
      cases h
      exact absurd more (by decide)
  have batch : Batched 2 oneSubFrame [(8, threeBytes)] :=
    @Batched.frame 2 [32, 0, 0, 0, 0, 0, 0, 0] [] [0, 0, 0, 0, 0] [] threeBytes (.header rfl rfl) (by decide) rfl rfl
  obtain ⟨safe, decodes⟩ := batches_iff oneSubFrame batch
  refine ⟨safe.mpr ⟨by decide, by decide, by decide, ?_, ?_, ?_⟩,
    decodes.mpr ⟨by decide, by decide, by decide, by decide⟩⟩
  · intro p t ht h
    cases tail p ht
    cases h
    decide
  · intro p t ht h _
    cases tail p ht
    cases h
    decide
  · intro p t ht h more
    cases tail p ht
    cases h
    exact absurd more (by decide)

/-- A tail whose size is in the last line of its type. -/
def hugeSize : Bytes := [32, 0, 0, 0, 0, 0, 0, 0, 255, 255, 255, 255, 0, 0, 0, 2]

/-- A subframe of four gigabytes is found in a buffer of two lines. -/
theorem huge_subframe_found : subframes hugeSize 2 = ([⟨8, 0xffffffff, 0, 0, 0, 2⟩], .done) ∧ ¬ Safe hugeSize := by
  refine ⟨by decide, ?_⟩
  rintro ⟨fuel, frames, e, run, good, inside, -⟩
  cases fuel with
  | zero =>
    cases run
    cases good with
    | inl h => cases h
    | inr h => cases h
  | succ fuel =>
    cases run
    have inBuffer := (inside ⟨8, 0xffffffff, 0, 0, 0, 2⟩ List.mem_cons_self).in_buffer
    exact absurd inBuffer (by decide)

end Lcls2.Drp
