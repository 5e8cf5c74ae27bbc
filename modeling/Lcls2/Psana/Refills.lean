import Lcls2.Lib.Frames
import Lcls2.Psana.SmdScan

/-!
# Refills of a chunk

`ParallelReader.just_read` for one file, with what `SmdReader` leaves out: a `read` may fail, `memcpy` must not be given
regions that overlap, and the arrays of a `Buffer` have a size. A failed read takes the result -1 as a number of bytes.
`reassembled_iff` says when the dgrams of a file are reassembled, whatever the reads return.
-/

namespace Lcls2.Psana
open Lib

/-- The size of `ts_arr` and the other arrays. -/
def arraySize : Nat := 0x100000

/-- What is undefined: `memcpy` of regions that overlap, or memory outside of the chunk or of the arrays. -/
inductive RefillFault where
  | overlap | outside
  deriving DecidableEq, Repr

namespace Stream

/-- What has been read but is not ready. -/
def leftover (s : Stream) : Bytes := slice s.buf.chunk s.buf.readyOffset s.buf.got

/-- `memcpy` of what is left to the front of the chunk has regions that overlap. -/
def Overlaps (s : Stream) : Prop :=
  0 < s.buf.readyOffset ∧ s.buf.readyOffset < s.buf.got - s.buf.readyOffset

instance (s : Stream) : Decidable s.Overlaps :=
  inferInstanceAs (Decidable (0 < s.buf.readyOffset ∧ s.buf.readyOffset < s.buf.got - s.buf.readyOffset))

/-- The buffer after a failed read, whose result is added as a `uint64_t`. -/
def failed (buf : Buffer) : Buffer :=
  { refill buf [] with got := (buf.got - buf.readyOffset + (2 ^ 64 - 1)) % 2 ^ 64 }

/-- The loop of `just_read`, on the buffer after the read. -/
def parse (s : Stream) (buf : Buffer) : Stream :=
  let stepBuf := { s.stepBuf with readyOffset := 0, nReadyEvents := 0, seenOffset := 0, nSeenEvents := 0 }
  let parsed := scan (buf.got + 1) buf stepBuf
  { s with buf := parsed.1, stepBuf := parsed.2 }

/-- `just_read` for one file, where `read` returns up to some bytes, or fails. -/
def refillWith (chunksize : Nat) (s : Stream) (result : Option Nat) : Except RefillFault Stream :=
  if s.buf.hasUnseen then .ok s
  else if s.Overlaps then .error .overlap
  else
    match result with
    | some want =>
      let s' := s.justRead chunksize want
      if arraySize < s'.buf.nReadyEvents then .error .outside else .ok s'
    | none =>
      -- with more bytes than the chunk has, the loop runs out of it
      if chunksize < (failed s.buf).got then .error .outside else .ok (s.parse (failed s.buf))

end Stream

/-- What a buffer says of a dgram: its timestamp and size, and the bytes between its offsets. -/
structure ReadyDgram where
  ts : Nat
  size : Nat
  bytes : Bytes
  deriving DecidableEq

/-- The dgrams that are ready. -/
def Buffer.readyDgrams (b : Buffer) : List ReadyDgram :=
  (b.entries.take b.nReadyEvents).map fun e => ⟨e.ts, e.en - e.st, slice b.chunk e.st e.en⟩

/-- What should be said of a dgram. -/
def SmdDgram.asReady (d : SmdDgram) : ReadyDgram := ⟨d.ts, d.bytes.length, d.bytes⟩

/-- What happens to a buffer: some more of its dgrams are seen, or `just_read` is called. -/
inductive RefillAction where
  | see (k : Nat)
  | read (result : Option Nat)
  deriving DecidableEq

/-- A file that is read, with all dgrams that were ready so far. -/
structure Refilled where
  stream : Stream
  reported : List ReadyDgram

namespace Refilled

/-- Nothing is read yet. -/
def start (ds : List SmdDgram) : Refilled := ⟨{ unread := flat ds }, []⟩

/-- One action. -/
def step (chunksize : Nat) (r : Refilled) : RefillAction → Except RefillFault Refilled
  | .see k =>
    let seen := min (r.stream.buf.nSeenEvents + k) r.stream.buf.nReadyEvents
    .ok { r with stream := { r.stream with buf := { r.stream.buf with nSeenEvents := seen } } }
  | .read result => do
    let stream ← r.stream.refillWith chunksize result
    if r.stream.buf.hasUnseen then .ok r else .ok ⟨stream, r.reported ++ stream.buf.readyDgrams⟩

/-- The dgrams that were ready are those that were read whole, and part of the next one was read; and a call whose read
    fails changed nothing. -/
structure Right (chunksize : Nat) (ds : List SmdDgram) (actions : List RefillAction) (r : Refilled) : Prop where
  parsed : ∃ whole part rest, ds = whole ++ rest ∧ Cut part r.stream.unread rest ∧
    r.reported = whole.map SmdDgram.asReady
  kept : ∀ before s, actions = before ++ [.read none] →
    Run (step chunksize) (fun _ _ _ => True) (start ds) before s → r.stream = s.stream

/-- Whatever actions are taken, they are defined and their result is right. -/
def Reassembles (chunksize : Nat) (ds : List SmdDgram) (actions : List RefillAction) : Prop :=
  ∀ before, before <+: actions → ∃ r, Run (step chunksize) (fun _ _ _ => True) (start ds) before r ∧
    Right chunksize ds before r

end Refilled

/-- The size of the dgram at the front of some bytes, if it is there. -/
def dgramFront (bs : Bytes) : Option Nat :=
  if sizeofDgram ≤ bs.length ∧ dgramSizeAt bs 0 ≤ bs.length then some (dgramSizeAt bs 0) else none

namespace Refilled

/-- No read fails; what is moved is no more than what was ready; and the dgrams that are then in the chunk are no more
    than the arrays have room for. -/
def Clean (chunksize : Nat) (_ : List RefillAction) (r : Refilled) : RefillAction → Prop
  | .see _ => True
  | .read result => r.stream.buf.hasUnseen = true ∨ ¬ r.stream.Overlaps ∧ ∃ want, result = some want ∧
    (frames dgramFront (r.stream.leftover ++ r.stream.unread.take
      (min want (chunksize - (r.stream.buf.got - r.stream.buf.readyOffset))))).1.length ≤ arraySize

end Refilled

/-! ## Dgrams -/

lemma dgramFront_framing : Framing dgramFront := by
  intro bs n h
  rw [dgramFront] at h
  split at h
  · rename_i there
    cases h
    refine ⟨?_, there.2⟩
    rw [dgramSizeAt, sizeofDgram]
    omega
  · cases h

/-- The frames of dgrams and a part of the next one. -/
lemma frames_flat {part unread : Bytes} {todo rest : List SmdDgram} (cut : Cut part unread rest) :
    frames dgramFront (flat todo ++ part) = (todo.map SmdDgram.bytes, part) := by
  induction todo with
  | nil =>
    apply frames_none
    rw [dgramFront]
    by_cases header : sizeofDgram ≤ part.length
    · exact if_neg fun h => Nat.not_le_of_lt (cut.waits header) h.2
    · exact if_neg fun h => header h.1
  | cons d todo ih =>
    have front : dgramFront (d.bytes ++ (flat todo ++ part)) = some d.bytes.length := by
      have header := d.header
      rw [dgramFront, dgramSizeAt_append _ header, d.sized, if_pos]
      rw [List.length_append]
      omega
    rw [flat_cons, List.append_assoc, frames_some dgramFront_framing front, List.take_left, List.drop_left, ih]
    rfl

/-- What a buffer says of the dgrams that it holds. -/
lemma Buffer.Holds.readyDgrams {b : Buffer} {ds : List SmdDgram} (holds : b.Holds ds) :
    b.readyDgrams = ds.map SmdDgram.asReady := by
  have some_ : ∀ pre mid, ds = pre ++ mid →
      ((entriesFrom (flat pre).length mid).map fun e => (⟨e.ts, e.en - e.st, slice b.chunk e.st e.en⟩ : ReadyDgram)) =
        mid.map SmdDgram.asReady := by
    intro pre mid split
    induction mid generalizing pre with
    | nil => rfl
    | cons d mid ih =>
      have rest := ih (pre ++ [d]) (by rw [split, List.append_assoc]; rfl)
      rw [flat_append, flat_singleton, List.length_append] at rest
      have regroup : ds = pre ++ [d] ++ mid := by rw [split, List.append_assoc]; rfl
      rw [regroup] at holds
      have bytes := holds.slice_mid
      rw [flat_singleton] at bytes
      rw [entriesFrom, List.map_cons, List.map_cons, rest, bytes, Nat.add_sub_cancel_left]
      rfl
  rw [Buffer.readyDgrams, holds.entries]
  exact some_ [] ds rfl

/-! ## Actions -/

namespace Refilled

/-- The dgrams of a file: those of earlier chunks, those of the chunk, seen or not, and the others. -/
structure Inv (ds : List SmdDgram) (r : Refilled) : Prop where
  dgrams : ∃ before seen avail rest, ds = before ++ seen ++ avail ++ rest ∧ r.stream.Loaded seen avail rest ∧
    r.reported = (before ++ seen ++ avail).map SmdDgram.asReady

namespace Inv

variable {ds : List SmdDgram} {r : Refilled} {chunksize : Nat}

/-- Nothing is read at first. -/
lemma start (ds : List SmdDgram) : Inv ds (Refilled.start ds) := by
  refine ⟨[], [], [], ds, rfl, ?_, rfl⟩
  refine ⟨.empty _ ⟨rfl, rfl⟩, .empty _ ⟨rfl, rfl⟩, rfl, ⟨Nat.le_refl _, Nat.le_refl _⟩, rfl, ?_⟩
  intro d _
  have header := d.header
  rw [sizeofDgram] at header
  show 0 < d.bytes.length
  omega

/-- The dgrams that were ready are the first ones of the file. -/
lemma parsed (inv : Inv ds r) : ∃ whole part rest, ds = whole ++ rest ∧ Cut part r.stream.unread rest ∧
    r.reported = whole.map SmdDgram.asReady := by
  obtain ⟨before, seen, avail, rest, split, loaded, reported⟩ := inv.dgrams
  exact ⟨before ++ seen ++ avail, _, rest, split, loaded.left, reported⟩

/-- Some of the ready dgrams are seen. -/
lemma see (inv : Inv ds r) (k : Nat) : Inv ds { r with stream := { r.stream with buf := { r.stream.buf with
    nSeenEvents := min (r.stream.buf.nSeenEvents + k) r.stream.buf.nReadyEvents } } } := by
  obtain ⟨before, seen, avail, rest, split, loaded, reported⟩ := inv.dgrams
  have regroup : seen ++ avail.take k ++ avail.drop k = seen ++ avail := by
    rw [List.append_assoc, List.take_append_drop]
  refine ⟨before, seen ++ avail.take k, avail.drop k, rest, ?_, ⟨?_, ?_, ?_, loaded.bounds, loaded.left⟩, ?_⟩
  · rw [split]
    simp only [List.append_assoc, List.take_append_drop]
  · rw [regroup]
    exact ⟨loaded.buf.ready, loaded.buf.offset, loaded.buf.chunk, loaded.buf.entries, loaded.buf.last⟩
  · rw [regroup]
    exact loaded.step
  · show min (r.stream.buf.nSeenEvents + k) r.stream.buf.nReadyEvents = _
    rw [loaded.nSeen, loaded.buf.ready, List.length_append, List.length_append, List.length_take]
    omega
  · rw [reported]
    simp only [List.append_assoc, List.take_append_drop]

/-- A read, where all that was ready has been seen. -/
lemma read (inv : Inv ds r) (idle : r.stream.buf.hasUnseen = false) (want : Nat) :
    Inv ds ⟨r.stream.justRead chunksize want,
        r.reported ++ (r.stream.justRead chunksize want).buf.readyDgrams⟩ ∧
      (r.stream.justRead chunksize want).buf.nReadyEvents =
        (frames dgramFront (r.stream.leftover ++ r.stream.unread.take
          (min want (chunksize - (r.stream.buf.got - r.stream.buf.readyOffset))))).1.length := by
  obtain ⟨before, seen, avail, rest, split, loaded, reported⟩ := inv.dgrams
  have none_left : avail = [] := by
    by_contra more
    rw [loaded.hasUnseen_iff.mpr more] at idle
    cases idle
  subst none_left
  obtain ⟨todo, rest', s', h, regroup, loaded', -⟩ := loaded.justRead chunksize want
  have file : (r.stream.justRead chunksize want).unread = r.stream.unread.drop
      (min want (chunksize - (r.stream.buf.got - r.stream.buf.readyOffset))) := by
    rw [Stream.justRead, idle]
    rfl
  have unread : s'.unread = r.stream.unread.drop
      (min want (chunksize - (r.stream.buf.got - r.stream.buf.readyOffset))) := by
    rw [← file, h]
  have buf : (r.stream.justRead chunksize want).buf = s'.buf := by rw [h]
  have loaded'' : (r.stream.justRead chunksize want).Loaded [] todo rest' := by
    rw [h]
    exact ⟨loaded'.buf, loaded'.step, loaded'.nSeen, loaded'.bounds, loaded'.left⟩
  constructor
  · refine ⟨before ++ seen, [], todo, rest', ?_, loaded'', ?_⟩
    · rw [split, regroup]
      simp only [List.append_nil, List.append_assoc]
    · simp only [reported, buf, loaded'.buf.readyDgrams, List.nil_append, List.append_nil, List.map_append]
  · -- what was read is whole dgrams and what is left now
    have cut := loaded.left.whole
    have cut' := loaded'.left
    have data : r.stream.leftover ++ r.stream.unread.take
        (min want (chunksize - (r.stream.buf.got - r.stream.buf.readyOffset))) = flat todo ++ s'.leftover := by
      refine @List.append_cancel_right _ _ s'.unread _ ?_
      rw [unread, List.append_assoc, List.take_append_drop, Stream.leftover, cut, regroup, flat_append,
        ← cut'.whole, unread, List.append_assoc]
      rfl
    rw [data, Stream.leftover, frames_flat cut', buf, loaded'.buf.ready, List.nil_append, List.length_map]

end Inv

/-- The loop of `just_read` leaves the number of bytes alone. -/
lemma scan_got (fuel : Nat) (buf stepBuf : Buffer) : (scan fuel buf stepBuf).1.got = buf.got := by
  induction fuel generalizing buf stepBuf with
  | zero => rfl
  | succ fuel ih =>
    rw [scan]
    split
    · simp only
      split
      · rw [ih]
        obtain ⟨e, note⟩ := noteEndrun_eq buf
          (headerTimestamp (slice buf.chunk buf.readyOffset (buf.readyOffset + dgramSizeAt buf.chunk buf.readyOffset)))
          (headerService (slice buf.chunk buf.readyOffset (buf.readyOffset + dgramSizeAt buf.chunk buf.readyOffset)))
        rw [note]
        rfl
      · rfl
    · rfl

lemma parse_got (s : Stream) (buf : Buffer) : (s.parse buf).buf.got = buf.got := by
  simp only [Stream.parse, scan_got]

/-- A failed read loses a byte. -/
lemma failed_got {s s' : Stream} {chunksize : Nat} (small : chunksize < 2 ^ 31)
    (bounds : s.buf.readyOffset ≤ s.buf.got) (seen : s.buf.hasUnseen = false)
    (h : s.refillWith chunksize none = .ok s') : s'.buf.got < s.buf.got := by
  have got : (Stream.failed s.buf).got = (s.buf.got - s.buf.readyOffset + (2 ^ 64 - 1)) % 2 ^ 64 := rfl
  rw [Stream.refillWith, seen] at h
  simp only [Bool.false_eq_true, if_false] at h
  split at h
  · cases h
  · split at h
    · cases h
    · rename_i fits
      rw [← Except.ok.inj h, parse_got]
      omega

/-- Where there is nothing new to be seen, a call reads. -/
lemma step_read {r : Refilled} (idle : r.stream.buf.hasUnseen = false) (chunksize : Nat) (result : Option Nat) :
    r.step chunksize (.read result) = (r.stream.refillWith chunksize result).map
      fun stream => ⟨stream, r.reported ++ stream.buf.readyDgrams⟩ := by
  simp only [step, idle]
  cases r.stream.refillWith chunksize result <;> rfl

/-- Otherwise it does nothing. -/
lemma step_idle {r : Refilled} (unseen : r.stream.buf.hasUnseen = true) (chunksize : Nat) (result : Option Nat) :
    r.step chunksize (.read result) = .ok r := by
  simp only [step, Stream.refillWith, unseen, if_true]
  rfl

/-- A clean action keeps the invariant. -/
lemma Inv.step {ds : List SmdDgram} {chunksize : Nat} {actions : List RefillAction} {r r' : Refilled}
    {action : RefillAction} (inv : Inv ds r) (clean : Clean chunksize actions r action)
    (h : r.step chunksize action = .ok r') : Inv ds r' := by
  cases action with
  | see k =>
    cases h
    exact inv.see k
  | read result =>
    cases unseen : r.stream.buf.hasUnseen with
    | true =>
      rw [step_idle unseen] at h
      cases h
      exact inv
    | false =>
      obtain ⟨-, want, rfl, -⟩ := clean.resolve_left (by rw [unseen]; exact Bool.false_ne_true)
      rw [step_read unseen] at h
      simp only [Stream.refillWith, unseen, Bool.false_eq_true, if_false] at h
      split at h
      · cases h
      · split at h
        · cases h
        · cases h
          exact (inv.read unseen want).1

/-- An action is defined and its result is right just when it is clean. -/
lemma right_iff {ds : List SmdDgram} {chunksize : Nat} (small : chunksize < 2 ^ 31) {actions : List RefillAction}
    {r : Refilled} (run : Run (step chunksize) (fun _ _ _ => True) (start ds) actions r) (inv : Inv ds r)
    (action : RefillAction) :
    (∃ r', r.step chunksize action = .ok r' ∧ Right chunksize ds (actions ++ [action]) r') ↔
      Clean chunksize actions r action := by
  cases action with
  | see k =>
    refine iff_of_true ⟨_, rfl, (inv.see k).parsed, ?_⟩ trivial
    intro before s e _
    exact absurd (List.append_inj' e rfl).2 (by simp)
  | read result =>
    cases seen : r.stream.buf.hasUnseen with
    | true =>
      refine iff_of_true ⟨r, step_idle seen .., inv.parsed, ?_⟩ (.inl seen)
      intro before s e run'
      obtain ⟨rfl, -⟩ := List.append_inj' e rfl
      rw [run.unique run']
    | false =>
      rw [step_read seen, Clean, seen, or_iff_right Bool.false_ne_true]
      by_cases overlaps : r.stream.Overlaps
      · refine iff_of_false ?_ fun h => h.1 overlaps
        rintro ⟨r', h, -⟩
        simp only [Stream.refillWith, seen, if_pos overlaps] at h
        cases h
      rw [and_iff_right overlaps]
      cases result with
      | none =>
        refine iff_of_false ?_ ?_
        · rintro ⟨r', h, right⟩
          obtain ⟨before, seen', avail, rest, -, loaded, -⟩ := inv.dgrams
          cases refilled : r.stream.refillWith chunksize none with
          | error fault =>
            rw [refilled] at h
            cases h
          | ok s =>
            rw [refilled] at h
            cases h
            -- A read that fails would have to leave the stream as it was, but `got` gets smaller.
            have same : s = r.stream := right.kept actions r rfl run
            have less := failed_got small loaded.bounds.1 seen refilled
            rw [same] at less
            exact Nat.lt_irrefl _ less
        · rintro ⟨want, h, -⟩
          cases h
      | some want =>
        obtain ⟨inv', count⟩ := @Inv.read ds r chunksize inv seen want
        simp only [Option.some.injEq, exists_eq_left', ← count]
        simp only [Stream.refillWith, seen, Bool.false_eq_true, if_false, if_neg overlaps]
        by_cases few : arraySize < (r.stream.justRead chunksize want).buf.nReadyEvents
        · rw [if_pos few]
          refine iff_of_false ?_ (Nat.not_le_of_lt few)
          rintro ⟨r', h, -⟩
          cases h
        · rw [if_neg few]
          refine iff_of_true ⟨_, rfl, inv'.parsed, ?_⟩ (Nat.le_of_not_lt few)
          intro before s e _
          exact absurd (List.append_inj' e rfl).2 (by simp)

end Refilled

/-- The dgrams of a file are reassembled, and failed reads change nothing, just when every action is clean. -/
theorem reassembled_iff {chunksize : Nat} (small : chunksize < 2 ^ 31) (ds : List SmdDgram)
    (actions : List RefillAction) :
    Refilled.Reassembles chunksize ds actions ↔
      ∃ r, Run (Refilled.step chunksize) (Refilled.Clean chunksize) (.start ds) actions r := by
  apply Run.always_iff (I := fun actions r =>
    Run (Refilled.step chunksize) (fun _ _ _ => True) (.start ds) actions r ∧ Refilled.Inv ds r)
  · exact ⟨.nil, .start ds⟩
  · refine ⟨(Refilled.Inv.start ds).parsed, ?_⟩
    intro before s e _
    exact absurd e (by simp)
  · rintro actions r action r' ⟨run, inv⟩ clean h
    exact ⟨run.snoc trivial h, inv.step clean h⟩
  · rintro actions r action ⟨run, inv⟩ -
    exact Refilled.right_iff small run inv action

/-- A file of two dgrams. -/
def twoRead : List SmdDgram :=
  [⟨fakeDgram l1Accept 1, by decide, by decide⟩, ⟨fakeDgram l1Accept 2, by decide, by decide⟩]

/-- The second dgram is read in two parts. -/
theorem reassembled_two : Refilled.Reassembles 64 twoRead [.read (some 30), .see 1, .read (some 18)] := by
  apply (reassembled_iff (by decide) twoRead _).mpr
  refine ⟨_, .snoc (.snoc (.snoc .nil (.inr ⟨?_, 30, rfl, ?_⟩) rfl) trivial rfl) (.inr ⟨?_, 18, rfl, ?_⟩) rfl⟩
  all_goals decide +kernel

/-- A read that fails takes one byte away from the six that are left. -/
theorem failed_read_loses_byte : ∃ s r, Run (Refilled.step 64) (fun _ _ _ => True) (.start twoRead)
    [.read (some 30), .see 1] s ∧ s.step 64 (.read none) = .ok r ∧ s.stream.buf.got = 30 ∧ r.stream.buf.got = 5 ∧
      ¬ Refilled.Reassembles 64 twoRead [.read (some 30), .see 1, .read none] := by
  obtain ⟨s, run, test⟩ := Run.of_replay_any (Refilled.step 64) (fun _ _ _ => True) (.start twoRead)
    [.read (some 30), .see 1]
    (fun s =>
      passes (fun r : Refilled => decide (s.stream.buf.got = 30 ∧ r.stream.buf.got = 5)) (s.step 64 (.read none)))
    (by decide +kernel)
  obtain ⟨r, h, test⟩ := passes_iff.mp test
  obtain ⟨before, after⟩ := of_decide_eq_true test
  refine ⟨s, r, run, h, before, after, ?_⟩
  intro reassembles
  obtain ⟨r', run', right⟩ := reassembles _ List.prefix_rfl
  cases run'.unique (run.snoc trivial h)
  have same := right.kept _ s rfl run
  rw [same, before] at after
  exact absurd after (by decide)

end Lcls2.Psana
