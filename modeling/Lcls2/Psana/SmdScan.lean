import Lcls2.Lib.Run
import Lcls2.Psana.SmdReader

/-!
# What a chunk holds

A file is the bytes of its dgrams. What has been read of it is whole dgrams, those of the chunk, and a
part of the next one, which stays behind in the chunk; the step buffer holds the dgrams of the chunk
that are not L1Accepts.
-/

namespace Lcls2.Psana
open Lib

/-- The timestamp of a dgram. -/
def SmdDgram.ts (d : SmdDgram) : Nat := headerTimestamp d.bytes

/-- The service of a dgram. -/
def SmdDgram.sv (d : SmdDgram) : Nat := headerService d.bytes

/-- The bytes of some dgrams. -/
def flat (ds : List SmdDgram) : Bytes := ds.flatMap SmdDgram.bytes

/-- The dgrams that are not L1Accepts. -/
def stepsOf (ds : List SmdDgram) : List SmdDgram := ds.filter fun d => d.sv ≠ l1Accept

/-- The entries of some dgrams that are stored from an offset on. -/
def entriesFrom (offset : Nat) : List SmdDgram → List Entry
  | [] => []
  | d :: ds => ⟨d.ts, d.sv, offset, offset + d.bytes.length⟩ ::
      entriesFrom (offset + d.bytes.length) ds

variable {offset : Nat} {ds ds' todo rest : List SmdDgram} {d : SmdDgram} {b buf stepBuf : Buffer}
  {part data : Bytes}

lemma flat_append : flat (ds ++ ds') = flat ds ++ flat ds' := List.flatMap_append

lemma flat_singleton : flat [d] = d.bytes := List.flatMap_singleton _ _

lemma flat_cons : flat (d :: ds) = d.bytes ++ flat ds := List.flatMap_cons

lemma entriesFrom_length : (entriesFrom offset ds).length = ds.length := by
  induction ds generalizing offset with
  | nil => rfl
  | cons d ds ih => rw [entriesFrom, List.length_cons, ih, List.length_cons]

lemma entriesFrom_append :
    entriesFrom offset (ds ++ ds') =
      entriesFrom offset ds ++ entriesFrom (offset + (flat ds).length) ds' := by
  induction ds generalizing offset with
  | nil => rfl
  | cons d ds ih =>
    rw [List.cons_append, entriesFrom, ih, entriesFrom, List.cons_append, flat_cons,
      List.length_append, Nat.add_assoc]

/-- The entry of a dgram. -/
lemma entriesFrom_mid :
    (entriesFrom offset (ds ++ d :: ds'))[ds.length]? =
      some ⟨d.ts, d.sv, offset + (flat ds).length, offset + (flat ds).length + d.bytes.length⟩ := by
  rw [entriesFrom_append, List.getElem?_append_right (Nat.le_of_eq entriesFrom_length),
    entriesFrom_length, Nat.sub_self]
  rfl

/-- What a buffer holds. -/
structure Buffer.Holds (b : Buffer) (ds : List SmdDgram) : Prop where
  ready : b.nReadyEvents = ds.length
  offset : b.readyOffset = (flat ds).length
  chunk : b.chunk.take b.readyOffset = flat ds
  entries : b.entries.take b.nReadyEvents = entriesFrom 0 ds
  last : ∀ d ∈ ds.getLast?, b.timestamp = d.ts

namespace Buffer.Holds

/-- The entry of a dgram of the buffer. -/
lemma entry (holds : b.Holds (ds ++ d :: ds')) :
    b.entries[ds.length]? =
      some ⟨d.ts, d.sv, (flat ds).length, (flat ds).length + d.bytes.length⟩ := by
  have h := @entriesFrom_mid 0 ds ds' d
  have below : ds.length < b.nReadyEvents := by
    rw [holds.ready, List.length_append, List.length_cons]
    omega
  rw [← holds.entries, List.getElem?_take_of_lt below, Nat.zero_add] at h
  exact h

lemma entries_length (holds : b.Holds ds) : b.nReadyEvents ≤ b.entries.length := by
  have h := congrArg List.length holds.entries
  rw [List.length_take, entriesFrom_length, ← holds.ready] at h
  omega

lemma chunk_length (holds : b.Holds ds) : b.readyOffset ≤ b.chunk.length := by
  have h := congrArg List.length holds.chunk
  rw [List.length_take, ← holds.offset] at h
  omega

/-- The next entry, for a dgram that is in the chunk. -/
lemma record (holds : b.Holds ds) (next : slice b.chunk b.readyOffset (b.readyOffset + d.bytes.length) =
    d.bytes) : (b.record d.ts d.sv d.bytes.length).Holds (ds ++ [d]) where
  ready := by
    rw [List.length_append]
    exact congrArg (· + 1) holds.ready
  offset := by
    rw [flat_append, flat_singleton, List.length_append, ← holds.offset]
    rfl
  chunk := by
    show b.chunk.take (b.readyOffset + d.bytes.length) = _
    rw [← take_append_slice, next, holds.chunk, flat_append, flat_singleton]
  entries := by
    show (b.entries.take b.nReadyEvents ++ _ :: b.entries.drop (b.nReadyEvents + 1)).take
      (b.nReadyEvents + 1) = _
    have length : (b.entries.take b.nReadyEvents).length = b.nReadyEvents := by
      rw [List.length_take, Nat.min_eq_left holds.entries_length]
    rw [List.take_append, length, Nat.add_sub_cancel_left, List.take_of_length_le (by omega),
      holds.entries, holds.offset, entriesFrom_append, Nat.zero_add]
    rfl
  last := by
    intro d' hd
    rw [List.getLast?_append] at hd
    cases hd
    rfl

/-- Copying a dgram behind the others. -/
lemma append (holds : b.Holds ds) (d : SmdDgram) : (b.append d.ts d.sv d.bytes).Holds (ds ++ [d]) := by
  obtain ⟨written, before⟩ := slice_writeAt d.bytes holds.chunk_length
  have holds' : Buffer.Holds { b with chunk := writeAt b.chunk b.readyOffset d.bytes } ds :=
    ⟨holds.ready, holds.offset, before.trans holds.chunk, holds.entries, holds.last⟩
  exact holds'.record written

/-- The bytes of dgrams of the buffer, from one to another. -/
lemma slice_mid {mid : List SmdDgram} (holds : b.Holds (ds ++ mid ++ ds')) :
    slice b.chunk (flat ds).length ((flat ds).length + (flat mid).length) = flat mid := by
  have chunk := holds.chunk
  have below : (flat ds).length + (flat mid).length ≤ b.readyOffset := by
    rw [holds.offset, flat_append, flat_append, List.length_append, List.length_append]
    omega
  have h := congrArg (List.take ((flat ds).length + (flat mid).length)) chunk
  rw [List.take_take, Nat.min_eq_left below, flat_append, flat_append, ← List.length_append,
    List.take_left] at h
  rw [slice, ← List.length_append, h, List.drop_left]

/-- A buffer that has been reset holds nothing. -/
lemma empty (b : Buffer) (h : b.nReadyEvents = 0 ∧ b.readyOffset = 0) : b.Holds [] := by
  refine ⟨h.1, h.2, ?_, ?_, nofun⟩
  · rw [h.2]
    rfl
  · rw [h.1]
    rfl

end Buffer.Holds

/-- What is read of the dgrams of a file ends in the middle of one. -/
structure Cut (part : Bytes) (unread : Bytes) (rest : List SmdDgram) : Prop where
  whole : part ++ unread = flat rest
  short : ∀ d ∈ rest.head?, part.length < d.bytes.length

/-- What is read of some dgrams is some of them, and a part of the next. -/
lemma exists_cut {unread : Bytes} (h : data ++ unread = flat rest) :
    ∃ todo rest' part, rest = todo ++ rest' ∧ data = flat todo ++ part ∧ Cut part unread rest' := by
  induction rest generalizing data with
  | nil =>
    have none_ := List.append_eq_nil_iff.mp h
    exact ⟨[], [], data, rfl, rfl, h, nofun⟩
  | cons d rest ih =>
    by_cases full : d.bytes.length ≤ data.length
    · rw [flat_cons] at h
      have first := congrArg (List.take d.bytes.length) h
      rw [List.take_append_of_le_length full, List.take_left] at first
      have split : data = d.bytes ++ data.drop d.bytes.length := by
        conv_lhs => rw [← List.take_append_drop d.bytes.length data, first]
      have left : data.drop d.bytes.length ++ unread = flat rest := by
        rw [split, List.append_assoc] at h
        exact List.append_cancel_left h
      obtain ⟨todo, rest', part, e, e', cut⟩ := ih left
      refine ⟨d :: todo, rest', part, ?_, ?_, cut⟩
      · rw [e, List.cons_append]
      · rw [flat_cons, List.append_assoc, ← e']
        exact split
    · refine ⟨[], d :: rest, data, rfl, rfl, h, ?_⟩
      intro d' hd
      cases hd
      exact Nat.lt_of_not_le full

lemma stepsOf_append : stepsOf (ds ++ ds') = stepsOf ds ++ stepsOf ds' := List.filter_append ..

/-- The size of a dgram is in its header. -/
lemma dgramSizeAt_append {bs : Bytes} (after : Bytes) (h : sizeofDgram ≤ bs.length) :
    dgramSizeAt (bs ++ after) 0 = dgramSizeAt bs 0 := by
  have h : 24 ≤ bs.length := h
  have same := @slice_within [] bs after 20 24 h
  rw [List.nil_append, List.length_nil, Nat.zero_add, Nat.zero_add] at same
  rw [dgramSizeAt, dgramSizeAt, same]

/-- The size of the dgram at an offset. -/
lemma dgramSizeAt_slice {bs : Bytes} {start : Nat} (stop : Nat) (h : start + sizeofDgram ≤ stop) :
    dgramSizeAt bs start = dgramSizeAt (slice bs start stop) 0 := by
  have h : start + 24 ≤ stop := h
  rw [dgramSizeAt, dgramSizeAt, slice_slice bs 20 h]

/-- The part of a dgram that is there tells that it is not all. -/
lemma Cut.waits {unread : Bytes} (cut : Cut part unread rest) (header : sizeofDgram ≤ part.length) :
    part.length < dgramSizeAt part 0 := by
  have header' : 24 ≤ part.length := header
  cases rest with
  | nil =>
    have none_ := (List.append_eq_nil_iff.mp cut.whole).1
    rw [none_] at header'
    cases header'
  | cons d rest =>
    have short := cut.short d rfl
    have whole := cut.whole
    rw [flat_cons] at whole
    have first := congrArg (List.take part.length) whole
    rw [List.take_left, List.take_append_of_le_length (Nat.le_of_lt short)] at first
    have split : d.bytes = part ++ d.bytes.drop part.length := by
      conv_lhs => rw [← List.take_append_drop part.length d.bytes, ← first]
    rw [← dgramSizeAt_append (d.bytes.drop part.length) header, ← split, d.sized]
    exact short

lemma noteEndrun_eq (b : Buffer) (ts sv : Nat) : ∃ e, b.noteEndrun ts sv = { b with endrunTs := e } := by
  rw [Buffer.noteEndrun]
  split
  · exact ⟨ts, rfl⟩
  · exact ⟨b.endrunTs, rfl⟩

/-- The loop of `just_read` finds the dgrams that are there. -/
lemma scan_spec {unread : Bytes} (cut : Cut part unread rest) (todo : List SmdDgram) {fuel : Nat}
    (enough : todo.length < fuel) (holds : buf.Holds ds) (steps : stepBuf.Holds (stepsOf ds))
    (bounds : buf.readyOffset ≤ buf.got ∧ buf.got ≤ buf.chunk.length)
    (region : slice buf.chunk buf.readyOffset buf.got = flat todo ++ part) :
    ∃ buf' stepBuf', scan fuel buf stepBuf = (buf', stepBuf') ∧ buf'.Holds (ds ++ todo) ∧
      stepBuf'.Holds (stepsOf (ds ++ todo)) ∧
      (buf'.readyOffset ≤ buf'.got ∧ buf'.got ≤ buf'.chunk.length) ∧
      slice buf'.chunk buf'.readyOffset buf'.got = part ∧
      buf'.nSeenEvents = buf.nSeenEvents ∧ buf'.foundEndrun = buf.foundEndrun := by
  induction todo generalizing fuel buf stepBuf ds with
  | nil =>
    obtain ⟨fuel, rfl⟩ := Nat.exists_eq_succ_of_ne_zero (Nat.ne_of_gt enough)
    have region : slice buf.chunk buf.readyOffset buf.got = part := region
    rw [List.append_nil]
    refine ⟨buf, stepBuf, ?_, holds, steps, bounds, region, rfl, rfl⟩
    have length := slice_length buf.readyOffset bounds.2
    rw [region] at length
    rw [scan]
    split
    · rename_i header
      have waits := cut.waits (by rwa [length])
      have size : dgramSizeAt buf.chunk buf.readyOffset = dgramSizeAt part 0 := by
        rw [← region]
        apply dgramSizeAt_slice
        omega
      rw [← size, length] at waits
      simp only [if_neg (Nat.not_le_of_lt waits)]
    · rfl
  | cons d todo ih =>
    obtain ⟨fuel, rfl⟩ := Nat.exists_eq_succ_of_ne_zero (Nat.ne_of_gt (Nat.zero_lt_of_lt enough))
    rw [flat_cons, List.append_assoc] at region
    have length := slice_length buf.readyOffset bounds.2
    rw [region, List.length_append] at length
    have header := d.header
    -- The size is in the header of the next dgram, which is there as a whole.
    have size : dgramSizeAt buf.chunk buf.readyOffset = d.bytes.length := by
      rw [dgramSizeAt_slice buf.got (by omega), region, dgramSizeAt_append _ header, d.sized]
    have bytes : slice buf.chunk buf.readyOffset (buf.readyOffset + d.bytes.length) = d.bytes := by
      have within : buf.readyOffset + d.bytes.length ≤ buf.got := by omega
      have h := slice_slice buf.chunk 0 within
      rw [region, Nat.add_zero] at h
      rw [← h, slice, List.take_left, List.drop_zero]
    have left : slice buf.chunk (buf.readyOffset + d.bytes.length) buf.got = flat todo ++ part := by
      have h := congrArg (List.drop d.bytes.length) region
      rw [List.drop_left, slice, List.drop_drop] at h
      exact h
    obtain ⟨e, note⟩ := noteEndrun_eq buf d.ts d.sv
    have noted : Buffer.Holds { buf with endrunTs := e } ds :=
      ⟨holds.ready, holds.offset, holds.chunk, holds.entries, holds.last⟩
    have steps' : Buffer.Holds (if d.sv ≠ l1Accept then stepBuf.append d.ts d.sv d.bytes else stepBuf)
        (stepsOf (ds ++ [d])) := by
      rw [stepsOf_append]
      split
      · rename_i step
        have one : stepsOf [d] = [d] := List.filter_cons_of_pos (decide_eq_true step)
        rw [one]
        exact steps.append d
      · rename_i step
        have none_ : stepsOf [d] = [] := List.filter_cons_of_neg (by simpa using step)
        rw [none_, List.append_nil]
        exact steps
    obtain ⟨buf', stepBuf', h, holds', stepsDone, bounds', part', seen, endrun⟩ :=
      ih (Nat.lt_of_succ_lt_succ enough) (noted.record bytes) steps'
        ⟨by show buf.readyOffset + d.bytes.length ≤ buf.got; omega, bounds.2⟩ left
    rw [List.append_assoc, List.singleton_append] at holds' stepsDone
    refine ⟨buf', stepBuf', ?_, holds', stepsDone, bounds', part', seen, endrun⟩
    rw [scan, if_pos (by omega), size]
    simp only [bytes]
    rw [if_pos (by omega)]
    have note : buf.noteEndrun (headerTimestamp d.bytes) (headerService d.bytes) = _ := note
    rw [note]
    exact h

/-- The dgrams of a file from the start of the chunk on: the ones that have been seen, the others of the
    chunk, and those that are not whole in the chunk. -/
structure Stream.Loaded (s : Stream) (seen avail rest : List SmdDgram) : Prop where
  buf : s.buf.Holds (seen ++ avail)
  step : s.stepBuf.Holds (stepsOf (seen ++ avail))
  nSeen : s.buf.nSeenEvents = seen.length
  bounds : s.buf.readyOffset ≤ s.buf.got ∧ s.buf.got ≤ s.buf.chunk.length
  left : Cut (slice s.buf.chunk s.buf.readyOffset s.buf.got) s.unread rest

/-- The indices of a view stand behind the dgrams that have been seen. -/
structure Stream.Reads (s : Stream) (seen avail rest : List SmdDgram) : Prop extends
    s.Loaded seen avail rest where
  start : s.iStart = seen.length
  stepStart : s.iStepbufStart = (stepsOf seen).length

variable {s : Stream} {seen avail : List SmdDgram} {chunksize want : Nat}

namespace Stream.Loaded

lemma hasUnseen_iff (loaded : s.Loaded seen avail rest) : s.buf.hasUnseen = true ↔ avail ≠ [] := by
  rw [Buffer.hasUnseen, loaded.buf.ready, loaded.nSeen, List.length_append, Nat.add_sub_cancel_left,
    decide_eq_true_iff, List.length_pos_iff]

/-- What stays behind in the chunk, and what a read adds to it. -/
lemma refill (loaded : s.Loaded seen avail rest) (data : Bytes) :
    let buf := Stream.refill s.buf data
    slice buf.chunk 0 buf.got = slice s.buf.chunk s.buf.readyOffset s.buf.got ++ data ∧
      buf.got ≤ buf.chunk.length := by
  intro buf
  obtain ⟨low, high⟩ := loaded.bounds
  have kept : ∃ chunk, buf.chunk = writeAt chunk (s.buf.got - s.buf.readyOffset) data ∧
      chunk.take (s.buf.got - s.buf.readyOffset) = slice s.buf.chunk s.buf.readyOffset s.buf.got ∧
      s.buf.got - s.buf.readyOffset ≤ chunk.length := by
    refine ⟨_, rfl, ?_⟩
    have length := slice_length s.buf.readyOffset high
    split
    · have copied := slice_writeAt (slice s.buf.chunk s.buf.readyOffset s.buf.got) (Nat.zero_le s.buf.chunk.length)
      rw [Nat.zero_add, length] at copied
      constructor
      · exact copied.1
      · rw [writeAt, List.length_append, List.length_append, List.length_take, length]
        omega
    · constructor
      · rename_i same
        rw [not_and_or] at same
        cases same with
        | inl none_ =>
          have none_ : s.buf.got - s.buf.readyOffset = 0 := by omega
          rw [none_, List.take_zero]
          rw [none_] at length
          exact (List.length_eq_zero_iff.mp length).symm
        | inr start =>
          have start : s.buf.readyOffset = 0 := by omega
          rw [start]
          rfl
      · omega
  obtain ⟨chunk, e, before, room⟩ := kept
  have got : buf.got = s.buf.got - s.buf.readyOffset + data.length := rfl
  constructor
  · rw [slice, List.drop_zero, e, got, take_writeAt data room, before]
  · have h := congrArg List.length (take_writeAt data room)
    rw [List.length_take, List.length_append, List.length_take] at h
    rw [e, got]
    omega

/-- `just_read` for a file all of whose dgrams in the chunk have been seen. -/
lemma justRead (loaded : s.Loaded seen [] rest) (chunksize want : Nat) :
    ∃ (todo rest' : List SmdDgram) (s' : Stream), s.justRead chunksize want = { s with
        unread := s'.unread, buf := s'.buf, stepBuf := s'.stepBuf } ∧
      rest = todo ++ rest' ∧ s'.Loaded [] todo rest' ∧ s'.buf.foundEndrun = s.buf.foundEndrun := by
  have idle : s.buf.hasUnseen = false := by
    have h := loaded.hasUnseen_iff
    cases hs : s.buf.hasUnseen with
    | false => rfl
    | true => exact absurd rfl (h.mp hs)
  have cut := loaded.left
  generalize hn : min want (chunksize - (s.buf.got - s.buf.readyOffset)) = n
  obtain ⟨chunk, high⟩ := loaded.refill (s.unread.take n)
  have file : (slice s.buf.chunk s.buf.readyOffset s.buf.got ++ s.unread.take n) ++ s.unread.drop n =
      flat rest := by
    rw [List.append_assoc, List.take_append_drop]
    exact cut.whole
  obtain ⟨todo, rest', part, e, data, cut'⟩ := exists_cut file
  rw [data] at chunk
  have enough : todo.length < (Stream.refill s.buf (s.unread.take n)).got + 1 := by
    have length := congrArg List.length chunk
    rw [slice_length 0 high, List.length_append] at length
    have many : todo.length ≤ (flat todo).length := by
      clear e data chunk file cut' length
      induction todo with
      | nil => exact Nat.le_refl 0
      | cons d todo ih =>
        have header := d.header
        rw [sizeofDgram] at header
        rw [flat_cons, List.length_cons, List.length_append]
        omega
    omega
  have empty : Buffer.Holds (Stream.refill s.buf (s.unread.take n)) [] :=
    .empty _ ⟨rfl, rfl⟩
  have emptyStep : Buffer.Holds { s.stepBuf with
      readyOffset := 0, nReadyEvents := 0, seenOffset := 0, nSeenEvents := 0 } (stepsOf []) :=
    .empty _ ⟨rfl, rfl⟩
  obtain ⟨buf', stepBuf', h, holds, steps, bounds, part', nSeen, endrun⟩ :=
    scan_spec cut' todo enough empty emptyStep ⟨Nat.zero_le _, high⟩ chunk
  refine ⟨todo, rest', { s with unread := s.unread.drop n, buf := buf', stepBuf := stepBuf' }, ?_, e,
    ⟨holds, steps, nSeen, bounds, ?_⟩, endrun⟩
  · rw [Stream.justRead, idle]
    simp only [Bool.false_eq_true, if_false, hn, h]
  · show Cut (slice buf'.chunk buf'.readyOffset buf'.got) _ _
    rw [part']
    exact cut'

end Stream.Loaded

/-- What `get` does to a file: the same dgrams are left, more of them in the chunk, and nothing changes
    where the chunk has some. -/
structure Stream.Fetched (s : Stream) (seen avail rest : List SmdDgram) (s' : Stream) : Prop where
  reads : ∃ seen' avail' rest', avail ++ rest = avail' ++ rest' ∧ seen' <:+ seen ∧
    s'.Reads seen' avail' rest'
  same : avail ≠ [] → s' = s
  steps : s'.blockSizeStepbuf = s.blockSizeStepbuf
  endrun : s'.buf.foundEndrun = s.buf.foundEndrun

/-- A chunk without unseen dgrams starts anew. -/
def Stream.Anew (s : Stream) : Prop :=
  s.buf.hasUnseen = false → s.iStart = 0 ∧ s.iStepbufStart = 0

/-- `just_read` for a file whose indices are reset. -/
lemma Stream.Loaded.fetch (loaded : s.Loaded seen [] rest) (start : s.iStart = 0 ∧ s.iStepbufStart = 0)
    (chunksize want : Nat) :
    ∃ todo rest', rest = todo ++ rest' ∧ (s.justRead chunksize want).Reads [] todo rest' ∧
      (s.justRead chunksize want).blockSizeStepbuf = s.blockSizeStepbuf ∧
      (s.justRead chunksize want).buf.foundEndrun = s.buf.foundEndrun ∧
      (s.justRead chunksize want).Anew := by
  obtain ⟨todo, rest', s', e, split, loaded', endrun⟩ := loaded.justRead chunksize want
  refine ⟨todo, rest', split, ?_⟩
  rw [e]
  exact ⟨⟨⟨loaded'.buf, loaded'.step, loaded'.nSeen, loaded'.bounds, loaded'.left⟩, start.1, start.2⟩,
    rfl, endrun, fun _ => start⟩

namespace Stream.Reads

lemma refl (reads : s.Reads seen avail rest) : s.Fetched seen avail rest s :=
  ⟨⟨seen, avail, rest, rfl, List.suffix_refl seen, reads⟩, fun _ => rfl, rfl, rfl⟩

/-- The first read of `get`. -/
lemma fetch (reads : s.Reads seen avail rest) (chunksize want : Nat) :
    s.Fetched seen avail rest (s.reset.justRead chunksize want) ∧
      (s.reset.justRead chunksize want).Anew := by
  by_cases more : avail = []
  · subst more
    have idle : s.buf.hasUnseen ≠ true := fun h => reads.hasUnseen_iff.mp h rfl
    have reset : s.reset = { s with iStart := 0, iEnd := 0, iStepbufStart := 0, iStepbufEnd := 0 } :=
      if_neg idle
    have loaded : s.reset.Loaded seen [] rest := by
      rw [reset]
      exact ⟨reads.buf, reads.step, reads.nSeen, reads.bounds, reads.left⟩
    obtain ⟨todo, rest', split, reads', steps, endrun, anew⟩ :=
      loaded.fetch (by rw [reset]; exact ⟨rfl, rfl⟩) chunksize want
    refine ⟨⟨⟨[], todo, rest', split, List.nil_suffix, reads'⟩, fun h => absurd rfl h, ?_, ?_⟩, anew⟩
    · rw [steps, reset]
    · rw [endrun, reset]
  · have busy : s.buf.hasUnseen = true := reads.hasUnseen_iff.mpr more
    have reset : s.reset = s := if_pos busy
    have idle : s.justRead chunksize want = s := if_pos busy
    rw [reset, idle]
    refine ⟨reads.refl, fun h => ?_⟩
    rw [busy] at h
    cases h

end Stream.Reads

namespace Stream.Fetched

/-- A retry of `get`. -/
lemma justRead {s' : Stream} (original : s.Reads seen avail rest)
    (fetched : s.Fetched seen avail rest s') (anew : s'.Anew) (chunksize want : Nat) :
    s.Fetched seen avail rest (s'.justRead chunksize want) ∧ (s'.justRead chunksize want).Anew := by
  obtain ⟨⟨seen', avail', rest', split, sub, reads⟩, same, steps, endrun⟩ := fetched
  by_cases more : avail' = []
  · subst more
    have idle : s'.buf.hasUnseen = false := by
      cases hs : s'.buf.hasUnseen with
      | false => rfl
      | true => exact absurd rfl (reads.hasUnseen_iff.mp hs)
    have none_ : avail = [] := by
      by_contra some_
      rw [same some_, original.hasUnseen_iff.mpr some_] at idle
      cases idle
    obtain ⟨todo, rest'', split', reads', steps', endrun', anew'⟩ :=
      reads.toLoaded.fetch (anew idle) chunksize want
    refine ⟨⟨⟨[], todo, rest'', split.trans split', List.nil_suffix, reads'⟩,
      fun some_ => absurd none_ some_, steps'.trans steps, endrun'.trans endrun⟩, anew'⟩
  · have busy : s'.buf.hasUnseen = true := reads.hasUnseen_iff.mpr more
    have idle : s'.justRead chunksize want = s' := if_pos busy
    rw [idle]
    exact ⟨⟨⟨seen', avail', rest', split, sub, reads⟩, same, steps, endrun⟩, anew⟩

end Stream.Fetched

/-- The dgrams of a view: those up to the limit. -/
def upTo (limitTs : Nat) (ds : List SmdDgram) : List SmdDgram := ds.takeWhile fun d => d.ts ≤ limitTs

/-- The timestamps increase. -/
def Ascending (ds : List SmdDgram) : Prop := ds.Pairwise fun d d' => d.ts < d'.ts

variable {limitTs : Nat}

lemma upTo_cons_of_le (h : d.ts ≤ limitTs) : upTo limitTs (d :: ds) = d :: upTo limitTs ds :=
  List.takeWhile_cons_of_pos (decide_eq_true h)

lemma upTo_cons_of_lt (h : limitTs < d.ts) : upTo limitTs (d :: ds) = [] :=
  List.takeWhile_cons_of_neg (by simpa using h)

lemma stepsOf_cons_of_step (h : d.sv ≠ l1Accept) : stepsOf (d :: ds) = d :: stepsOf ds :=
  List.filter_cons_of_pos (decide_eq_true h)

lemma stepsOf_cons_of_l1 (h : d.sv = l1Accept) : stepsOf (d :: ds) = stepsOf ds :=
  List.filter_cons_of_neg (by simpa using h)

/-- Nothing is up to the limit where all is later. -/
lemma upTo_of_later (h : ∀ d ∈ ds, limitTs < d.ts) : upTo limitTs ds = [] := by
  cases ds with
  | nil => rfl
  | cons d ds => exact upTo_cons_of_lt (h d List.mem_cons_self)

/-- The steps up to the limit are the steps among the dgrams up to the limit. -/
lemma upTo_stepsOf (sorted : Ascending ds) : upTo limitTs (stepsOf ds) = stepsOf (upTo limitTs ds) := by
  induction ds with
  | nil => rfl
  | cons d ds ih =>
    obtain ⟨first, sorted⟩ := List.pairwise_cons.mp sorted
    have ih := ih sorted
    cases Nat.lt_or_ge limitTs d.ts with
    | inl beyond =>
      rw [upTo_cons_of_lt beyond]
      apply upTo_of_later
      intro d' hd
      cases List.mem_cons.mp (List.mem_of_mem_filter hd) with
      | inl e => rwa [e]
      | inr hd => exact Nat.lt_trans beyond (first d' hd)
    | inr within =>
      rw [upTo_cons_of_le within]
      by_cases step : d.sv = l1Accept
      · rw [stepsOf_cons_of_l1 step, stepsOf_cons_of_l1 step, ih]
      · rw [stepsOf_cons_of_step step, stepsOf_cons_of_step step, upTo_cons_of_le within, ih]

namespace Buffer.Holds

/-- The loop of `view` goes on to the last dgram up to the limit. -/
lemma searchEnd {more : List SmdDgram} (holds : b.Holds (ds ++ d :: more)) {fuel : Nat}
    (enough : more.length ≤ fuel) :
    b.searchEnd limitTs fuel ds.length = ds.length + (upTo limitTs more).length := by
  induction more generalizing ds d fuel with
  | nil =>
    have last : ¬ ds.length < b.nReadyEvents - 1 := by
      rw [holds.ready, List.length_append, List.length_singleton]
      omega
    cases fuel with
    | zero => rfl
    | succ fuel =>
      rw [Buffer.searchEnd, if_neg fun h => last h.2]
      rfl
  | cons d' more ih =>
    cases fuel with
    | zero => cases enough
    | succ fuel =>
      have shift : ds ++ d :: d' :: more = (ds ++ [d]) ++ d' :: more := by
        rw [List.append_assoc, List.singleton_append]
      rw [shift] at holds
      have entry := holds.entry
      rw [List.length_append, List.length_singleton] at entry
      have inside : ds.length < b.nReadyEvents - 1 := by
        rw [holds.ready]
        simp only [List.length_append, List.length_cons, List.length_nil]
        omega
      rw [Buffer.searchEnd, entry]
      cases Nat.lt_or_ge limitTs d'.ts with
      | inl beyond =>
        rw [if_neg fun h => Nat.not_le_of_lt beyond (of_decide_eq_true h.1), upTo_cons_of_lt beyond]
        rfl
      | inr within =>
        have next := ih holds (Nat.le_of_succ_le_succ enough)
        rw [List.length_append, List.length_singleton] at next
        rw [if_pos ⟨decide_eq_true within, inside⟩, next, upTo_cons_of_le within, List.length_cons]
        omega

/-- The entry of the last of some dgrams. -/
lemma lastEntry {more : List SmdDgram} (holds : b.Holds (ds ++ (d :: ds') ++ more)) :
    ∃ last, (d :: ds').getLast? = some last ∧ b.entries[ds.length + ds'.length]? =
      some ⟨last.ts, last.sv, (flat (ds ++ d :: ds')).length - last.bytes.length,
        (flat (ds ++ d :: ds')).length⟩ := by
  have some_ : d :: ds' ≠ [] := List.cons_ne_nil _ _
  have split := List.dropLast_append_getLast some_
  have regroup : ds ++ (d :: ds') ++ more =
      (ds ++ (d :: ds').dropLast) ++ (d :: ds').getLast some_ :: more := by
    conv_lhs => rw [← split]
    simp only [List.append_assoc, List.singleton_append]
  have length : (ds ++ (d :: ds').dropLast).length = ds.length + ds'.length := by
    rw [List.length_append, List.length_dropLast]
    rfl
  have total : flat (ds ++ d :: ds') = flat (ds ++ (d :: ds').dropLast) ++
      ((d :: ds').getLast some_).bytes := by
    conv_lhs => rw [← split]
    rw [← List.append_assoc, flat_append, flat_singleton]
  rw [regroup] at holds
  have entry := holds.entry
  rw [length] at entry
  refine ⟨(d :: ds').getLast some_, List.getLast?_eq_some_getLast some_, ?_⟩
  rw [entry, total, List.length_append, Nat.add_sub_cancel]

/-- The block of some dgrams of the buffer. -/
lemma block {more : List SmdDgram} (holds : b.Holds (ds ++ (d :: ds') ++ more)) :
    b.blockSize ds.length (ds.length + ds'.length) = (flat (d :: ds')).length ∧
      Stream.block b ds.length (flat (d :: ds')).length = flat (d :: ds') := by
  obtain ⟨last, -, lastEntry⟩ := holds.lastEntry
  have bytes := holds.slice_mid
  rw [List.append_assoc, List.cons_append] at holds
  have entry := holds.entry
  constructor
  · rw [Buffer.blockSize, lastEntry, entry]
    show (flat (ds ++ d :: ds')).length - (flat ds).length = _
    rw [flat_append, List.length_append, Nat.add_sub_cancel_left]
  · rw [Stream.block, entry]
    exact bytes

end Buffer.Holds

/-- What a view does to a file without dgrams up to the limit: the block is empty, and the step block
    is the one of the view before. -/
lemma Stream.Reads.skip (reads : s.Reads seen (d :: ds) rest) (beyond : limitTs < d.ts) :
    s.move limitTs = .ok { s with iStBuf := 0, blockSizeBuf := 0 } := by
  have entry := reads.buf.entry
  rw [← reads.start] at entry
  rw [Stream.move, entry]
  simp only [if_pos beyond]

/-- The block of all dgrams up to the limit. -/
lemma Buffer.Holds.moveBlock (holds : s.buf.Holds (seen ++ d :: ds)) (start : s.iStart = seen.length)
    (sorted : Ascending (d :: ds)) :
    ∃ (seenOffset : Nat) (last : SmdDgram), last ∈ d :: upTo limitTs ds ∧
      s.moveBlock limitTs d.ts = { s with
        iEnd := seen.length + (upTo limitTs ds).length
        iStBuf := seen.length
        blockSizeBuf := (flat (d :: upTo limitTs ds)).length
        buf := { s.buf with
          seenOffset
          nSeenEvents := seen.length + (upTo limitTs ds).length + 1
          foundEndrun := s.buf.foundEndrun || last.sv = endRun }
        iStart := seen.length + (upTo limitTs ds).length + 1 } ∧
      Stream.block s.buf seen.length (flat (d :: upTo limitTs ds)).length =
        flat (d :: upTo limitTs ds) := by
  have inside : s.iStart < s.buf.nReadyEvents := by
    rw [start, holds.ready, List.length_append, List.length_cons]
    omega
  have few : ds.length ≤ s.buf.nReadyEvents := by
    rw [holds.ready, List.length_append, List.length_cons]
    omega
  have iEnd : (if d.ts ≠ limitTs then s.buf.searchEnd limitTs s.buf.nReadyEvents s.iStart
      else s.iStart) = seen.length + (upTo limitTs ds).length := by
    rw [start]
    split
    · exact holds.searchEnd few
    · -- at the limit itself the next dgram is later
      rename_i exact_
      have exact_ : d.ts = limitTs := not_not.mp exact_
      have none_ : upTo limitTs ds = [] := by
        apply upTo_of_later
        rw [← exact_]
        exact (List.pairwise_cons.mp sorted).1
      rw [none_]
      rfl
  have regroup : seen ++ d :: ds = seen ++ (d :: upTo limitTs ds) ++ ds.dropWhile fun d => d.ts ≤ limitTs := by
    rw [List.append_assoc, List.cons_append, upTo, List.takeWhile_append_dropWhile]
  rw [regroup] at holds
  obtain ⟨last, hlast, entry⟩ := holds.lastEntry
  obtain ⟨size, bytes⟩ := holds.block
  refine ⟨(flat (seen ++ d :: upTo limitTs ds)).length, last, List.mem_of_getLast? hlast, ?_, bytes⟩
  rw [Stream.moveBlock, if_pos inside]
  simp only [iEnd]
  rw [entry, start, size]
  rfl

/-- The block of the steps up to the limit. -/
lemma Buffer.Holds.moveStepBlock (holds : s.stepBuf.Holds (seen ++ avail))
    (start : s.iStepbufStart = seen.length) :
    ∃ (iEnd iSt seenOffset nSeenEvents : Nat),
      s.moveStepBlock limitTs = { s with
        iStepbufEnd := iEnd
        iStStepbuf := iSt
        blockSizeStepbuf := (flat (upTo limitTs avail)).length
        stepBuf := { s.stepBuf with seenOffset, nSeenEvents }
        iStepbufStart := seen.length + (upTo limitTs avail).length } ∧
      Stream.block s.stepBuf iSt (flat (upTo limitTs avail)).length = flat (upTo limitTs avail) := by
  have empty : ∀ st, Stream.block s.stepBuf st 0 = [] := by
    intro st
    rw [Stream.block]
    split
    · rfl
    · rw [slice, Nat.add_zero, List.drop_take, Nat.sub_self, List.take_zero]
  -- Where no step is up to the limit, the block is empty.
  have idle : upTo limitTs avail = [] →
      ¬ (s.iStepbufStart < s.stepBuf.nReadyEvents ∧
        (s.stepBuf.entries[s.iStepbufStart]?).any (·.ts ≤ limitTs)) →
      ∃ (iEnd iSt seenOffset nSeenEvents : Nat), s.moveStepBlock limitTs = { s with
        iStepbufEnd := iEnd
        iStStepbuf := iSt
        blockSizeStepbuf := (flat (upTo limitTs avail)).length
        stepBuf := { s.stepBuf with seenOffset, nSeenEvents }
        iStepbufStart := seen.length + (upTo limitTs avail).length } ∧
      Stream.block s.stepBuf iSt (flat (upTo limitTs avail)).length = flat (upTo limitTs avail) := by
    intro none_ stays
    rw [none_, Stream.moveStepBlock, if_neg stays, ← start]
    exact ⟨s.iStepbufStart, 0, _, _, rfl, empty 0⟩
  cases havail : avail with
  | nil =>
    rw [← havail]
    rw [havail, List.append_nil] at holds
    apply idle
    · rw [havail]
      rfl
    · rw [holds.ready, start]
      exact fun h => Nat.lt_irrefl _ h.1
  | cons d ds =>
    rw [havail] at holds
    have entry := holds.entry
    rw [← start] at entry
    cases Nat.lt_or_ge limitTs d.ts with
    | inl beyond =>
      rw [← havail]
      apply idle
      · rw [havail]
        exact upTo_cons_of_lt beyond
      · rw [entry]
        exact fun h => Nat.not_le_of_lt beyond (of_decide_eq_true h.2)
    | inr within =>
      rw [upTo_cons_of_le within]
      have few : ds.length ≤ s.stepBuf.nReadyEvents := by
        rw [holds.ready, List.length_append, List.length_cons]
        omega
      have moves : s.iStepbufStart < s.stepBuf.nReadyEvents ∧
          (s.stepBuf.entries[s.iStepbufStart]?).any (·.ts ≤ limitTs) := by
        constructor
        · rw [start, holds.ready, List.length_append, List.length_cons]
          omega
        · rw [entry]
          exact decide_eq_true within
      have iEnd : s.stepBuf.searchEnd limitTs s.stepBuf.nReadyEvents seen.length = _ :=
        holds.searchEnd few
      have regroup : seen ++ d :: ds =
          seen ++ (d :: upTo limitTs ds) ++ ds.dropWhile fun d => d.ts ≤ limitTs := by
        rw [List.append_assoc, List.cons_append, upTo, List.takeWhile_append_dropWhile]
      rw [regroup] at holds
      obtain ⟨last, -, lastEntry⟩ := holds.lastEntry
      obtain ⟨size, bytes⟩ := holds.block
      refine ⟨seen.length + (upTo limitTs ds).length, seen.length,
        (flat (seen ++ d :: upTo limitTs ds)).length, seen.length + (upTo limitTs ds).length + 1, ?_,
        bytes⟩
      rw [Stream.moveStepBlock, if_pos moves, start, iEnd]
      simp only
      rw [lastEntry, size, List.length_cons, ← Nat.add_assoc]
      rfl

/-- What a view does to a file with dgrams up to the limit. -/
lemma Stream.Reads.move (reads : s.Reads seen (d :: ds) rest) (sorted : Ascending (d :: ds))
    (within : d.ts ≤ limitTs) :
    ∃ s', s.move limitTs = .ok s' ∧
      s'.Reads (seen ++ upTo limitTs (d :: ds)) ((d :: ds).dropWhile fun d => d.ts ≤ limitTs) rest ∧
      s'.blockSizeBuf = (flat (upTo limitTs (d :: ds))).length ∧
      Stream.block s'.buf s'.iStBuf s'.blockSizeBuf = flat (upTo limitTs (d :: ds)) ∧
      s'.blockSizeStepbuf = (flat (stepsOf (upTo limitTs (d :: ds)))).length ∧
      Stream.block s'.stepBuf s'.iStStepbuf s'.blockSizeStepbuf =
        flat (stepsOf (upTo limitTs (d :: ds))) ∧
      ∃ last ∈ upTo limitTs (d :: ds), s'.buf.foundEndrun = (s.buf.foundEndrun || last.sv = endRun) := by
  have entry := reads.buf.entry
  rw [← reads.start] at entry
  have del : upTo limitTs (d :: ds) = d :: upTo limitTs ds := upTo_cons_of_le within
  obtain ⟨seenOffset, last, hlast, moved, bytes⟩ := @Buffer.Holds.moveBlock ds d
    { s with iStBuf := 0, blockSizeBuf := 0 } seen limitTs reads.buf reads.start sorted
  have steps := reads.step
  rw [stepsOf_append] at steps
  have stepBytes := @Buffer.Holds.moveStepBlock
    (({ s with iStBuf := 0, blockSizeBuf := 0 } : Stream).moveBlock limitTs d.ts) (stepsOf seen)
    (stepsOf (d :: ds)) limitTs (by rw [moved]; exact steps) (by rw [moved]; exact reads.stepStart)
  obtain ⟨iEnd, iSt, seenOffset', nSeen', movedSteps, stepBytes⟩ := stepBytes
  rw [upTo_stepsOf sorted] at movedSteps stepBytes
  refine ⟨(({ s with iStBuf := 0, blockSizeBuf := 0 } : Stream).moveBlock limitTs d.ts).moveStepBlock
    limitTs, ?_, ?_⟩
  · rw [Stream.move, entry]
    simp only [if_neg (Nat.not_lt_of_le within)]
  · rw [movedSteps, moved]
    rw [moved] at stepBytes
    have buf := reads.buf
    have regroup : seen ++ d :: ds = seen ++ upTo limitTs (d :: ds) ++
        (d :: ds).dropWhile fun d => d.ts ≤ limitTs := by
      rw [List.append_assoc, upTo, List.takeWhile_append_dropWhile]
    refine ⟨⟨⟨?_, ?_, ?_, reads.bounds, reads.left⟩, ?_, ?_⟩, ?_, ?_, rfl, stepBytes, last, ?_, rfl⟩
    · rw [← regroup]
      exact ⟨buf.ready, buf.offset, buf.chunk, buf.entries, buf.last⟩
    · rw [← regroup]
      have step := reads.step
      exact ⟨step.ready, step.offset, step.chunk, step.entries, step.last⟩
    · rw [List.length_append, del, List.length_cons, Nat.add_assoc]
    · rw [List.length_append, del, List.length_cons, Nat.add_assoc]
    · rw [stepsOf_append, List.length_append]
    · rw [del]
    · rw [del]
      exact bytes
    · rw [del]
      exact hlast

end Lcls2.Psana
