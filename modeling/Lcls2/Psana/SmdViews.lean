import Lcls2.Psana.SmdScan

/-!
# Views of the smalldata

What a run of `get` and `view` gives out of each file, view by view.
-/

namespace Lcls2.Psana
open Lib

/-- A call of `SmdReaderManager`: reading more, or the next view. -/
inductive SmdOp where
  | get (wants : List Nat) (retries : List (List Nat))
  | view (batchSize : Nat) (intgStreamId : Option Nat)

/-- What is found out about a view: its window, and for each stream its block and what `show` returns. -/
structure View where
  batchSize : Nat
  winner : Nat
  limitTs : Nat
  blocks : List Bytes
  shown : List Bytes
  stepsShown : List Bytes

/-- The reader with the views it has given; what `show` changes in the reader, `view` resets. -/
structure Reading where
  reader : SmdReader
  views : List View

/-- The blocks of a view. -/
def SmdReader.blocks (r : SmdReader) : List Bytes :=
  r.streams.map fun s => if 0 < s.blockSizeBuf then Stream.block s.buf s.iStBuf s.blockSizeBuf else []

/-- What `show` returns for each stream. -/
def SmdReader.shown (r : SmdReader) (stepBuf : Bool) : List Bytes :=
  (List.range r.streams.length).map fun i => (r.show_ i stepBuf).toOption.elim [] Prod.fst

namespace Reading

/-- The start of reading. -/
def new (chunksize : Nat) (fakestepFlag : Bool) (files : List (List SmdDgram)) : Reading :=
  ⟨.new chunksize fakestepFlag (files.map flat), []⟩

/-- One call. -/
def step (s : Reading) : SmdOp → Except ReadFault Reading
  | .get wants retries => .ok { s with reader := s.reader.get wants retries }
  | .view batchSize intgStreamId => do
    let (winner, _, _, limitTs) ← s.reader.selectWindow batchSize intgStreamId
    let reader ← s.reader.view batchSize intgStreamId
    let view := ⟨batchSize, winner, limitTs, reader.blocks, reader.shown false, reader.shown true⟩
    .ok ⟨reader, s.views ++ [view]⟩

/-- `view` is called only when every file has an unseen dgram. -/
def Allowed (_ : List SmdOp) (s : Reading) : SmdOp → Prop
  | .get _ _ => True
  | .view _ _ => s.reader.isComplete

end Reading

section get
variable {r : SmdReader} {file out : List SmdDgram} {s : Stream}

/-- What is left of a file, of which some dgrams have been given out. -/
def Stream.Follows (s : Stream) (file out : List SmdDgram) : Prop :=
  ∃ seen avail rest, file = out ++ avail ++ rest ∧ seen <:+ out ∧ s.Reads seen avail rest

/-- What `get` does to each file. -/
lemma get_stream (r : SmdReader) (wants : List Nat) (retries : List (List Nat)) {i : Nat}
    (hs : r.streams[i]? = some s) :
    ∃ s', (r.get wants retries).streams[i]? = some s' ∧
      ∀ seen avail rest, s.Reads seen avail rest → s.Fetched seen avail rest s' := by
  rw [SmdReader.get]
  split
  · exact ⟨s, hs, fun _ _ _ reads => reads.refl⟩
  · show ∃ s', (retries.foldl SmdReader.justRead (SmdReader.justRead
      { r with streams := r.streams.map Stream.reset } wants)).streams[i]? = some s' ∧ _
    -- the first read resets the indices, and a retry finds them reset
    have first : ∃ s', (({ r with streams := r.streams.map Stream.reset } : SmdReader).justRead
        wants).streams[i]? = some s' ∧ ∀ seen avail rest, s.Reads seen avail rest →
          s.Fetched seen avail rest s' ∧ s'.Anew := by
      refine ⟨s.reset.justRead r.chunksize (wants.getD i 0), ?_, fun _ _ _ reads => reads.fetch _ _⟩
      show ((r.streams.map Stream.reset).mapIdx _)[i]? = _
      rw [List.getElem?_mapIdx, List.getElem?_map, hs]
      rfl
    generalize ({ r with streams := r.streams.map Stream.reset } : SmdReader).justRead wants = r' at first
    induction retries generalizing r' with
    | nil =>
      obtain ⟨s', hs', fetched⟩ := first
      exact ⟨s', hs', fun seen avail rest reads => (fetched seen avail rest reads).1⟩
    | cons wants retries ih =>
      obtain ⟨s', hs', fetched⟩ := first
      apply ih
      refine ⟨s'.justRead r'.chunksize (wants.getD i 0), ?_, ?_⟩
      · show (r'.streams.mapIdx _)[i]? = _
        rw [List.getElem?_mapIdx, hs']
        rfl
      · intro seen avail rest reads
        obtain ⟨fetched, anew⟩ := fetched seen avail rest reads
        exact fetched.justRead reads anew _ _

lemma get_length (r : SmdReader) (wants : List Nat) (retries : List (List Nat)) :
    (r.get wants retries).streams.length = r.streams.length := by
  have justRead : ∀ (r : SmdReader) wants, (r.justRead wants).streams.length = r.streams.length :=
    fun r wants => List.length_mapIdx
  rw [SmdReader.get]
  split
  · rfl
  · show (retries.foldl SmdReader.justRead (SmdReader.justRead
      { r with streams := r.streams.map Stream.reset } wants)).streams.length = _
    have start : (({ r with streams := r.streams.map Stream.reset } : SmdReader).justRead
        wants).streams.length = r.streams.length := (justRead _ wants).trans (List.length_map _)
    generalize ({ r with streams := r.streams.map Stream.reset } : SmdReader).justRead wants = r' at start
    induction retries generalizing r' with
    | nil => exact start
    | cons wants retries ih => exact ih _ ((justRead r' wants).trans start)

/-- `get` gives nothing out. -/
lemma Stream.Follows.get (follows : s.Follows file out) {s' : Stream}
    (fetched : ∀ seen avail rest, s.Reads seen avail rest → s.Fetched seen avail rest s') :
    s'.Follows file out := by
  obtain ⟨seen, avail, rest, split, sub, reads⟩ := follows
  obtain ⟨seen', avail', rest', split', sub', reads'⟩ := (fetched seen avail rest reads).reads
  refine ⟨seen', avail', rest', ?_, sub'.trans sub, reads'⟩
  rw [split, List.append_assoc, split', List.append_assoc]

end get

section view
variable {r r' : SmdReader} {file out seen avail rest ds : List SmdDgram} {d : SmdDgram} {s s' : Stream}
  {limitTs batchSize : Nat} {intgStreamId : Option Nat}

/-- A view has a window. -/
lemma view_window (h : r.view batchSize intgStreamId = .ok r') :
    ∃ winner nViewEvents last limitTs,
      r.selectWindow batchSize intgStreamId = .ok (winner, nViewEvents, last, limitTs) := by
  rw [SmdReader.view] at h
  obtain ⟨⟨winner, nViewEvents, last, limitTs⟩, selected, -⟩ := bind_ok h
  exact ⟨winner, nViewEvents, last, limitTs, selected⟩

/-- What a view does. -/
lemma view_spec {winner nViewEvents : Nat} {last : Entry}
    (window : r.selectWindow batchSize intgStreamId = .ok (winner, nViewEvents, last, limitTs))
    (h : r.view batchSize intgStreamId = .ok r') :
    r' = { r with
        streams := r'.streams, winner := some winner, nViewEvents, winnerLastSv := last.sv,
        winnerLastTs := last.ts, nextFakeTs := 0, fakebuf := [] } ∧
      r'.streams.length = r.streams.length ∧
      ∀ (i : Nat) (s : Stream), r.streams[i]? = some s →
        ∃ s', s.move limitTs = .ok s' ∧ r'.streams[i]? = some s' := by
  rw [SmdReader.view, window, ok_bind] at h
  obtain ⟨streams, moved, h⟩ := bind_ok h
  cases h
  obtain ⟨length, each⟩ := mapM_getElem? moved
  exact ⟨rfl, length, each⟩

/-- What a call of `view` adds to a reading. -/
lemma Reading.step_view {a t : Reading} (h : a.step (.view batchSize intgStreamId) = .ok t) :
    ∃ winner nViewEvents last limitTs,
      a.reader.selectWindow batchSize intgStreamId = .ok (winner, nViewEvents, last, limitTs) ∧
      a.reader.view batchSize intgStreamId = .ok t.reader ∧
      t.views = a.views ++ [⟨batchSize, winner, limitTs, t.reader.blocks, t.reader.shown false,
        t.reader.shown true⟩] := by
  rw [Reading.step] at h
  obtain ⟨⟨winner, nViewEvents, last, limitTs⟩, selected, h⟩ := bind_ok h
  obtain ⟨reader, viewed, h⟩ := bind_ok h
  cases h
  exact ⟨winner, nViewEvents, last, limitTs, selected, viewed, rfl⟩

/-- Whether the next dgram of a file is beyond the limit. -/
def Stream.isBeyond (s : Stream) (limitTs : Nat) : Bool :=
  (s.buf.entries[s.iStart]?).any (limitTs < ·.ts)

/-- Whether the next step of a file is up to the limit. -/
def Stream.hasStep (s : Stream) (limitTs : Nat) : Bool :=
  s.iStepbufStart < s.stepBuf.nReadyEvents ∧ (s.stepBuf.entries[s.iStepbufStart]?).any (·.ts ≤ limitTs)

/-- What a file gives to a view: a block, and the step block of the same dgrams; without dgrams the step
    block stays what it was. -/
structure Stream.Gives (s : Stream) (limitTs : Nat) (part : List SmdDgram) (s' : Stream) : Prop where
  beyond : s.isBeyond limitTs = true ↔ part = []
  stepped : s.hasStep limitTs = true → stepsOf part ≠ []
  size : s'.blockSizeBuf = (flat part).length
  block : Stream.block s'.buf s'.iStBuf s'.blockSizeBuf = flat part
  skipped : part = [] → s'.blockSizeStepbuf = s.blockSizeStepbuf
  stepSize : part ≠ [] → s'.blockSizeStepbuf = (flat (stepsOf part)).length
  stepBlock : part ≠ [] → Stream.block s'.stepBuf s'.iStStepbuf s'.blockSizeStepbuf = flat (stepsOf part)

/-- A block without bytes. -/
lemma block_zero (buf : Buffer) (st : Nat) : Stream.block buf st 0 = [] := by
  rw [Stream.block]
  split
  · rfl
  · rw [slice, Nat.add_zero, List.drop_take, Nat.sub_self, List.take_zero]

/-- The next step of a file is up to the limit. -/
lemma Stream.Reads.stepped (reads : s.Reads seen ds rest) (sorted : Ascending ds)
    (h : s.hasStep limitTs = true) : stepsOf (upTo limitTs ds) ≠ [] := by
  have h := of_decide_eq_true h
  have holds := reads.step
  rw [stepsOf_append] at holds
  rw [← upTo_stepsOf sorted]
  cases steps : stepsOf ds with
  | nil =>
    rw [steps, List.append_nil] at holds
    rw [reads.stepStart, holds.ready] at h
    exact absurd h.1 (Nat.lt_irrefl _)
  | cons d ds =>
    rw [steps] at holds
    rw [reads.stepStart, holds.entry] at h
    rw [upTo_cons_of_le (of_decide_eq_true h.2)]
    exact List.cons_ne_nil _ _

/-- What a view does to a file that has unseen dgrams. -/
lemma Stream.Reads.view (reads : s.Reads seen (d :: ds) rest) (sorted : Ascending (d :: ds))
    (h : s.move limitTs = .ok s') :
    s'.Reads (seen ++ upTo limitTs (d :: ds)) ((d :: ds).dropWhile fun d => d.ts ≤ limitTs) rest ∧
      s.Gives limitTs (upTo limitTs (d :: ds)) s' ∧
      ∃ endrun : Bool, s'.buf.foundEndrun = (s.buf.foundEndrun || endrun) ∧
        (endrun = true → ∃ last ∈ upTo limitTs (d :: ds), last.sv = endRun) := by
  have stepped : s.hasStep limitTs = true → stepsOf (upTo limitTs (d :: ds)) ≠ [] := reads.stepped sorted
  have isBeyond : s.isBeyond limitTs = true ↔ limitTs < d.ts := by
    rw [Stream.isBeyond, reads.start, reads.buf.entry]
    exact decide_eq_true_iff
  cases Nat.lt_or_ge limitTs d.ts with
  | inl beyond =>
    have none_ : upTo limitTs (d :: ds) = [] := upTo_cons_of_lt beyond
    rw [none_] at stepped
    have all : ((d :: ds).dropWhile fun d => d.ts ≤ limitTs) = d :: ds :=
      List.dropWhile_cons_of_neg (by simpa using beyond)
    rw [reads.skip beyond] at h
    cases h
    rw [none_, all, List.append_nil]
    refine ⟨⟨⟨reads.buf, reads.step, reads.nSeen, reads.bounds, reads.left⟩, reads.start, reads.stepStart⟩,
      ⟨⟨fun _ => rfl, fun _ => isBeyond.mpr beyond⟩, stepped, rfl, block_zero _ _, fun _ => rfl,
        fun some_ => absurd rfl some_, fun some_ => absurd rfl some_⟩, false, ?_, nofun⟩
    rw [Bool.or_false]
  | inr within =>
    obtain ⟨s'', moved, reads', size, block, stepSize, stepBlock, last, among, endrun⟩ :=
      reads.move sorted within
    rw [moved] at h
    cases h
    have some_ : upTo limitTs (d :: ds) ≠ [] := by
      rw [upTo_cons_of_le within]
      exact List.cons_ne_nil _ _
    have notBeyond : s.isBeyond limitTs = true ↔ upTo limitTs (d :: ds) = [] :=
      ⟨fun h => absurd (isBeyond.mp h) (Nat.not_lt_of_le within), fun h => absurd h some_⟩
    exact ⟨reads', ⟨notBeyond, stepped, size, block, fun none_ => absurd none_ some_, fun _ => stepSize,
      fun _ => stepBlock⟩,
      decide (last.sv = endRun), endrun, fun e => ⟨last, among, of_decide_eq_true e⟩⟩

/-- What a view gives out of a file. -/
lemma Stream.Follows.view (follows : s.Follows file out) (sorted : Ascending file)
    (unseen : s.buf.hasUnseen) (h : s.move limitTs = .ok s') :
    ∃ part, s'.Follows file (out ++ part) ∧ s.Gives limitTs part s' := by
  obtain ⟨seen, avail, rest, split, sub, reads⟩ := follows
  cases avail with
  | nil => exact absurd rfl (reads.hasUnseen_iff.mp unseen)
  | cons d ds =>
    have sorted' : Ascending (d :: ds) := by
      rw [split, List.append_assoc] at sorted
      exact (List.pairwise_append.mp (List.pairwise_append.mp sorted).2.1).1
    obtain ⟨reads', gives, -⟩ := reads.view sorted' h
    refine ⟨upTo limitTs (d :: ds), ⟨_, _, _, ?_, ?_, reads'⟩, gives⟩
    · rw [List.append_assoc out, upTo, List.takeWhile_append_dropWhile]
      exact split
    · obtain ⟨before, e⟩ := sub
      exact ⟨before, by rw [← List.append_assoc, e]⟩

end view

section run
variable {files : List (List SmdDgram)} {file : List SmdDgram} {ops : List SmdOp} {a b : Reading}
  {i chunksize : Nat} {fakestepFlag : Bool}

/-- At the start nothing of a file has been read. -/
lemma Stream.Follows.start (file : List SmdDgram) : ({ unread := flat file } : Stream).Follows file [] := by
  refine ⟨[], [], file, rfl, List.suffix_refl [],
    ⟨.empty _ ⟨rfl, rfl⟩, .empty _ ⟨rfl, rfl⟩, rfl, ⟨Nat.le_refl 0, Nat.le_refl 0⟩, rfl, ?_⟩, rfl, rfl⟩
  intro d _
  have header := d.header
  rw [sizeofDgram] at header
  show 0 < d.bytes.length
  omega

/-- A reading has a stream for each file. -/
lemma Reading.new_stream (chunksize : Nat) (fakestepFlag : Bool) (hf : files[i]? = some file) :
    (Reading.new chunksize fakestepFlag files).reader.streams[i]? = some { unread := flat file } := by
  show ((files.map flat).map fun unread => ({ unread } : Stream))[i]? = _
  rw [List.getElem?_map, List.getElem?_map, hf]
  rfl

/-- What a call gives out of a file, and what a view makes of it. -/
lemma Reading.follows_step {op : SmdOp} {stream : Stream} {out : List SmdDgram}
    (hs : a.reader.streams[i]? = some stream) (follows : stream.Follows file out)
    (sorted : Ascending file) (allowed : Reading.Allowed ops a op) (h : a.step op = .ok b) :
    ∃ stream' out', b.reader.streams[i]? = some stream' ∧ stream'.Follows file out' := by
  cases op with
  | get wants retries =>
    cases h
    obtain ⟨stream', hs', fetched⟩ := get_stream a.reader wants retries hs
    exact ⟨stream', out, hs', follows.get fetched⟩
  | view batchSize intgStreamId =>
    obtain ⟨winner, nViewEvents, last, limitTs, selected, viewed, -⟩ := Reading.step_view h
    obtain ⟨-, -, moved⟩ := view_spec selected viewed
    obtain ⟨stream', hmove, hs'⟩ := moved i stream hs
    have unseen := List.all_eq_true.mp allowed stream (List.mem_of_getElem? hs)
    obtain ⟨part, follows', -⟩ := follows.view sorted unseen hmove
    exact ⟨stream', out ++ part, hs', follows'⟩

/-- Every file of a run is followed. -/
lemma Reading.follows_run (sorted : ∀ file ∈ files, Ascending file)
    (run : Run Reading.step Reading.Allowed (.new chunksize fakestepFlag files) ops a)
    (hf : files[i]? = some file) :
    ∃ stream out, a.reader.streams[i]? = some stream ∧ stream.Follows file out := by
  refine Run.invariant
    (P := fun _ a => ∃ stream out, a.reader.streams[i]? = some stream ∧ stream.Follows file out) ?_ ?_ run
  · exact ⟨_, [], Reading.new_stream chunksize fakestepFlag hf, .start file⟩
  · intro _ _ _ _ follows allowed step
    obtain ⟨stream, out, hs, follows⟩ := follows
    exact Reading.follows_step hs follows (sorted file (List.mem_of_getElem? hf)) allowed step

/-- The number of files stays what it is. -/
lemma Reading.length_run
    (run : Run Reading.step Reading.Allowed (.new chunksize fakestepFlag files) ops a) :
    a.reader.streams.length = files.length := by
  refine Run.invariant (P := fun _ a => a.reader.streams.length = files.length) ?_ ?_ run
  · exact (List.length_map _).trans (List.length_map _)
  · intro _ s op t length _ step
    cases op with
    | get wants retries =>
      cases step
      exact (get_length s.reader wants retries).trans length
    | view batchSize intgStreamId =>
      obtain ⟨_, _, _, _, selected, viewed, -⟩ := Reading.step_view step
      exact (view_spec selected viewed).2.1.trans length

end run

end Lcls2.Psana
