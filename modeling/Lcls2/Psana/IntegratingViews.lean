import Lcls2.Psana.SmdOrder
import Lcls2.Psana.Refills

/-!
# Views of an integrating stream

With an integrating stream the limit of a view is the timestamp of a dgram of that stream, whatever has been read of
the others. A view is to divide every file at its limit, so that what belongs together is not divided between two
views; `undivided_iff` says that what is not read yet has to be later.
-/

namespace Lcls2.Psana
open Lib

/-- What has been given out of a file. -/
def Reading.given (s : Reading) (i : Nat) : Bytes := s.views.flatMap fun v => v.blocks.getD i []

/-- The last view has divided every file at its limit. -/
def Reading.Undivided (files : List (List SmdDgram)) (s : Reading) : Prop :=
  ∀ v ∈ s.views.getLast?, ∀ (i : Nat) (file : List SmdDgram), files[i]? = some file →
    s.given i = flat (upTo v.limitTs file)

/-- The dgrams of a file that are not ready in its chunk. -/
def Stream.notReady (s : Stream) : List Bytes := (frames dgramFront (s.leftover ++ s.unread)).1

/-- The timestamp of the last dgram of a batch of a stream. -/
def Stream.batchEnd (s : Stream) (batchSize : Nat) : Option Nat :=
  (s.buf.entries[s.buf.nSeenEvents + min batchSize (s.buf.nReadyEvents - s.buf.nSeenEvents) - 1]?).map Entry.ts

/-- `view` is called for the integrating stream, when every file has an unseen dgram. -/
def Reading.Integrating (intgStreamId : Nat) (_ : List SmdOp) (s : Reading) : SmdOp → Prop
  | .get _ _ => True
  | .view _ stream => s.reader.isComplete ∧ stream = some intgStreamId

/-- And what is not ready of a file is later than the end of the batch of the integrating stream. -/
def Reading.ReadUpTo (intgStreamId : Nat) (ops : List SmdOp) (s : Reading) (op : SmdOp) : Prop :=
  Reading.Integrating intgStreamId ops s op ∧
    match op with
    | .get _ _ => True
    | .view batchSize _ =>
      ∀ intg ∈ s.reader.streams[intgStreamId]?, ∀ endTs ∈ intg.batchEnd batchSize,
        ∀ stream ∈ s.reader.streams, ∀ d ∈ stream.notReady, endTs < headerTimestamp d

instance (k : Nat) (ops : List SmdOp) (s : Reading) : (op : SmdOp) → Decidable (Reading.Integrating k ops s op)
  | .get _ _ => .isTrue trivial
  | .view _ stream => inferInstanceAs (Decidable (s.reader.isComplete = true ∧ stream = some k))

instance (k : Nat) (ops : List SmdOp) (s : Reading) : (op : SmdOp) → Decidable (Reading.ReadUpTo k ops s op)
  | .get _ _ => .isTrue ⟨trivial, trivial⟩
  | .view batchSize stream =>
    inferInstanceAs (Decidable ((s.reader.isComplete = true ∧ stream = some k) ∧
      ∀ intg ∈ s.reader.streams[k]?, ∀ endTs ∈ intg.batchEnd batchSize,
        ∀ stream ∈ s.reader.streams, ∀ d ∈ stream.notReady, endTs < headerTimestamp d))

section dgrams
variable {out out' rest rest' avail file : List SmdDgram} {d : SmdDgram} {limitTs : Nat}

/-- Dgrams are not empty. -/
lemma flat_eq_nil (h : flat out = []) : out = [] := by
  cases out with
  | nil => rfl
  | cons d ds =>
    have header := d.header
    rw [flat_cons, List.append_eq_nil_iff] at h
    rw [h.1, sizeofDgram] at header
    cases header

/-- Two first parts of a file with the same bytes. -/
lemma flat_prefix (split : out ++ rest = out' ++ rest') (same : flat out = flat out') : rest = rest' := by
  cases List.append_eq_append_iff.mp split with
  | inl h =>
    obtain ⟨more, rfl, rfl⟩ := h
    rw [flat_append, List.self_eq_append_right] at same
    rw [flat_eq_nil same, List.nil_append]
  | inr h =>
    obtain ⟨more, rfl, rfl⟩ := h
    have same := same.symm
    rw [flat_append, List.self_eq_append_right] at same
    rw [flat_eq_nil same, List.nil_append]

/-- The dgrams up to a limit and those beyond it. -/
lemma upTo_split : upTo limitTs file ++ (file.dropWhile fun d => d.ts ≤ limitTs) = file :=
  List.takeWhile_append_dropWhile

/-- A file that is divided at a limit. -/
lemma upTo_append (upToLimit : ∀ d ∈ out, d.ts ≤ limitTs) (later : ∀ d ∈ rest, limitTs < d.ts) :
    upTo limitTs (out ++ rest) = out := by
  induction out with
  | nil => exact upTo_of_later later
  | cons d out ih =>
    rw [List.cons_append, upTo_cons_of_le (upToLimit d List.mem_cons_self)]
    rw [ih fun d' hd => upToLimit d' (List.mem_cons_of_mem d hd)]

/-- A dgram up to the limit is taken. -/
lemma mem_upTo (sorted : Ascending avail) (hd : d ∈ avail) (within : d.ts ≤ limitTs) : d ∈ upTo limitTs avail := by
  rw [← @upTo_split avail limitTs] at hd
  cases List.mem_append.mp hd with
  | inl taken => exact taken
  | inr left => exact absurd within (Nat.not_le_of_lt (dropWhile_later sorted d left))

end dgrams

section stream
variable {s s' : Stream} {file out seen avail rest : List SmdDgram} {batchSize limitTs : Nat}

/-- The dgrams that are not ready are the last ones of the file. -/
lemma Stream.Reads.notReady (reads : s.Reads seen avail rest) : s.notReady = rest.map SmdDgram.bytes := by
  have cut : Cut [] [] [] := ⟨rfl, nofun⟩
  have whole : frames dgramFront (flat rest ++ []) = (rest.map SmdDgram.bytes, []) := frames_flat cut
  rw [List.append_nil] at whole
  rw [Stream.notReady, Stream.leftover, reads.left.whole, whole]

/-- The limit of a window is the timestamp of the last dgram of the batch. -/
lemma window_batchEnd {nViewEvents : Nat} {last : Entry} (reads : s.Reads seen avail rest) (some_ : avail ≠ [])
    (h : SmdReader.window s.buf batchSize = .ok (nViewEvents, last, limitTs)) :
    s.batchEnd batchSize = some limitTs ∧
      ∃ d, (seen ++ avail.take batchSize).getLast? = some d ∧ d.ts = limitTs := by
  have events : s.buf.nReadyEvents - s.buf.nSeenEvents = avail.length := by
    rw [reads.buf.ready, reads.nSeen, List.length_append, Nat.add_sub_cancel_left]
  have entryAt : ∀ d, (seen ++ avail.take batchSize).getLast? = some d →
      ∃ e, s.buf.entries[s.buf.nSeenEvents + min batchSize avail.length - 1]? = some e ∧ e.ts = d.ts := by
    intro d hd
    obtain ⟨init, e⟩ := List.getLast?_eq_some_iff.mp hd
    have holds := reads.buf
    rw [← List.take_append_drop batchSize avail, ← List.append_assoc, e, List.append_assoc,
      List.singleton_append] at holds
    have length := congrArg List.length e
    rw [List.length_append, List.length_append, List.length_take, List.length_singleton] at length
    rw [reads.nSeen, length, Nat.add_sub_cancel]
    exact ⟨_, holds.entry, rfl⟩
  rw [SmdReader.window] at h
  simp only [events] at h
  rw [Stream.batchEnd, events]
  cases hd : (seen ++ avail.take batchSize).getLast? with
  | none =>
    -- an empty batch of a chunk of which nothing has been seen
    rw [List.getLast?_eq_none_iff, List.append_eq_nil_iff, List.take_eq_nil_iff] at hd
    obtain ⟨rfl, none_ | none_⟩ := hd
    · have pos := List.length_pos_iff.mpr some_
      rw [reads.nSeen, none_, if_pos pos] at h
      cases h
    · exact absurd none_ some_
  | some d =>
    obtain ⟨e, entry, he⟩ := entryAt d hd
    rw [entry]
    have limit : d.ts = limitTs := by
      cases Nat.lt_or_ge batchSize avail.length with
      | inl cut =>
        simp only [if_pos cut] at h
        rw [Nat.min_eq_left (Nat.le_of_lt cut)] at entry
        split at h
        · cases h
        · rename_i iEob hEob
          rw [hEob] at entry
          have entry : s.buf.entries[iEob]? = some e := entry
          rw [entry] at h
          cases h
          exact he.symm
      | inr whole =>
        obtain ⟨final, hfinal, timestamp⟩ := reads.timestamp some_
        rw [List.take_of_length_le whole, List.getLast?_append, hfinal] at hd
        cases hd
        simp only [if_neg (Nat.not_lt_of_le whole)] at h
        split at h
        · cases h
        · split at h
          · cases h
          · cases h
            exact timestamp.symm
    exact ⟨congrArg some (he.trans limit), d, rfl, limit⟩

/-- A view divides a file: what has been given out, what it gives, what is left of the chunk, and what is not ready.
    Where it is a stream's own window that has set the limit, that is the timestamp of a dgram up to the end of
    its batch. -/
structure Stream.Divides (s s' : Stream) (file out part left rest : List SmdDgram) (limitTs : Nat) : Prop where
  split : file = out ++ part ++ (left ++ rest)
  notReady : s.notReady = rest.map SmdDgram.bytes
  follows : s'.Follows file (out ++ part)
  gives : s.Gives limitTs part s'
  upToLimit : ∀ d ∈ part, d.ts ≤ limitTs
  later : ∀ d ∈ left, limitTs < d.ts
  window : ∀ (batchSize nViewEvents : Nat) (last : Entry),
    SmdReader.window s.buf batchSize = .ok (nViewEvents, last, limitTs) →
      s.batchEnd batchSize = some limitTs ∧ (∃ d ∈ out ++ part, d.ts = limitTs) ∧ ∀ d ∈ out, d.ts ≤ limitTs

/-- What a view makes of a file. -/
lemma Stream.Follows.divide (follows : s.Follows file out) (sorted : Ascending file) (unseen : s.buf.hasUnseen)
    (h : s.move limitTs = .ok s') : ∃ part left rest, s.Divides s' file out part left rest limitTs := by
  obtain ⟨seen, avail, rest, split, ⟨before, sub⟩, reads⟩ := follows
  have some_ := reads.hasUnseen_iff.mp unseen
  have sortedAvail : Ascending avail := by
    rw [split, List.append_assoc] at sorted
    exact (List.pairwise_append.mp (List.pairwise_append.mp sorted).2.1).1
  obtain ⟨d, ds, rfl⟩ := List.exists_cons_of_ne_nil some_
  obtain ⟨reads', gives, -⟩ := reads.view sortedAvail h
  have regroup : file = out ++ upTo limitTs (d :: ds) ++ (((d :: ds).dropWhile fun d => d.ts ≤ limitTs) ++ rest) := by
    rw [List.append_assoc, ← List.append_assoc (upTo limitTs (d :: ds)), upTo_split, ← List.append_assoc]
    exact split
  refine ⟨_, _, rest, regroup, reads.notReady, ⟨_, _, _, ?_, ?_, reads'⟩, gives, fun d hd => upTo_le d hd,
    dropWhile_later sortedAvail, ?_⟩
  · rw [List.append_assoc, ← regroup]
  · exact ⟨before, by rw [← List.append_assoc, sub]⟩
  · intro batchSize nViewEvents last window
    obtain ⟨batchEnd, final, hfinal, e⟩ := window_batchEnd reads some_ window
    subst e
    refine ⟨batchEnd, ⟨final, ?_, rfl⟩, ?_⟩
    · cases List.mem_append.mp (List.mem_of_getLast? hfinal) with
      | inr ready => exact List.mem_append_right _ (mem_upTo sortedAvail (List.mem_of_mem_take ready) (Nat.le_refl _))
      | inl early =>
        apply List.mem_append_left
        rw [← sub]
        exact List.mem_append_right _ early
    · intro d' hd
      have order : Ascending (out ++ (d :: ds).take batchSize) := by
        apply List.Pairwise.sublist _ sorted
        rw [split, List.append_assoc]
        exact (List.Sublist.refl out).append ((List.take_sublist _ _).trans (List.sublist_append_left _ _))
      apply order.le_last
      · rw [← sub, List.append_assoc, List.getLast?_append, hfinal]
        rfl
      · exact List.mem_append_left _ hd

end stream

namespace Reading
variable {files : List (List SmdDgram)} {intgStreamId : Nat} {a b : Reading}

/-- What has been given out is the first part of each file, up to the limit of the last view, which is the timestamp of
    a dgram of the integrating stream that has been given out. -/
structure Gives (intgStreamId : Nat) (files : List (List SmdDgram)) (s : Reading) : Prop where
  perFile : s.reader.streams.length = files.length
  each : ∀ (i : Nat) (file : List SmdDgram), files[i]? = some file →
    ∃ stream out, s.reader.streams[i]? = some stream ∧ stream.Follows file out ∧ s.given i = flat out ∧
      ∀ v ∈ s.views.getLast?, (∀ d ∈ out, d.ts ≤ v.limitTs) ∧ (i = intgStreamId → ∃ d ∈ out, d.ts = v.limitTs)

lemma Gives.start (chunksize : Nat) (fakestepFlag : Bool) (files : List (List SmdDgram)) :
    Gives intgStreamId files (.new chunksize fakestepFlag files) := by
  refine ⟨(List.length_map _).trans (List.length_map _), ?_⟩
  intro i file hf
  exact ⟨_, [], new_stream chunksize fakestepFlag hf, .start file, rfl, nofun⟩

/-- Reading more gives nothing out. -/
lemma Gives.get (gives : a.Gives intgStreamId files) (wants : List Nat) (retries : List (List Nat)) :
    Gives intgStreamId files { a with reader := a.reader.get wants retries } := by
  refine ⟨(get_length ..).trans gives.perFile, ?_⟩
  intro i file hf
  obtain ⟨stream, out, hs, follows, given⟩ := gives.each i file hf
  obtain ⟨stream', hs', fetched⟩ := get_stream a.reader wants retries hs
  exact ⟨stream', out, hs', follows.get fetched, given⟩

/-- The window of the integrating stream. -/
lemma selectWindow_some {r : SmdReader} {batchSize winner nViewEvents limitTs : Nat} {last : Entry}
    (h : r.selectWindow batchSize (some intgStreamId) = .ok (winner, nViewEvents, last, limitTs)) :
    ∃ intg, r.streams[intgStreamId]? = some intg ∧
      SmdReader.window intg.buf batchSize = .ok (nViewEvents, last, limitTs) := by
  rw [SmdReader.selectWindow] at h
  simp only [SmdReader.selectWinner] at h
  cases hintg : r.streams[intgStreamId]? with
  | none =>
    rw [hintg] at h
    cases h
  | some intg =>
    rw [hintg] at h
    obtain ⟨found, window, h⟩ := bind_ok h
    cases h
    exact ⟨intg, rfl, window⟩

/-- A view of the integrating stream divides every file, and what has been given out is up to its limit. -/
lemma Gives.parts (gives : a.Gives intgStreamId files) (sorted : ∀ file ∈ files, Ascending file)
    (complete : a.reader.isComplete = true) {batchSize : Nat}
    (h : a.step (.view batchSize (some intgStreamId)) = .ok b) :
    ∃ v intg, b.views.getLast? = some v ∧ a.reader.streams[intgStreamId]? = some intg ∧
      intg.batchEnd batchSize = some v.limitTs ∧ b.reader.streams.length = files.length ∧
      ∀ (i : Nat) (file : List SmdDgram), files[i]? = some file →
        ∃ stream stream' out part left rest, a.reader.streams[i]? = some stream ∧
          b.reader.streams[i]? = some stream' ∧ stream.Divides stream' file out part left rest v.limitTs ∧
          b.given i = flat (out ++ part) ∧ (∀ d ∈ out ++ part, d.ts ≤ v.limitTs) ∧
          (i = intgStreamId → ∃ d ∈ out ++ part, d.ts = v.limitTs) := by
  obtain ⟨winner, nViewEvents, last, limitTs, selected, viewed, views⟩ := step_view h
  obtain ⟨-, length, moved⟩ := view_spec selected viewed
  have each : ∀ (i : Nat) (file : List SmdDgram), files[i]? = some file →
      ∃ stream stream' out part left rest, a.reader.streams[i]? = some stream ∧
        b.reader.streams[i]? = some stream' ∧ stream.Divides stream' file out part left rest limitTs ∧
        a.given i = flat out ∧ b.given i = flat (out ++ part) ∧
        ∀ v ∈ a.views.getLast?, (∀ d ∈ out, d.ts ≤ v.limitTs) ∧
          (i = intgStreamId → ∃ d ∈ out, d.ts = v.limitTs) := by
    intro i file hf
    obtain ⟨stream, out, hs, follows, given, upToLast⟩ := gives.each i file hf
    obtain ⟨stream', hmove, hs'⟩ := moved i stream hs
    have unseen := List.all_eq_true.mp complete stream (List.mem_of_getElem? hs)
    obtain ⟨part, left, rest, divides⟩ := follows.divide (sorted file (List.mem_of_getElem? hf)) unseen hmove
    have block : b.reader.blocks.getD i [] = flat part := by
      rw [List.getD_eq_getElem?_getD, SmdReader.blocks, List.getElem?_map, hs']
      exact divides.gives.blockOf
    refine ⟨stream, stream', out, part, left, rest, hs, hs', divides, given, ?_, upToLast⟩
    rw [Reading.given, views, List.flatMap_append, List.flatMap_singleton, flat_append, ← given, block]
    rfl
  obtain ⟨intg, hintg, window⟩ := selectWindow_some selected
  have inside := (List.getElem?_eq_some_iff.mp hintg).1
  rw [gives.perFile] at inside
  obtain ⟨intg', moved', before, part, left, rest, hintg', -, divides, -, -, upToLast⟩ :=
    each _ _ (List.getElem?_eq_getElem inside)
  rw [hintg] at hintg'
  cases hintg'
  obtain ⟨batchEnd, -, upToLimit⟩ := divides.window batchSize nViewEvents last window
  refine ⟨_, intg, by rw [views, List.getLast?_concat], hintg, batchEnd, length.trans gives.perFile, ?_⟩
  intro i file hf
  obtain ⟨stream, stream', out, part, left, rest, hs, hs', divides, given, given', before⟩ := each i file hf
  refine ⟨stream, stream', out, part, left, rest, hs, hs', divides, given', ?_, ?_⟩
  · intro d hd
    cases List.mem_append.mp hd with
    | inr now => exact divides.upToLimit d now
    | inl early =>
      -- the limit is not before that of the last view
      cases hv : a.views.getLast? with
      | none =>
        rw [Reading.given, List.getLast?_eq_none_iff.mp hv] at given
        rw [flat_eq_nil given.symm] at early
        cases early
      | some v =>
        obtain ⟨d', hd', e⟩ := (upToLast v hv).2 rfl
        calc d.ts ≤ v.limitTs := (before v hv).1 d early
          _ = d'.ts := e.symm
          _ ≤ limitTs := upToLimit d' hd'
  · intro e
    subst e
    rw [hintg] at hs
    cases hs
    exact (divides.window batchSize nViewEvents last window).2.1

/-- A view keeps what has been given out up to its limit. -/
lemma Gives.view (gives : a.Gives intgStreamId files) (sorted : ∀ file ∈ files, Ascending file)
    (complete : a.reader.isComplete = true) {batchSize : Nat}
    (h : a.step (.view batchSize (some intgStreamId)) = .ok b) : b.Gives intgStreamId files := by
  obtain ⟨v, -, hv, -, -, perFile, each⟩ := gives.parts sorted complete h
  refine ⟨perFile, ?_⟩
  intro i file hf
  obtain ⟨stream, stream', out, part, left, rest, -, hs', divides, given, upToLimit, reached⟩ := each i file hf
  refine ⟨stream', _, hs', divides.follows, given, ?_⟩
  intro v' hv'
  rw [hv] at hv'
  cases hv'
  exact ⟨upToLimit, reached⟩

/-- A view divides every file at its limit exactly where what is not ready is later. -/
lemma Gives.judge (gives : a.Gives intgStreamId files) (sorted : ∀ file ∈ files, Ascending file)
    (complete : a.reader.isComplete = true) {batchSize : Nat}
    (h : a.step (.view batchSize (some intgStreamId)) = .ok b) :
    b.Undivided files ↔
      ∀ intg ∈ a.reader.streams[intgStreamId]?, ∀ endTs ∈ intg.batchEnd batchSize,
        ∀ stream ∈ a.reader.streams, ∀ d ∈ stream.notReady, endTs < headerTimestamp d := by
  obtain ⟨v, intg, hv, hintg, batchEnd, -, each⟩ := gives.parts sorted complete h
  constructor
  · intro undivided intg' hintg' endTs hend stream hstream d hd
    rw [hintg] at hintg'
    cases hintg'
    rw [batchEnd] at hend
    cases hend
    obtain ⟨i, hs⟩ := List.mem_iff_getElem?.mp hstream
    have inside := (List.getElem?_eq_some_iff.mp hs).1
    rw [gives.perFile] at inside
    have hf := List.getElem?_eq_getElem inside
    obtain ⟨stream', moved, out, part, left, rest, hs', -, divides, given, -, -⟩ := each i _ hf
    rw [hs] at hs'
    cases hs'
    rw [divides.notReady] at hd
    obtain ⟨d, unread, rfl⟩ := List.mem_map.mp hd
    have cut := divides.split.symm.trans (@upTo_split _ v.limitTs).symm
    have same := flat_prefix cut (given.symm.trans (undivided v hv i _ hf))
    apply dropWhile_later (sorted _ (List.getElem_mem inside)) d
    rw [← same]
    exact List.mem_append_right _ unread
  · intro later v' hv' i file hf
    rw [hv] at hv'
    cases hv'
    obtain ⟨stream, moved, out, part, left, rest, hs, -, divides, given, upToLimit, -⟩ := each i file hf
    rw [given, divides.split, upTo_append upToLimit]
    intro d hd
    cases List.mem_append.mp hd with
    | inl ready => exact divides.later d ready
    | inr unread =>
      apply later intg hintg _ batchEnd stream (List.mem_of_getElem? hs)
      rw [divides.notReady]
      exact List.mem_map_of_mem unread

end Reading

/-- In every run with an integrating stream over files of increasing timestamps, every view divides every file at
    its limit exactly where every view is called when what is not ready of a file is later than the end of the
    integrating stream's batch. -/
theorem undivided_iff (chunksize : Nat) (fakestepFlag : Bool) (files : List (List SmdDgram)) (intgStreamId : Nat)
    (sorted : ∀ file ∈ files, Ascending file) (ops : List SmdOp) (s : Reading)
    (run : Run Reading.step (Reading.Integrating intgStreamId) (.new chunksize fakestepFlag files) ops s) :
    (∀ bs t, bs <+: ops →
      Run Reading.step (Reading.Integrating intgStreamId) (.new chunksize fakestepFlag files) bs t →
        t.Undivided files) ↔
      Run Reading.step (Reading.ReadUpTo intgStreamId) (.new chunksize fakestepFlag files) ops s := by
  refine @Run.everywhere_iff _ _ _ _ _ _ _ (fun _ s => s.Gives intgStreamId files) (fun _ s => s.Undivided files)
    ?_ ?_ ?_ ?_ _ _ run
  · exact .start chunksize fakestepFlag files
  · exact nofun
  · intro _ s op t gives ok step
    cases op with
    | get wants retries =>
      cases step
      exact gives.get wants retries
    | view batchSize stream =>
      obtain ⟨⟨complete, rfl⟩, -⟩ := ok
      exact gives.view sorted complete step
  · intro _ s op t gives undivided allowed step
    cases op with
    | get wants retries =>
      cases step
      exact iff_of_true undivided ⟨trivial, trivial⟩
    | view batchSize stream =>
      have integrating := allowed
      obtain ⟨complete, rfl⟩ := integrating
      exact (gives.judge sorted complete step).trans (and_iff_right allowed).symm

/-- The second file has dgrams at the same times as the integrating stream, which is the first, and between. -/
def integratedFiles : List (List SmdDgram) :=
  [[plainDgram 12 5, plainDgram 12 10], [plainDgram 12 4, plainDgram 12 5, plainDgram 12 9, plainDgram 12 10]]

theorem integratedFiles_ascending : ∀ file ∈ integratedFiles, Ascending file := by
  unfold Ascending
  decide +kernel

/-- Chunks that hold two dgrams: the first view takes the time 5 of both files, and the second one the time 10. -/
theorem undivided_two :
    ∃ s, Run Reading.step (Reading.Integrating 0) (.new 48 false integratedFiles)
        [.get [48, 48] [], .view 1 (some 0), .get [48, 48] [], .view 1 (some 0)] s ∧
      s.Undivided integratedFiles ∧ s.views.map View.limitTs = [5, 10] := by
  obtain ⟨s, run, test⟩ := Run.of_replay_any Reading.step (Reading.ReadUpTo 0) (.new 48 false integratedFiles)
    [.get [48, 48] [], .view 1 (some 0), .get [48, 48] [], .view 1 (some 0)]
    (fun s => s.views.map View.limitTs = [5, 10]) (by decide +kernel)
  have integrating := run.mono fun _ _ _ ok => ok.1
  refine ⟨s, integrating, ?_, of_decide_eq_true test⟩
  exact (undivided_iff 48 false integratedFiles 0 integratedFiles_ascending _ s integrating).mpr run _ s
    List.prefix_rfl integrating

/-- Chunks that hold one dgram: the first view has the limit 5, and the dgram of the time 5 of the second file comes
    with the second view, in which there is none of the integrating stream. -/
theorem event_divided :
    (∀ file ∈ integratedFiles, Ascending file) ∧
    ∃ s, Run Reading.step (Reading.Integrating 0) (.new 24 false integratedFiles)
        [.get [24, 24] [], .view 1 (some 0)] s ∧
      s.views.map View.limitTs = [5] ∧
      s.views.map View.blocks = [[(plainDgram 12 5).bytes, (plainDgram 12 4).bytes]] ∧
      ¬ s.Undivided integratedFiles := by
  obtain ⟨s, run, test⟩ := Run.of_replay_any Reading.step (Reading.Integrating 0) (.new 24 false integratedFiles)
    [.get [24, 24] [], .view 1 (some 0)]
    (fun s => s.views.map View.limitTs = [5] ∧
      s.views.map View.blocks = [[(plainDgram 12 5).bytes, (plainDgram 12 4).bytes]])
    (by decide +kernel)
  obtain ⟨limits, blocks⟩ := of_decide_eq_true test
  refine ⟨integratedFiles_ascending, s, run, limits, blocks, ?_⟩
  intro undivided
  obtain ⟨v, hv, limit⟩ := List.map_eq_singleton_iff.mp limits
  have given := undivided v (by rw [hv, List.getLast?_singleton]; rfl) 1 _ rfl
  rw [hv] at blocks
  have blocks : v.blocks = [(plainDgram 12 5).bytes, (plainDgram 12 4).bytes] := (List.cons_eq_cons.mp blocks).1
  rw [Reading.given, hv, List.flatMap_singleton, blocks, limit] at given
  revert given
  decide +kernel

end Lcls2.Psana
