import Lcls2.Psana.SmdShow

/-!
# Views in the order of time

Without an integrating stream the limit of a view is at most the last timestamp in each chunk. So a view
takes from each file what is up to the limit, also of what has not been read yet, and leaves what is later.
-/

namespace Lcls2.Psana
open Lib

section slowest
variable {streams done : List Stream} {winner : Option Nat} {limitTs : Nat}

/-- The slowest of the streams that have been looked at. -/
def IsSlowest (done : List Stream) (winner : Option Nat) (limitTs : Nat) : Prop :=
  ∃ w s, winner = some w ∧ done[w]? = some s ∧ s.buf.timestamp = limitTs ∧
    ∀ s' ∈ done, limitTs ≤ s'.buf.timestamp

/-- The search goes on to the slowest of all streams. -/
lemma slowest_spec (nonzero : ∀ s ∈ streams, s.buf.timestamp ≠ 0)
    (before : (done = [] ∧ limitTs = 0) ∨ (limitTs ≠ 0 ∧ IsSlowest done winner limitTs)) :
    (done ++ streams = []) ∨
      ∃ limitTs', IsSlowest (done ++ streams) (SmdReader.slowest done.length streams winner limitTs) limitTs' := by
  induction streams generalizing done winner limitTs with
  | nil =>
    rw [List.append_nil, SmdReader.slowest]
    cases before with
    | inl none_ => exact .inl none_.1
    | inr some_ => exact .inr ⟨limitTs, some_.2⟩
  | cons s streams ih =>
    have first : s.buf.timestamp ≠ 0 := nonzero s List.mem_cons_self
    have others := fun s' hs => nonzero s' (List.mem_cons_of_mem s hs)
    have shift : done ++ s :: streams = (done ++ [s]) ++ streams := by
      rw [List.append_assoc, List.singleton_append]
    have length : done.length + 1 = (done ++ [s]).length := by
      rw [List.length_append, List.length_singleton]
    rw [SmdReader.slowest, shift, length]
    split
    · rename_i slower
      apply ih others
      refine .inr ⟨first, done.length, s, rfl, List.getElem?_concat_length, rfl, ?_⟩
      intro s' hs
      cases List.mem_append.mp hs with
      | inr same => rw [List.mem_singleton.mp same]
      | inl earlier =>
        cases before with
        | inl none_ =>
          rw [none_.1] at earlier
          cases earlier
        | inr some_ =>
          -- It is slower than the one found, so it is slower than all before.
          obtain ⟨positive, -, -, -, -, -, least⟩ := some_
          have slower : s.buf.timestamp < limitTs := slower.resolve_right positive
          exact Nat.le_trans (Nat.le_of_lt slower) (least s' earlier)
    · rename_i faster
      rw [not_or] at faster
      apply ih others
      cases before with
      | inl none_ => exact absurd none_.2 faster.2
      | inr some_ =>
        obtain ⟨positive, w, s₀, hw, hs₀, e, least⟩ := some_
        have inside : w < done.length := (List.getElem?_eq_some_iff.mp hs₀).1
        refine .inr ⟨positive, w, s₀, hw, ?_, e, ?_⟩
        · rw [List.getElem?_append_left inside, hs₀]
        · intro s' hs
          cases List.mem_append.mp hs with
          | inl earlier => exact least s' earlier
          | inr same =>
            rw [List.mem_singleton.mp same]
            exact Nat.le_of_not_lt faster.1

end slowest

section limit
variable {s : Stream} {seen avail rest : List SmdDgram} {d : SmdDgram}
  {batchSize nViewEvents limitTs : Nat} {last : Entry}

/-- The last timestamp of a chunk with unseen dgrams. -/
lemma Stream.Reads.timestamp (reads : s.Reads seen avail rest) (some_ : avail ≠ []) :
    ∃ d, avail.getLast? = some d ∧ s.buf.timestamp = d.ts := by
  cases h : avail.getLast? with
  | none => exact absurd (List.getLast?_eq_none_iff.mp h) some_
  | some d =>
    refine ⟨d, rfl, reads.buf.last d ?_⟩
    rw [List.getLast?_append, h]
    exact rfl

/-- The dgrams of a chunk are not later than its last one. -/
lemma Ascending.le_last (sorted : Ascending avail) (h : avail.getLast? = some d) :
    ∀ d' ∈ avail, d'.ts ≤ d.ts := by
  intro d' hd
  obtain ⟨init, e⟩ := List.getLast?_eq_some_iff.mp h
  rw [e] at hd sorted
  cases List.mem_append.mp hd with
  | inl before =>
    have order := (List.pairwise_append.mp sorted).2.2
    exact Nat.le_of_lt (order d' before d (List.mem_singleton_self d))
  | inr same => rw [List.mem_singleton.mp same]

/-- What is not taken is later. -/
lemma dropWhile_later (sorted : Ascending avail) :
    ∀ d ∈ avail.dropWhile fun d => d.ts ≤ limitTs, limitTs < d.ts := by
  intro d' left
  cases dropped : avail.dropWhile fun d => d.ts ≤ limitTs with
  | nil =>
    rw [dropped] at left
    cases left
  | cons first others =>
    have beyond : limitTs < first.ts := by
      have stops := List.head?_dropWhile_not (fun d : SmdDgram => decide (d.ts ≤ limitTs)) avail
      rw [dropped] at stops
      simpa using stops
    have sub : (first :: others).Pairwise fun d d' => d.ts < d'.ts := by
      rw [← dropped]
      exact sorted.sublist (List.dropWhile_sublist _)
    rw [dropped] at left
    cases List.mem_cons.mp left with
    | inl same => rwa [same]
    | inr later => exact Nat.lt_trans beyond ((List.pairwise_cons.mp sub).1 d' later)

/-- What is taken up to a timestamp at most that of the last dgram: all that is later stays, also of what
    has not been read. -/
lemma later_stays (sorted : Ascending (avail ++ rest)) (h : avail.getLast? = some d)
    (below : limitTs ≤ d.ts) :
    ∀ d' ∈ (avail.dropWhile fun d => d.ts ≤ limitTs) ++ rest, limitTs < d'.ts := by
  obtain ⟨sortedAvail, -, across⟩ := List.pairwise_append.mp sorted
  have among : d ∈ avail := List.mem_of_getLast? h
  intro d' hd
  cases List.mem_append.mp hd with
  | inr later => exact Nat.lt_of_le_of_lt below (across d among d' later)
  | inl left => exact dropWhile_later sortedAvail d' left

/-- The dgrams of a view are up to its limit. -/
lemma upTo_le : ∀ d ∈ upTo limitTs avail, d.ts ≤ limitTs := by
  intro d hd
  have within := @List.mem_takeWhile_imp _ (fun d : SmdDgram => d.ts ≤ limitTs) _ _ hd
  exact of_decide_eq_true within

/-- The dgrams up to a limit that all behind the first ones are beyond. -/
lemma upTo_length_le {n : Nat} (h : ∀ d ∈ avail.drop n, limitTs < d.ts) :
    (upTo limitTs avail).length ≤ n := by
  induction avail generalizing n with
  | nil => exact Nat.zero_le n
  | cons d ds ih =>
    cases n with
    | zero =>
      rw [List.drop_zero] at h
      rw [upTo_of_later h, List.length_nil]
    | succ n =>
      cases Nat.lt_or_ge limitTs d.ts with
      | inl beyond =>
        rw [upTo_cons_of_lt beyond]
        exact Nat.zero_le _
      | inr within =>
        rw [upTo_cons_of_le within]
        exact Nat.succ_le_succ (ih h)

/-- The window of a view: its limit is at most the last timestamp of the chunk, and the winner has at most
    the batch size of dgrams up to it. -/
lemma window_spec (reads : s.Reads seen avail rest) (some_ : avail ≠ []) (sorted : Ascending (seen ++ avail))
    (h : SmdReader.window s.buf batchSize = .ok (nViewEvents, last, limitTs)) :
    limitTs ≤ s.buf.timestamp ∧ (upTo limitTs avail).length ≤ batchSize := by
  obtain ⟨final, hfinal, timestamp⟩ := reads.timestamp some_
  have events : s.buf.nReadyEvents - s.buf.nSeenEvents = avail.length := by
    rw [reads.buf.ready, reads.nSeen, List.length_append, Nat.add_sub_cancel_left]
  rw [SmdReader.window] at h
  simp only [events] at h
  by_cases cut : batchSize < avail.length
  · simp only [if_pos cut] at h
    split at h
    · cases h
    · rename_i iEob hEob
      split at h
      · cases h
      · rename_i entry hentry
        cases h
        rw [reads.nSeen] at hEob
        have inside : iEob < (seen ++ avail).length := by
          rw [List.length_append]
          omega
        -- the dgram at the end of the batch
        have split := List.take_append_drop iEob (seen ++ avail)
        rw [List.drop_eq_getElem_cons inside] at split
        have before : ((seen ++ avail).take iEob).length = iEob := by
          rw [List.length_take, Nat.min_eq_left (Nat.le_of_lt inside)]
        have holds := reads.buf
        rw [← split] at holds
        have found := holds.entry
        rw [before, hentry] at found
        cases found
        have after : (seen ++ avail).drop (iEob + 1) = avail.drop batchSize := by
          have hEob : seen.length + batchSize = iEob + 1 := hEob
          rw [← hEob, List.drop_length_add_append]
        constructor
        · rw [timestamp]
          apply Ascending.le_last sorted
          · rw [List.getLast?_append, hfinal]
            rfl
          · exact List.getElem_mem inside
        · apply upTo_length_le
          rw [← split] at sorted
          rw [← after]
          exact (List.pairwise_cons.mp (List.pairwise_append.mp sorted).2.1).1
  · simp only [if_neg cut] at h
    split at h
    · cases h
    · split at h
      · cases h
      · cases h
        exact ⟨Nat.le_refl _, Nat.le_trans (List.takeWhile_sublist _).length_le (Nat.le_of_not_lt cut)⟩

/-- A window is found where a dgram is unseen. -/
lemma window_ok (reads : s.Reads seen avail rest) (some_ : avail ≠ []) (positive : 0 < batchSize) :
    ∃ window, SmdReader.window s.buf batchSize = .ok window := by
  have pos := List.length_pos_iff.mpr some_
  have events : s.buf.nReadyEvents - s.buf.nSeenEvents = avail.length := by
    rw [reads.buf.ready, reads.nSeen, List.length_append, Nat.add_sub_cancel_left]
  have length := reads.buf.entries_length
  have ready := reads.buf.ready
  rw [List.length_append] at ready
  rw [SmdReader.window]
  simp only [events]
  split
  · rename_i none_
    have nSeen := reads.nSeen
    split at none_
    · omega
    · omega
  · rename_i iEob hEob
    have nSeen := reads.nSeen
    have inside : iEob < s.buf.entries.length := by
      split at hEob
      · omega
      · omega
    rw [List.getElem?_eq_getElem inside]
    exact ⟨_, rfl⟩

end limit

/-- The block of a view as `SmdReader.blocks` has it. -/
lemma Stream.Gives.blockOf {s s' : Stream} {limitTs : Nat} {part : List SmdDgram}
    (gives : s.Gives limitTs part s') :
    (if 0 < s'.blockSizeBuf then Stream.block s'.buf s'.iStBuf s'.blockSizeBuf else []) = flat part := by
  rw [gives.block, gives.size]
  split
  · rfl
  · rename_i none_
    exact (List.length_eq_zero_iff.mp (Nat.eq_zero_of_not_pos none_)).symm

section stream
variable {s s' : Stream} {file out : List SmdDgram} {views : List View} {limitTs batchSize : Nat}

/-- What has been given out of a file: nothing that is left is as early as the limit of a view. -/
structure Stream.Keeps (s : Stream) (views : List View) (file out : List SmdDgram) : Prop where
  follows : s.Follows file out
  later : ∀ left, file = out ++ left → ∀ v ∈ views, ∀ d ∈ left, v.limitTs < d.ts
  endrun : s.buf.foundEndrun = true → ∃ d ∈ out, d.sv = endRun

/-- A view leaves the timestamp of the last dgram in the chunk. -/
lemma move_timestamp (h : s.move limitTs = .ok s') : s'.buf.timestamp = s.buf.timestamp := by
  have block : ∀ (s : Stream) firstTs, (s.moveBlock limitTs firstTs).buf.timestamp = s.buf.timestamp := by
    intro s firstTs
    rw [Stream.moveBlock]
    split
    · rfl
    · rfl
  have stepBlock : ∀ s : Stream, (s.moveStepBlock limitTs).buf = s.buf := by
    intro s
    rw [Stream.moveStepBlock]
    split
    · rfl
    · rfl
  rw [Stream.move] at h
  split at h
  · cases h
  · simp only at h
    split at h
    · cases h
      rfl
    · cases h
      rw [stepBlock, block]

/-- A view whose limit is at most the last timestamp of the chunk. -/
lemma Stream.Keeps.view (keeps : s.Keeps views file out) (sorted : Ascending file)
    (unseen : s.buf.hasUnseen = true) (below : limitTs ≤ s.buf.timestamp)
    (h : s.move limitTs = .ok s') :
    ∃ part, s.Gives limitTs part s' ∧
      (∀ v : View, v.limitTs = limitTs → s'.Keeps (views ++ [v]) file (out ++ part)) ∧
      (∀ d ∈ part, d.ts ≤ limitTs) ∧ (∀ v ∈ views, ∀ d ∈ part, v.limitTs < d.ts) ∧
      ∀ nViewEvents last, SmdReader.window s.buf batchSize = .ok (nViewEvents, last, limitTs) →
        part.length ≤ batchSize := by
  obtain ⟨⟨seen, avail, rest, split, ⟨before, sub⟩, reads⟩, later, endrun⟩ := keeps
  rw [List.append_assoc] at split
  have sortedLeft : Ascending (avail ++ rest) := by
    rw [split] at sorted
    exact (List.pairwise_append.mp sorted).2.1
  have sortedSeen : Ascending (seen ++ avail) := by
    rw [split, ← sub, List.append_assoc, ← List.append_assoc seen] at sorted
    exact (List.pairwise_append.mp (List.pairwise_append.mp sorted).2.1).1
  have some_ := reads.hasUnseen_iff.mp unseen
  obtain ⟨final, hfinal, timestamp⟩ := reads.timestamp some_
  rw [timestamp] at below
  have stays := later_stays sortedLeft hfinal below
  -- What is in memory is cut at the limit.
  have regroup : avail ++ rest =
      upTo limitTs avail ++ ((avail.dropWhile fun d => d.ts ≤ limitTs) ++ rest) := by
    rw [← List.append_assoc, upTo, List.takeWhile_append_dropWhile]
  have earlier := later _ split
  refine ⟨upTo limitTs avail, ?_⟩
  cases avail with
  | nil => exact absurd rfl some_
  | cons d ds => ?_
  obtain ⟨reads', gives, endrunNow, found, last⟩ := reads.view (List.pairwise_append.mp sortedLeft).1 h
  refine ⟨gives, ?_, fun d hd => upTo_le d hd, ?_, ?_⟩
  · intro v hv
    refine ⟨⟨_, _, _, ?_, ?_, reads'⟩, ?_, ?_⟩
    · rw [split, regroup, List.append_assoc, List.append_assoc]
    · exact ⟨before, by rw [← List.append_assoc, sub]⟩
    · intro left e v' hv' d' hd
      have e : left = ((d :: ds).dropWhile fun d => d.ts ≤ limitTs) ++ rest := by
        rw [split, regroup, ← List.append_assoc out] at e
        exact (List.append_cancel_left e).symm
      rw [e] at hd
      cases List.mem_append.mp hv' with
      | inl old =>
        apply earlier v' old d'
        rw [regroup]
        exact List.mem_append_right _ hd
      | inr new =>
        rw [List.mem_singleton.mp new, hv]
        exact stays d' hd
    · intro h
      rw [found, Bool.or_eq_true] at h
      cases h with
      | inl before =>
        obtain ⟨d', among, service⟩ := endrun before
        exact ⟨d', List.mem_append_left _ among, service⟩
      | inr now =>
        obtain ⟨d', among, service⟩ := last now
        exact ⟨d', List.mem_append_right _ among, service⟩
  · intro v hv d' hd
    apply earlier v hv d'
    rw [regroup]
    exact List.mem_append_left _ hd
  · intro nViewEvents last window
    exact (window_spec reads some_ sortedSeen window).2

end stream

/-- The dgrams of the blocks of a view. -/
structure View.Holds (n : Nat) (v : View) (part : List (List SmdDgram)) : Prop where
  blocks : v.blocks = part.map flat
  perFile : part.length = n
  upToLimit : ∀ ds ∈ part, ∀ d ∈ ds, d.ts ≤ v.limitTs
  batch : (part.getD v.winner []).length ≤ v.batchSize

/-- What a run has given out, view by view and file by file. -/
structure Reading.Ordered (files : List (List SmdDgram)) (s : Reading)
    (parts : List (List (List SmdDgram))) : Prop where
  perFile : s.reader.streams.length = files.length
  views : List.Forall₂ (View.Holds files.length) s.views parts
  order : (s.views.zip parts).Pairwise fun a b => ∀ ds ∈ b.2, ∀ d ∈ ds, a.1.limitTs < d.ts
  keeps : ∀ (i : Nat) (file : List SmdDgram), files[i]? = some file →
    ∃ stream, s.reader.streams[i]? = some stream ∧
      stream.Keeps s.views file (parts.flatMap fun part => part.getD i [])
  winner : ∀ w, s.reader.winner = some w →
    ∃ stream, s.reader.streams[w]? = some stream ∧
      ∀ other ∈ s.reader.streams, stream.buf.timestamp ≤ other.buf.timestamp

namespace Reading

/-- Calls of `view` without an integrating stream. -/
def Plain (ops : List SmdOp) (s : Reading) (op : SmdOp) : Prop :=
  Allowed ops s op ∧
    match op with
    | .get _ _ => True
    | .view _ intgStreamId => intgStreamId = none

instance (ops : List SmdOp) (s : Reading) : (op : SmdOp) → Decidable (Plain ops s op)
  | .get _ _ => .isTrue ⟨trivial, trivial⟩
  | .view _ intgStreamId =>
    inferInstanceAs (Decidable (s.reader.isComplete = true ∧ intgStreamId = none))

/-- Reading is at its end: everything has been read, and a file has no unseen dgram. -/
def Finished (s : Reading) : Prop :=
  s.reader.isComplete = false ∧ ∀ stream ∈ s.reader.streams, stream.unread = []

end Reading

section run
variable {files : List (List SmdDgram)} {s s' : Reading} {parts : List (List (List SmdDgram))}
  {batchSize : Nat} {i : Nat} {file : List SmdDgram}

/-- What `get` does to the winner. -/
lemma get_winner (r : SmdReader) (wants : List Nat) (retries : List (List Nat)) :
    r.get wants retries = r ∨ (r.get wants retries).winner = none := by
  rw [SmdReader.get]
  split
  · exact .inl rfl
  · exact .inr rfl

/-- The winner of a view is the slowest stream. -/
lemma Reading.Ordered.slowest (ordered : s.Ordered files parts) (some_ : files ≠ [])
    (nonzero : ∀ stream ∈ s.reader.streams, stream.buf.timestamp ≠ 0) :
    ∃ w stream, s.reader.selectWinner none = some w ∧ s.reader.streams[w]? = some stream ∧
      ∀ other ∈ s.reader.streams, stream.buf.timestamp ≤ other.buf.timestamp := by
  rw [SmdReader.selectWinner]
  cases hw : s.reader.winner with
  | some w =>
    obtain ⟨stream, hs, least⟩ := ordered.winner w hw
    exact ⟨w, stream, rfl, hs, least⟩
  | none =>
    cases @slowest_spec s.reader.streams [] none 0 nonzero (.inl ⟨rfl, rfl⟩) with
    | inl none_ =>
      have length := ordered.perFile
      rw [List.nil_append] at none_
      rw [none_] at length
      exact absurd (List.length_eq_zero_iff.mp length.symm) some_
    | inr found =>
      obtain ⟨limitTs, w, stream, hw, hs, e, least⟩ := found
      rw [List.nil_append] at hs least
      refine ⟨w, stream, hw, hs, ?_⟩
      rw [e]
      exact least

/-- What `get` does to a run. -/
lemma Reading.Ordered.get (ordered : s.Ordered files parts) (wants : List Nat)
    (retries : List (List Nat)) :
    Reading.Ordered files { s with reader := s.reader.get wants retries } parts where
  perFile := (get_length s.reader wants retries).trans ordered.perFile
  views := ordered.views
  order := ordered.order
  keeps := by
    intro i file hf
    obtain ⟨stream, hs, follows, later, endrun⟩ := ordered.keeps i file hf
    obtain ⟨stream', hs', fetched⟩ := get_stream s.reader wants retries hs
    refine ⟨stream', hs', follows.get fetched, later, ?_⟩
    obtain ⟨seen, avail, rest, -, -, reads⟩ := follows
    rw [(fetched seen avail rest reads).endrun]
    exact endrun
  winner := by
    cases get_winner s.reader wants retries with
    | inl same =>
      show ∀ w, (s.reader.get wants retries).winner = some w → _
      rw [same]
      exact ordered.winner
    | inr reset =>
      show ∀ w, (s.reader.get wants retries).winner = some w → _
      rw [reset]
      intro w hw
      cases hw

/-- The timestamp of a chunk with unseen dgrams is one of its file. -/
lemma Stream.Keeps.timestamp {stream : Stream} {out : List SmdDgram} {views : List View}
    (keeps : stream.Keeps views file out) (unseen : stream.buf.hasUnseen = true) :
    ∃ d ∈ file, stream.buf.timestamp = d.ts := by
  obtain ⟨seen, avail, rest, split, -, reads⟩ := keeps.follows
  obtain ⟨d, hd, timestamp⟩ := reads.timestamp (reads.hasUnseen_iff.mp unseen)
  refine ⟨d, ?_, timestamp⟩
  rw [split]
  exact List.mem_append_left _ (List.mem_append_right _ (List.mem_of_getLast? hd))

/-- The timestamps of the chunks are not zero where those of the dgrams are not. -/
lemma Reading.Ordered.nonzero (ordered : s.Ordered files parts)
    (nonzero : ∀ file ∈ files, ∀ d ∈ file, d.ts ≠ 0) (complete : s.reader.isComplete = true) :
    ∀ stream ∈ s.reader.streams, stream.buf.timestamp ≠ 0 := by
  intro stream hstream
  obtain ⟨i, hs⟩ := List.mem_iff_getElem?.mp hstream
  obtain ⟨hi, -⟩ := List.getElem?_eq_some_iff.mp hs
  rw [ordered.perFile] at hi
  obtain ⟨stream', hs', keeps⟩ := ordered.keeps i _ (List.getElem?_eq_getElem hi)
  rw [hs] at hs'
  cases hs'
  obtain ⟨d, hd, e⟩ := keeps.timestamp (List.all_eq_true.mp complete stream hstream)
  rw [e]
  exact nonzero _ (List.getElem_mem hi) d hd

/-- The winner of a view is one of the streams. -/
lemma selectWindow_inside {r : SmdReader} {intgStreamId : Option Nat}
    {winner nViewEvents limitTs : Nat} {last : Entry}
    (h : r.selectWindow batchSize intgStreamId = .ok (winner, nViewEvents, last, limitTs)) :
    ∃ stream, r.streams[winner]? = some stream := by
  rw [SmdReader.selectWindow] at h
  split at h
  · cases h
  · split at h
    · cases h
    · rename_i stream hs
      obtain ⟨window, -, h⟩ := bind_ok h
      cases h
      exact ⟨stream, hs⟩

/-- The window of a view without an integrating stream. -/
lemma Reading.Ordered.window (ordered : s.Ordered files parts)
    (nonzero : ∀ file ∈ files, ∀ d ∈ file, d.ts ≠ 0) (some_ : files ≠ [])
    (complete : s.reader.isComplete = true) {winner nViewEvents limitTs : Nat} {last : Entry}
    (selected : s.reader.selectWindow batchSize none = .ok (winner, nViewEvents, last, limitTs)) :
    ∃ stream, s.reader.streams[winner]? = some stream ∧
      SmdReader.window stream.buf batchSize = .ok (nViewEvents, last, limitTs) ∧
      ∀ other ∈ s.reader.streams, stream.buf.timestamp ≤ other.buf.timestamp := by
  obtain ⟨w, stream, hw, hs, least⟩ := ordered.slowest some_ (ordered.nonzero nonzero complete)
  rw [SmdReader.selectWindow, hw] at selected
  simp only [hs] at selected
  obtain ⟨⟨nViewEvents', last', limitTs'⟩, window, selected⟩ := bind_ok selected
  cases selected
  exact ⟨stream, hs, window, least⟩

/-- The limit of a view is at most the last timestamp of each chunk. -/
lemma Reading.Ordered.below (ordered : s.Ordered files parts) (sorted : ∀ file ∈ files, Ascending file)
    {w nViewEvents limitTs : Nat} {last : Entry} {stream : Stream}
    (hs : s.reader.streams[w]? = some stream) (complete : s.reader.isComplete = true)
    (window : SmdReader.window stream.buf batchSize = .ok (nViewEvents, last, limitTs)) :
    limitTs ≤ stream.buf.timestamp := by
  obtain ⟨hw, -⟩ := List.getElem?_eq_some_iff.mp hs
  rw [ordered.perFile] at hw
  obtain ⟨stream', hs', keeps⟩ := ordered.keeps w _ (List.getElem?_eq_getElem hw)
  rw [hs] at hs'
  cases hs'
  obtain ⟨seen, avail, rest, split, ⟨before, sub⟩, reads⟩ := keeps.follows
  have some_ := reads.hasUnseen_iff.mp (List.all_eq_true.mp complete stream (List.mem_of_getElem? hs))
  have sorted := sorted _ (List.getElem_mem hw)
  rw [split, ← sub, List.append_assoc, List.append_assoc, ← List.append_assoc seen] at sorted
  exact (window_spec reads some_ (List.pairwise_append.mp (List.pairwise_append.mp sorted).2.1).1 window).1

/-- What a view does to a run. -/
lemma Reading.Ordered.view (ordered : s.Ordered files parts) (sorted : ∀ file ∈ files, Ascending file)
    (nonzero : ∀ file ∈ files, ∀ d ∈ file, d.ts ≠ 0) (complete : s.reader.isComplete = true)
    (h : s.step (.view batchSize none) = .ok s') : ∃ part, s'.Ordered files (parts ++ [part]) := by
  obtain ⟨winner, nViewEvents, last, limitTs, selected, viewed, views⟩ := Reading.step_view h
  obtain ⟨e, length, moved⟩ := view_spec selected viewed
  have some_ : files ≠ [] := by
    intro none_
    obtain ⟨stream, hs⟩ := selectWindow_inside selected
    have inside := (List.getElem?_eq_some_iff.mp hs).1
    rw [ordered.perFile, none_] at inside
    cases inside
  obtain ⟨stream, hstream, window, least⟩ := ordered.window nonzero some_ complete selected
  -- The limit is at most the last timestamp of each chunk, so that nothing up to it is still unread.
  have below := ordered.below sorted hstream complete window
  have each : ∀ i : Nat, ∃ part, ∀ file, files[i]? = some file →
      ∃ stream stream', s.reader.streams[i]? = some stream ∧ s'.reader.streams[i]? = some stream' ∧
        stream.Gives limitTs part stream' ∧
        (∀ v : View, v.limitTs = limitTs → stream'.Keeps (s.views ++ [v]) file
          ((parts.flatMap fun part => part.getD i []) ++ part)) ∧
        (∀ d ∈ part, d.ts ≤ limitTs) ∧ (∀ v ∈ s.views, ∀ d ∈ part, v.limitTs < d.ts) ∧
        (i = winner → part.length ≤ batchSize) ∧ stream'.buf.timestamp = stream.buf.timestamp := by
    intro i
    cases hf : files[i]? with
    | none => exact ⟨[], nofun⟩
    | some file => ?_
    obtain ⟨other, hs, keeps⟩ := ordered.keeps i file hf
    obtain ⟨other', hmove, hs'⟩ := moved i other hs
    have among := List.mem_of_getElem? hs
    obtain ⟨part, gives, keeps', upToLimit, later, batch⟩ := @Stream.Keeps.view other other' file _ s.views
      limitTs batchSize keeps (sorted file (List.mem_of_getElem? hf))
      (List.all_eq_true.mp complete other among) (Nat.le_trans below (least other among)) hmove
    refine ⟨part, ?_⟩
    intro file' hf'
    cases hf'
    refine ⟨other, other', hs, hs', gives, keeps', upToLimit, later, ?_, move_timestamp hmove⟩
    intro same
    subst same
    rw [hstream] at hs
    cases hs
    exact batch nViewEvents last window
  choose part hpart using each
  have getD : ∀ i file, files[i]? = some file →
      ((List.range files.length).map part).getD i [] = part i := by
    intro i file hf
    have inside := (List.getElem?_eq_some_iff.mp hf).1
    rw [List.getD_eq_getElem?_getD, List.getElem?_map, List.getElem?_range inside]
    rfl
  have among : ∀ ds ∈ (List.range files.length).map part, ∃ i file, files[i]? = some file ∧ ds = part i := by
    intro ds hds
    obtain ⟨i, hi, rfl⟩ := List.mem_map.mp hds
    exact ⟨i, _, List.getElem?_eq_getElem (List.mem_range.mp hi), rfl⟩
  have perFile : s'.reader.streams.length = files.length := length.trans ordered.perFile
  have hwinner : winner < files.length := by
    rw [← ordered.perFile]
    exact (List.getElem?_eq_some_iff.mp hstream).1
  have holds : View.Holds files.length ⟨batchSize, winner, limitTs, s'.reader.blocks,
      s'.reader.shown false, s'.reader.shown true⟩ ((List.range files.length).map part) := by
    refine ⟨?_, ?_, ?_, ?_⟩
    · show s'.reader.blocks = _
      apply List.ext_getElem?
      intro i
      rw [SmdReader.blocks, List.getElem?_map, List.map_map, List.getElem?_map]
      cases Nat.lt_or_ge i files.length with
      | inl inside =>
        obtain ⟨_, stream', -, hs', gives, -⟩ := hpart i _ (List.getElem?_eq_getElem inside)
        rw [hs', List.getElem?_range inside]
        exact congrArg some gives.blockOf
      | inr outside =>
        have range : (List.range files.length).length ≤ i := by rwa [List.length_range]
        rw [List.getElem?_eq_none (by rwa [perFile]), List.getElem?_eq_none range]
        rfl
    · rw [List.length_map, List.length_range]
    · intro ds hds
      obtain ⟨i, file, hf, rfl⟩ := among ds hds
      obtain ⟨_, _, -, -, -, -, upToLimit, -⟩ := hpart i file hf
      exact upToLimit
    · show (((List.range files.length).map part).getD winner []).length ≤ batchSize
      rw [getD winner _ (List.getElem?_eq_getElem hwinner)]
      obtain ⟨_, _, -, -, -, -, -, -, batch, -⟩ := hpart winner _ (List.getElem?_eq_getElem hwinner)
      exact batch rfl
  refine ⟨(List.range files.length).map part, perFile, ?_, ?_, ?_, ?_⟩
  · rw [views]
    exact List.rel_append ordered.views (.cons holds .nil)
  · rw [views, List.zip_append ordered.views.length_eq, List.pairwise_append]
    refine ⟨ordered.order, List.pairwise_singleton _ _, ?_⟩
    intro a ha b hb ds hds d hd
    have hb := List.mem_singleton.mp hb
    subst hb
    obtain ⟨i, file, hf, rfl⟩ := among ds hds
    obtain ⟨_, _, -, -, -, -, -, later, -⟩ := hpart i file hf
    exact later a.1 (List.of_mem_zip ha).1 d hd
  · intro i file hf
    obtain ⟨_, stream', -, hs', -, keeps, -⟩ := hpart i file hf
    refine ⟨stream', hs', ?_⟩
    rw [views, List.flatMap_append, List.flatMap_singleton, getD i file hf]
    exact keeps _ rfl
  · -- the timestamps of the chunks are those before the view
    intro w hw
    rw [e] at hw
    cases hw
    obtain ⟨stream₀, stream', hs₀, hs', -, -, -, -, -, same⟩ :=
      hpart winner _ (List.getElem?_eq_getElem hwinner)
    rw [hstream] at hs₀
    cases hs₀
    refine ⟨stream', hs', ?_⟩
    intro other hother
    obtain ⟨i, hi⟩ := List.mem_iff_getElem?.mp hother
    have inside := (List.getElem?_eq_some_iff.mp hi).1
    rw [perFile] at inside
    obtain ⟨other₀, other', h₀, hi', -, -, -, -, -, same'⟩ := hpart i _ (List.getElem?_eq_getElem inside)
    rw [hi] at hi'
    cases hi'
    rw [same, same']
    exact least other₀ (List.mem_of_getElem? h₀)

/-- What a run has given out of the files. -/
lemma Reading.ordered_run {chunksize : Nat} {fakestepFlag : Bool} {ops : List SmdOp}
    (sorted : ∀ file ∈ files, Ascending file) (nonzero : ∀ file ∈ files, ∀ d ∈ file, d.ts ≠ 0)
    (run : Run Reading.step Reading.Plain (.new chunksize fakestepFlag files) ops s) :
    ∃ parts, s.Ordered files parts := by
  refine Run.invariant (P := fun _ s => ∃ parts, s.Ordered files parts) ?_ ?_ run
  · refine ⟨[], (List.length_map _).trans (List.length_map _), .nil, .nil, ?_, nofun⟩
    intro i file hf
    exact ⟨_, Reading.new_stream chunksize fakestepFlag hf, .start file, nofun, nofun⟩
  · intro _ s op s' ordered plain step
    obtain ⟨parts, ordered⟩ := ordered
    cases op with
    | get wants retries =>
      cases step
      exact ⟨parts, ordered.get wants retries⟩
    | view batchSize intgStreamId =>
      obtain ⟨complete, rfl⟩ := plain
      obtain ⟨part, ordered⟩ := ordered.view sorted nonzero complete step
      exact ⟨parts ++ [part], ordered⟩

/-- A file whose dgrams have all been read and seen. -/
lemma Stream.Follows.all {stream : Stream} {out : List SmdDgram} (follows : stream.Follows file out)
    (seen : stream.buf.hasUnseen = false) (read : stream.unread = []) : file = out := by
  obtain ⟨seen', avail, rest, split, -, reads⟩ := follows
  have noAvail : avail = [] := by
    by_contra some_
    rw [reads.hasUnseen_iff.mpr some_] at seen
    cases seen
  have noRest : rest = [] := by
    have whole := reads.left.whole
    have short := reads.left.short
    rw [read, List.append_nil] at whole
    cases rest with
    | nil => rfl
    | cons d rest =>
      have short := short d rfl
      rw [whole, flat_cons, List.length_append] at short
      exact absurd short (by omega)
  rw [split, noAvail, noRest, List.append_nil, List.append_nil]

/-- What has been given out is up to the limit of some view. -/
lemma Reading.Ordered.given (ordered : s.Ordered files parts) {d : SmdDgram}
    (hd : d ∈ parts.flatMap fun part => part.getD i []) : ∃ v ∈ s.views, d.ts ≤ v.limitTs := by
  obtain ⟨part, hpart, hd⟩ := List.mem_flatMap.mp hd
  obtain ⟨k, inside, e⟩ := List.mem_iff_getElem.mp hpart
  have inside' : k < s.views.length := by rwa [ordered.views.length_eq]
  have holds := ordered.views.get inside' inside
  have holds : View.Holds files.length s.views[k] parts[k] := holds
  rw [e] at holds
  refine ⟨s.views[k], List.getElem_mem inside', ?_⟩
  rw [List.getD_eq_getElem?_getD] at hd
  cases hi : part[i]? with
  | none =>
    rw [hi] at hd
    cases hd
  | some ds =>
    rw [hi] at hd
    exact holds.upToLimit ds (List.mem_of_getElem? hi) d hd

/-- All has been given out at the end. -/
lemma Reading.Ordered.finished (ordered : s.Ordered files parts) {endrunTs : Nat}
    (sorted : ∀ file ∈ files, Ascending file)
    (ends : ∀ file ∈ files, ∃ d, file.getLast? = some d ∧ d.sv = endRun ∧ d.ts = endrunTs)
    (finished : s.Finished) (hf : files[i]? = some file) :
    file = parts.flatMap fun part => part.getD i [] := by
  obtain ⟨complete, read⟩ := finished
  obtain ⟨idle, hidle, none_⟩ := List.all_eq_false.mp complete
  obtain ⟨j, hj⟩ := List.mem_iff_getElem?.mp hidle
  have inside := (List.getElem?_eq_some_iff.mp hj).1
  rw [ordered.perFile] at inside
  have hfile := List.getElem?_eq_getElem inside
  obtain ⟨stream, hs, keeps⟩ := ordered.keeps j _ hfile
  rw [hj] at hs
  cases hs
  have all := keeps.follows.all (Bool.eq_false_iff.mpr none_) (read idle hidle)
  -- the end of this file has been given out, so the limit of a view was not before the end of any
  obtain ⟨final, hfinal, -, atEnd⟩ := ends _ (List.mem_of_getElem? hfile)
  have among := List.mem_of_getLast? hfinal
  rw [all] at among
  obtain ⟨v, hv, reached⟩ := ordered.given among
  rw [atEnd] at reached
  obtain ⟨stream, hs, keeps⟩ := ordered.keeps i file hf
  obtain ⟨seen, avail, rest, split, -, -⟩ := keeps.follows
  rw [List.append_assoc] at split
  have later := keeps.later _ split v hv
  obtain ⟨final', hfinal', -, atEnd'⟩ := ends file (List.mem_of_getElem? hf)
  cases hleft : avail ++ rest with
  | nil => rw [split, hleft, List.append_nil]
  | cons d left =>
    have beyond := later d (by rw [hleft]; exact List.mem_cons_self)
    have mem : d ∈ file := by
      rw [split, hleft]
      exact List.mem_append_right _ List.mem_cons_self
    have within := (sorted file (List.mem_of_getElem? hf)).le_last hfinal' d mem
    rw [atEnd'] at within
    exact absurd (Nat.le_trans within reached) (Nat.not_le_of_lt beyond)

/-- All has been given out when `EndRun` is found for all files, if nothing comes behind it. -/
lemma Reading.Ordered.foundEndrun (ordered : s.Ordered files parts)
    (only : ∀ file ∈ files, ∀ d ∈ file.dropLast, d.sv ≠ endRun)
    (found : s.reader.foundEndrun = true) (hf : files[i]? = some file) :
    file = parts.flatMap fun part => part.getD i [] := by
  obtain ⟨stream, hs, keeps⟩ := ordered.keeps i file hf
  obtain ⟨d, hd, service⟩ := keeps.endrun (List.all_eq_true.mp found stream (List.mem_of_getElem? hs))
  obtain ⟨seen, avail, rest, split, -, -⟩ := keeps.follows
  rw [List.append_assoc] at split
  cases hleft : avail ++ rest with
  | nil => rw [split, hleft, List.append_nil]
  | cons d' left =>
    have before : d ∈ file.dropLast := by
      rw [split, hleft, List.dropLast_append_of_ne_nil (List.cons_ne_nil _ _)]
      exact List.mem_append_left _ hd
    exact absurd service (only file (List.mem_of_getElem? hf) d before)

/-- A view succeeds where every file has an unseen dgram. -/
lemma Reading.Ordered.view_ok (ordered : s.Ordered files parts)
    (nonzero : ∀ file ∈ files, ∀ d ∈ file, d.ts ≠ 0) (some_ : files ≠ [])
    (complete : s.reader.isComplete = true) (positive : 0 < batchSize) :
    ∃ s', s.step (.view batchSize none) = .ok s' := by
  have each : ∀ stream ∈ s.reader.streams, ∃ seen avail rest, avail ≠ [] ∧ stream.Reads seen avail rest := by
    intro stream hstream
    obtain ⟨i, hs⟩ := List.mem_iff_getElem?.mp hstream
    have inside := (List.getElem?_eq_some_iff.mp hs).1
    rw [ordered.perFile] at inside
    obtain ⟨stream', hs', keeps⟩ := ordered.keeps i _ (List.getElem?_eq_getElem inside)
    rw [hs] at hs'
    cases hs'
    obtain ⟨seen, avail, rest, -, -, reads⟩ := keeps.follows
    exact ⟨seen, avail, rest, reads.hasUnseen_iff.mp (List.all_eq_true.mp complete stream hstream), reads⟩
  obtain ⟨w, stream, hw, hs, -⟩ := ordered.slowest some_ (ordered.nonzero nonzero complete)
  obtain ⟨seen, avail, rest, unseen, reads⟩ := each stream (List.mem_of_getElem? hs)
  obtain ⟨⟨nViewEvents, last, limitTs⟩, window⟩ := window_ok reads unseen positive
  have selected : s.reader.selectWindow batchSize none = .ok (w, nViewEvents, last, limitTs) := by
    rw [SmdReader.selectWindow, hw]
    simp only [hs]
    rw [window, ok_bind]
  obtain ⟨streams, moved⟩ := @mapM_exists _ _ _ (Stream.move limitTs) s.reader.streams (by
    intro stream hstream
    obtain ⟨seen, avail, rest, unseen, reads⟩ := each stream hstream
    cases avail with
    | nil => exact absurd rfl unseen
    | cons d ds =>
      have entry := reads.buf.entry
      rw [← reads.start] at entry
      rw [Stream.move, entry]
      simp only
      split
      · exact ⟨_, rfl⟩
      · exact ⟨_, rfl⟩)
  have viewed : ∃ reader, s.reader.view batchSize none = .ok reader := by
    rw [SmdReader.view, selected, ok_bind]
    simp only
    rw [moved, ok_bind]
    exact ⟨_, rfl⟩
  obtain ⟨reader, viewed⟩ := viewed
  rw [Reading.step, selected, ok_bind]
  simp only
  rw [viewed, ok_bind]
  exact ⟨_, rfl⟩

end run

/-- In every run without an integrating stream over files of increasing timestamps other than zero, which
    end with `EndRun` at one timestamp: the views give out of each file a prefix, and all of it at the end;
    what a view gives is up to its limit, and what a later one gives is beyond it; the winner gives at most
    the batch size. -/
theorem views_in_order (chunksize : Nat) (fakestepFlag : Bool) (files : List (List SmdDgram))
    (endrunTs : Nat) (sorted : ∀ file ∈ files, Ascending file)
    (nonzero : ∀ file ∈ files, ∀ d ∈ file, d.ts ≠ 0)
    (ends : ∀ file ∈ files, ∃ d, file.getLast? = some d ∧ d.sv = endRun ∧ d.ts = endrunTs)
    (ops : List SmdOp) (s : Reading)
    (run : Run Reading.step Reading.Plain (.new chunksize fakestepFlag files) ops s) :
    (∃ parts : List (List (List SmdDgram)),
      List.Forall₂ (View.Holds files.length) s.views parts ∧
      ((s.views.zip parts).Pairwise fun a b => ∀ ds ∈ b.2, ∀ d ∈ ds, a.1.limitTs < d.ts) ∧
      ∀ (i : Nat) (file : List SmdDgram), files[i]? = some file →
        (parts.flatMap fun part => part.getD i []) <+: file ∧
        (s.Finished → (parts.flatMap fun part => part.getD i []) = file) ∧
        ((∀ file ∈ files, ∀ d ∈ file.dropLast, d.sv ≠ endRun) → s.reader.foundEndrun = true →
          (parts.flatMap fun part => part.getD i []) = file)) ∧
    ∀ batchSize, 0 < batchSize → files ≠ [] → s.reader.isComplete = true →
      ∃ s', s.step (.view batchSize none) = .ok s' := by
  obtain ⟨parts, ordered⟩ := Reading.ordered_run sorted nonzero run
  refine ⟨⟨parts, ordered.views, ordered.order, ?_⟩, ?_⟩
  · intro i file hf
    obtain ⟨stream, hs, keeps⟩ := ordered.keeps i file hf
    obtain ⟨seen, avail, rest, split, -, -⟩ := keeps.follows
    refine ⟨⟨avail ++ rest, ?_⟩, ?_, ?_⟩
    · rw [split, List.append_assoc]
    · intro finished
      exact (ordered.finished sorted ends finished hf).symm
    · intro only found
      exact (ordered.foundEndrun only found hf).symm
  · intro batchSize positive some_ complete
    exact ordered.view_ok nonzero some_ complete positive

/-- The first file starts at the timestamp zero. -/
def zeroFiles : List (List SmdDgram) :=
  [[plainDgram 2 0, plainDgram 12 1, plainDgram 5 9], [plainDgram 2 2, plainDgram 5 9]]

/-- A timestamp of zero does not count as the slowest: the first view has the limit 2, and a later one gives
    the dgram of the timestamp 1. -/
theorem view_out_of_order :
    (∀ file ∈ zeroFiles, Ascending file) ∧
    (∀ file ∈ zeroFiles, ∃ d, file.getLast? = some d ∧ d.sv = endRun ∧ d.ts = 9) ∧
    ∃ s, Run Reading.step Reading.Plain (.new 24 false zeroFiles)
        [.get [24, 24] [], .view 1 none, .get [24, 24] [], .view 1 none] s ∧
      ∃ v v', s.views = [v, v'] ∧ v'.blocks = [(plainDgram 12 1).bytes, []] ∧
        (plainDgram 12 1).ts < v.limitTs := by
  refine ⟨?_, ?_, ?_⟩
  · unfold Ascending
    decide +kernel
  · intro file hf
    cases hf with
    | head => exact ⟨plainDgram 5 9, rfl, by decide +kernel⟩
    | tail _ hf =>
      cases hf with
      | head => exact ⟨plainDgram 5 9, rfl, by decide +kernel⟩
      | tail _ hf => cases hf
  · obtain ⟨s, run, test⟩ := Run.of_replay_any Reading.step Reading.Plain (.new 24 false zeroFiles)
      [.get [24, 24] [], .view 1 none, .get [24, 24] [], .view 1 none]
      (fun s => s.views.map View.limitTs = [2, 1] ∧
        s.views.map View.blocks = [[(plainDgram 2 0).bytes, (plainDgram 2 2).bytes],
          [(plainDgram 12 1).bytes, []]])
      (by decide +kernel)
    obtain ⟨limits, blocks⟩ := of_decide_eq_true test
    obtain ⟨v, rest, hv, first, others⟩ := List.map_eq_cons_iff.mp limits
    obtain ⟨v', rest', hv', second, last⟩ := List.map_eq_cons_iff.mp others
    have none_ := List.map_eq_nil_iff.mp last
    have views : s.views = [v, v'] := by rw [hv, hv', none_]
    rw [views] at blocks
    obtain ⟨-, blocks⟩ := List.cons_eq_cons.mp blocks
    obtain ⟨blocks, -⟩ := List.cons_eq_cons.mp blocks
    refine ⟨s, run, v, v', views, blocks, ?_⟩
    rw [first]
    decide +kernel

/-- Two files that are read to their ends. -/
theorem views_in_order_two :
    ∃ s, Run Reading.step Reading.Plain
        (.new 24 false [[plainDgram 12 1, plainDgram 5 9], [plainDgram 2 2, plainDgram 5 9]])
        [.get [24, 24] [], .view 1 none, .get [24, 24] [], .view 1 none, .get [24, 24] [], .view 1 none] s ∧
      ∃ parts : List (List (List SmdDgram)),
        (parts.flatMap fun part => part.getD 0 []) = [plainDgram 12 1, plainDgram 5 9] := by
  have sorted : ∀ file ∈ [[plainDgram 12 1, plainDgram 5 9], [plainDgram 2 2, plainDgram 5 9]],
      Ascending file := by
    unfold Ascending
    decide +kernel
  have nonzero : ∀ file ∈ [[plainDgram 12 1, plainDgram 5 9], [plainDgram 2 2, plainDgram 5 9]],
      ∀ d ∈ file, d.ts ≠ 0 := by
    decide +kernel
  have ends : ∀ file ∈ [[plainDgram 12 1, plainDgram 5 9], [plainDgram 2 2, plainDgram 5 9]],
      ∃ d, file.getLast? = some d ∧ d.sv = endRun ∧ d.ts = 9 := by
    intro file hf
    cases hf with
    | head => exact ⟨plainDgram 5 9, rfl, by decide +kernel⟩
    | tail _ hf =>
      cases hf with
      | head => exact ⟨plainDgram 5 9, rfl, by decide +kernel⟩
      | tail _ hf => cases hf
  obtain ⟨s, run, test⟩ := Run.of_replay_any Reading.step Reading.Plain
    (.new 24 false [[plainDgram 12 1, plainDgram 5 9], [plainDgram 2 2, plainDgram 5 9]])
    [.get [24, 24] [], .view 1 none, .get [24, 24] [], .view 1 none, .get [24, 24] [], .view 1 none]
    (fun s => s.reader.isComplete = false ∧ ∀ stream ∈ s.reader.streams, stream.unread = [])
    (by decide +kernel)
  obtain ⟨⟨parts, -, -, each⟩, -⟩ := views_in_order 24 false _ 9 sorted nonzero ends _ s run
  have finished := of_decide_eq_true test
  exact ⟨s, run, parts, (each 0 _ rfl).2.1 finished⟩

end Lcls2.Psana
