import Mathlib
import Lcls2.Lib.Run
import Lcls2.Xtc.Header

/-!
# Reading dgrams

Model of `read_with_retries`, `dgram_read` and the part of `dgram_init` (`psana/src/dgram.cc`) that reads a dgram from
a file. The file is what is in it in the end; while it grows, and whenever else it likes, a `read` returns fewer bytes
than it was asked for. An answer limits the bytes that a call returns, `none` is one that fails, and so is every call
after the last answer.

A creation is sequential, from the read position, or is given an offset and a size.
-/

namespace Lcls2.Psana
open Lib Xtc

/-- The bytes that `read(2)` or `pread(2)` returns at a place. -/
def got (file : Bytes) (place count : Nat) (answer : Option Nat) : Nat :=
  answer.elim 0 fun limit => min limit (min count (file.length - place))

/-- The outcome of `read_with_retries`: the buffer, where it was read, the read position and the answers left. -/
abbrev ReadOutcome := Option Bytes × Nat × List (Option Nat)

/-- `read_with_retries`, with a number of tries. -/
def readWithRetries (file : Bytes) (count offset : Nat) : Nat → List (Option Nat) → Nat → ReadOutcome
  | 0, answers, pos => (none, pos, answers)
  | tries + 1, answers, pos =>
    let place := if offset = 0 then pos else offset
    let n := got file place count (answers.headD none)
    let pos := if offset = 0 then pos + n else pos
    -- a result that is not the count is taken for 0, and that for no result
    if n = count ∧ n ≠ 0 then (some (slice file place (place + n)), pos, answers.tail)
    else readWithRetries file count offset tries answers.tail pos

/-- A header whose size is none that a dgram can have: there is an exception that is not `StopIteration`, or the header
    is copied to memory that is too small. -/
inductive DgramFault where
  | badSize
  deriving DecidableEq

/-- The creation of a dgram. -/
inductive Creation where
  | sequential (answers : List (Option Nat))
  | positioned (offset size : Nat) (answers : List (Option Nat))

/-- The read position of a file descriptor, and the dgrams that have been created: the sequential ones, and the others
    with what was asked for. -/
structure DgramFile where
  pos : Nat
  dgrams : List Bytes
  views : List (Nat × Nat × Bytes)

namespace DgramFile

variable (file : Bytes) (maxRetries : Int) (s : DgramFile)

/-- `read_with_retries` with its loop over `max_retries`. -/
def retrying (count offset : Nat) (answers : List (Option Nat)) (pos : Nat) : ReadOutcome :=
  readWithRetries file count offset (maxRetries + 1).toNat answers pos

/-- `xtc.sizeofPayload()` of a header. -/
def payloadOf (header : Bytes) : Int := sizeofPayload (extent header xtcOfDgram)

/-- `dgram_read` of a sequential creation, after the header; `StopIteration` leaves the dgrams as they are. -/
def dgramRead (header : Bytes) (answers : List (Option Nat)) (pos : Nat) : DgramFile :=
  let payload := payloadOf header
  if payload = 0 then { s with pos, dgrams := s.dgrams ++ [header] }
  else
    match retrying file maxRetries payload.toNat 0 answers pos with
    | (none, pos, _) => { s with pos }
    | (some bytes, pos, _) => { s with pos, dgrams := s.dgrams ++ [header ++ bytes] }

/-- A sequential creation. -/
def sequential (answers : List (Option Nat)) : Except DgramFault DgramFile :=
  match retrying file maxRetries Xtc.sizeofDgram 0 answers s.pos with
  | (none, pos, _) => .ok { s with pos }
  | (some header, pos, answers) =>
    if payloadOf header < 0 then .error .badSize
    else .ok (s.dgramRead file maxRetries header answers pos)

/-- `dgram_read` with an offset and a size, of which `asked` was asked for. -/
def readAt (offset asked size : Nat) (answers : List (Option Nat)) (pos : Nat) : DgramFile :=
  match retrying file maxRetries size offset answers pos with
  | (none, pos, _) => { s with pos }
  | (some bytes, pos, _) => { s with pos, views := s.views ++ [(offset, asked, bytes)] }

/-- `dgram_init`. Without a size a header is read first, from the read position. -/
def create : Creation → Except DgramFault DgramFile
  | .sequential answers => s.sequential file maxRetries answers
  | .positioned offset size answers =>
    if size = 0 then
      match retrying file maxRetries Xtc.sizeofDgram 0 answers s.pos with
      | (none, pos, _) => .ok { s with pos }
      | (some header, pos, answers) =>
        let found := Xtc.sizeofDgram + payloadOf header
        if found ≤ 0 then .error .badSize
        else .ok (s.readAt file maxRetries offset size found.toNat answers pos)
    else .ok (s.readAt file maxRetries offset size size answers s.pos)

end DgramFile

section tries
variable {file : Bytes} {count offset tries pos pos' : Nat} {answers left : List (Option Nat)} {result : Option Bytes}

/-- The bytes that the first try reads which reads anything, and the answers after it. -/
def firstRead (file : Bytes) (pos count : Nat) : Nat → List (Option Nat) → Option (Nat × List (Option Nat))
  | 0, _ => none
  | tries + 1, answers =>
    if got file pos count (answers.headD none) = 0 then firstRead file pos count tries answers.tail
    else some (got file pos count (answers.headD none), answers.tail)

lemma got_le (file : Bytes) (place count : Nat) (answer : Option Nat) : got file place count answer ≤ count := by
  cases answer with
  | none => exact Nat.zero_le _
  | some limit => exact (Nat.min_le_right _ _).trans (Nat.min_le_left _ _)

/-- What is read is there. -/
lemma got_within (file : Bytes) (place count : Nat) (answer : Option Nat) :
    got file place count answer ≤ file.length - place := by
  cases answer with
  | none => exact Nat.zero_le _
  | some limit => exact (Nat.min_le_right _ _).trans (Nat.min_le_right _ _)

/-- A first read has read something, that is there. -/
lemma firstRead_some {n : Nat} (h : firstRead file pos count tries answers = some (n, left)) :
    0 < n ∧ n ≤ count ∧ n ≤ file.length - pos := by
  induction tries generalizing answers with
  | zero => cases h
  | succ tries ih =>
    rw [firstRead] at h
    split at h
    · exact ih h
    · rename_i some_
      cases h
      exact ⟨Nat.pos_of_ne_zero some_, got_le _ _ _ _, got_within _ _ _ _⟩

/-- Where nothing is read, the position stays. -/
lemma readWithRetries_none (h : firstRead file pos count tries answers = none) :
    ∃ left, readWithRetries file count 0 tries answers pos = (none, pos, left) := by
  induction tries generalizing answers with
  | zero => exact ⟨answers, rfl⟩
  | succ tries ih =>
    rw [firstRead] at h
    split at h
    · rename_i nothing
      rw [readWithRetries]
      simp only [if_true, nothing, Nat.add_zero]
      rw [if_neg fun both => both.2 rfl]
      exact ih h
    · cases h

/-- Where the first read is whole, it is what is read. -/
lemma readWithRetries_whole (h : firstRead file pos count tries answers = some (count, left)) :
    readWithRetries file count 0 tries answers pos = (some (slice file pos (pos + count)), pos + count, left) := by
  induction tries generalizing answers with
  | zero => cases h
  | succ tries ih =>
    rw [firstRead] at h
    rw [readWithRetries]
    split at h
    · rename_i nothing
      simp only [if_true, nothing, Nat.add_zero]
      rw [if_neg fun both => both.2 rfl]
      exact ih h
    · rename_i some_
      simp only [Option.some.injEq, Prod.mk.injEq] at h
      obtain ⟨whole, rest⟩ := h
      simp only [if_true]
      rw [if_pos ⟨whole, some_⟩, whole, rest]

/-- The position moves over at least what is returned. -/
lemma readWithRetries_moves (h : readWithRetries file count 0 tries answers pos = (result, pos', left)) :
    pos + result.elim 0 List.length ≤ pos' ∧ ∀ bytes ∈ result, bytes.length = count := by
  induction tries generalizing answers pos with
  | zero =>
    cases h
    exact ⟨Nat.le_refl _, nofun⟩
  | succ tries ih =>
    rw [readWithRetries] at h
    simp only [if_true] at h
    split at h
    · rename_i whole
      cases h
      have there := got_within file pos count (answers.headD none)
      have length : (slice file pos (pos + got file pos count (answers.headD none))).length =
          got file pos count (answers.headD none) := by
        rw [slice_length _ (by have := whole.2; omega)]
        exact Nat.add_sub_cancel_left _ _
      refine ⟨?_, ?_⟩
      · rw [Option.elim_some, length]
      · intro bytes mem
        cases mem
        exact length.trans whole.1
    · obtain ⟨moves, whole⟩ := ih h
      exact ⟨by omega, whole⟩

/-- And over what a first read has read that was not whole. -/
lemma readWithRetries_partial {n : Nat} {rest : List (Option Nat)}
    (first : firstRead file pos count tries answers = some (n, rest)) (short : n ≠ count)
    (h : readWithRetries file count 0 tries answers pos = (result, pos', left)) :
    pos + n + result.elim 0 List.length ≤ pos' := by
  induction tries generalizing answers with
  | zero => cases first
  | succ tries ih =>
    rw [firstRead] at first
    rw [readWithRetries] at h
    simp only [if_true] at h
    split at first
    · rename_i nothing
      rw [nothing, Nat.add_zero, if_neg fun both => both.2 rfl] at h
      exact ih first h
    · cases first
      rw [if_neg fun both => short both.1] at h
      exact (readWithRetries_moves h).1

/-- A read at an offset leaves the position, and returns what is there. -/
lemma readWithRetries_offset (at_ : offset ≠ 0)
    (h : readWithRetries file count offset tries answers pos = (result, pos', left)) :
    pos' = pos ∧ ∀ bytes ∈ result, bytes = slice file offset (offset + count) := by
  induction tries generalizing answers with
  | zero =>
    cases h
    exact ⟨rfl, nofun⟩
  | succ tries ih =>
    rw [readWithRetries] at h
    simp only [if_neg at_] at h
    split at h
    · rename_i whole
      cases h
      refine ⟨rfl, ?_⟩
      intro bytes mem
      cases mem
      rw [whole.1]
    · exact ih h

end tries

/-- A dgram as it is in a file. -/
structure StoredDgram where
  bytes : Bytes
  header : Xtc.sizeofDgram ≤ bytes.length
  sized : (bytes.length : Int) = Xtc.sizeofDgram + DgramFile.payloadOf bytes

/-- The bytes of a file. -/
def fileOf (ds : List StoredDgram) : Bytes := (ds.map (·.bytes)).flatten

namespace DgramFile

/-- A file that has just been opened. -/
def opened : DgramFile := ⟨0, [], []⟩

/-- What the sequential creations returned are the first dgrams, the read position is after them, and the others
    returned what was asked for. -/
structure Reads (ds : List StoredDgram) (s : DgramFile) : Prop where
  dgrams : s.dgrams = (ds.map (·.bytes)).take s.dgrams.length
  pos : s.pos = s.dgrams.flatten.length
  views : ∀ v ∈ s.views, v.2.2 = slice (fileOf ds) v.1 (v.1 + v.2.1)

/-- In a sequential creation the first try for the header that reads anything reads it all, and then so does one for
    the payload, if there is any. In another one the offset and the size are not 0, or no try reads anything. -/
def Whole (ds : List StoredDgram) (maxRetries : Int) (_ : List Creation) (s : DgramFile) : Creation → Prop
  | .sequential answers =>
    ∀ n left, firstRead (fileOf ds) s.pos Xtc.sizeofDgram (maxRetries + 1).toNat answers = some (n, left) →
      n = Xtc.sizeofDgram ∧
        (payloadOf (slice (fileOf ds) s.pos (s.pos + Xtc.sizeofDgram)) = 0 ∨
          ∃ left', firstRead (fileOf ds) (s.pos + Xtc.sizeofDgram)
            (payloadOf (slice (fileOf ds) s.pos (s.pos + Xtc.sizeofDgram))).toNat (maxRetries + 1).toNat left =
              some ((payloadOf (slice (fileOf ds) s.pos (s.pos + Xtc.sizeofDgram))).toNat, left'))
  | .positioned offset size answers =>
    (offset ≠ 0 ∧ size ≠ 0) ∨
      firstRead (fileOf ds) s.pos (if size = 0 then Xtc.sizeofDgram else size) (maxRetries + 1).toNat answers = none

section creations
variable {ds : List StoredDgram} {maxRetries : Int} {s t : DgramFile} {as : List Creation}
  {answers left : List (Option Nat)}

/-- The size of a payload is in the header. -/
lemma payloadOf_take (bytes : Bytes) : payloadOf (bytes.take Xtc.sizeofDgram) = payloadOf bytes := by
  have same : slice (bytes.take Xtc.sizeofDgram) 20 24 = slice bytes 20 24 := by
    rw [slice, slice, List.take_take]
    rfl
  show sizeofPayload (ofLe (slice _ 20 24)) = sizeofPayload (ofLe (slice _ 20 24))
  rw [same]

/-- Where the file goes on there is a dgram. -/
lemma Reads.next (reads : Reads ds s) (more : 0 < (fileOf ds).length - s.pos) :
    ∃ d : StoredDgram, (ds.map (·.bytes)).take (s.dgrams.length + 1) = s.dgrams ++ [d.bytes] ∧
      slice (fileOf ds) s.pos (s.pos + d.bytes.length) = d.bytes := by
  have lt : s.dgrams.length < ds.length := by
    by_contra all
    have whole : s.dgrams = ds.map (·.bytes) := by
      rw [reads.dgrams]
      apply List.take_of_length_le
      rw [List.length_map]
      omega
    rw [reads.pos, whole, fileOf] at more
    omega
  refine ⟨ds[s.dgrams.length], ?_, ?_⟩
  · rw [List.take_add_one, ← reads.dgrams, List.getElem?_map, List.getElem?_eq_getElem lt]
    rfl
  · have split : fileOf ds = s.dgrams.flatten ++ ds[s.dgrams.length].bytes ++
        ((ds.drop (s.dgrams.length + 1)).map (·.bytes)).flatten := by
      have parts := List.take_append_drop s.dgrams.length ds
      rw [List.drop_eq_getElem_cons lt] at parts
      conv_lhs => rw [fileOf, ← parts]
      have before : (ds.take s.dgrams.length).map (·.bytes) = s.dgrams := by
        rw [List.map_take]
        exact reads.dgrams.symm
      rw [List.map_append, List.flatten_append, before, List.map_cons, List.flatten_cons, List.append_assoc]
    rw [split, reads.pos]
    exact slice_append _ _ _

/-- A header and a payload that are read one after the other are the next dgram. -/
lemma Reads.split (reads : Reads ds s) (more : 0 < (fileOf ds).length - s.pos) :
    ∃ d : StoredDgram, (ds.map (·.bytes)).take (s.dgrams.length + 1) = s.dgrams ++ [d.bytes] ∧
      slice (fileOf ds) s.pos (s.pos + Xtc.sizeofDgram) = d.bytes.take Xtc.sizeofDgram ∧
      slice (fileOf ds) (s.pos + Xtc.sizeofDgram) (s.pos + d.bytes.length) = d.bytes.drop Xtc.sizeofDgram ∧
      (d.bytes.length : Int) = Xtc.sizeofDgram + payloadOf (slice (fileOf ds) s.pos (s.pos + Xtc.sizeofDgram)) := by
  obtain ⟨d, taken, here⟩ := reads.next more
  have first : slice (fileOf ds) s.pos (s.pos + Xtc.sizeofDgram) = d.bytes.take Xtc.sizeofDgram := by
    have parts := slice_slice (fileOf ds) 0 (Nat.add_le_add_left d.header s.pos)
    rw [here, slice, List.drop_zero, Nat.add_zero] at parts
    exact parts.symm
  refine ⟨d, taken, first, ?_, ?_⟩
  · have parts := slice_slice (fileOf ds) Xtc.sizeofDgram (Nat.le_refl (s.pos + d.bytes.length))
    rw [here, slice, List.take_length] at parts
    exact parts.symm
  · rw [first, payloadOf_take]
    exact d.sized

/-- A dgram more. -/
lemma Reads.concat (reads : Reads ds s) {d : StoredDgram} {pos : Nat}
    (taken : (ds.map (·.bytes)).take (s.dgrams.length + 1) = s.dgrams ++ [d.bytes])
    (moved : pos = s.pos + d.bytes.length) : Reads ds { s with pos, dgrams := s.dgrams ++ [d.bytes] } := by
  constructor
  · rw [List.length_append]
    exact taken.symm
  · rw [moved, reads.pos, List.flatten_append, List.length_append, List.flatten_singleton]
  · exact reads.views

/-- Where a creation has moved the position otherwise than by what it has returned, what comes is not read. -/
lemma Reads.moved {new : List Bytes} {pos : Nat} {views} (reads : Reads ds s)
    (further : s.pos + new.flatten.length < pos) : ¬ Reads ds ⟨pos, s.dgrams ++ new, views⟩ := by
  intro after
  have there : pos = (s.dgrams ++ new).flatten.length := after.pos
  rw [List.flatten_append, List.length_append, ← reads.pos] at there
  omega

/-- The same where nothing is returned, or it is no sequential creation. -/
lemma Reads.moved_only {pos : Nat} {views} (reads : Reads ds s) (further : s.pos < pos) :
    ¬ Reads ds ⟨pos, s.dgrams, views⟩ := by
  have moved := @Reads.moved ds s [] pos views reads further
  rwa [List.append_nil] at moved

/-- Where the position is too far after the header, the dgram is none of those that come. -/
lemma dgramRead_moved {header : Bytes} {pos : Nat} (reads : Reads ds s) (length : header.length = Xtc.sizeofDgram)
    (further : s.pos + Xtc.sizeofDgram < pos) : ¬ Reads ds (s.dgramRead (fileOf ds) maxRetries header answers pos) := by
  rw [dgramRead]
  split
  · apply reads.moved
    rw [List.flatten_singleton, length]
    exact further
  · cases read : retrying (fileOf ds) maxRetries (payloadOf header).toNat 0 answers pos with
    | mk result rest =>
      obtain ⟨pos', left⟩ := rest
      have moves := (readWithRetries_moves read).1
      cases result with
      | none =>
        apply reads.moved_only
        rw [Option.elim_none] at moves
        omega
      | some bytes =>
        apply reads.moved
        rw [Option.elim_some] at moves
        rw [List.flatten_singleton, List.length_append, length]
        omega

/-- The dgram is the next one exactly where the first try that reads anything of the payload reads it all. -/
lemma dgramRead_iff (reads : Reads ds s) (more : 0 < (fileOf ds).length - s.pos)
    (plain : ¬ payloadOf (slice (fileOf ds) s.pos (s.pos + Xtc.sizeofDgram)) < 0) :
    Reads ds (s.dgramRead (fileOf ds) maxRetries (slice (fileOf ds) s.pos (s.pos + Xtc.sizeofDgram)) answers
        (s.pos + Xtc.sizeofDgram)) ↔
      (payloadOf (slice (fileOf ds) s.pos (s.pos + Xtc.sizeofDgram)) = 0 ∨
        ∃ left', firstRead (fileOf ds) (s.pos + Xtc.sizeofDgram)
          (payloadOf (slice (fileOf ds) s.pos (s.pos + Xtc.sizeofDgram))).toNat (maxRetries + 1).toNat answers =
            some ((payloadOf (slice (fileOf ds) s.pos (s.pos + Xtc.sizeofDgram))).toNat, left')) := by
  obtain ⟨d, taken, first, second, size⟩ := reads.split more
  rw [dgramRead, first]
  rw [first] at plain size
  split
  · rename_i none_
    have whole : d.bytes.take Xtc.sizeofDgram = d.bytes := by
      apply List.take_of_length_le
      omega
    refine iff_of_true ?_ (.inl none_)
    rw [whole]
    apply reads.concat taken
    omega
  · rename_i some_
    rw [or_iff_right some_, retrying]
    have length : d.bytes.length = Xtc.sizeofDgram + (payloadOf (d.bytes.take Xtc.sizeofDgram)).toNat := by omega
    cases read : firstRead (fileOf ds) (s.pos + Xtc.sizeofDgram) (payloadOf (d.bytes.take Xtc.sizeofDgram)).toNat
        (maxRetries + 1).toNat answers with
    | none =>
      obtain ⟨left, nothing⟩ := readWithRetries_none read
      rw [nothing]
      refine iff_of_false ?_ nofun
      exact reads.moved_only (Nat.lt_add_of_pos_right (by decide))
    | some r =>
      obtain ⟨m, left⟩ := r
      -- A later try after a short read writes over what was read.
      by_cases whole : m = (payloadOf (d.bytes.take Xtc.sizeofDgram)).toNat
      · subst whole
        rw [readWithRetries_whole read]
        refine iff_of_true ?_ ⟨left, rfl⟩
        rw [Nat.add_assoc, ← length, second]
        simp only [List.take_append_drop]
        exact reads.concat taken rfl
      · refine iff_of_false ?_ ?_
        · cases result : readWithRetries (fileOf ds) (payloadOf (d.bytes.take Xtc.sizeofDgram)).toNat 0
              (maxRetries + 1).toNat answers (s.pos + Xtc.sizeofDgram) with
          | mk bytes rest =>
            obtain ⟨pos', left'⟩ := rest
            have moves := readWithRetries_partial read whole result
            have pos := (firstRead_some read).1
            cases bytes with
            | none =>
              apply reads.moved_only
              rw [Option.elim_none] at moves
              omega
            | some bytes =>
              apply reads.moved
              rw [Option.elim_some] at moves
              rw [List.flatten_singleton, List.length_append, List.length_take, Nat.min_eq_left d.header]
              omega
        · rintro ⟨left', e⟩
          cases e
          exact whole rfl

/-- A sequential creation is as it should be exactly where its tries are. -/
lemma sequential_iff (reads : Reads ds s) (h : s.sequential (fileOf ds) maxRetries answers = .ok t) :
    Reads ds t ↔ Whole ds maxRetries as s (.sequential answers) := by
  rw [sequential, retrying] at h
  cases first : firstRead (fileOf ds) s.pos Xtc.sizeofDgram (maxRetries + 1).toNat answers with
  | none =>
    obtain ⟨left, read⟩ := readWithRetries_none first
    rw [read] at h
    cases h
    refine iff_of_true reads ?_
    intro n left some_
    rw [first] at some_
    cases some_
  | some r =>
    obtain ⟨n, left⟩ := r
    obtain ⟨pos, le, there⟩ := firstRead_some first
    rw [Whole, first]
    by_cases whole : n = Xtc.sizeofDgram
    · subst whole
      rw [readWithRetries_whole first] at h
      simp only at h
      split at h
      · cases h
      · rename_i plain
        cases h
        rw [dgramRead_iff reads (by omega) plain]
        constructor
        · rintro payload n left e
          cases e
          exact ⟨rfl, payload⟩
        · intro all
          exact (all _ _ rfl).2
    · refine iff_of_false ?_ fun all => whole (all n left rfl).1
      cases result : readWithRetries (fileOf ds) Xtc.sizeofDgram 0 (maxRetries + 1).toNat answers s.pos with
      | mk header rest =>
        obtain ⟨pos', left'⟩ := rest
        -- A short read moves the position without a dgram.
        have moves := readWithRetries_partial first whole result
        rw [result] at h
        cases header with
        | none =>
          cases h
          apply reads.moved_only
          rw [Option.elim_none] at moves
          omega
        | some header =>
          have length := (readWithRetries_moves result).2 header rfl
          rw [Option.elim_some, length] at moves
          simp only at h
          split at h
          · cases h
          · cases h
            exact dgramRead_moved reads length (by omega)

/-- A first read moves the position. -/
lemma firstRead_moves {file : Bytes} {count tries pos pos' n : Nat} {answers rest left : List (Option Nat)}
    {result : Option Bytes} (first : firstRead file pos count tries answers = some (n, rest))
    (h : readWithRetries file count 0 tries answers pos = (result, pos', left)) : pos < pos' := by
  have some_ := firstRead_some first
  by_cases whole : n = count
  · subst whole
    rw [readWithRetries_whole first] at h
    cases h
    omega
  · have moves := readWithRetries_partial first whole h
    omega

/-- A read with an offset and a size does not take a position back. -/
lemma readAt_moved {offset asked size pos : Nat} (reads : Reads ds s) (further : s.pos < pos) :
    ¬ Reads ds (s.readAt (fileOf ds) maxRetries offset asked size answers pos) := by
  have stays : ∀ {result pos' left},
      retrying (fileOf ds) maxRetries size offset answers pos = (result, pos', left) → pos ≤ pos' := by
    intro result pos' left h
    by_cases start : offset = 0
    · subst start
      have moves := (readWithRetries_moves h).1
      omega
    · exact (readWithRetries_offset start h).1.ge
  rw [readAt]
  cases result : retrying (fileOf ds) maxRetries size offset answers pos with
  | mk bytes rest =>
    obtain ⟨pos', left⟩ := rest
    have le := stays result
    cases bytes with
    | none => exact reads.moved_only (further.trans_le le)
    | some bytes => exact reads.moved_only (further.trans_le le)

/-- A creation with an offset and a size is as it should be exactly where these are not 0, or nothing is read. -/
lemma positioned_iff {offset size : Nat} (reads : Reads ds s)
    (h : s.create (fileOf ds) maxRetries (.positioned offset size answers) = .ok t) :
    Reads ds t ↔ Whole ds maxRetries as s (.positioned offset size answers) := by
  rw [create] at h
  rw [Whole]
  split at h
  · rename_i none_
    rw [if_pos none_, or_iff_right fun both => both.2 none_]
    -- Without a size it reads a header first, at the read position, which moves.
    cases first : firstRead (fileOf ds) s.pos Xtc.sizeofDgram (maxRetries + 1).toNat answers with
    | none =>
      obtain ⟨left, nothing⟩ := readWithRetries_none first
      rw [retrying, nothing] at h
      cases h
      exact iff_of_true reads rfl
    | some r =>
      refine iff_of_false ?_ nofun
      cases result : retrying (fileOf ds) maxRetries Xtc.sizeofDgram 0 answers s.pos with
      | mk header rest =>
        obtain ⟨pos', left⟩ := rest
        have further := firstRead_moves first result
        rw [result] at h
        cases header with
        | none =>
          cases h
          exact reads.moved_only further
        | some header =>
          simp only at h
          split at h
          · cases h
          · cases h
            exact readAt_moved reads further
  · rename_i some_
    cases h
    rw [if_neg some_]
    by_cases start : offset = 0
    · subst start
      rw [or_iff_right fun both => both.1 rfl, readAt]
      cases first : firstRead (fileOf ds) s.pos size (maxRetries + 1).toNat answers with
      | none =>
        obtain ⟨left, nothing⟩ := readWithRetries_none first
        rw [retrying, nothing]
        exact iff_of_true reads rfl
      | some r =>
        refine iff_of_false ?_ nofun
        cases result : retrying (fileOf ds) maxRetries size 0 answers s.pos with
        | mk bytes rest =>
          obtain ⟨pos', left⟩ := rest
          have further := firstRead_moves first result
          cases bytes with
          | none => exact reads.moved_only further
          | some bytes => exact reads.moved_only further
    · refine iff_of_true ?_ (.inl ⟨start, some_⟩)
      rw [readAt]
      cases result : retrying (fileOf ds) maxRetries size offset answers s.pos with
      | mk bytes rest =>
        obtain ⟨pos', left⟩ := rest
        obtain ⟨same, there⟩ := readWithRetries_offset start result
        subst same
        cases bytes with
        | none => exact reads
        | some bytes =>
          refine ⟨reads.dgrams, reads.pos, ?_⟩
          intro v mem
          cases List.mem_append.mp mem with
          | inl old => exact reads.views v old
          | inr new =>
            cases List.mem_singleton.mp new
            exact there bytes rfl

/-- Every creation returns what it should and leaves the position where it should, throughout a run, exactly where no
    try is short before the last, no header is read without its payload, and no creation with an offset and a size
    reads at offset 0. -/
theorem retries_iff (ds : List StoredDgram) (maxRetries : Int) (as : List Creation) (s : DgramFile)
    (run : Run (create (fileOf ds) maxRetries) (fun _ _ _ => True) opened as s) :
    (∀ bs t, bs <+: as → Run (create (fileOf ds) maxRetries) (fun _ _ _ => True) opened bs t → Reads ds t) ↔
      Run (create (fileOf ds) maxRetries) (Whole ds maxRetries) opened as s := by
  apply Run.everywhere_iff (I := fun _ _ => True) (P := fun _ t => Reads ds t) trivial ⟨rfl, rfl, List.forall_mem_nil _⟩
    (fun _ _ _ _ _ _ _ => trivial) ?_ run
  intro as s a t _ reads _ h
  cases a with
  | sequential answers => exact sequential_iff reads h
  | positioned offset size answers => exact positioned_iff reads h

/-- A dgram without a payload, with the lowest byte of its time stamp and an `env` that is like an extent. -/
def bareBytes (time : UInt8) : Bytes := time :: List.replicate 7 0 ++ toLe 4 12 ++ List.replicate 8 0 ++ toLe 4 12

/-- A file with two dgrams. -/
def twoDgrams : List StoredDgram :=
  [⟨bareBytes 1, by decide +kernel, by decide +kernel⟩, ⟨bareBytes 2, by decide +kernel, by decide +kernel⟩]

/-- A retry after a read of nothing, and one at an offset after a short read. -/
theorem retries_nothing :
    ∃ s, Run (create (fileOf twoDgrams) 1) (fun _ _ _ => True) opened
        [.sequential [some 0, some 100], .positioned 24 24 [some 3, some 100]] s ∧
      ∀ bs t, bs <+: [Creation.sequential [some 0, some 100], .positioned 24 24 [some 3, some 100]] →
        Run (create (fileOf twoDgrams) 1) (fun _ _ _ => True) opened bs t → Reads twoDgrams t := by
  have check : passes (fun s => passes (fun _ => true)
        (create (fileOf twoDgrams) 1 s (.positioned 24 24 [some 3, some 100])))
      (create (fileOf twoDgrams) 1 opened (.sequential [some 0, some 100])) = true := by
    decide +kernel
  obtain ⟨s₁, h₁, check⟩ := passes_iff.mp check
  obtain ⟨s₂, h₂, -⟩ := passes_iff.mp check
  have header : Whole twoDgrams 1 [] opened (.sequential [some 0, some 100]) := by
    intro n left first
    have whole : firstRead (fileOf twoDgrams) 0 Xtc.sizeofDgram 2 [some 0, some 100] = some (Xtc.sizeofDgram, []) := by
      decide +kernel
    cases whole.symm.trans first
    exact ⟨rfl, .inl (by decide +kernel)⟩
  have whole : Run (create (fileOf twoDgrams) 1) (Whole twoDgrams 1) opened
      [.sequential [some 0, some 100], .positioned 24 24 [some 3, some 100]] s₂ :=
    (Run.nil.snoc header h₁).snoc (.inl ⟨nofun, nofun⟩) h₂
  have run : Run (create (fileOf twoDgrams) 1) (fun _ _ _ => True) opened _ s₂ := whole.mono fun _ _ _ _ => trivial
  exact ⟨s₂, run, (retries_iff _ _ _ s₂ run).mpr whole⟩

/-- A short read shifts what the retry reads, a creation that fails has moved the position, and one with offset 0
    reads from there. -/
theorem short_read :
    ∃ s t u, Run (create (fileOf twoDgrams) 1) (fun _ _ _ => True) opened [.sequential [some 12, some 100]] s ∧
      Run (create (fileOf twoDgrams) 1) (fun _ _ _ => True) opened [.sequential [some 12, some 0]] t ∧
      Run (create (fileOf twoDgrams) 1) (fun _ _ _ => True) opened
        [.sequential [some 100], .positioned 0 24 [some 100]] u ∧
      s.dgrams = [(bareBytes 1).drop 12 ++ (bareBytes 2).take 12] ∧ ¬ Reads twoDgrams s ∧
      t.dgrams = [] ∧ t.pos = 12 ∧ ¬ Reads twoDgrams t ∧
      u.views = [(0, 24, bareBytes 2)] ∧ ¬ Reads twoDgrams u := by
  obtain ⟨s, runs, first⟩ := Run.of_replay_any (create (fileOf twoDgrams) 1) (fun _ _ _ => True) opened
    [.sequential [some 12, some 100]]
    (fun s => s.dgrams = [(bareBytes 1).drop 12 ++ (bareBytes 2).take 12]) (by decide +kernel)
  obtain ⟨t, runt, second⟩ := Run.of_replay_any (create (fileOf twoDgrams) 1) (fun _ _ _ => True) opened
    [.sequential [some 12, some 0]] (fun t => t.dgrams = [] ∧ t.pos = 12) (by decide +kernel)
  obtain ⟨u, runu, third⟩ := Run.of_replay_any (create (fileOf twoDgrams) 1) (fun _ _ _ => True) opened
    [.sequential [some 100], .positioned 0 24 [some 100]] (fun u => u.views = [(0, 24, bareBytes 2)])
    (by decide +kernel)
  have first := of_decide_eq_true first
  obtain ⟨none_, pos⟩ := of_decide_eq_true second
  have third := of_decide_eq_true third
  refine ⟨s, t, u, runs, runt, runu, first, ?_, none_, pos, ?_, third, ?_⟩
  · intro reads
    have dgrams := reads.dgrams
    rw [first] at dgrams
    exact absurd dgrams (by decide +kernel)
  · intro reads
    have place := reads.pos
    rw [none_, pos] at place
    cases place
  · intro reads
    have view := reads.views (0, 24, bareBytes 2) (by rw [third]; exact List.mem_singleton.mpr rfl)
    exact absurd view (by decide +kernel)

end creations

end DgramFile

end Lcls2.Psana
