import Lcls2.Psana.SmdShow

/-!
# Packing for the event builders

Model of `SmdReader.repack_parallel` (`psana/smdreader.pyx`), next to `show`. The loop whose turns copy in
parallel is taken file by file: the turns write to different places. What is written behind the end of the
send buffer, or read behind the end of a chunk, is a fault.
-/

namespace Lcls2.Psana
open Lib

/-- `sendbufsize`. -/
def sendbufsize : Nat := 0x10000000

/-- The length of `ptr_step_bufs`. -/
def maxStepBufs : Nat := 1000

/-- The send buffer, and `offsets[i]` and `footer[i]` of the file that is copied to it. -/
structure Repacking where
  sendBuf : Bytes
  offset : Nat
  footer : Nat

/-- One `memcpy` of `repack_parallel`. -/
def Repacking.copy (p : Repacking) (src : Bytes) : Except ReadFault Repacking :=
  if 0 < src.length then
    if p.offset + src.length ≤ sendbufsize then
      .ok ⟨writeAt p.sendBuf p.offset src, p.offset + src.length, p.footer + src.length⟩
    else .error .overflow
  else .ok p

/-- What is copied from the chunk of a file. -/
def Stream.smdBlock (s : Stream) (onlySteps : Bool) : Except ReadFault Bytes :=
  if onlySteps = false ∧ 0 < s.blockSizeBuf then
    match s.buf.entries[s.iStBuf]? with
    | none => .error .index
    | some entry =>
      if entry.st + s.blockSizeBuf ≤ s.buf.chunk.length then
        .ok (slice s.buf.chunk entry.st (entry.st + s.blockSizeBuf))
      else .error .index
  else .ok []

/-- The first loop of `repack_parallel`: the offset of each file, and the total size. -/
def repackOffsets (onlySteps : Bool) (fakebufSize : Nat) : Nat → List (Bytes × Stream) → List Nat × Nat
  | offset, [] => ([], offset)
  | offset, file :: files =>
    let smdSize := if onlySteps then 0 else file.2.blockSizeBuf
    let rest := repackOffsets onlySteps fakebufSize (offset + file.1.length + smdSize + fakebufSize) files
    (offset :: rest.1, rest.2)

/-- A turn of the second loop of `repack_parallel`. -/
def repackFile (onlySteps : Bool) (fakebuf sendBuf : Bytes) (offset : Nat) (stepView : Bytes)
    (s : Stream) : Except ReadFault Repacking := do
  let p ← Repacking.copy ⟨sendBuf, offset, 0⟩ stepView
  let block ← s.smdBlock onlySteps
  let p ← p.copy block
  p.copy fakebuf

/-- The second loop of `repack_parallel`. -/
def repackFiles (onlySteps : Bool) (fakebuf : Bytes) :
    Bytes → List (Nat × Bytes × Stream) → Except ReadFault (Bytes × List Nat)
  | sendBuf, [] => .ok (sendBuf, [])
  | sendBuf, file :: files => do
    let p ← repackFile onlySteps fakebuf sendBuf file.1 file.2.1 file.2.2
    let rest ← repackFiles onlySteps fakebuf p.sendBuf files
    .ok (rest.1, p.footer :: rest.2)

namespace SmdReader

/-- `SmdReader.repack_parallel`, with the send buffer of the event builder. -/
def repackParallel (r : SmdReader) (sendBuf : Bytes) (stepViews : List Bytes) (onlySteps : Bool) :
    Except ReadFault Bytes :=
  let fakebuf := r.getFakeBuffer.fakebuf
  if stepViews.length < r.streams.length then .error .index
  else if maxStepBufs < r.streams.length then .error .overflow
  else do
    let files := stepViews.zip r.streams
    let offsets := repackOffsets onlySteps fakebuf.length 0 files
    let copied ← repackFiles onlySteps fakebuf sendBuf (offsets.1.zip files)
    let footer := copied.2.flatMap (toLe 4) ++ toLe 4 r.streams.length
    if offsets.2 + footer.length ≤ sendbufsize then
      .ok ((writeAt copied.1 offsets.2 footer).take (offsets.2 + footer.length))
    else .error .overflow

/-- Calls of `show` behind each other. -/
def showAll (r : SmdReader) (calls : List (Nat × Bool)) : SmdReader :=
  calls.foldl (fun r call => (r.show_ call.1 call.2).toOption.elim r Prod.snd) r

end SmdReader

section copy
variable {s : Stream} {onlySteps : Bool} {fakebuf sendBuf stepView block : Bytes} {offset : Nat}
  {p p' : Repacking}

/-- What is in the send buffer up to the offset. -/
def Repacking.done (p : Repacking) : Bytes := p.sendBuf.take p.offset

/-- What a copy adds. -/
lemma Repacking.copy_spec {src : Bytes} (room : p.offset ≤ p.sendBuf.length) (h : p.copy src = .ok p') :
    p'.done = p.done ++ src ∧ p'.offset = p.offset + src.length ∧ p'.footer = p.footer + src.length ∧
      p'.offset ≤ p'.sendBuf.length := by
  rw [Repacking.copy] at h
  split at h
  · split at h
    · cases h
      refine ⟨take_writeAt src room, rfl, rfl, ?_⟩
      have length := congrArg List.length (take_writeAt src room)
      rw [List.length_take, List.length_append, List.length_take] at length
      show p.offset + src.length ≤ (writeAt p.sendBuf p.offset src).length
      omega
    · cases h
  · rename_i none_
    have none_ : src = [] := List.length_eq_zero_iff.mp (Nat.eq_zero_of_not_pos none_)
    cases h
    rw [none_, List.append_nil]
    exact ⟨rfl, rfl, rfl, room⟩

/-- The block that is copied is the one that `show` returns. -/
lemma Stream.smdBlock_spec (h : s.smdBlock onlySteps = .ok block) :
    block = (if onlySteps = false ∧ 0 < s.blockSizeBuf then Stream.block s.buf s.iStBuf s.blockSizeBuf
      else []) ∧ block.length = if onlySteps then 0 else s.blockSizeBuf := by
  rw [Stream.smdBlock] at h
  split at h
  · rename_i some_
    rw [if_pos some_, Stream.block, some_.1]
    cases entry : s.buf.entries[s.iStBuf]? with
    | none =>
      rw [entry] at h
      cases h
    | some entry =>
      simp only [entry] at h
      split at h
      · rename_i inside
        cases h
        refine ⟨rfl, ?_⟩
        rw [slice_length _ inside]
        exact Nat.add_sub_cancel_left _ _
      · cases h
  · rename_i none_
    cases h
    rw [if_neg none_]
    refine ⟨rfl, ?_⟩
    cases onlySteps with
    | true => rfl
    | false => exact (Nat.eq_zero_of_not_pos fun pos => none_ ⟨rfl, pos⟩).symm

/-- The bytes of a file in the send buffer. -/
def segmentOf (onlySteps : Bool) (fakebuf : Bytes) (file : Bytes × Stream) : Bytes :=
  file.1 ++ (if onlySteps = false ∧ 0 < file.2.blockSizeBuf then
    Stream.block file.2.buf file.2.iStBuf file.2.blockSizeBuf else []) ++ fakebuf

/-- What a turn of the second loop adds. -/
lemma repackFile_spec (room : offset ≤ sendBuf.length)
    (h : repackFile onlySteps fakebuf sendBuf offset stepView s = .ok p) :
    p.done = sendBuf.take offset ++ segmentOf onlySteps fakebuf (stepView, s) ∧
      p.offset = offset + stepView.length + (if onlySteps then 0 else s.blockSizeBuf) + fakebuf.length ∧
      p.footer = (segmentOf onlySteps fakebuf (stepView, s)).length ∧ p.offset ≤ p.sendBuf.length := by
  rw [repackFile] at h
  obtain ⟨p₁, step, h⟩ := bind_ok h
  obtain ⟨block, read, h⟩ := bind_ok h
  obtain ⟨p₂, smd, h⟩ := bind_ok h
  obtain ⟨done₁, offset₁, footer₁, room₁⟩ := Repacking.copy_spec room step
  obtain ⟨done₂, offset₂, footer₂, room₂⟩ := Repacking.copy_spec room₁ smd
  obtain ⟨done, offset', footer, room'⟩ := Repacking.copy_spec room₂ h
  obtain ⟨e, length⟩ := Stream.smdBlock_spec read
  refine ⟨?_, ?_, ?_, room'⟩
  · rw [done, done₂, done₁, e, segmentOf, List.append_assoc, List.append_assoc, List.append_assoc]
    rfl
  · rw [offset', offset₂, offset₁, length]
  · rw [footer, footer₂, footer₁, segmentOf, List.length_append, List.length_append, ← e, Nat.zero_add]

/-- What the second loop puts into the send buffer. -/
lemma repackFiles_spec {files : List (Bytes × Stream)} {copied : Bytes × List Nat}
    (room : offset ≤ sendBuf.length)
    (h : repackFiles onlySteps fakebuf sendBuf
      ((repackOffsets onlySteps fakebuf.length offset files).1.zip files) = .ok copied) :
    copied.1.take (repackOffsets onlySteps fakebuf.length offset files).2 =
        sendBuf.take offset ++ (files.map (segmentOf onlySteps fakebuf)).flatten ∧
      copied.2 = (files.map (segmentOf onlySteps fakebuf)).map List.length ∧
      (repackOffsets onlySteps fakebuf.length offset files).2 ≤ copied.1.length := by
  induction files generalizing offset sendBuf copied with
  | nil =>
    cases h
    rw [repackOffsets, List.map_nil, List.flatten_nil, List.append_nil]
    exact ⟨rfl, rfl, room⟩
  | cons file files ih =>
    rw [repackOffsets] at h ⊢
    simp only [List.zip_cons_cons] at h
    rw [repackFiles] at h
    obtain ⟨p, one, h⟩ := bind_ok h
    obtain ⟨rest, others, h⟩ := bind_ok h
    cases h
    obtain ⟨done, offset', footer, room'⟩ := repackFile_spec room one
    rw [← offset'] at others
    obtain ⟨done', sizes, room''⟩ := ih room' others
    simp only [← offset', List.map_cons, List.flatten_cons]
    refine ⟨?_, ?_, room''⟩
    · have done : p.sendBuf.take p.offset = _ := done
      rw [done', done, List.append_assoc]
    · rw [sizes, footer]

end copy

section pack
variable {r r' : SmdReader} {s : Stream} {onlySteps : Bool} {fakebuf sendBuf : Bytes}
  {stepViews : List Bytes} {offset : Nat}

/-- The segments of a packed buffer. -/
def SmdReader.segments (r : SmdReader) (stepViews : List Bytes) (onlySteps : Bool) : List Bytes :=
  (stepViews.zip r.streams).map (segmentOf onlySteps r.getFakeBuffer.fakebuf)

/-- A successful packing is the packets and their footer. -/
lemma repackParallel_spec {view : Bytes} (count : stepViews.length = r.streams.length)
    (h : r.repackParallel sendBuf stepViews onlySteps = .ok view) :
    view = packed (r.segments stepViews onlySteps) ∧
      (r.segments stepViews onlySteps).length = r.streams.length ∧
      fits (r.segments stepViews onlySteps).length ∧
      ∀ segment ∈ r.segments stepViews onlySteps, fits segment.length := by
  rw [SmdReader.repackParallel, if_neg (Nat.not_lt_of_le (Nat.le_of_eq count.symm))] at h
  split at h
  · cases h
  · rename_i few
    simp only at h
    obtain ⟨copied, copies, h⟩ := bind_ok h
    split at h
    · rename_i room
      cases h
      obtain ⟨bytes, sizes, inside⟩ := repackFiles_spec (Nat.zero_le _) copies
      have segments : (stepViews.zip r.streams).map (segmentOf onlySteps r.getFakeBuffer.fakebuf) =
          r.segments stepViews onlySteps := rfl
      rw [segments] at bytes sizes
      rw [List.take_zero, List.nil_append] at bytes
      have length : (r.segments stepViews onlySteps).length = r.streams.length := by
        rw [SmdReader.segments, List.length_map, List.length_zip, count, Nat.min_self]
      refine ⟨?_, length, ?_, ?_⟩
      · rw [take_writeAt _ inside, bytes, sizes, packed, footerOf, List.length_map, length]
      · rw [length]
        have few := Nat.le_of_not_lt few
        rw [maxStepBufs] at few
        show r.streams.length < 256 ^ 4
        omega
      · intro segment hs
        have total := congrArg List.length bytes
        rw [List.length_take, Nat.min_eq_left inside, List.length_flatten] at total
        have one := List.le_sum_of_mem (List.mem_map_of_mem (f := List.length) hs)
        rw [sendbufsize] at room
        show segment.length < 256 ^ 4
        omega
    · cases h

end pack

section room
variable {r : SmdReader} {s : Stream} {onlySteps : Bool} {fakebuf sendBuf stepView : Bytes}
  {stepViews : List Bytes} {offset : Nat} {p : Repacking}

/-- A copy that has room. -/
lemma Repacking.copy_ok {src : Bytes} (room : p.offset + src.length ≤ sendbufsize) :
    ∃ p', p.copy src = .ok p' ∧ p'.offset = p.offset + src.length := by
  rw [Repacking.copy, if_pos room]
  split
  · exact ⟨_, rfl, rfl⟩
  · rename_i none_
    exact ⟨p, rfl, by rw [Nat.eq_zero_of_not_pos none_, Nat.add_zero]⟩

/-- A block that is in the chunk. -/
lemma Stream.smdBlock_ok (onlySteps : Bool)
    (inside : (Stream.block s.buf s.iStBuf s.blockSizeBuf).length = s.blockSizeBuf) :
    ∃ block, s.smdBlock onlySteps = .ok block := by
  rw [Stream.smdBlock]
  split
  · rename_i some_
    rw [Stream.block] at inside
    cases entry : s.buf.entries[s.iStBuf]? with
    | none =>
      rw [entry] at inside
      exact absurd some_.2 (Nat.not_lt_of_le (Nat.le_of_eq inside.symm))
    | some first =>
      simp only [entry] at inside ⊢
      rw [slice, List.length_drop, List.length_take] at inside
      have inside : first.st + s.blockSizeBuf ≤ s.buf.chunk.length := by omega
      rw [if_pos inside]
      exact ⟨_, rfl⟩
  · exact ⟨[], rfl⟩

/-- The size of a file in the send buffer. -/
def segmentSize (onlySteps : Bool) (fakebufSize : Nat) (file : Bytes × Stream) : Nat :=
  file.1.length + (if onlySteps then 0 else file.2.blockSizeBuf) + fakebufSize

/-- The first loop adds up the sizes. -/
lemma repackOffsets_total (fakebufSize : Nat) (files : List (Bytes × Stream)) :
    (repackOffsets onlySteps fakebufSize offset files).2 =
      offset + (files.map (segmentSize onlySteps fakebufSize)).sum := by
  induction files generalizing offset with
  | nil => rfl
  | cons file files ih =>
    rw [repackOffsets, ih, List.map_cons, List.sum_cons, segmentSize]
    omega

lemma repackFile_ok
    (inside : (Stream.block s.buf s.iStBuf s.blockSizeBuf).length = s.blockSizeBuf)
    (room : offset + segmentSize onlySteps fakebuf.length (stepView, s) ≤ sendbufsize) :
    ∃ p, repackFile onlySteps fakebuf sendBuf offset stepView s = .ok p := by
  have room : offset + (stepView.length + (if onlySteps then 0 else s.blockSizeBuf) + fakebuf.length) ≤
    sendbufsize := room
  obtain ⟨block, read⟩ := Stream.smdBlock_ok onlySteps inside
  obtain ⟨-, length⟩ := Stream.smdBlock_spec read
  obtain ⟨p₁, step, offset₁⟩ := @Repacking.copy_ok ⟨sendBuf, offset, 0⟩ stepView
    (by show offset + stepView.length ≤ sendbufsize; omega)
  have offset₁ : p₁.offset = offset + stepView.length := offset₁
  obtain ⟨p₂, smd, offset₂⟩ := @Repacking.copy_ok p₁ block (by omega)
  obtain ⟨p₃, fake, -⟩ := @Repacking.copy_ok p₂ fakebuf (by omega)
  refine ⟨p₃, ?_⟩
  rw [repackFile, step, ok_bind, read, ok_bind, smd, ok_bind]
  exact fake

lemma repackFiles_ok {files : List (Bytes × Stream)}
    (inside : ∀ file ∈ files,
      (Stream.block file.2.buf file.2.iStBuf file.2.blockSizeBuf).length = file.2.blockSizeBuf)
    (room : (repackOffsets onlySteps fakebuf.length offset files).2 ≤ sendbufsize) :
    ∃ copied, repackFiles onlySteps fakebuf sendBuf
      ((repackOffsets onlySteps fakebuf.length offset files).1.zip files) = .ok copied := by
  induction files generalizing offset sendBuf with
  | nil => exact ⟨_, rfl⟩
  | cons file files ih =>
    have first : offset + segmentSize onlySteps fakebuf.length file ≤ sendbufsize := by
      rw [repackOffsets_total, List.map_cons, List.sum_cons] at room
      omega
    rw [repackOffsets] at room ⊢
    obtain ⟨p, one⟩ := @repackFile_ok file.2 onlySteps fakebuf sendBuf file.1 offset
      (inside file List.mem_cons_self) first
    obtain ⟨rest, others⟩ := @ih p.sendBuf _ (fun file hf => inside file (List.mem_cons_of_mem _ hf)) room
    refine ⟨(rest.1, p.footer :: rest.2), ?_⟩
    simp only [List.zip_cons_cons]
    rw [repackFiles, one, ok_bind, others, ok_bind]

/-- Packing succeeds where the blocks are in their chunks and all has room. -/
lemma repackParallel_ok (count : stepViews.length = r.streams.length)
    (few : r.streams.length ≤ maxStepBufs)
    (inside : ∀ s ∈ r.streams, (Stream.block s.buf s.iStBuf s.blockSizeBuf).length = s.blockSizeBuf)
    (room : ((stepViews.zip r.streams).map
      (segmentSize onlySteps r.getFakeBuffer.fakebuf.length)).sum + 4 * (r.streams.length + 1) ≤
        sendbufsize) (sendBuf : Bytes) :
    ∃ view, r.repackParallel sendBuf stepViews onlySteps = .ok view := by
  have total := @repackOffsets_total onlySteps 0 r.getFakeBuffer.fakebuf.length (stepViews.zip r.streams)
  rw [Nat.zero_add] at total
  have inside' : ∀ file ∈ stepViews.zip r.streams,
      (Stream.block file.2.buf file.2.iStBuf file.2.blockSizeBuf).length = file.2.blockSizeBuf :=
    fun file hf => inside file.2 (List.of_mem_zip hf).2
  obtain ⟨copied, copies⟩ := @repackFiles_ok onlySteps r.getFakeBuffer.fakebuf sendBuf 0 _ inside'
    (by rw [total]; omega)
  obtain ⟨-, sizes, -⟩ := repackFiles_spec (Nat.zero_le _) copies
  have length : copied.2.length = r.streams.length := by
    rw [sizes, List.length_map, List.length_map, List.length_zip, count, Nat.min_self]
  have end_ : (repackOffsets onlySteps r.getFakeBuffer.fakebuf.length 0 (stepViews.zip r.streams)).2 +
      (copied.2.flatMap (toLe 4) ++ toLe 4 r.streams.length).length ≤ sendbufsize := by
    rw [total, List.length_append, table_length (toLe_length 4), toLe_length, length]
    omega
  rw [SmdReader.repackParallel, if_neg (Nat.not_lt_of_le (Nat.le_of_eq count.symm)),
    if_neg (Nat.not_lt_of_le few)]
  simp only
  rw [copies, ok_bind, if_pos end_]
  exact ⟨_, rfl⟩

end room

section show_
variable {r r' : SmdReader} {s : Stream} {i : Nat}

/-- What calls of `show` leave as it is. -/
structure SmdReader.SameView (r r' : SmdReader) : Prop where
  streams : r'.streams = r.streams
  flag : r'.fakestepFlag = r.fakestepFlag
  lastSv : r'.winnerLastSv = r.winnerLastSv
  lastTs : r'.winnerLastTs = r.winnerLastTs
  fake : r'.getFakeBuffer.fakebuf = r.getFakeBuffer.fakebuf

lemma SmdReader.SameView.trans {r'' : SmdReader} (one : r.SameView r') (two : r'.SameView r'') :
    r.SameView r'' :=
  ⟨two.streams.trans one.streams, two.flag.trans one.flag, two.lastSv.trans one.lastSv,
    two.lastTs.trans one.lastTs, two.fake.trans one.fake⟩

/-- The fake steps are made once. -/
lemma getFakeBuffer_same (r : SmdReader) : r.SameView r.getFakeBuffer := by
  by_cases inserts : r.fakestepFlag ∧ (r.winnerLastSv = l1Accept ∨ r.winnerLastSv = slowUpdate)
  · by_cases none_ : r.fakebuf = []
    · have made : r.getFakeBuffer = { r with
          nextFakeTs := if r.nextFakeTs = 0 then r.winnerLastTs + 1 else r.nextFakeTs
          fakebuf := (fakeSteps (if r.nextFakeTs = 0 then r.winnerLastTs + 1 else r.nextFakeTs)).flatten } := by
        rw [SmdReader.getFakeBuffer, if_pos inserts, if_pos none_]
      rw [made]
      refine ⟨rfl, rfl, rfl, rfl, ?_⟩
      have again : ∀ ts, (fakeSteps ts).flatten ≠ [] := by
        intro ts h
        have pos := @flat_pos (fakeStepDgrams ts) (List.cons_ne_nil _ _)
        rw [flat_fakeStepDgrams, h] at pos
        exact Nat.lt_irrefl 0 pos
      rw [made, SmdReader.getFakeBuffer, if_pos inserts, if_neg (again _)]
    · have same : r.getFakeBuffer = r := by rw [SmdReader.getFakeBuffer, if_pos inserts, if_neg none_]
      rw [same]
      exact ⟨rfl, rfl, rfl, rfl, rfl⟩
  · have same : r.getFakeBuffer = r := by rw [SmdReader.getFakeBuffer, if_neg inserts]
    rw [same]
    exact ⟨rfl, rfl, rfl, rfl, rfl⟩

/-- The number of events of a view has no part in the fake steps. -/
lemma nViewEvents_same (r : SmdReader) (n : Nat) : r.SameView { r with nViewEvents := n } := by
  refine ⟨rfl, rfl, rfl, rfl, ?_⟩
  rw [SmdReader.getFakeBuffer, SmdReader.getFakeBuffer]
  split
  · split
    · rfl
    · rfl
  · rfl

/-- A call of `show`. -/
lemma show_same (r : SmdReader) (i : Nat) (stepBuf : Bool) :
    r.SameView ((r.show_ i stepBuf).toOption.elim r Prod.snd) := by
  have same : r.SameView r := ⟨rfl, rfl, rfl, rfl, rfl⟩
  have block : ∀ view, r.SameView (r.showBlock i view).2 := by
    intro view
    rw [SmdReader.showBlock]
    split
    · exact (getFakeBuffer_same r).trans (nViewEvents_same _ _)
    · exact getFakeBuffer_same r
  rw [SmdReader.show_]
  cases r.streams[i]? with
  | none => exact same
  | some s =>
    simp only
    generalize (if stepBuf then s.stepBuf else s.buf) = buf
    generalize (if stepBuf then s.blockSizeStepbuf else s.blockSizeBuf) = size
    split
    · exact block _
    · exact same

lemma showAll_same (r : SmdReader) (calls : List (Nat × Bool)) : r.SameView (r.showAll calls) := by
  induction calls generalizing r with
  | nil => exact ⟨rfl, rfl, rfl, rfl, rfl⟩
  | cons call calls ih => exact (show_same r call.1 call.2).trans (ih _)

end show_

section agree
variable {r r' : SmdReader} {s : Stream} {i : Nat} {onlySteps : Bool} {stepViews : List Bytes}

/-- What `show` and the packing have for a file, in a state that calls of `show` leave of a view. -/
lemma segment_iff (same : r.SameView r') (fake : r.getFakeBuffer.fakebuf = flat r.fakes)
    (hs : r.streams[i]? = some s) (count : stepViews.length = r.streams.length) :
    (r'.segments stepViews onlySteps).getD i [] =
        stepViews.getD i [] ++ (if onlySteps then [] else (r'.shown false).getD i []) ↔
      r.insertsFakes r.winnerLastSv = false ∨ onlySteps = false ∧ 0 < s.blockSizeBuf := by
  have fakes : r'.fakes = r.fakes := by
    rw [SmdReader.fakes, SmdReader.fakes, SmdReader.insertsFakes, SmdReader.insertsFakes, same.flag,
      same.lastSv, same.lastTs]
  have fake' : r'.getFakeBuffer.fakebuf = flat r'.fakes := by rw [same.fake, fake, fakes]
  have hs' : r'.streams[i]? = some s := by rw [same.streams, hs]
  obtain ⟨inBounds, -⟩ := List.getElem?_eq_some_iff.mp hs
  have hv : stepViews[i]? = some (stepViews.getD i []) := by
    rw [List.getD_eq_getElem _ _ (by rwa [count]), List.getElem?_eq_getElem]
  have segment : (r'.segments stepViews onlySteps).getD i [] =
      segmentOf onlySteps (flat r.fakes) (stepViews.getD i [], s) := by
    have pair : (stepViews.zip r'.streams)[i]? = some (stepViews.getD i [], s) :=
      List.getElem?_zip_eq_some.mpr ⟨hv, hs'⟩
    rw [SmdReader.segments, List.getD_eq_getElem?_getD, List.getElem?_map, pair, fake', fakes]
    rfl
  have empty : flat r.fakes = [] ↔ r.insertsFakes r.winnerLastSv = false := by
    rw [SmdReader.fakes]
    cases r.insertsFakes r.winnerLastSv with
    | true =>
      constructor
      · intro h
        have pos := @flat_pos (fakeStepDgrams (r.winnerLastTs + 1)) (List.cons_ne_nil _ _)
        have h : flat (fakeStepDgrams (r.winnerLastTs + 1)) = [] := h
        rw [h] at pos
        exact absurd pos (Nat.lt_irrefl 0)
      · intro h
        cases h
    | false => exact ⟨fun _ => rfl, fun _ => rfl⟩
  rw [segment, (SmdReader.shown_getD fake' hs').1, fakes, segmentOf, ← empty, List.append_assoc,
    List.append_cancel_left_eq]
  cases onlySteps with
  | true => simp
  | false =>
    by_cases pos : 0 < s.blockSizeBuf
    · simp [pos]
    · simp [pos]

end agree

/-- After any view and calls of `show`, what is packed for a file behind its step view is what `show`
    returns exactly when no fake steps are inserted or the block of the file is packed and not empty; in
    the states that are reached, everything that has room is packed. -/
theorem packing_agrees (r₀ r : SmdReader) (batchSize : Nat) (intgStreamId : Option Nat)
    (calls : List (Nat × Bool)) (sendBuf : Bytes) (stepViews : List Bytes) (onlySteps : Bool)
    (viewed : r₀.view batchSize intgStreamId = .ok r) (count : stepViews.length = r.streams.length) :
    (∀ view, (r.showAll calls).repackParallel sendBuf stepViews onlySteps = .ok view →
      ∃ segments, (PacketFooter.ofView view >>= PacketFooter.splitPackets) = .ok segments ∧
        segments.length = r.streams.length ∧
        ∀ (i : Nat) (s : Stream), r.streams[i]? = some s →
          (segments.getD i [] = stepViews.getD i [] ++
              (if onlySteps then [] else ((r.showAll calls).shown false).getD i []) ↔
            r.insertsFakes r.winnerLastSv = false ∨ onlySteps = false ∧ 0 < s.blockSizeBuf)) ∧
    ∀ (chunksize : Nat) (fakestepFlag : Bool) (files : List (List SmdDgram)) (ops : List SmdOp)
      (views : List View),
      (∀ file ∈ files, Ascending file) →
      Run Reading.step Reading.Allowed (.new chunksize fakestepFlag files) ops ⟨r₀, views⟩ →
      r₀.isComplete = true → r.streams.length ≤ maxStepBufs →
      ((stepViews.zip r.streams).map (segmentSize onlySteps (flat r.fakes).length)).sum +
        4 * (r.streams.length + 1) ≤ sendbufsize →
      ∃ view, (r.showAll calls).repackParallel sendBuf stepViews onlySteps = .ok view := by
  obtain ⟨winner, nViewEvents, last, limitTs, selected⟩ := view_window viewed
  obtain ⟨e, length, moved⟩ := view_spec selected viewed
  have fake : r.getFakeBuffer.fakebuf = flat r.fakes := by
    apply SmdReader.getFakeBuffer_fresh
    rw [e]
    exact ⟨rfl, rfl⟩
  have same := showAll_same r calls
  have count' : stepViews.length = (r.showAll calls).streams.length := by rw [count, same.streams]
  constructor
  · intro view packed_
    obtain ⟨e, length, many, small⟩ := repackParallel_spec count' packed_
    refine ⟨_, ?_, length.trans (by rw [same.streams]), ?_⟩
    · rw [e]
      exact split_packed many small
    · intro i s hs
      exact segment_iff same fake hs count
  · intro chunksize fakestepFlag files ops views sorted run complete few room
    have length : r.streams.length = files.length := length.trans (Reading.length_run run)
    apply repackParallel_ok count'
    · rw [same.streams]
      exact few
    · rw [same.streams]
      intro stream hstream
      obtain ⟨i, hs⟩ := List.mem_iff_getElem?.mp hstream
      obtain ⟨hi, -⟩ := List.getElem?_eq_some_iff.mp hs
      rw [length] at hi
      have hf := List.getElem?_eq_getElem hi
      obtain ⟨stream₀, out, hs₀, follows⟩ := Reading.follows_run sorted run hf
      obtain ⟨stream', hmove, hs'⟩ := moved i stream₀ hs₀
      rw [hs] at hs'
      cases hs'
      have unseen := List.all_eq_true.mp complete stream₀ (List.mem_of_getElem? hs₀)
      obtain ⟨part, -, gives⟩ := follows.view (sorted _ (List.getElem_mem hi)) unseen hmove
      rw [gives.block, gives.size]
    · rw [same.streams, same.fake, fake]
      exact room

/-- Fake steps are packed for the file that gets nothing, while `show` returns nothing for it. -/
theorem packing_adds_steps :
    ∃ s, Run Reading.step Reading.Allowed (.new 200 true gapFiles)
      [.get [200, 200] [], .view 1 none, .view 1 none] s ∧
    ∃ view, s.reader.repackParallel [] [[], []] false = .ok view ∧
      ∃ segments, (PacketFooter.ofView view >>= PacketFooter.splitPackets) = .ok segments ∧
        segments.getD 1 [] ≠ (s.reader.shown false).getD 1 [] := by
  obtain ⟨s, run, test⟩ := Run.of_replay_any Reading.step Reading.Allowed (.new 200 true gapFiles)
    [.get [200, 200] [], .view 1 none, .view 1 none]
    (fun s => passes (fun view => passes
      (fun segments => segments.getD 1 [] ≠ (s.reader.shown false).getD 1 [])
      (PacketFooter.ofView view >>= PacketFooter.splitPackets)) (s.reader.repackParallel [] [[], []] false))
    (by decide +kernel)
  obtain ⟨view, packed_, test⟩ := passes_iff.mp test
  obtain ⟨segments, split, differ⟩ := passes_iff.mp test
  exact ⟨s, run, view, packed_, segments, split, of_decide_eq_true differ⟩

/-- The first view of the same files without fake steps. -/
theorem packing_agrees_first :
    ∃ s s', Run Reading.step Reading.Allowed (.new 200 false gapFiles) [.get [200, 200] []] s ∧
      s.step (.view 1 none) = .ok s' ∧
      ∃ view, s'.reader.repackParallel [] [[], []] false = .ok view ∧
        ∃ segments, (PacketFooter.ofView view >>= PacketFooter.splitPackets) = .ok segments ∧
          segments.getD 1 [] = (s'.reader.shown false).getD 1 [] := by
  obtain ⟨s, run, test⟩ := Run.of_replay_any Reading.step Reading.Allowed (.new 200 false gapFiles)
    [.get [200, 200] []]
    (fun s => s.reader.isComplete && passes (fun s' =>
      s'.reader.streams.length = 2 ∧ s'.reader.insertsFakes s'.reader.winnerLastSv = false ∧
      s'.reader.streams.length ≤ maxStepBufs ∧
      ((([[], []] : List Bytes).zip s'.reader.streams).map
        (segmentSize false (flat s'.reader.fakes).length)).sum + 4 * (s'.reader.streams.length + 1) ≤
          sendbufsize)
      (s.step (.view 1 none)))
    (by decide +kernel)
  obtain ⟨complete, test⟩ := Bool.and_eq_true_iff.mp test
  obtain ⟨s', step, test⟩ := passes_iff.mp test
  obtain ⟨length, noFakes, few, room⟩ := of_decide_eq_true test
  have sorted : ∀ file ∈ gapFiles, Ascending file := by
    unfold Ascending
    decide +kernel
  obtain ⟨-, -, -, -, -, viewed, -⟩ := Reading.step_view step
  obtain ⟨agree, succeeds⟩ :=
    packing_agrees s.reader s'.reader 1 none [] [] [[], []] false viewed length.symm
  obtain ⟨view, packed_⟩ := succeeds 200 false gapFiles _ s.views sorted run complete few room
  obtain ⟨segments, split, -, agree⟩ := agree view packed_
  have second : 1 < s'.reader.streams.length := by
    rw [length]
    exact Nat.lt_succ_self 1
  exact ⟨s, s', run, step, view, packed_, segments, split,
    (agree 1 _ (List.getElem?_eq_getElem second)).mpr (.inl noFakes)⟩

end Lcls2.Psana
