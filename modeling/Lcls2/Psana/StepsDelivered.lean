import Lcls2.Psana.Smd0
import Lcls2.Psana.StepsOnce

/-!
# Steps delivered

What the clients of `Smd0` and of `EventBuilderNode` are sent, in bytes. `Smd0` repeats steps that `show` shows again
and fake steps that are packed where `show` shows none. `steps_delivered_once` is about the views that do neither.
-/

namespace Lcls2.Psana
open Lib

/-! ## Packets -/

section packets
variable {ds : List SmdDgram} {d : SmdDgram}

/-- The dgrams of a packet are read back. -/
lemma dgramsIn_flat {fuel : Nat} (enough : ds.length ≤ fuel) : dgramsIn fuel (flat ds) = ds.map SmdDgram.bytes := by
  induction ds generalizing fuel with
  | nil =>
    cases fuel with
    | zero => rfl
    | succ fuel => rfl
  | cons d ds ih =>
    cases fuel with
    | zero => cases enough
    | succ fuel =>
      have header := d.header
      have size : dgramSizeAt (flat (d :: ds)) 0 = d.bytes.length := by
        rw [flat_cons, dgramSizeAt_append (flat ds) header, d.sized]
      have long : ¬ (flat (d :: ds)).length < sizeofDgram := by
        rw [flat_cons, List.length_append]
        omega
      rw [dgramsIn, if_neg long, size, flat_cons, List.take_left, List.drop_left, ih (Nat.le_of_succ_le_succ enough),
        List.map_cons]

/-- The steps of a packet. -/
lemma stepsIn_flat : stepsIn (flat ds) = (stepsOf ds).map SmdDgram.bytes := by
  have enough : ds.length ≤ (flat ds).length := by
    induction ds with
    | nil => exact Nat.le_refl 0
    | cons d ds ih =>
      have header := d.header
      rw [sizeofDgram] at header
      rw [flat_cons, List.length_append, List.length_cons]
      omega
  rw [stepsIn, dgramsIn_flat enough, List.filter_map]
  rfl

end packets

/-! ## Showing the steps -/

section show_
variable {r r' : SmdReader}

/-- What `show` returns does not depend on earlier calls of it. -/
lemma show_fst (same : r.SameView r') (i : Nat) (stepBuf : Bool) :
    (r'.show_ i stepBuf).toOption.map Prod.fst = (r.show_ i stepBuf).toOption.map Prod.fst := by
  have block : ∀ view, (r'.showBlock i view).1 = (r.showBlock i view).1 := by
    intro view
    rw [SmdReader.showBlock, SmdReader.showBlock, same.fake]
    split
    · rfl
    · rfl
  rw [SmdReader.show_, SmdReader.show_, same.streams]
  cases r.streams[i]? with
  | none => rfl
  | some s =>
    simp only
    generalize (if stepBuf then s.stepBuf else s.buf) = buf
    generalize (if stepBuf then s.blockSizeStepbuf else s.blockSizeBuf) = size
    split
    · exact congrArg some (block _)
    · rfl

/-- The steps of the first streams. -/
lemma showSteps_ok {n : Nat} (hn : n ≤ r.streams.length) :
    ∃ r', r.showSteps n = .ok ((r.shown true).take n, r') ∧ r.SameView r' := by
  induction n with
  | zero => exact ⟨r, rfl, rfl, rfl, rfl, rfl, rfl⟩
  | succ n ih =>
    obtain ⟨r', shown, same⟩ := ih (by omega)
    have fst := show_fst same n true
    have next := show_same r' n true
    obtain ⟨s, hs⟩ : ∃ s, r.streams[n]? = some s := ⟨_, List.getElem?_eq_getElem hn⟩
    have found : ∃ v, r'.show_ n true = .ok v := by
      rw [SmdReader.show_, same.streams, hs]
      simp only [if_true]
      split
      · exact ⟨_, rfl⟩
      · exact ⟨_, rfl⟩
    obtain ⟨⟨view, r''⟩, called⟩ := found
    rw [called] at fst next
    have at_ : (r.shown true)[n]? = some view := by
      rw [SmdReader.shown, List.getElem?_map, List.getElem?_range hn, Option.map_some]
      cases first : (r.show_ n true).toOption with
      | none =>
        rw [first] at fst
        cases fst
      | some v =>
        rw [first] at fst
        cases fst
        rfl
    refine ⟨r'', ?_, same.trans next⟩
    rw [SmdReader.showSteps, shown, ok_bind]
    simp only [called, ok_bind, List.take_add_one, at_, Option.toList_some]

end show_

/-! ## Rows of dgrams -/

section rows
variable {n i : Nat} {rows : List (List (List SmdDgram))} {r : SmdReader} {f old : Nat → List SmdDgram}

/-- The steps of a stream in some views. -/
def stepsOver (rows : List (List (List SmdDgram))) (i : Nat) : List SmdDgram :=
  rows.flatMap fun row => stepsOf (row.getD i [])

lemma stepsOf_stepsOf (ds : List SmdDgram) : stepsOf (stepsOf ds) = stepsOf ds := by
  rw [stepsOf, stepsOf, List.filter_filter]
  congr 1
  funext d
  exact Bool.and_self _

lemma stepsOf_stepsOver : stepsOf (stepsOver rows i) = stepsOver rows i := by
  rw [stepsOver, stepsOf, List.filter_flatMap]
  congr 1
  funext row
  exact stepsOf_stepsOf _

/-- The bytes of a row. -/
lemma getD_map_flat {g : List SmdDgram → Bytes} (none_ : g [] = []) (row : List (List SmdDgram)) (i : Nat) :
    (row.map g).getD i [] = g (row.getD i []) := by
  rw [List.getD_eq_getElem?_getD, List.getD_eq_getElem?_getD, List.getElem?_map]
  cases row[i]? with
  | none => exact none_.symm
  | some part => rfl

/-- The step data of some rows. -/
lemma streamsOf_rows : streamsOf n (rows.map (·.map fun part => flat (stepsOf part))) =
    (List.range n).map fun i => flat (stepsOver rows i) := by
  rw [streamsOf]
  apply List.map_congr_left
  intro i _
  rw [List.flatMap_map, stepsOver, flat, List.flatMap_assoc]
  congr 1
  funext row
  exact getD_map_flat (g := fun part => flat (stepsOf part)) rfl row i

/-- The transitions of the views. -/
lemma transitionsOver_rows :
    transitionsOver (rows.map (·.map flat)) i = (stepsOver rows i).map SmdDgram.bytes := by
  rw [transitionsOver, List.flatMap_map, stepsOver, List.map_flatMap]
  congr 1
  funext row
  rw [getD_map_flat rfl, stepsIn_flat]

/-- What is packed after a view: the steps in front, the block and the fake steps. -/
lemma segments_chunk (length : r.streams.length = n) (fake : r.getFakeBuffer.fakebuf = flat r.fakes)
    (blocks : ∀ i s, r.streams[i]? = some s →
      (if 0 < s.blockSizeBuf then Stream.block s.buf s.iStBuf s.blockSizeBuf else []) = flat (f i)) :
    r.segments ((List.range n).map fun i => flat (old i)) false =
      (List.range n).map fun i => flat (old i ++ (f i ++ r.fakes)) := by
  apply List.ext_getElem
  · simp [SmdReader.segments, length]
  · intro i h1 h2
    rw [List.length_map, List.length_range] at h2
    have block := blocks i _ (List.getElem?_eq_getElem (by omega))
    simp only [SmdReader.segments, List.getElem_map, List.getElem_zip, List.getElem_range, segmentOf, true_and, block,
      fake, flat_append, List.append_assoc]

/-- What is packed of the steps only, without fake steps. -/
lemma segments_missing (length : r.streams.length = n) (fake : r.getFakeBuffer.fakebuf = flat r.fakes)
    (none_ : r.fakes = []) :
    r.segments ((List.range n).map fun i => flat (old i)) true = (List.range n).map fun i => flat (old i) := by
  apply List.ext_getElem
  · simp [SmdReader.segments, length]
  · intro i h1 h2
    have empty : flat [] = [] := rfl
    simp [SmdReader.segments, segmentOf, fake, none_, empty]

end rows

/-! ## Runs of `Smd0` -/

/-- A success does not depend on the name of the fault. -/
lemma mapError_ok {α ε ε' : Type*} {f : ε → ε'} {x : Except ε α} {a : α} (h : x.mapError f = .ok a) :
    x = .ok a := by
  cases x with
  | error e => cases h
  | ok b =>
    cases h
    rfl

section smd0
variable {n clientSize client i : Nat} {r r' : SmdReader} {files : List (List SmdDgram)}
  {rows : List (List (List SmdDgram))} {pos : Nat → Nat} {s t : Smd0} {ops : List Smd0Op}

/-- Whether every stream has a dgram up to the limit of a view, where fake steps are inserted. -/
def SmdReader.fillsFakes (r : SmdReader) (batchSize : Nat) (intgStreamId : Option Nat) : Bool :=
  match r.selectWindow batchSize intgStreamId with
  | .error _ => true
  | .ok (_, _, last, limitTs) => !r.insertsFakes last.sv || r.streams.all fun s => !s.isBeyond limitTs

/-- Clients are the ranks from 1 on. A view is called when every file has an unseen dgram, shows the steps of
    its blocks, and has a block for each fake step; there are none to insert when missing steps are asked for. -/
def Smd0.Counted (clientSize : Nat) (_ : List Smd0Op) (s : Smd0) : Smd0Op → Prop
  | .get _ _ => True
  | .chunk client batchSize intgStreamId _ =>
    (0 < client ∧ client < clientSize) ∧ s.reader.isComplete = true ∧
      s.reader.showsSteps batchSize intgStreamId = true ∧ s.reader.fillsFakes batchSize intgStreamId = true
  | .missing client _ =>
    (0 < client ∧ client < clientSize) ∧ s.reader.insertsFakes s.reader.winnerLastSv = false

instance Smd0.decidableCounted (clientSize : Nat) (ops : List Smd0Op) (s : Smd0) :
    (op : Smd0Op) → Decidable (Smd0.Counted clientSize ops s op)
  | .get _ _ => .isTrue trivial
  | .chunk _ _ _ _ => inferInstanceAs (Decidable (_ ∧ _ ∧ _ ∧ _))
  | .missing _ _ => inferInstanceAs (Decidable (_ ∧ _))

/-- The bytes of the steps of each stream of a row. -/
def stepViewsOf (row : List (List SmdDgram)) : List Bytes := row.map fun part => flat (stepsOf part)

/-- The reader follows the files, the history tracks the steps of the views that were sent, and each client has
    been sent the steps before its position. -/
structure Smd0.Delivers (clientSize : Nat) (files : List (List SmdDgram)) (rows : List (List (List SmdDgram)))
    (pos : Nat → Nat) (s : Smd0) : Prop where
  perFile : s.reader.streams.length = files.length
  follows : ∀ (i : Nat) (file : List SmdDgram), files[i]? = some file →
    ∃ stream out, s.reader.streams[i]? = some stream ∧ stream.Follows file out
  fake : s.reader.getFakeBuffer.fakebuf = flat s.reader.fakes
  given : s.given = rows.map (·.map flat)
  tracks : Tracks files.length clientSize s.stepHist (rows.map stepViewsOf) pos
  received : ∀ client i, i < files.length →
    s.received client i = .ok ((stepsOver (rows.take (pos client)) i).map SmdDgram.bytes)

/-- `get` changes the streams and the winner. -/
lemma get_eq (r : SmdReader) (wants : List Nat) (retries : List (List Nat)) :
    ∃ streams winner, r.get wants retries = { r with streams, winner } := by
  have reads : ∀ (retries : List (List Nat)) (r' : SmdReader), (∃ streams, r' = { r with streams }) →
      ∃ streams, retries.foldl SmdReader.justRead r' = { r with streams } := by
    intro retries
    induction retries with
    | nil => exact fun r' same => same
    | cons wants retries ih =>
      intro r' ⟨streams, same⟩
      apply ih
      rw [same]
      exact ⟨_, rfl⟩
  rw [SmdReader.get]
  split
  · exact ⟨r.streams, r.winner, rfl⟩
  · obtain ⟨streams, same⟩ := reads retries
      (({ r with streams := r.streams.map Stream.reset } : SmdReader).justRead wants) ⟨_, rfl⟩
    rw [same]
    exact ⟨streams, none, rfl⟩

/-- The streams and the winner have no part in the fake steps. -/
lemma getFakeBuffer_streams (r : SmdReader) (streams : List Stream) (winner : Option Nat) :
    ({ r with streams, winner } : SmdReader).getFakeBuffer.fakebuf = r.getFakeBuffer.fakebuf := by
  rw [SmdReader.getFakeBuffer, SmdReader.getFakeBuffer]
  split
  · split
    · rfl
    · rfl
  · rfl

/-- A message adds the transitions of its packets to what its client has been sent. -/
lemma Smd0.received_send {view : Bytes} {segments before : List Bytes}
    (messages : t.messages = s.messages ++ [(client, view)])
    (split : (PacketFooter.ofView view >>= PacketFooter.splitPackets) = .ok segments)
    {client' : Nat} (received : s.received client' i = .ok before) :
    t.received client' i =
      .ok (before ++ if client = client' then stepsIn (segments.getD i []) else []) := by
  obtain ⟨chunks, decoded, e⟩ := bind_ok received
  cases e
  rw [Smd0.received, messages, List.filter_append]
  by_cases same : client = client'
  · subst same
    rw [if_pos rfl, List.filter_cons_of_pos (by simp), List.filter_nil, List.mapM_append, decoded, ok_bind,
      List.mapM_cons, split]
    show Except.ok ((chunks ++ [segments]).flatMap _) = _
    rw [List.flatMap_append, List.flatMap_singleton]
  · rw [if_neg same, List.filter_cons_of_neg (by simpa using same), List.filter_nil, List.append_nil,
      List.append_nil, decoded]
    rfl

/-- What was sent and what comes with a message are the steps so far. -/
lemma take_sent (within : ∀ client, pos client ≤ rows.length) (more : List (List (List SmdDgram)))
    (client client' i : Nat) :
    stepsOver (rows.take (pos client')) i ++
        (if client = client' then stepsOver (rows.drop (pos client')) i ++ stepsOver more i else []) =
      stepsOver ((rows ++ more).take (Function.update pos client (rows ++ more).length client')) i := by
  by_cases same : client = client'
  · subst same
    rw [if_pos rfl, Function.update_self, List.take_length, stepsOver, stepsOver, stepsOver, stepsOver,
      ← List.append_assoc, ← List.flatMap_append, List.take_append_drop, List.flatMap_append]
  · rw [if_neg same, Function.update_of_ne fun e => same e.symm, List.append_nil,
      List.take_append_of_le_length (within client')]

/-- Whom a view is sent to. -/
lemma Smd0.sendChunk_messages {left : Bytes} (h : s.sendChunk client left = .ok t) :
    ∃ view, t.messages = s.messages ++ [(client, view)] := by
  rw [Smd0.sendChunk] at h
  obtain ⟨⟨missing, hist⟩, -, h⟩ := bind_ok h
  obtain ⟨⟨stepViews, reader⟩, -, h⟩ := bind_ok h
  obtain ⟨hist', -, h⟩ := bind_ok h
  obtain ⟨view, -, h⟩ := bind_ok h
  cases h
  exact ⟨view, rfl⟩

/-- Whom missing steps are sent to. -/
lemma Smd0.missing_messages {left : Bytes} (h : s.step (.missing client left) = .ok t) :
    ∃ view, t.messages = s.messages ++ [(client, view)] := by
  rw [Smd0.step] at h
  obtain ⟨⟨missing, hist⟩, -, h⟩ := bind_ok h
  obtain ⟨view, -, h⟩ := bind_ok h
  cases h
  exact ⟨view, rfl⟩

namespace Smd0.Delivers

lemma within (delivers : s.Delivers clientSize files rows pos) (client : Nat) : pos client ≤ rows.length := by
  have h := delivers.tracks.within client
  rwa [List.length_map] at h

/-- Reading more sends nothing. -/
lemma get (delivers : s.Delivers clientSize files rows pos) (wants : List Nat) (retries : List (List Nat)) :
    ({ s with reader := s.reader.get wants retries } : Smd0).Delivers clientSize files rows pos where
  perFile := (get_length s.reader wants retries).trans delivers.perFile
  follows := by
    intro i file hf
    obtain ⟨stream, out, hs, follows⟩ := delivers.follows i file hf
    obtain ⟨stream', hs', fetched⟩ := get_stream s.reader wants retries hs
    exact ⟨stream', out, hs', follows.get fetched⟩
  fake := by
    obtain ⟨streams, winner, same⟩ := get_eq s.reader wants retries
    show (s.reader.get wants retries).getFakeBuffer.fakebuf = flat (s.reader.get wants retries).fakes
    rw [same, getFakeBuffer_streams, delivers.fake]
    rfl
  given := delivers.given
  tracks := delivers.tracks
  received := delivers.received

/-- The steps that a client has missed, with the history after it got them. -/
lemma getBuffer (delivers : s.Delivers clientSize files rows pos) (known : 0 < client ∧ client < clientSize) :
    ∃ h, s.getBuffer client = .ok ((List.range files.length).map fun i =>
        flat (stepsOver (rows.drop (pos client)) i), h) ∧
      Tracks files.length clientSize h (rows.map stepViewsOf) (Function.update pos client rows.length) := by
  obtain ⟨h, buffer, tracks⟩ := delivers.tracks.getBuffer known
  rw [List.length_map] at tracks
  refine ⟨h, ?_, tracks⟩
  rw [Smd0.getBuffer, buffer, ← streamsOf_rows, List.map_drop]
  rfl

/-- A message of the missed steps and some more dgrams of each stream. -/
lemma received_more (delivers : s.Delivers clientSize files rows pos) {view : Bytes}
    (messages : t.messages = s.messages ++ [(client, view)]) {f : Nat → List SmdDgram}
    (split : (PacketFooter.ofView view >>= PacketFooter.splitPackets) =
      .ok ((List.range files.length).map fun i => flat (stepsOver (rows.drop (pos client)) i ++ f i)))
    {more : List (List (List SmdDgram))} (hi : i < files.length) (own : stepsOf (f i) = stepsOver more i)
    (client' : Nat) :
    t.received client' i = .ok ((stepsOver ((rows ++ more).take
      (Function.update pos client (rows ++ more).length client')) i).map SmdDgram.bytes) := by
  rw [Smd0.received_send messages split (delivers.received client' i hi),
    ← take_sent delivers.within more client client' i]
  by_cases same : client = client'
  · subst same
    have packet : ((List.range files.length).map fun i =>
        flat (stepsOver (rows.drop (pos client)) i ++ f i)).getD i [] =
          flat (stepsOver (rows.drop (pos client)) i ++ f i) := by
      rw [List.getD_eq_getElem?_getD, List.getElem?_map, List.getElem?_range hi]
      rfl
    rw [if_pos rfl, if_pos rfl, packet, stepsIn_flat, stepsOf_append, stepsOf_stepsOver, own,
      ← List.map_append]
  · rw [if_neg same, if_neg same, List.append_nil, List.append_nil]

/-- A request for the missing steps: its client has been sent every step. -/
lemma missing (delivers : s.Delivers clientSize files rows pos) {left : Bytes}
    (known : 0 < client ∧ client < clientSize)
    (noFakes : s.reader.insertsFakes s.reader.winnerLastSv = false)
    (h : s.step (.missing client left) = .ok t) :
    t.Delivers clientSize files rows (Function.update pos client rows.length) := by
  obtain ⟨hist, buffer, tracks⟩ := delivers.getBuffer known
  rw [Smd0.step, buffer, ok_bind] at h
  obtain ⟨view, repacked, h⟩ := bind_ok h
  have repacked := mapError_ok repacked
  cases h
  have count : ((List.range files.length).map fun i =>
      flat (stepsOver (rows.drop (pos client)) i)).length = s.reader.streams.length := by
    rw [List.length_map, List.length_range, delivers.perFile]
  have none_ : s.reader.fakes = [] := by
    rw [SmdReader.fakes, noFakes]
    rfl
  obtain ⟨e, -, many, small⟩ := repackParallel_spec count repacked
  have split := split_packed many small
  rw [← e, segments_missing delivers.perFile delivers.fake none_] at split
  refine ⟨delivers.perFile, delivers.follows, delivers.fake, delivers.given, tracks, ?_⟩
  intro client' i hi
  have messages : Smd0.messages ⟨s.reader, hist, s.messages ++ [(client, view)], s.given⟩ =
      s.messages ++ [(client, view)] := rfl
  have received := @received_more _ _ i files rows pos s _ delivers view messages (fun _ => [])
    (by simpa only [List.append_nil] using split) [] hi rfl client'
  rw [List.append_nil] at received
  exact received

/-- A view: what every stream gives is packed, and the steps of it are shown. -/
lemma viewed (delivers : s.Delivers clientSize files rows pos) (sorted : ∀ file ∈ files, Ascending file)
    {batchSize : Nat} {intgStreamId : Option Nat} (complete : s.reader.isComplete = true)
    (shows_ : s.reader.showsSteps batchSize intgStreamId = true)
    (fills : s.reader.fillsFakes batchSize intgStreamId = true)
    (h : s.reader.view batchSize intgStreamId = .ok r) :
    ({ s with reader := r } : Smd0).Delivers clientSize files rows pos ∧
      ∃ part : Nat → List SmdDgram,
        (∀ i stream, r.streams[i]? = some stream →
          (if 0 < stream.blockSizeBuf then Stream.block stream.buf stream.iStBuf stream.blockSizeBuf else []) =
            flat (part i)) ∧
        r.shown true = stepViewsOf ((List.range files.length).map fun i => part i ++ r.fakes) := by
  obtain ⟨winner, nViewEvents, last, limitTs, selected⟩ := view_window h
  obtain ⟨e, length, moved⟩ := view_spec selected h
  have perFile := length.trans delivers.perFile
  have fake : r.getFakeBuffer.fakebuf = flat r.fakes := by
    apply SmdReader.getFakeBuffer_fresh
    rw [e]
    exact ⟨rfl, rfl⟩
  have inserted : r.fakes ≠ [] → s.reader.insertsFakes last.sv = true := by
    intro some_
    have inserts : r.insertsFakes r.winnerLastSv = s.reader.insertsFakes last.sv := by
      rw [e]
      rfl
    cases hi : s.reader.insertsFakes last.sv with
    | true => rfl
    | false =>
      rw [SmdReader.fakes, inserts, hi] at some_
      exact absurd rfl some_
  -- Each file gives a part of itself, which is empty where its next dgram is beyond the limit.
  have each : ∀ i : Nat, ∃ part, ∀ file, files[i]? = some file → ∃ stream stream' out,
      s.reader.streams[i]? = some stream ∧ r.streams[i]? = some stream' ∧ stream'.Follows file out ∧
        stream.Gives limitTs part stream' := by
    intro i
    cases hf : files[i]? with
    | none =>
      refine ⟨[], ?_⟩
      intro file none_
      cases none_
    | some file =>
      obtain ⟨stream, out, hs, follows⟩ := delivers.follows i file hf
      obtain ⟨stream', hmove, hs'⟩ := moved i stream hs
      have unseen := List.all_eq_true.mp complete stream (List.mem_of_getElem? hs)
      obtain ⟨part, follows', gives⟩ := follows.view (sorted file (List.mem_of_getElem? hf)) unseen hmove
      refine ⟨part, ?_⟩
      intro file' same
      cases same
      exact ⟨stream, stream', out ++ part, hs, hs', follows', gives⟩
  choose part hpart using each
  refine ⟨⟨perFile, ?_, fake, delivers.given, delivers.tracks, delivers.received⟩, part, ?_, ?_⟩
  · intro i file hf
    obtain ⟨_, stream', out, -, hs', follows, -⟩ := hpart i file hf
    exact ⟨stream', out, hs', follows⟩
  · intro i stream' hs'
    have inside := (List.getElem?_eq_some_iff.mp hs').1
    rw [perFile] at inside
    obtain ⟨_, _, _, -, hs, -, gives⟩ := hpart i _ (List.getElem?_eq_getElem inside)
    rw [hs] at hs'
    cases hs'
    split
    · exact gives.block
    · rename_i none_
      have none_ := Nat.eq_zero_of_not_pos none_
      rw [gives.size] at none_
      exact (List.length_eq_zero_iff.mp none_).symm
  · apply List.ext_getElem
    · simp [SmdReader.shown, stepViewsOf, perFile]
    · intro i h1 h2
      have inside : i < files.length := by simpa [stepViewsOf] using h2
      obtain ⟨stream, stream', _, hs, hs', -, gives⟩ := hpart i _ (List.getElem?_eq_getElem inside)
      obtain ⟨skips, steps⟩ := SmdReader.showsSteps_spec shows_ selected (List.mem_of_getElem? hs)
      have stepsShown := gives.stepsShown fake hs' (fun none_ => skips (gives.beyond.mpr none_))
        fun some_ fakes => gives.stepped (steps (fun beyond => some_ (gives.beyond.mp beyond)) (inserted fakes))
      -- A file that gives nothing gets fake steps packed but none shown: only where none are inserted.
      have none_ : part i = [] → r.fakes = [] := by
        intro none_
        by_contra fakes
        rw [SmdReader.fillsFakes, selected] at fills
        simp only [inserted fakes, Bool.not_true, Bool.false_or] at fills
        have within := List.all_eq_true.mp fills stream (List.mem_of_getElem? hs)
        rw [gives.beyond.mpr none_] at within
        cases within
      rw [List.getD_eq_getElem _ _ h1] at stepsShown
      rw [stepsShown, shownOf]
      simp only [stepViewsOf, List.getElem_map, List.getElem_range]
      split
      · rename_i empty
        rw [empty, none_ empty]
        rfl
      · rfl

/-- Sending a view: its client has been sent every step. -/
lemma sendChunk (delivers : s.Delivers clientSize files rows pos) {left : Bytes}
    (known : 0 < client ∧ client < clientSize) {part : Nat → List SmdDgram}
    (blocks : ∀ i stream, s.reader.streams[i]? = some stream →
      (if 0 < stream.blockSizeBuf then Stream.block stream.buf stream.iStBuf stream.blockSizeBuf else []) =
        flat (part i))
    (shown : s.reader.shown true =
      stepViewsOf ((List.range files.length).map fun i => part i ++ s.reader.fakes))
    (h : s.sendChunk client left = .ok t) :
    t.Delivers clientSize files (rows ++ [(List.range files.length).map fun i => part i ++ s.reader.fakes])
      (Function.update pos client (rows.length + 1)) := by
  obtain ⟨hist, buffer, tracks⟩ := delivers.getBuffer known
  obtain ⟨r, showSteps, same⟩ := showSteps_ok (Nat.le_refl s.reader.streams.length)
  have all : (s.reader.shown true).take s.reader.streams.length = s.reader.shown true := by
    apply List.take_of_length_le
    simp [SmdReader.shown]
  rw [all, shown] at showSteps
  have full : (stepViewsOf ((List.range files.length).map fun i => part i ++ s.reader.fakes)).length =
      files.length := by
    simp [stepViewsOf]
  obtain ⟨hist', extended, tracks⟩ := tracks.extendBuffers known
    (by rw [Function.update_self, List.length_map]) full
  rw [Smd0.sendChunk, buffer, ok_bind] at h
  simp only [showSteps, Except.mapError, ok_bind, extended] at h
  obtain ⟨view, repacked, h⟩ := bind_ok h
  have repacked := mapError_ok repacked
  cases h
  have perFile : r.streams.length = files.length := by rw [same.streams, delivers.perFile]
  have fakes : r.fakes = s.reader.fakes := by
    rw [SmdReader.fakes, SmdReader.fakes, SmdReader.insertsFakes, SmdReader.insertsFakes, same.flag,
      same.lastSv, same.lastTs]
  have fake : r.getFakeBuffer.fakebuf = flat r.fakes := by rw [same.fake, delivers.fake, fakes]
  -- What is packed in front of the block depends on the client, the rest is the same for all.
  have segments : ∀ old : Nat → List SmdDgram, r.segments ((List.range files.length).map fun i =>
      flat (old i)) false = (List.range files.length).map fun i => flat (old i ++ (part i ++ r.fakes)) := by
    intro old
    apply segments_chunk perFile fake
    rw [same.streams]
    exact blocks
  have count : ((List.range files.length).map fun i =>
      flat (stepsOver (rows.drop (pos client)) i)).length = r.streams.length := by
    rw [List.length_map, List.length_range, perFile]
  obtain ⟨e, -, many, small⟩ := repackParallel_spec count repacked
  have split := split_packed many small
  rw [← e, segments] at split
  refine ⟨perFile, ?_, fake, ?_, ?_, ?_⟩
  · show ∀ (i : Nat) (file : List SmdDgram), files[i]? = some file →
      ∃ stream out, r.streams[i]? = some stream ∧ stream.Follows file out
    rw [same.streams]
    exact delivers.follows
  · show s.given ++ [r.segments _ false] = _
    have none_ := segments fun _ => []
    rw [fakes] at none_
    rw [delivers.given, List.map_append, List.map_map]
    congr 2
    exact none_.trans List.map_map.symm
  · rw [List.map_append]
    rw [Function.update_idem, List.length_append, List.length_map] at tracks
    exact tracks
  · intro client' i hi
    have messages : Smd0.messages ⟨r, hist', s.messages ++ [(client, view)], s.given ++
        [r.segments (((List.range files.length).map fun i =>
          flat (stepsOver (rows.drop (pos client)) i)).map fun _ => []) false]⟩ =
        s.messages ++ [(client, view)] := rfl
    have row : stepsOver [(List.range files.length).map fun i => part i ++ s.reader.fakes] i =
        stepsOf (part i ++ r.fakes) := by
      rw [stepsOver, List.flatMap_singleton, List.getD_eq_getElem?_getD, List.getElem?_map,
        List.getElem?_range hi, fakes]
      rfl
    have received := @received_more _ _ i files rows pos s _ delivers view messages
      (fun i => part i ++ r.fakes) split [(List.range files.length).map fun i => part i ++ s.reader.fakes] hi
      row.symm client'
    rw [List.length_append] at received
    exact received

/-- One operation: the client of a message has been sent every step. -/
lemma step (delivers : s.Delivers clientSize files rows pos) (sorted : ∀ file ∈ files, Ascending file)
    {op : Smd0Op} (counted : Smd0.Counted clientSize ops s op) (h : s.step op = .ok t) :
    ∃ rows' pos', t.Delivers clientSize files rows' pos' ∧
      ∀ client view, t.messages = s.messages ++ [(client, view)] → pos' client = rows'.length := by
  have silent : ∀ client view, s.messages ≠ s.messages ++ [(client, view)] := by
    intro client view same
    cases List.append_right_eq_self.mp same.symm
  cases op with
  | get wants retries =>
    cases h
    exact ⟨rows, pos, delivers.get wants retries, fun client view same => absurd same (silent client view)⟩
  | chunk client batchSize intgStreamId left =>
    obtain ⟨known, complete, shows_, fills⟩ := counted
    rw [Smd0.step] at h
    obtain ⟨r, viewed, h⟩ := bind_ok h
    obtain ⟨delivers', part, blocks, shown⟩ := delivers.viewed sorted complete shows_ fills (mapError_ok viewed)
    simp only at h
    split at h
    · cases h
      exact ⟨rows, pos, delivers', fun client view same => absurd same (silent client view)⟩
    · have delivers'' := delivers'.sendChunk known blocks shown h
      refine ⟨_, _, delivers'', ?_⟩
      intro client' view same
      have sent := Smd0.sendChunk_messages h
      obtain ⟨view', sent⟩ := sent
      rw [sent] at same
      cases List.append_cancel_left same
      rw [Function.update_self, List.length_append]
      rfl
  | missing client left =>
    obtain ⟨known, noFakes⟩ := counted
    refine ⟨_, _, delivers.missing known noFakes h, ?_⟩
    intro client' view same
    obtain ⟨view', sent⟩ := Smd0.missing_messages h
    rw [sent] at same
    cases List.append_cancel_left same
    exact Function.update_self ..

/-- The start. -/
lemma start (clientSize chunksize : Nat) (fakestepFlag : Bool) (files : List (List SmdDgram)) :
    (Smd0.new clientSize chunksize fakestepFlag files).Delivers clientSize files [] fun _ => 0 where
  perFile := (List.length_map _).trans (List.length_map _)
  follows := fun _ file hf => ⟨_, [], Reading.new_stream chunksize fakestepFlag hf, .start file⟩
  fake := SmdReader.getFakeBuffer_fresh ⟨rfl, rfl⟩
  given := rfl
  tracks := .new clientSize files.length
  received := fun _ _ _ => rfl

end Smd0.Delivers

end smd0

/-- A transition and an L1Accept without the first stream. -/
def stepAndL1 : List SmdEvent :=
  [⟨[some (serviceDgram 1 2), some (serviceDgram 2 2)], 0, 2⟩,
    ⟨[none, some (serviceDgram 3 12)], 0, l1Accept⟩]

/-- Two files with a transition and an event. -/
def evenFiles : List (List SmdDgram) :=
  [[plainDgram 2 1, plainDgram 12 2], [plainDgram 2 1, plainDgram 12 3]]

/-- What is asked of a chunk without the steps that its view shows: a client, and an unseen dgram in every
    file. -/
def Smd0.Served (clientSize : Nat) (_ : List Smd0Op) (s : Smd0) : Smd0Op → Prop
  | .get _ _ => True
  | .chunk client _ _ _ => (0 < client ∧ client < clientSize) ∧ s.reader.isComplete = true
  | .missing client _ => 0 < client ∧ client < clientSize

instance Smd0.decidableServed (clientSize : Nat) (ops : List Smd0Op) (s : Smd0) :
    (op : Smd0Op) → Decidable (Smd0.Served clientSize ops s op)
  | .get _ _ => .isTrue trivial
  | .chunk _ _ _ _ => inferInstanceAs (Decidable (_ ∧ _))
  | .missing _ _ => inferInstanceAs (Decidable (_ ∧ _))

/-- A file with two slow updates, and one that starts after them. -/
def lateFiles : List (List SmdDgram) :=
  [[plainDgram slowUpdate 1, plainDgram slowUpdate 2], [plainDgram 2 5]]

end Lcls2.Psana
