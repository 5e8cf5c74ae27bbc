import Lcls2.Psana.SmdViews

/-!
# Showing the steps

`show` with `step_buf` is to return the dgrams of the block that are not L1Accepts. It does as long as a
view that gives a file nothing finds no step block of an earlier view, and fake steps come behind step
blocks that are not empty.
-/

namespace Lcls2.Psana
open Lib

/-- A dgram without data. -/
def plainDgram (transitionId ts : Nat) : SmdDgram where
  bytes := fakeDgram transitionId ts
  header := by simp [fakeDgram, sizeofDgram]
  sized := by
    have size : slice (fakeDgram transitionId ts) 20 24 = toLe 4 sizeofXtc := by
      have h := slice_append (toLe 8 ts ++ toLe 4 (transitionId * 2 ^ 24) ++ List.replicate 8 0)
        (toLe 4 sizeofXtc) []
      simp only [List.append_nil, List.length_append, toLe_length, List.length_replicate] at h
      exact h
    rw [dgramSizeAt, size, ofLe_toLe (by decide)]
    simp [fakeDgram, sizeofDgram]

lemma plainDgram_sv {transitionId : Nat} (ts : Nat) (h : transitionId < 16) :
    (plainDgram transitionId ts).sv = transitionId := by
  have service : slice (fakeDgram transitionId ts) 8 12 = toLe 4 (transitionId * 2 ^ 24) := by
    have e := slice_append (toLe 8 ts) (toLe 4 (transitionId * 2 ^ 24))
      (List.replicate 8 0 ++ toLe 4 sizeofXtc)
    rw [toLe_length, toLe_length, ← List.append_assoc] at e
    exact e
  show ofLe (slice (fakeDgram transitionId ts) 8 12) / 2 ^ 24 % 16 = transitionId
  rw [service, ofLe_toLe (by omega), Nat.mul_div_cancel _ (by decide), Nat.mod_eq_of_lt h]

/-- The dgrams of the fake steps. -/
def fakeStepDgrams (ts : Nat) : List SmdDgram :=
  [plainDgram 9 ts, plainDgram 7 (ts + 1), plainDgram 6 (ts + 2), plainDgram 8 (ts + 3)]

lemma flat_fakeStepDgrams (ts : Nat) : flat (fakeStepDgrams ts) = (fakeSteps ts).flatten := rfl

/-- None of the fake steps is an L1Accept. -/
lemma stepsOf_fakeStepDgrams (ts : Nat) : stepsOf (fakeStepDgrams ts) = fakeStepDgrams ts := by
  rw [stepsOf, List.filter_eq_self]
  intro d hd
  apply decide_eq_true
  simp only [fakeStepDgrams, List.mem_cons, List.not_mem_nil, or_false] at hd
  rcases hd with rfl | rfl | rfl | rfl
  all_goals
    rw [plainDgram_sv _ (by decide)]
    decide

/-- The bytes tell the dgrams. -/
lemma flat_injective {ds ds' : List SmdDgram} (h : flat ds = flat ds') : ds = ds' := by
  induction ds generalizing ds' with
  | nil =>
    cases ds' with
    | nil => rfl
    | cons d' ds' =>
      have header := d'.header
      rw [flat_cons] at h
      rw [(List.append_eq_nil_iff.mp h.symm).1] at header
      cases header
  | cons d ds ih =>
    cases ds' with
    | nil =>
      have header := d.header
      rw [flat_cons] at h
      rw [(List.append_eq_nil_iff.mp h).1] at header
      cases header
    | cons d' ds' =>
      rw [flat_cons, flat_cons] at h
      have size : d.bytes.length = d'.bytes.length := by
        rw [← d.sized, ← d'.sized, ← dgramSizeAt_append (flat ds) d.header, h,
          dgramSizeAt_append (flat ds') d'.header]
      obtain ⟨first, others⟩ := List.append_inj h size
      have same : d = d' := by
        cases d
        cases d'
        cases first
        rfl
      rw [same, ih others]

namespace SmdReader
variable {r : SmdReader} {s : Stream} {i : Nat}

/-- Whether fake steps are inserted behind a view whose last dgram in the winner has this service. -/
def insertsFakes (r : SmdReader) (winnerLastSv : Nat) : Bool :=
  r.fakestepFlag && (winnerLastSv = l1Accept || winnerLastSv = slowUpdate)

/-- Whether a view shows the steps of its blocks: a file that gets nothing has no step block from an
    earlier view, and every other one gets a step where fake steps are inserted. -/
def showsSteps (r : SmdReader) (batchSize : Nat) (intgStreamId : Option Nat) : Bool :=
  match r.selectWindow batchSize intgStreamId with
  | .error _ => true
  | .ok (_, _, last, limitTs) => r.streams.all fun s =>
      if s.isBeyond limitTs then s.blockSizeStepbuf == 0
      else !r.insertsFakes last.sv || s.hasStep limitTs

/-- The fake steps of a view. -/
def fakes (r : SmdReader) : List SmdDgram :=
  if r.insertsFakes r.winnerLastSv then fakeStepDgrams (r.winnerLastTs + 1) else []

lemma stepsOf_fakes : stepsOf r.fakes = r.fakes := by
  rw [fakes]
  split
  · exact stepsOf_fakeStepDgrams _
  · rfl

/-- What `get_fake_buffer` makes first. -/
lemma getFakeBuffer_fresh (fresh : r.fakebuf = [] ∧ r.nextFakeTs = 0) :
    r.getFakeBuffer.fakebuf = flat r.fakes := by
  have inserts : (r.fakestepFlag ∧ (r.winnerLastSv = l1Accept ∨ r.winnerLastSv = slowUpdate)) ↔
      r.insertsFakes r.winnerLastSv = true := by
    simp [insertsFakes]
  rw [getFakeBuffer, fakes]
  split
  · rename_i h
    rw [if_pos (inserts.mp h), flat_fakeStepDgrams, if_pos fresh.1, if_pos fresh.2]
  · rename_i h
    rw [if_neg (fun e => h (inserts.mpr e))]
    exact fresh.1

/-- What `show` returns for a block that is not empty. -/
lemma showBlock_fst (fake : r.getFakeBuffer.fakebuf = flat r.fakes) (view : Bytes) :
    (r.showBlock i view).1 = view ++ flat r.fakes := by
  rw [showBlock, ← fake]
  split
  · rfl
  · rename_i none_
    have none_ := List.length_eq_zero_iff.mp (Nat.eq_zero_of_not_pos none_)
    rw [none_, List.append_nil]

/-- What `show` returns after a view. -/
lemma shown_getD (fake : r.getFakeBuffer.fakebuf = flat r.fakes) (hs : r.streams[i]? = some s) :
    (r.shown false).getD i [] = (if 0 < s.blockSizeBuf then
      Stream.block s.buf s.iStBuf s.blockSizeBuf ++ flat r.fakes else []) ∧
    (r.shown true).getD i [] = (if 0 < s.blockSizeStepbuf then
      Stream.block s.stepBuf s.iStStepbuf s.blockSizeStepbuf ++ flat r.fakes else []) := by
  have hi : i < r.streams.length := (List.getElem?_eq_some_iff.mp hs).1
  have at_ : ∀ stepBuf, (r.shown stepBuf).getD i [] = (r.show_ i stepBuf).toOption.elim [] Prod.fst := by
    intro stepBuf
    rw [shown, List.getD_eq_getElem?_getD, List.getElem?_map, List.getElem?_range hi, Option.map_some,
      Option.getD_some]
  constructor
  · rw [at_, show_, hs]
    simp only [Bool.false_eq_true, if_false]
    split
    · exact showBlock_fst fake _
    · rfl
  · rw [at_, show_, hs]
    simp only [if_true]
    split
    · exact showBlock_fst fake _
    · rfl

end SmdReader

section
variable {r r' : SmdReader} {s s' : Stream} {part : List SmdDgram} {i limitTs : Nat}

lemma flat_pos (some_ : part ≠ []) : 0 < (flat part).length := by
  cases part with
  | nil => exact absurd rfl some_
  | cons d part =>
    have header := d.header
    rw [sizeofDgram] at header
    rw [flat_cons, List.length_append]
    omega

/-- The dgrams that `show` returns of a block. -/
def shownOf (r : SmdReader) (part : List SmdDgram) : List SmdDgram :=
  if part = [] then [] else part ++ r.fakes

lemma Stream.Gives.shown (gives : s.Gives limitTs part s') (fake : r.getFakeBuffer.fakebuf = flat r.fakes)
    (hs : r.streams[i]? = some s') : (r.shown false).getD i [] = flat (shownOf r part) := by
  rw [(SmdReader.shown_getD fake hs).1, shownOf, gives.block, gives.size]
  cases part with
  | nil => rfl
  | cons d part =>
    rw [if_pos (flat_pos (List.cons_ne_nil d part)), if_neg (List.cons_ne_nil d part), flat_append]

/-- The steps of a block are shown if the block has one where fake steps are inserted. -/
lemma Stream.Gives.stepsShown (gives : s.Gives limitTs part s')
    (fake : r.getFakeBuffer.fakebuf = flat r.fakes)
    (hs : r.streams[i]? = some s') (clean : part = [] → s.blockSizeStepbuf = 0)
    (inserted : part ≠ [] → r.fakes ≠ [] → stepsOf part ≠ []) :
    (r.shown true).getD i [] = flat (stepsOf (shownOf r part)) := by
  rw [(SmdReader.shown_getD fake hs).2, shownOf]
  by_cases none_ : part = []
  · rw [gives.skipped none_, clean none_, if_neg (Nat.lt_irrefl 0), if_pos none_]
    rfl
  · rw [if_neg none_, stepsOf_append, SmdReader.stepsOf_fakes, gives.stepBlock none_, gives.stepSize none_]
    by_cases steps : stepsOf part = []
    · have without : r.fakes = [] := by
        by_contra fakes
        exact inserted none_ fakes steps
      rw [steps, without]
      rfl
    · rw [if_pos (flat_pos steps), flat_append]

end

namespace Reading

/-- Views that show the steps of their blocks. -/
def ShowsSteps (ops : List SmdOp) (s : Reading) (op : SmdOp) : Prop :=
  Allowed ops s op ∧
    match op with
    | .get _ _ => True
    | .view batchSize intgStreamId => s.reader.showsSteps batchSize intgStreamId

instance (ops : List SmdOp) (s : Reading) : (op : SmdOp) → Decidable (ShowsSteps ops s op)
  | .get _ _ => .isTrue ⟨trivial, trivial⟩
  | .view batchSize intgStreamId =>
    inferInstanceAs (Decidable (s.reader.isComplete = true ∧
      s.reader.showsSteps batchSize intgStreamId = true))

instance (ops : List SmdOp) (s : Reading) : (op : SmdOp) → Decidable (Allowed ops s op)
  | .get _ _ => .isTrue trivial
  | .view _ _ => inferInstanceAs (Decidable (s.reader.isComplete = true))

/-- What `show` has returned for a file, over the views. -/
def shownOver (s : Reading) (i : Nat) : Bytes := s.views.flatMap fun v => v.shown.getD i []

/-- What `show` has returned for the steps of a file, over the views. -/
def stepsOver (s : Reading) (i : Nat) : Bytes := s.views.flatMap fun v => v.stepsShown.getD i []

/-- The steps that have been shown are those among the dgrams that have been shown. -/
def StepsMatch (s : Reading) (i : Nat) : Prop :=
  ∃ ds, flat ds = s.shownOver i ∧ flat (stepsOf ds) = s.stepsOver i

end Reading

/-- What holds of a file in a run. -/
structure Reading.Shows (s : Reading) (i : Nat) (file : List SmdDgram) : Prop where
  follows : ∃ stream out, s.reader.streams[i]? = some stream ∧ stream.Follows file out
  steps : s.StepsMatch i

section run
variable {files : List (List SmdDgram)} {s s' : Reading} {ops : List SmdOp} {i : Nat}
  {file : List SmdDgram}

/-- What is asked of each file where a view shows the steps. -/
lemma SmdReader.showsSteps_spec {r : SmdReader} {batchSize winner nViewEvents limitTs : Nat}
    {intgStreamId : Option Nat} {last : Entry} (h : r.showsSteps batchSize intgStreamId = true)
    (window : r.selectWindow batchSize intgStreamId = .ok (winner, nViewEvents, last, limitTs))
    {stream : Stream} (hs : stream ∈ r.streams) :
    (stream.isBeyond limitTs = true → stream.blockSizeStepbuf = 0) ∧
      (¬ stream.isBeyond limitTs = true → r.insertsFakes last.sv = true →
        stream.hasStep limitTs = true) := by
  rw [SmdReader.showsSteps, window] at h
  have h := List.all_eq_true.mp h stream hs
  constructor
  · intro beyond
    rw [if_pos beyond] at h
    exact eq_of_beq h
  · intro within inserts
    rw [if_neg within, inserts] at h
    exact h

/-- A step of the run. -/
lemma Reading.Shows.step {op : SmdOp} (shows_ : s.Shows i file) (sorted : Ascending file)
    (clean : Reading.ShowsSteps ops s op) (h : s.step op = .ok s') : s'.Shows i file := by
  obtain ⟨⟨stream, out, hs, follows⟩, steps⟩ := shows_
  cases op with
  | get wants retries =>
    cases h
    obtain ⟨stream', hs', fetched⟩ := get_stream s.reader wants retries hs
    exact ⟨⟨stream', out, hs', follows.get fetched⟩, steps⟩
  | view batchSize intgStreamId =>
    obtain ⟨complete, clean⟩ := clean
    obtain ⟨winner, nViewEvents, last, limitTs, selected, viewed, views⟩ := Reading.step_view h
    obtain ⟨e, -, moved⟩ := view_spec selected viewed
    have fake : s'.reader.getFakeBuffer.fakebuf = flat s'.reader.fakes := by
      apply SmdReader.getFakeBuffer_fresh
      rw [e]
      exact ⟨rfl, rfl⟩
    have fakes : s'.reader.fakes ≠ [] → s.reader.insertsFakes last.sv = true := by
      intro some_
      have inserts : s'.reader.insertsFakes s'.reader.winnerLastSv = s.reader.insertsFakes last.sv := by
        rw [e]
        rfl
      cases hi : s.reader.insertsFakes last.sv with
      | true => rfl
      | false =>
        rw [SmdReader.fakes, inserts, hi] at some_
        exact absurd rfl some_
    obtain ⟨stream', hmove, hs'⟩ := moved i stream hs
    have among := List.mem_of_getElem? hs
    have unseen : stream.buf.hasUnseen = true := List.all_eq_true.mp complete stream among
    obtain ⟨part, follows', gives⟩ := follows.view sorted unseen hmove
    obtain ⟨skips, inserts⟩ := SmdReader.showsSteps_spec clean selected among
    have shown := gives.shown fake hs'
    have stepsShown := gives.stepsShown fake hs' (fun none_ => skips (gives.beyond.mpr none_))
      fun some_ inserted =>
        gives.stepped (inserts (fun beyond => some_ (gives.beyond.mp beyond)) (fakes inserted))
    obtain ⟨ds, all, allSteps⟩ := steps
    refine ⟨⟨stream', out ++ part, hs', follows'⟩, ds ++ shownOf s'.reader part, ?_, ?_⟩
    · rw [flat_append, all, Reading.shownOver, Reading.shownOver, views, List.flatMap_append,
        List.flatMap_singleton, shown]
    · rw [stepsOf_append, flat_append, allSteps, Reading.stepsOver, Reading.stepsOver, views,
        List.flatMap_append, List.flatMap_singleton, stepsShown]

/-- Nothing is shown at the start. -/
lemma Reading.Shows.start (chunksize : Nat) (fakestepFlag : Bool) (hf : files[i]? = some file) :
    (Reading.new chunksize fakestepFlag files).Shows i file :=
  ⟨⟨_, [], Reading.new_stream chunksize fakestepFlag hf, .start file⟩, [], rfl, rfl⟩

end run

/-- In every run whose views find no step block of an earlier view in a file they give nothing, and a step
    in every other file where fake steps are inserted, the steps shown are those among the dgrams shown. -/
theorem steps_shown_once (chunksize : Nat) (fakestepFlag : Bool) (files : List (List SmdDgram))
    (sorted : ∀ file ∈ files, Ascending file) (ops : List SmdOp) (s : Reading)
    (run : Run Reading.step Reading.ShowsSteps (.new chunksize fakestepFlag files) ops s) (i : Nat)
    (hi : i < files.length) : s.StepsMatch i := by
  have hf := List.getElem?_eq_getElem hi
  have shows_ : s.Shows i files[i] := by
    refine Run.invariant (P := fun _ s => s.Shows i files[i]) ?_ ?_ run
    · exact Reading.Shows.start chunksize fakestepFlag hf
    · intro _ _ _ _ shows_ clean step
      exact shows_.step (sorted _ (List.getElem_mem hi)) clean step
  exact shows_.steps

/-- A file that gets nothing in the second view. -/
def gapFiles : List (List SmdDgram) :=
  [[plainDgram 2 1, plainDgram 12 2, plainDgram 12 3], [plainDgram 2 1, plainDgram 12 5]]

/-- The second view shows the step of the first one again for the file that gets nothing, and fake steps
    are missing behind a step block without a step. -/
theorem steps_shown_twice :
    (∃ s, Run Reading.step Reading.Allowed (.new 200 false gapFiles)
      [.get [200, 200] [], .view 1 none, .view 1 none] s ∧ ¬ s.StepsMatch 1) ∧
    ∃ s, Run Reading.step Reading.Allowed (.new 200 true [[plainDgram 2 1, plainDgram 12 2]])
      [.get [200] [], .view 1 none, .view 1 none] s ∧ ¬ s.StepsMatch 0 := by
  constructor
  · obtain ⟨s, run, test⟩ := Run.of_replay_any Reading.step Reading.Allowed (.new 200 false gapFiles)
      [.get [200, 200] [], .view 1 none, .view 1 none]
      (fun s => s.shownOver 1 = flat [plainDgram 2 1] ∧ s.stepsOver 1 = flat [plainDgram 2 1, plainDgram 2 1])
      (by decide +kernel)
    refine ⟨s, run, ?_⟩
    rintro ⟨ds, all, steps⟩
    obtain ⟨shown, stepsShown⟩ := of_decide_eq_true test
    cases flat_injective (all.trans shown)
    cases flat_injective (steps.trans stepsShown)
  · obtain ⟨s, run, test⟩ := Run.of_replay_any Reading.step Reading.Allowed
      (.new 200 true [[plainDgram 2 1, plainDgram 12 2]])
      [.get [200] [], .view 1 none, .view 1 none]
      (fun s => s.shownOver 0 = flat ([plainDgram 2 1, plainDgram 12 2] ++ fakeStepDgrams 3) ∧
        s.stepsOver 0 = flat [plainDgram 2 1])
      (by decide +kernel)
    refine ⟨s, run, ?_⟩
    rintro ⟨ds, all, steps⟩
    obtain ⟨shown, stepsShown⟩ := of_decide_eq_true test
    cases flat_injective (all.trans shown)
    cases flat_injective (steps.trans stepsShown)

/-- Fake steps behind a view that gives every file a step. -/
theorem steps_shown_once_even :
    ∃ s, Run Reading.step Reading.ShowsSteps
      (.new 200 true [[plainDgram 2 1, plainDgram 12 2], [plainDgram 2 1, plainDgram 4 3]])
      [.get [200, 200] [], .view 2 none] s ∧ s.StepsMatch 1 := by
  obtain ⟨s, run, -⟩ := Run.of_replay_any Reading.step Reading.ShowsSteps
    (.new 200 true [[plainDgram 2 1, plainDgram 12 2], [plainDgram 2 1, plainDgram 4 3]])
    [.get [200, 200] [], .view 2 none] (fun _ => true) (by decide +kernel)
  have sorted : ∀ file ∈ [[plainDgram 2 1, plainDgram 12 2], [plainDgram 2 1, plainDgram 4 3]],
      Ascending file := by
    unfold Ascending
    decide +kernel
  exact ⟨s, run, steps_shown_once 200 true _ sorted _ s run 1 (by decide)⟩

end Lcls2.Psana
