import Lcls2.Psana.BatchFormat
import Lcls2.Psana.StepHistory

/-!
# Steps once

Each client of `EventBuilderNode` gets every step once: what it has been sent, from the history and in its own
batches, is the first part of all steps. `Tracks` says so of the history.
-/

namespace Lcls2.Psana
open Lib

/-- The step data of each of `n` streams. -/
def streamsOf (n : Nat) (log : List (List Bytes)) : List Bytes :=
  (List.range n).map fun i => log.flatMap (·.getD i [])

/-- `log` is all step data so far; a client has been sent what comes before its position. -/
structure Tracks (n clientSize : Nat) (h : StepHistory) (log : List (List Bytes))
    (pos : Nat → Nat) : Prop where
  nSmds : h.nSmds = n
  bufs : h.bufs = streamsOf n log
  sendHistory : h.sendHistory = (List.range (clientSize - 1)).map fun idx =>
    (streamsOf n (log.take (pos (idx + 1)))).map List.length
  within : ∀ client, pos client ≤ log.length

section history
variable {n clientSize client : Nat} {h : StepHistory} {log : List (List Bytes)} {pos : Nat → Nat}

lemma streamsOf_length (n : Nat) (log : List (List Bytes)) : (streamsOf n log).length = n := by
  rw [streamsOf, List.length_map, List.length_range]

/-- Setting one entry of a table over a range. -/
lemma set_map_range {α : Type*} (f g : Nat → α) {m k : Nat} {a : α} (at_ : g k = a)
    (off : ∀ i ≠ k, g i = f i) : ((List.range m).map f).set k a = (List.range m).map g := by
  apply List.ext_getElem
  · simp
  · intro i h1 h2
    rw [List.getElem_set, List.getElem_map, List.getElem_map, List.getElem_range]
    split
    · rename_i same
      rw [← same, at_]
    · rename_i other
      exact (off i fun e => other e.symm).symm

/-- Extending every stream by a view. -/
lemma extendEach_streams {views : List Bytes} (full : views.length = n) :
    extendEach (streamsOf n log) views = .ok (streamsOf n (log ++ [views])) := by
  have each : ∀ (bufs views : List Bytes), views.length = bufs.length →
      extendEach bufs views = .ok (List.zipWith (· ++ ·) bufs views) := by
    intro bufs
    induction bufs with
    | nil =>
      intro views same
      cases List.length_eq_zero_iff.mp same
      rfl
    | cons buf bufs ih =>
      intro views same
      cases views with
      | nil => cases same
      | cons view views =>
        rw [extendEach, ih views (Nat.succ.inj same)]
        rfl
  rw [each _ _ (by rw [full, streamsOf_length])]
  congr 1
  apply List.ext_getElem
  · rw [List.length_zipWith, streamsOf_length, streamsOf_length, full, Nat.min_self]
  · intro i h1 h2
    rw [streamsOf_length] at h2
    have hi : i < views.length := by rwa [full]
    simp [streamsOf, List.getElem?_eq_getElem hi]

/-- Adding the sizes of the views. -/
lemma addEach_streams {views : List Bytes} (full : views.length = n) :
    addEach ((streamsOf n log).map List.length) views =
      .ok ((streamsOf n (log ++ [views])).map List.length) := by
  have each : ∀ (bufs views bufs' : List Bytes), extendEach bufs views = .ok bufs' →
      addEach (bufs.map List.length) views = .ok (bufs'.map List.length) := by
    intro bufs
    induction bufs with
    | nil =>
      intro views bufs' extended
      cases views with
      | nil =>
        cases extended
        rfl
      | cons view views => cases extended
    | cons buf bufs ih =>
      intro views bufs' extended
      cases views with
      | nil =>
        cases extended
        rfl
      | cons view views =>
        obtain ⟨rest, tail, e⟩ := bind_ok extended
        cases e
        rw [List.map_cons, addEach, ih views rest tail, ok_bind, List.map_cons,
          List.length_append]
  exact each _ _ _ (extendEach_streams full)

namespace Tracks

/-- The start of a history. -/
lemma new (clientSize n : Nat) : Tracks n clientSize (.new clientSize n) [] fun _ => 0 where
  nSmds := rfl
  bufs := by
    show List.replicate n [] = _
    simp [streamsOf]
  sendHistory := by
    show List.replicate (clientSize - 1) (List.replicate n 0) = _
    simp [streamsOf]
  within := fun _ => Nat.le_refl 0

/-- The offsets sent to a client. -/
lemma sentTo (tracks : Tracks n clientSize h log pos) (known : 0 < client ∧ client < clientSize) :
    h.sentTo client = .ok ((streamsOf n (log.take (pos client))).map List.length) := by
  cases client with
  | zero => exact absurd known.1 (Nat.lt_irrefl 0)
  | succ idx =>
    have hidx : idx < clientSize - 1 := Nat.lt_sub_of_add_lt known.2
    rw [StepHistory.sentTo, tracks.sendHistory]
    simp [hidx]

/-- The position of a client moves to the end of a longer history. -/
lemma move (tracks : Tracks n clientSize h log pos) (known : 0 < client ∧ client < clientSize)
    (more : List (List Bytes)) :
    Tracks n clientSize ⟨h.nSmds, streamsOf n (log ++ more),
        h.sendHistory.set (client - 1) ((streamsOf n (log ++ more)).map List.length)⟩
      (log ++ more) (Function.update pos client (log ++ more).length) where
  nSmds := tracks.nSmds
  bufs := rfl
  sendHistory := by
    show h.sendHistory.set _ _ = _
    rw [tracks.sendHistory]
    apply set_map_range
    · rw [Nat.sub_add_cancel known.1, Function.update_self, List.take_length]
    · intro idx other
      have apart : idx + 1 ≠ client := by
        intro e
        rw [← e] at other
        exact other rfl
      rw [Function.update_of_ne apart, List.take_append_of_le_length (tracks.within _)]
  within := by
    intro client'
    have before := tracks.within client'
    rw [Function.update_apply, List.length_append]
    split
    · exact Nat.le_refl _
    · exact Nat.le_trans before (Nat.le_add_right _ _)

/-- `get_buffer` gives a client what it has not been sent. -/
lemma getBuffer (tracks : Tracks n clientSize h log pos)
    (known : 0 < client ∧ client < clientSize) :
    ∃ h', h.getBuffer client = .ok (streamsOf n (log.drop (pos client)), h') ∧
      Tracks n clientSize h' log (Function.update pos client log.length) := by
  have moved := tracks.move known []
  rw [List.append_nil, ← tracks.bufs] at moved
  cases n with
  | zero =>
    refine ⟨h, ?_, ?_⟩
    · rw [StepHistory.getBuffer, if_pos tracks.nSmds]
      rfl
    · refine ⟨tracks.nSmds, tracks.bufs, ?_, moved.within⟩
      rw [tracks.sendHistory]
      rfl
  | succ m =>
    have some_ : h.nSmds ≠ 0 := by
      rw [tracks.nSmds]
      exact Nat.succ_ne_zero m
    refine ⟨_, ?_, moved⟩
    rw [StepHistory.getBuffer, if_neg some_, tracks.sentTo known, ok_bind, tracks.bufs]
    have whole : ∀ i, log.flatMap (·.getD i []) =
        (log.take (pos client)).flatMap (·.getD i []) ++
          (log.drop (pos client)).flatMap (·.getD i []) := by
      intro i
      rw [← List.flatMap_append, List.take_append_drop]
    simp only [streamsOf, List.map_map, List.zipWith_map, List.zipWith_self]
    congr 4
    · funext i
      simp only [Function.comp, whole i, List.length_append, List.drop_left]
      split
      · rfl
      · rename_i none_
        exact (List.length_eq_zero_iff.mp (by omega)).symm
    · apply List.map_congr_left
      intro i _
      simp only [Function.comp, whole i, List.length_append]
      split
      · rfl
      · rename_i none_
        omega

/-- `extend_buffers` for a client that has been sent everything. -/
lemma extendBuffers (tracks : Tracks n clientSize h log pos)
    (known : 0 < client ∧ client < clientSize) (upToDate : pos client = log.length)
    {views : List Bytes} (full : views.length = n) :
    ∃ h', h.extendBuffers views client = .ok h' ∧
      Tracks n clientSize h' (log ++ [views])
        (Function.update pos client (log ++ [views]).length) := by
  refine ⟨_, ?_, tracks.move known [views]⟩
  rw [StepHistory.extendBuffers, tracks.sentTo known, upToDate, List.take_length, tracks.bufs]
  simp only [ok_bind, extendEach_streams full, addEach_streams full]

end Tracks

end history

variable {n clientSize : Nat} {pos : Nat → Nat}

section node

/-- An event as it is built: a dgram or none for each stream, all of the service of the event, and no
    stream without a dgram in a transition. -/
def SmdEvent.WellBuilt (n : Nat) (e : SmdEvent) : Prop :=
  e.pydgrams.length = n ∧
    (∀ pydg ∈ e.pydgrams, pydg.all fun d => headerService d.bytes = e.service) ∧
    (isStep e → ∀ pydg ∈ e.pydgrams, pydg.isSome) ∧ fits (packed e.streams).length

instance SmdEvent.decidableWellBuilt (e : SmdEvent) : Decidable (e.WellBuilt n) :=
  inferInstanceAs (Decidable (_ ∧ (∀ pydg ∈ e.pydgrams, _) ∧ (_ → ∀ pydg ∈ e.pydgrams, _) ∧ _))

/-- The client of an operation. -/
def NodeOp.client : NodeOp → Nat
  | .batch client _ _ => client
  | .missing client => client

/-- The transitions an operation brings. -/
def NodeOp.steps : NodeOp → List SmdEvent
  | .batch _ evts destination => evts.filter fun e => e.destination = destination ∧ isStep e
  | .missing _ => []

/-- A batch is one of the batches of a build. -/
def NodeOp.WellBuilt (n : Nat) : NodeOp → Prop
  | .batch _ evts destination =>
    evts.length ≤ maxBatchSize ∧ destination ∈ destinations evts ∧ ∀ e ∈ evts, e.WellBuilt n
  | .missing _ => True

instance NodeOp.decidableWellBuilt (op : NodeOp) : Decidable (op.WellBuilt n) :=
  match op with
  | .batch _ evts destination => inferInstanceAs (Decidable (_ ∧ destination ∈ destinations evts ∧ _))
  | .missing _ => .isTrue trivial

/-- Clients are the ranks from 1 on, and the number of transitions fits a footer. -/
def EventBuilderNode.Allowed (bdSize n : Nat) (as : List NodeOp) (_ : EventBuilderNode)
    (op : NodeOp) : Prop :=
  (0 < op.client ∧ op.client < bdSize) ∧ op.WellBuilt n ∧
    fits (maxBatchSize + ((as ++ [op]).flatMap NodeOp.steps).length)

instance EventBuilderNode.decidableAllowed {bdSize : Nat} (as : List NodeOp) (s : EventBuilderNode)
    (op : NodeOp) : Decidable (EventBuilderNode.Allowed bdSize n as s op) :=
  inferInstanceAs (Decidable (_ ∧ op.WellBuilt n ∧ fits _))

/-- The transitions of a stream in some events. -/
def transitionsOf (i : Nat) (events : List (List Bytes)) : List Bytes :=
  (events.map (·.getD i [])).filter fun d => d ≠ [] ∧ headerService d ≠ l1Accept

/-- The events that a client has been sent. -/
def EventBuilderNode.events (s : EventBuilderNode) (client : Nat) :
    Except PacketFault (List (List Bytes)) := do
  let batches ← (s.messages.filter (·.1 = client)).mapM fun m => decodeBatch m.2
  .ok batches.flatten

/-- The transitions of a stream that a client has been sent. -/
def EventBuilderNode.received (s : EventBuilderNode) (client i : Nat) :
    Except PacketFault (List Bytes) := do
  let events ← s.events client
  .ok (transitionsOf i events)

/-- The dgrams of a transition. -/
def SmdEvent.dgrams (e : SmdEvent) : List SmdDgram := e.pydgrams.reduceOption

variable {e : SmdEvent} {evts steps : List SmdEvent} {i : Nat}

lemma SmdEvent.WellBuilt.dgrams_bytes (built : e.WellBuilt n) (step : isStep e) :
    e.dgrams.map SmdDgram.bytes = e.streams ∧ e.dgrams.length = n := by
  obtain ⟨streams, -, complete, -⟩ := built
  have complete := complete step
  rw [← streams]
  clear streams
  rw [SmdEvent.dgrams, SmdEvent.streams]
  generalize e.pydgrams = pydgrams at complete
  induction pydgrams with
  | nil => exact ⟨rfl, rfl⟩
  | cons pydg pydgrams ih =>
    obtain ⟨bytes, length⟩ := ih fun pydg' h => complete pydg' (List.mem_cons_of_mem pydg h)
    cases pydg with
    | none => cases complete none List.mem_cons_self
    | some d =>
      rw [List.reduceOption_cons_of_some, List.map_cons, List.map_cons, bytes, List.length_cons,
        List.length_cons, length]
      exact ⟨rfl, rfl⟩

/-- What an event has for a stream is a transition when the event is. -/
lemma SmdEvent.WellBuilt.transition_iff (built : e.WellBuilt n) (hi : i < n) :
    (e.streams.getD i [] ≠ [] ∧ headerService (e.streams.getD i []) ≠ l1Accept) ↔
      isStep e = true := by
  obtain ⟨streams, services, complete, -⟩ := built
  have hi : i < e.pydgrams.length := by rwa [streams]
  have at_ : e.streams.getD i [] = e.pydgrams[i].elim [] SmdDgram.bytes := by
    rw [SmdEvent.streams, List.getD_eq_getElem _ _ (by rwa [List.length_map]), List.getElem_map]
  have service := services _ (List.getElem_mem hi)
  have complete := fun step => complete step _ (List.getElem_mem hi)
  rw [at_]
  cases hp : e.pydgrams[i] with
  | none =>
    rw [hp] at complete
    constructor
    · rintro ⟨some_, -⟩
      exact absurd rfl some_
    · intro step
      cases complete step
  | some d =>
    rw [hp] at service
    have service : headerService d.bytes = e.service := of_decide_eq_true service
    have some_ : d.bytes ≠ [] := by
      intro none_
      have header := d.header
      rw [none_] at header
      cases header
    show d.bytes ≠ [] ∧ headerService d.bytes ≠ l1Accept ↔ decide (e.service ≠ l1Accept) = true
    rw [service, decide_eq_true_iff]
    exact and_iff_right some_

/-- The transitions of a stream in built events. -/
lemma transitionsOf_streams (built : ∀ e ∈ evts, e.WellBuilt n) (hi : i < n) :
    transitionsOf i (evts.map SmdEvent.streams) =
      (evts.filter isStep).map (·.streams.getD i []) := by
  rw [transitionsOf, List.map_map, List.filter_map]
  congr 1
  apply List.filter_congr
  intro e he
  exact Bool.eq_iff_iff.mpr (decide_eq_true_iff.trans ((built e he).transition_iff hi))

/-- The history as the step views of `repack_for_bd`. -/
lemma streamsOf_steps (built : ∀ e ∈ steps, e.WellBuilt n ∧ isStep e) :
    streamsOf n (steps.map SmdEvent.streams) = stepViews n (steps.map SmdEvent.dgrams) := by
  rw [streamsOf, stepViews]
  apply List.map_congr_left
  intro i _
  rw [List.flatMap_map, List.flatMap_map]
  apply List.flatMap_congr
  intro e he
  obtain ⟨built, step⟩ := built e he
  rw [← (built.dgrams_bytes step).1, List.getD_eq_getElem?_getD, List.getElem?_map]
  cases e.dgrams[i]? with
  | none => rfl
  | some d => rfl

/-- The steps a client has missed; without streams there is nothing to tell it. -/
def missed (n : Nat) (steps : List SmdEvent) (sent : Nat) : List SmdEvent :=
  if n = 0 then [] else steps.drop sent

/-- The missing steps prepended to a batch. -/
lemma repackForBd_missed (sent : Nat) (built : ∀ e ∈ evts, e.WellBuilt n)
    (builtSteps : ∀ e ∈ steps, e.WellBuilt n ∧ isStep e)
    (count : fits (evts.length + steps.length)) :
    repackForBd (batchBytes (evts.map SmdEvent.streams))
        (streamsOf n ((steps.map SmdEvent.streams).drop sent)) =
      .ok (batchBytes ((missed n steps sent ++ evts).map SmdEvent.streams)) := by
  cases n with
  | zero => rfl
  | succ m =>
    have builtSteps : ∀ e ∈ steps.drop sent, e.WellBuilt (m + 1) ∧ isStep e :=
      fun e he => builtSteps e (List.mem_of_mem_drop he)
    have bytes : ((steps.drop sent).map SmdEvent.dgrams).map (·.map SmdDgram.bytes) =
        (steps.drop sent).map SmdEvent.streams := by
      rw [List.map_map]
      apply List.map_congr_left
      intro e he
      exact ((builtSteps e he).1.dgrams_bytes (builtSteps e he).2).1
    rw [missed, if_neg (Nat.succ_ne_zero m), ← List.map_drop, streamsOf_steps builtSteps,
      List.map_append, ← bytes]
    apply repackForBd_batchBytes
    · nofun
    · rw [fits] at count ⊢
      rw [List.length_map, List.length_map, List.length_drop]
      omega
    · exact List.forall_mem_map.mpr fun e he => (built e he).2.2.2
    · refine List.forall_mem_map.mpr fun e he => ?_
      obtain ⟨streams, length⟩ := (builtSteps e he).1.dgrams_bytes (builtSteps e he).2
      rw [streams]
      exact ⟨length, (builtSteps e he).1.2.2.2⟩

variable {bdSize client : Nat} {h : StepHistory}

/-- The history extended by the transitions of a batch. -/
lemma extendEvents_spec {log : List (List Bytes)} (tracks : Tracks n bdSize h log pos)
    (known : 0 < client ∧ client < bdSize) (upToDate : pos client = log.length)
    (built : ∀ e ∈ evts, e.WellBuilt n) :
    ∃ h', h.extendEvents client (evts.map fun e => packed e.streams) = .ok h' ∧
      Tracks n bdSize h' (log ++ evts.map SmdEvent.streams)
        (Function.update pos client (log ++ evts.map SmdEvent.streams).length) := by
  induction evts generalizing h log pos with
  | nil =>
    refine ⟨h, rfl, ?_⟩
    rw [List.map_nil, List.append_nil, ← upToDate, Function.update_eq_self]
    exact tracks
  | cons e evts ih =>
    obtain ⟨length, -, -, small⟩ := built e List.mem_cons_self
    have full : e.streams.length = n := by rw [SmdEvent.streams, List.length_map, length]
    obtain ⟨count, sizes⟩ := fits_of_packed small
    obtain ⟨pf, footer, packets⟩ := bind_ok (split_packed count sizes)
    have nPackets : pf.nPackets = n := by
      rw [ofView_packed count] at footer
      rw [← Except.ok.inj footer, full]
    have same : ¬ pf.nPackets ≠ h.nSmds := fun other => other (nPackets.trans tracks.nSmds.symm)
    obtain ⟨h1, extended, tracks⟩ := tracks.extendBuffers known upToDate full
    obtain ⟨h2, rest, tracks'⟩ := ih tracks (Function.update_self _ _ _)
      fun e' he' => built e' (List.mem_cons_of_mem e he')
    refine ⟨h2, ?_, ?_⟩
    · rw [List.map_cons, StepHistory.extendEvents, footer, ok_bind, if_neg same, packets]
      simp only [ok_bind, extended, rest]
    · rw [Function.update_idem, List.append_assoc, List.singleton_append] at tracks'
      exact tracks'

/-- The history extended by the step batch of a build. -/
lemma extendSteps_spec {log : List (List Bytes)} (tracks : Tracks n bdSize h log pos)
    (known : 0 < client ∧ client < bdSize) (upToDate : pos client = log.length)
    (built : ∀ e ∈ steps, e.WellBuilt n) (count : fits steps.length) {nsteps : Nat}
    (some_ : steps ≠ [] → 0 < nsteps) :
    ∃ h', EventBuilderNode.extendSteps h client nsteps (closedBatch steps).bytes = .ok h' ∧
      Tracks n bdSize h' (log ++ steps.map SmdEvent.streams)
        (Function.update pos client (log ++ steps.map SmdEvent.streams).length) := by
  cases steps with
  | nil =>
    refine ⟨h, ?_, ?_⟩
    · exact if_neg fun more => Nat.lt_irrefl 0 more.2
    · rw [List.map_nil, List.append_nil, ← upToDate, Function.update_eq_self]
      exact tracks
  | cons e rest =>
    have bytes : (closedBatch (e :: rest)).bytes = packed ((e :: rest).map fun e => packed e.streams) := by
      have some_ : (e :: rest).map SmdEvent.streams ≠ [] := List.cons_ne_nil _ _
      show batchBytes ((e :: rest).map SmdEvent.streams) = _
      rw [batchBytes, if_neg some_, List.map_map]
      rfl
    have more : 0 < nsteps ∧ 0 < (closedBatch (e :: rest)).bytes.length := by
      rw [bytes]
      exact ⟨some_ (List.cons_ne_nil e rest), List.length_pos_of_ne_nil (packed_ne_nil _)⟩
    have split := @split_packed ((e :: rest).map fun e => packed e.streams)
      (by rwa [List.length_map]) (List.forall_mem_map.mpr fun e he => (built e he).2.2.2)
    obtain ⟨pf, footer, packets⟩ := bind_ok split
    obtain ⟨h', extended, tracks'⟩ := extendEvents_spec tracks known upToDate built
    refine ⟨h', ?_, tracks'⟩
    rw [EventBuilderNode.extendSteps, if_pos more, bytes, footer]
    simp only [ok_bind, packets, extended]

/-- The batch of a destination. -/
lemma item_spec {f : Int → Batch} {keys : List Int} {destination : Int} (known : destination ∈ keys) :
    EventBuilderNode.item (keys.map fun key => (key, f key)) destination = .ok (f destination) := by
  induction keys with
  | nil => cases known
  | cons key keys ih =>
    rw [EventBuilderNode.item, List.map_cons, List.find?_cons]
    by_cases same : key = destination
    · subst same
      simp
    · have known := (List.mem_cons.mp known).resolve_left fun e => same e.symm
      simp only [same, decide_false]
      exact ih known

variable {s : EventBuilderNode}

/-- Sending a batch: the message is the steps the client has missed and the events of the batch. -/
lemma sendBatch_spec {destination : Int}
    (tracks : Tracks n bdSize s.stepHist (steps.map SmdEvent.streams) pos)
    (known : 0 < client ∧ client < bdSize) (builtSteps : ∀ e ∈ steps, e.WellBuilt n ∧ isStep e)
    (built : (NodeOp.batch client evts destination).WellBuilt n)
    (count : fits (maxBatchSize + steps.length)) :
    ∃ t, s.sendBatch client evts destination = .ok t ∧
      Tracks n bdSize t.stepHist
        ((steps ++ (NodeOp.batch client evts destination).steps).map SmdEvent.streams)
        (Function.update pos client
          (steps ++ (NodeOp.batch client evts destination).steps).length) ∧
      t.messages = s.messages ++ [(client, batchBytes ((missed n steps (pos client) ++
        evts.filter fun e => e.destination = destination).map SmdEvent.streams))] := by
  obtain ⟨short, key, built⟩ := built
  have small : ∀ e ∈ evts, fits (packed e.streams).length := fun e he => (built e he).2.2.2
  have smdBatch := item_spec (f := fun key => closedBatch (evts.filter fun e => e.destination = key))
    key
  have stepBatch := item_spec
    (f := fun key => closedBatch (evts.filter fun e => e.destination = key ∧ isStep e)) key
  obtain ⟨h, buffer, tracks⟩ := tracks.getBuffer known
  have fewer : (evts.filter fun e => e.destination = destination).length ≤ maxBatchSize :=
    Nat.le_trans (List.length_filter_le _ _) short
  have fewerSteps : (evts.filter fun e => e.destination = destination ∧ isStep e).length ≤
      maxBatchSize := Nat.le_trans (List.length_filter_le _ _) short
  rw [fits] at count
  have message : repackForBd
      (closedBatch (evts.filter fun e => e.destination = destination)).bytes _ = _ :=
    repackForBd_missed (pos client) (fun e he => built e (List.mem_of_mem_filter he)) builtSteps
      (by rw [fits]; omega)
  have someSteps : (evts.filter fun e => e.destination = destination ∧ isStep e) ≠ [] →
      0 < evts.countP fun e => e.service ≠ l1Accept := by
    intro some_
    obtain ⟨e, he⟩ := List.exists_mem_of_ne_nil _ some_
    obtain ⟨he, step⟩ := List.mem_filter.mp he
    exact List.countP_pos_iff.mpr ⟨e, he, (of_decide_eq_true step).2⟩
  have countSteps : fits (evts.filter fun e => e.destination = destination ∧ isStep e).length := by
    rw [fits]
    omega
  obtain ⟨h', extended, tracks'⟩ := extendSteps_spec tracks known (Function.update_self _ _ _)
    (fun e he => built e (List.mem_of_mem_filter he)) countSteps someSteps
  refine ⟨⟨h', s.messages ++ [(client, batchBytes ((missed n steps (pos client) ++
        evts.filter fun e => e.destination = destination).map SmdEvent.streams))]⟩, ?_, ?_, rfl⟩
  · rw [EventBuilderNode.sendBatch, genBatches_spec evts short small, ok_bind]
    simp only [smdBatch, ok_bind, buffer, message, stepBatch, extended]
  · rw [← List.map_append, Function.update_idem, List.length_map] at tracks'
    exact tracks'

/-- Sending the missing steps only. -/
lemma sendMissing_spec (tracks : Tracks n bdSize s.stepHist (steps.map SmdEvent.streams) pos)
    (known : 0 < client ∧ client < bdSize) (builtSteps : ∀ e ∈ steps, e.WellBuilt n ∧ isStep e)
    (count : fits steps.length) :
    ∃ t, s.sendMissing client = .ok t ∧
      Tracks n bdSize t.stepHist (steps.map SmdEvent.streams)
        (Function.update pos client steps.length) ∧
      t.messages = if missed n steps (pos client) = [] then s.messages
        else s.messages ++
          [(client, batchBytes ((missed n steps (pos client)).map SmdEvent.streams))] := by
  obtain ⟨h, buffer, tracks⟩ := tracks.getBuffer known
  have message := @repackForBd_missed n [] steps (pos client) (fun e he => by cases he) builtSteps
    (by rwa [List.length_nil, Nat.zero_add])
  rw [List.append_nil] at message
  have empty : batchBytes ((missed n steps (pos client)).map SmdEvent.streams) = [] ↔
      missed n steps (pos client) = [] := by
    rw [batchBytes]
    split
    · rename_i none_
      exact iff_of_true rfl (List.map_eq_nil_iff.mp none_)
    · rename_i some_
      exact iff_of_false (packed_ne_nil _) fun none_ => some_ (List.map_eq_nil_iff.mpr none_)
  refine ⟨⟨h, if missed n steps (pos client) = [] then s.messages else s.messages ++
    [(client, batchBytes ((missed n steps (pos client)).map SmdEvent.streams))]⟩, ?_, ?_, rfl⟩
  · have message : repackForBd [] (streamsOf n ((steps.map SmdEvent.streams).drop (pos client))) = _ :=
      message
    rw [EventBuilderNode.sendMissing, buffer, ok_bind]
    simp only [message, ok_bind, empty]
  · rw [List.length_map] at tracks
    exact tracks

/-- A message adds its events to what its client has been sent. -/
lemma events_send (stepHist : StepHistory) {client' : Nat} {before : List (List Bytes)}
    (events : s.events client' = .ok before) (small : ∀ e ∈ evts, fits (packed e.streams).length)
    (count : fits evts.length) :
    EventBuilderNode.events ⟨stepHist, s.messages ++ [(client,
        batchBytes (evts.map SmdEvent.streams))]⟩ client' =
      .ok (before ++ if client = client' then evts.map SmdEvent.streams else []) := by
  obtain ⟨batches, decoded, e⟩ := bind_ok events
  cases e
  have decodedNew := decode_batchBytes (by rwa [List.length_map]) (List.forall_mem_map.mpr small)
  rw [EventBuilderNode.events, List.filter_append]
  split
  · rename_i same
    subst same
    rw [List.filter_cons_of_pos (by simp), List.filter_nil, List.mapM_append, decoded, ok_bind,
      List.mapM_cons, decodedNew]
    show Except.ok (batches ++ [evts.map SmdEvent.streams]).flatten = _
    rw [List.flatten_append, List.flatten_singleton]
  · rename_i other
    rw [List.filter_cons_of_neg (by simpa using other), List.filter_nil, List.append_nil,
      List.append_nil]
    exact events

/-- A message adds the transitions of its events to what its client has been sent. -/
lemma received_send (stepHist : StepHistory) {client' : Nat} {before : List Bytes}
    (received : s.received client' i = .ok before) (built : ∀ e ∈ evts, e.WellBuilt n)
    (count : fits evts.length) (hi : i < n) :
    EventBuilderNode.received ⟨stepHist, s.messages ++ [(client,
        batchBytes (evts.map SmdEvent.streams))]⟩ client' i =
      .ok (before ++ if client = client' then (evts.filter isStep).map (·.streams.getD i [])
        else []) := by
  obtain ⟨events, sent, e⟩ := bind_ok received
  cases e
  rw [EventBuilderNode.received, events_send stepHist sent (fun e he => (built e he).2.2.2) count,
    ok_bind, ← transitionsOf_streams built hi]
  split
  · rw [transitionsOf, List.map_append, List.filter_append]
    rfl
  · rw [List.append_nil, List.append_nil]

/-- The history tracks the transitions that the clients have been sent. -/
structure EventBuilderNode.Inv (bdSize n : Nat) (steps : List SmdEvent) (s : EventBuilderNode)
    (pos : Nat → Nat) : Prop where
  tracks : Tracks n bdSize s.stepHist (steps.map SmdEvent.streams) pos
  built : ∀ e ∈ steps, e.WellBuilt n ∧ isStep e
  received : ∀ client, ∀ i < n, s.received client i =
    .ok ((steps.take (pos client)).map (·.streams.getD i []))

lemma NodeOp.WellBuilt.of_mem {op : NodeOp} (built : op.WellBuilt n) :
    ∀ e ∈ op.steps, e.WellBuilt n ∧ isStep e := by
  cases op with
  | batch client evts destination =>
    intro e he
    obtain ⟨he, step⟩ := List.mem_filter.mp he
    exact ⟨built.2.2 e he, (of_decide_eq_true step).2⟩
  | missing client => nofun

/-- Every missed step is a transition, so that all of them count. -/
lemma filter_missed (built : ∀ e ∈ steps, e.WellBuilt n ∧ isStep e) (stream : 0 < n) (sent : Nat) :
    (missed n steps sent).filter isStep = steps.drop sent := by
  rw [missed, if_neg (Nat.ne_of_gt stream)]
  exact List.filter_eq_self.mpr fun e he => (built e (List.mem_of_mem_drop he)).2

lemma mem_missed {sent : Nat} (he : e ∈ missed n steps sent) : e ∈ steps := by
  rw [missed] at he
  split at he
  · cases he
  · exact List.mem_of_mem_drop he

lemma missed_length (n : Nat) (steps : List SmdEvent) (sent : Nat) :
    (missed n steps sent).length ≤ steps.length := by
  rw [missed]
  split
  · exact Nat.zero_le _
  · rw [List.length_drop]
    exact Nat.sub_le _ _

/-- What a client has been sent after a message, or after none. -/
lemma take_update {more : List SmdEvent} (within : ∀ client, pos client ≤ steps.length)
    (client client' : Nat) :
    (steps.take (pos client') ++
        if client = client' then steps.drop (pos client') ++ more else []) =
      (steps ++ more).take (Function.update pos client (steps ++ more).length client') := by
  by_cases same : client = client'
  · subst same
    rw [if_pos rfl, Function.update_self, List.take_length, ← List.append_assoc,
      List.take_append_drop]
  · rw [if_neg same, Function.update_of_ne fun e => same e.symm, List.append_nil,
      List.take_append_of_le_length (within client')]

namespace EventBuilderNode.Inv

lemma within (inv : EventBuilderNode.Inv bdSize n steps s pos) (client : Nat) :
    pos client ≤ steps.length := by
  have h := inv.tracks.within client
  rwa [List.length_map] at h

/-- The batch of a destination: its client has been sent every transition. -/
lemma batch (inv : EventBuilderNode.Inv bdSize n steps s pos) {destination : Int}
    (known : 0 < client ∧ client < bdSize)
    (wellBuilt : (NodeOp.batch client evts destination).WellBuilt n)
    (count : fits (maxBatchSize + steps.length)) :
    ∃ t, s.sendBatch client evts destination = .ok t ∧
      EventBuilderNode.Inv bdSize n (steps ++ (NodeOp.batch client evts destination).steps) t
        (Function.update pos client
          (steps ++ (NodeOp.batch client evts destination).steps).length) := by
  obtain ⟨⟨h', messages⟩, sent, tracks, e⟩ :=
    sendBatch_spec inv.tracks known inv.built wellBuilt count
  cases e
  refine ⟨_, sent, tracks, ?_, ?_⟩
  · intro e he
    cases List.mem_append.mp he with
    | inl he => exact inv.built e he
    | inr he => exact wellBuilt.of_mem e he
  · intro client' i hi
    obtain ⟨short, -, builtEvts⟩ := wellBuilt
    have built : ∀ e ∈ missed n steps (pos client) ++
        evts.filter (fun e => e.destination = destination), e.WellBuilt n := by
      intro e he
      cases List.mem_append.mp he with
      | inl he => exact (inv.built e (mem_missed he)).1
      | inr he => exact builtEvts e (List.mem_of_mem_filter he)
    have small : fits (missed n steps (pos client) ++
        evts.filter (fun e => e.destination = destination)).length := by
      have h1 := missed_length n steps (pos client)
      have h2 := List.length_filter_le (fun e => decide (e.destination = destination)) evts
      rw [fits] at count
      rw [List.length_append, fits]
      omega
    have steps_ : (missed n steps (pos client) ++
          evts.filter (fun e => e.destination = destination)).filter isStep =
        steps.drop (pos client) ++ (NodeOp.batch client evts destination).steps := by
      rw [List.filter_append, filter_missed inv.built (Nat.zero_lt_of_lt hi), List.filter_filter]
      congr 1
      apply List.filter_congr
      intro e _
      rw [Bool.decide_and, Bool.and_comm, Bool.decide_eq_true]
    rw [← take_update inv.within]
    show EventBuilderNode.received ⟨h', s.messages ++ _⟩ client' i = _
    rw [received_send h' (inv.received client' i hi) built small hi, steps_]
    split
    · rename_i same
      rw [same, ← List.map_append]
    · rw [List.append_nil, List.append_nil]

/-- The missing steps only: their client has been sent every transition. -/
lemma missing (inv : EventBuilderNode.Inv bdSize n steps s pos)
    (known : 0 < client ∧ client < bdSize) (count : fits steps.length) :
    ∃ t, s.sendMissing client = .ok t ∧
      EventBuilderNode.Inv bdSize n steps t (Function.update pos client steps.length) := by
  obtain ⟨⟨h', messages⟩, sent, tracks, e⟩ := sendMissing_spec inv.tracks known inv.built count
  refine ⟨_, sent, tracks, inv.built, ?_⟩
  intro client' i hi
  have every : (missed n steps (pos client)).filter isStep = steps.drop (pos client) :=
    filter_missed inv.built (Nat.zero_lt_of_lt hi) _
  have after := @take_update pos steps [] inv.within client client'
  rw [List.append_nil, List.append_nil] at after
  rw [← after, List.map_append]
  by_cases idle : missed n steps (pos client) = []
  · -- nothing is sent, and nothing is missing
    rw [if_pos idle] at e
    rw [idle] at every
    have unchanged : EventBuilderNode.received ⟨h', messages⟩ client' i = s.received client' i := by
      show EventBuilderNode.received ⟨h', messages⟩ client' i =
        EventBuilderNode.received ⟨h', s.messages⟩ client' i
      rw [← e]
    rw [unchanged, inv.received client' i hi]
    split
    · rename_i same
      rw [← same, ← every]
      exact congrArg Except.ok (List.append_nil _).symm
    · exact congrArg Except.ok (List.append_nil _).symm
  · rw [if_neg idle] at e
    cases e
    have small : fits (missed n steps (pos client)).length :=
      Nat.lt_of_le_of_lt (missed_length n steps (pos client)) count
    show EventBuilderNode.received ⟨h', s.messages ++ _⟩ client' i = _
    rw [received_send h' (inv.received client' i hi) (fun e he => (inv.built e (mem_missed he)).1) small
      hi, every]
    split
    · rename_i same
      rw [same]
    · rfl

/-- One operation: its client has been sent every transition. -/
lemma step {as : List NodeOp} {op : NodeOp}
    (inv : EventBuilderNode.Inv bdSize n (as.flatMap NodeOp.steps) s pos)
    (ok : EventBuilderNode.Allowed bdSize n as s op) :
    ∃ t, s.step op = .ok t ∧ EventBuilderNode.Inv bdSize n ((as ++ [op]).flatMap NodeOp.steps) t
      (Function.update pos op.client ((as ++ [op]).flatMap NodeOp.steps).length) := by
  obtain ⟨known, wellBuilt, count⟩ := ok
  rw [List.flatMap_append, List.flatMap_singleton] at count ⊢
  rw [List.length_append, fits] at count
  cases op with
  | batch client evts destination => exact inv.batch known wellBuilt (by rw [fits]; omega)
  | missing client =>
    have none_ : NodeOp.steps (.missing client) = [] := rfl
    rw [none_, List.append_nil]
    exact inv.missing known (by rw [fits]; omega)

end EventBuilderNode.Inv

/-- The invariant at the start. -/
lemma EventBuilderNode.inv_new (bdSize n : Nat) :
    EventBuilderNode.Inv bdSize n [] (.new bdSize n) fun _ => 0 where
  tracks := .new bdSize n
  built := nofun
  received := fun _ _ _ => rfl

end node

/-- A dgram without payload, of a service. -/
def serviceDgram (tag service : UInt8) : SmdDgram where
  bytes := tag :: List.replicate 10 0 ++ service :: List.replicate 8 0 ++ [12, 0, 0, 0]
  header := by
    show 24 ≤ 24
    exact Nat.le_refl 24
  sized := by rfl

end Lcls2.Psana
