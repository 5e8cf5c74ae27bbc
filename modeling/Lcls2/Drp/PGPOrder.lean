import Lcls2.Drp.PGPDetector
import Lcls2.Lib.RoundRobin

/-!
# The collector hands events over in the order of the reader

The indices of the events that are under way stand in one list: those of the batch that the collector goes
through, those of the batches in the queues and with the workers, and those of the batch of the reader. The
workers and their queues hold the batches as they were dealt in turn. What the reader has read is what was
handed over, followed by what becomes of the indices in this list; no event is under way twice.
-/

namespace Lcls2.Drp
open Lcls2.Lib
open Lcls2.Eb (TransitionId)

/-- What an event is: broken, or complete with a header. -/
def PGPEvent.outcome (event : PGPEvent) : Option TimingHeader :=
  if event.mask = 0#8 then none else some event.timingHeader

namespace PGPDetector
variable (p : PGPParameters) (s : PGPDetector)

/-- The indices that the collector has still to go through in its batch. -/
def rest : List Nat :=
  match s.collecting with
  | none => []
  | some (batch, i) => (batch.indices p.nbuffers).drop i

/-- The batches in the queues of a worker and with it, the oldest first. -/
def batches (q : Nat) : List Batch :=
  s.workerOutputQueues q ++ (s.processing q).toList.map Prod.fst ++ s.workerInputQueues q

/-- The indices of the events that have not been freed. -/
def inUse : List Nat :=
  s.sent ++ (s.rest p ++ ((List.range p.nworkers).flatMap fun q => (s.batches q).flatMap (·.indices p.nbuffers)) ++
    s.batch.indices p.nbuffers)

/-- The index of the event of a header. -/
def slot (timingHeader : TimingHeader) : Nat := timingHeader.evtCounter % 2 ^ 24 % p.nbuffers

/-- Whether a buffer completes its event. -/
def completes (dma : Dma) : Prop :=
  ((s.pgpEvents (slot p dma.timingHeader)).add dma).mask = p.laneMask

instance (dma : Dma) : Decidable (s.completes p dma) := by
  unfold completes
  infer_instance

/-- The counter of the last complete event, as a complete event finds it. -/
def before (timingHeader : TimingHeader) : Nat :=
  if timingHeader.service = .BeginRun then 0 else s.lastComplete

/-- The events that were skipped come before a complete one without a turnover of the counter, are no more than
    there are events, and are not in use. -/
def Ahead (timingHeader : TimingHeader) : Prop :=
  timingHeader.evtCounter % 2 ^ 24 ≠ (s.before timingHeader + 1) % 2 ^ 24 →
    s.before timingHeader < timingHeader.evtCounter % 2 ^ 24 ∧
    timingHeader.evtCounter % 2 ^ 24 - s.before timingHeader ≤ p.nbuffers ∧
    ∀ e < timingHeader.evtCounter % 2 ^ 24, s.before timingHeader < e → e % p.nbuffers ∉ s.inUse p

instance (timingHeader : TimingHeader) : Decidable (s.Ahead p timingHeader) := by
  unfold Ahead
  infer_instance

/-- The event of the buffer is not in use. If it is complete with the buffer, its other lanes are of the same event
    and no batch is left by the end of the last run. -/
structure Received (dma : Dma) : Prop where
  lanes : s.completes p dma → ∀ lane : Fin 8, lane ≠ dma.lane →
    (s.pgpEvents (slot p dma.timingHeader)).mask.getLsbD lane →
      (s.pgpEvents (slot p dma.timingHeader)).buffers lane = dma.timingHeader
  unused : slot p dma.timingHeader ∉ s.inUse p
  begins : s.completes p dma → dma.timingHeader.service = .BeginRun → s.batch.size = 0
  ahead : s.completes p dma → s.Ahead p dma.timingHeader

/-- What is asked of a step. -/
def Allowed (_ : List PGPOp) (s : PGPDetector) : PGPOp → Prop
  | .reader dma => dma.err = false → s.Received p dma
  | _ => True

/-- The number of the batch that the collector takes next. -/
def turn : Nat :=
  match s.collecting with
  | none => s.collected
  | some _ => s.collected + 1

/-- The indices of the events that are under way, where these batches are dealt. -/
def underWay (pend : List Batch) : List Nat :=
  s.rest p ++ pend.flatMap (·.indices p.nbuffers) ++ s.batch.indices p.nbuffers

/-- The datagram of the event is in the pebble. -/
def Made (index : Nat) : Prop :=
  (s.pgpEvents index).mask ≠ 0#8 → s.pebble index = (s.pgpEvents index).timingHeader

/-- The worker of the event has gone past it. -/
inductive Handled (index : Nat) : Prop where
  | rest (mem : index ∈ s.rest p)
  | output {q batch} (queued : batch ∈ s.workerOutputQueues q) (mem : index ∈ batch.indices p.nbuffers)
  | processing {q batch i} (busy : s.processing q = some (batch, i)) (mem : index ∈ (batch.indices p.nbuffers).take i)

/-- The invariant: these batches are dealt, and the next event has this number. -/
structure Inv (pend : List Batch) (next : Nat) : Prop where
  queues : ∀ q, s.batches q = dealt p.nworkers q s.turn pend
  count : s.worker = s.turn + pend.length
  sizes : ∀ batch ∈ pend, 0 < batch.size
  follows : (s.batch.start + s.batch.size) % p.nbuffers = next % p.nbuffers
  nodup : (s.sent ++ s.underWay p pend).Nodup
  outcomes : s.read = s.handed ++ (s.underWay p pend).map fun index => (s.pgpEvents index).outcome
  made : ∀ index, s.Handled p index → s.Made index

variable {p s}

/-- One more index in a batch. -/
lemma indices_succ (n : Nat) (batch : Batch) :
    Batch.indices n ⟨batch.start, batch.size + 1⟩ = batch.indices n ++ [(batch.start + batch.size) % n] := by
  rw [Batch.indices, Batch.indices, List.range_succ, List.map_append]
  rfl

/-- What is next in a batch. -/
lemma take_succ {batch : Batch} {i : Nat} (lt : i < batch.size) (n : Nat) :
    (batch.indices n).take (i + 1) = (batch.indices n).take i ++ [(batch.start + i) % n] := by
  have here : (batch.indices n)[i]? = some ((batch.start + i) % n) := by
    rw [Batch.indices, List.getElem?_map, List.getElem?_range lt]
    rfl
  rw [List.take_add_one, here]
  rfl

/-- What is left in a batch. -/
lemma drop_eq {batch : Batch} {i : Nat} (lt : i < batch.size) (n : Nat) :
    (batch.indices n).drop i = (batch.start + i) % n :: (batch.indices n).drop (i + 1) := by
  have here : i < (batch.indices n).length := by
    rw [Batch.indices, List.length_map, List.length_range]
    exact lt
  rw [List.drop_eq_getElem_cons here]
  simp only [Batch.indices, List.getElem_map, List.getElem_range]

/-- Nothing comes after the last index. -/
lemma drop_all {batch : Batch} {i : Nat} (all : batch.size ≤ i) (n : Nat) : (batch.indices n).drop i = [] := by
  apply List.drop_of_length_le
  rw [Batch.indices, List.length_map, List.length_range]
  exact all

/-- What was handled depends on the workers and the collector. -/
lemma Handled.of {t : PGPDetector} {index : Nat} (handled : t.Handled p index)
    (collecting : t.collecting = s.collecting) (output : t.workerOutputQueues = s.workerOutputQueues)
    (processing : t.processing = s.processing) : s.Handled p index := by
  cases handled with
  | rest mem =>
    apply Handled.rest
    rw [PGPDetector.rest, ← collecting]
    exact mem
  | output queued mem => exact .output (output ▸ queued) mem
  | processing busy mem => exact .processing (processing ▸ busy) mem

namespace Inv
variable {pend : List Batch} {next : Nat}

/-- The dealt batches are those in the queues. -/
lemma mem_pend (inv : s.Inv p pend next) {batch : Batch} :
    batch ∈ pend ↔ ∃ q < p.nworkers, batch ∈ s.batches q := by
  constructor
  · intro mem
    obtain ⟨q, lt, mem⟩ := exists_mem_dealt (k := s.turn) p.nworkers_pos mem
    exact ⟨q, lt, inv.queues q ▸ mem⟩
  · rintro ⟨q, -, mem⟩
    rw [inv.queues q] at mem
    exact mem_of_mem_dealt mem

/-- What is in use is what is under way or has not been freed. -/
lemma mem_inUse (inv : s.Inv p pend next) {index : Nat} :
    index ∈ s.inUse p ↔ index ∈ s.sent ++ s.underWay p pend := by
  have same : index ∈ (List.range p.nworkers).flatMap (fun q => (s.batches q).flatMap (·.indices p.nbuffers)) ↔
      index ∈ pend.flatMap (·.indices p.nbuffers) := by
    simp only [List.mem_flatMap, List.mem_range]
    constructor
    · rintro ⟨q, lt, batch, mem, here⟩
      exact ⟨batch, inv.mem_pend.mpr ⟨q, lt, mem⟩, here⟩
    · rintro ⟨batch, mem, here⟩
      obtain ⟨q, lt, mem⟩ := inv.mem_pend.mp mem
      exact ⟨q, lt, batch, mem, here⟩
  rw [inUse, underWay]
  simp only [List.mem_append, same]

/-- An event of a batch in the queues of a worker is under way. -/
lemma mem_underWay (inv : s.Inv p pend next) {q : Nat} {batch : Batch} (mem : batch ∈ s.batches q) {index : Nat}
    (here : index ∈ batch.indices p.nbuffers) : index ∈ s.underWay p pend := by
  rw [inv.queues q] at mem
  apply List.mem_append_left
  apply List.mem_append_right
  exact List.mem_flatMap.mpr ⟨batch, mem_of_mem_dealt mem, here⟩

/-- What a worker has gone past is under way. -/
lemma handled (inv : s.Inv p pend next) {index : Nat} (handled : s.Handled p index) :
    index ∈ s.underWay p pend := by
  cases handled with
  | rest mem => exact List.mem_append_left _ (List.mem_append_left _ mem)
  | @output q _ queued mem =>
    apply inv.mem_underWay (q := q) _ mem
    exact List.mem_append_left _ (List.mem_append_left _ queued)
  | @processing q batch i busy mem =>
    apply inv.mem_underWay (q := q) _ (List.mem_of_mem_take mem)
    apply List.mem_append_left
    apply List.mem_append_right
    rw [busy]
    exact List.mem_singleton_self batch

/-- An event that is not under way may be written. -/
lemma setEvent (inv : s.Inv p pend next) {index : Nat} (unused : index ∉ s.underWay p pend) (event : PGPEvent) :
    (s.setEvent index event).Inv p pend next := by
  have kept : ∀ i ∈ s.underWay p pend, (s.setEvent index event).pgpEvents i = s.pgpEvents i := by
    intro i mem
    apply Function.update_of_ne
    rintro rfl
    exact unused mem
  refine ⟨inv.queues, inv.count, inv.sizes, inv.follows, inv.nodup, ?_, ?_⟩
  · show s.read = _
    rw [inv.outcomes]
    apply congrArg (s.handed ++ ·)
    apply List.map_congr_left
    intro i mem
    rw [kept i mem]
  · intro i handled
    have handled : s.Handled p i := handled.of rfl rfl rfl
    rw [Made, kept i (inv.handled handled)]
    exact inv.made i handled

/-- The next event is added to the batch. -/
lemma add (inv : s.Inv p pend next) (unused : next % p.nbuffers ∉ s.sent ++ s.underWay p pend) {outcome}
    (as : (s.pgpEvents (next % p.nbuffers)).outcome = outcome) : (s.add outcome).Inv p pend (next + 1) := by
  have more : (s.add outcome).underWay p pend = s.underWay p pend ++ [next % p.nbuffers] := by
    show s.rest p ++ _ ++ Batch.indices p.nbuffers ⟨s.batch.start, s.batch.size + 1⟩ = _
    rw [indices_succ, inv.follows, underWay, ← List.append_assoc]
  refine ⟨inv.queues, inv.count, inv.sizes, ?_, ?_, ?_, ?_⟩
  · show (s.batch.start + (s.batch.size + 1)) % p.nbuffers = _
    rw [← Nat.add_assoc, Nat.add_mod, inv.follows, ← Nat.add_mod]
  · rw [more, ← List.append_assoc]
    exact inv.nodup.append (List.nodup_singleton _) (List.disjoint_singleton.mpr unused)
  · show s.read ++ [outcome] = _
    rw [more, List.map_append, inv.outcomes, List.append_assoc, ← as]
    rfl
  · intro i handled
    exact inv.made i (handled.of rfl rfl rfl)

/-- The number of the next event matters as to its index. -/
lemma congr (inv : s.Inv p pend next) {next' : Nat} (same : next % p.nbuffers = next' % p.nbuffers) :
    s.Inv p pend next' :=
  ⟨inv.queues, inv.count, inv.sizes, inv.follows.trans same, inv.nodup, inv.outcomes, inv.made⟩

/-- A reset of the counter leaves no event behind if the batch is empty. -/
lemma resetEventCounter (inv : s.Inv p pend next) (empty : s.batch.size = 0) :
    s.resetEventCounter.Inv p pend 1 ∧ s.resetEventCounter.underWay p pend = s.underWay p pend := by
  have none : s.batch.indices p.nbuffers = [] := by
    rw [Batch.indices, empty]
    rfl
  have same : s.resetEventCounter.underWay p pend = s.underWay p pend := by
    rw [underWay, underWay, none]
    rfl
  refine ⟨⟨inv.queues, inv.count, inv.sizes, rfl, ?_, ?_, ?_⟩, same⟩
  · rw [same]
    exact inv.nodup
  · rw [same]
    exact inv.outcomes
  · intro i handled
    exact inv.made i (handled.of rfl rfl rfl)

/-- The batch is dealt to the worker whose turn it is. -/
lemma send (inv : s.Inv p pend next) (some_ : 0 < s.batch.size) (th : TimingHeader) :
    (s.send p th).Inv p (pend ++ [s.batch]) (th.evtCounter % 2 ^ 24 + 1) := by
  have same : (s.send p th).underWay p (pend ++ [s.batch]) = s.underWay p pend := by
    show s.rest p ++ _ ++ [] = _
    rw [List.flatMap_append, List.flatMap_singleton, List.append_nil, underWay, List.append_assoc]
  refine ⟨?_, ?_, ?_, rfl, ?_, ?_, ?_⟩
  · intro q
    show s.workerOutputQueues q ++ _ ++ Function.update s.workerInputQueues _ _ q = dealt _ _ s.turn _
    rw [dealt_append, ← inv.count, ← inv.queues q]
    by_cases turn : s.worker % p.nworkers = q
    · rw [if_pos turn, turn, Function.update_self, batches]
      exact (List.append_assoc _ _ _).symm
    · rw [if_neg turn, Function.update_of_ne (Ne.symm turn), batches]
      rfl
  · show s.worker + 1 = s.turn + (pend ++ [s.batch]).length
    rw [inv.count, List.length_append, List.length_singleton, Nat.add_assoc]
  · intro batch mem
    cases List.mem_append.mp mem with
    | inl old => exact inv.sizes batch old
    | inr new => exact List.mem_singleton.mp new ▸ some_
  · rw [same]
    exact inv.nodup
  · rw [same]
    exact inv.outcomes
  · intro i handled
    exact inv.made i (handled.of rfl rfl rfl)

/-- The events that were skipped are added as broken ones, and no other event is touched. -/
lemma brokenEvents (inv : s.Inv p pend next) (count : Nat) (few : count ≤ p.nbuffers)
    (unused : ∀ j < count, (next + j) % p.nbuffers ∉ s.sent ++ s.underWay p pend) :
    (PGPDetector.brokenEvents p count next s).Inv p pend (next + count) ∧
    ∀ index, index ∉ s.sent ++ s.underWay p pend → (∀ j < count, (next + j) % p.nbuffers ≠ index) →
      index ∉ (PGPDetector.brokenEvents p count next s).sent ++
        (PGPDetector.brokenEvents p count next s).underWay p pend ∧
      (PGPDetector.brokenEvents p count next s).pgpEvents index = s.pgpEvents index := by
  induction count generalizing next s with
  | zero => exact ⟨inv, fun index unused _ => ⟨unused, rfl⟩⟩
  | succ count ih =>
    have here := unused 0 (Nat.succ_pos count)
    rw [Nat.add_zero] at here
    have more : (s.brokenEvent p next).underWay p pend = s.underWay p pend ++ [next % p.nbuffers] := by
      show s.rest p ++ _ ++ Batch.indices p.nbuffers ⟨s.batch.start, s.batch.size + 1⟩ = _
      rw [indices_succ, inv.follows, underWay, ← List.append_assoc]
    have inv' : (s.brokenEvent p next).Inv p pend (next + 1) := by
      apply (inv.setEvent (fun mem => here (List.mem_append_right _ mem)) _).add here
      show (Function.update s.pgpEvents _ (_ : PGPEvent) _).outcome = none
      rw [Function.update_self]
      exact if_pos rfl
    have other : ∀ index, index ∉ s.sent ++ s.underWay p pend → next % p.nbuffers ≠ index →
        index ∉ (s.brokenEvent p next).sent ++ (s.brokenEvent p next).underWay p pend := by
      intro index unused other mem
      rw [more, ← List.append_assoc] at mem
      cases List.mem_append.mp mem with
      | inl old => exact unused old
      | inr new => exact other (List.mem_singleton.mp new).symm
    obtain ⟨last, frame⟩ := ih inv' (Nat.le_of_succ_le few) (by
      intro j lt
      rw [Nat.add_assoc, Nat.add_comm 1 j]
      apply other _ (unused (j + 1) (Nat.succ_lt_succ lt))
      -- the indices of so few events in a row differ
      intro same
      have dvd : p.nbuffers ∣ j + 1 := by
        rw [← Nat.add_sub_cancel_left (n := next) (m := j + 1)]
        exact (Nat.modEq_iff_dvd' (Nat.le_add_right next _)).mp same
      have le := Nat.le_of_dvd (Nat.succ_pos j) dvd
      omega)
    refine ⟨?_, ?_⟩
    · rw [← Nat.add_assoc, Nat.add_right_comm]
      exact last
    · intro index unused apart
      have apart₀ := apart 0 (Nat.succ_pos count)
      rw [Nat.add_zero] at apart₀
      obtain ⟨unused', same⟩ := frame index (other index unused apart₀) (by
        intro j lt
        rw [Nat.add_assoc, Nat.add_comm 1 j]
        exact apart (j + 1) (Nat.succ_lt_succ lt))
      refine ⟨unused', same.trans ?_⟩
      exact Function.update_of_ne (Ne.symm apart₀) _ _

/-- A complete event is added, and the batch may be sent. -/
lemma finish (inv : s.Inv p pend next) (th : TimingHeader) (turn : next % p.nbuffers = slot p th)
    (unused : slot p th ∉ s.sent ++ s.underWay p pend) (event : (s.pgpEvents (slot p th)).outcome = some th) :
    ∃ pend', (s.finish p th).Inv p pend' ((s.finish p th).lastComplete + 1) := by
  rw [← turn] at unused event
  have noted : (s.note th).Inv p pend next :=
    ⟨inv.queues, inv.count, inv.sizes, inv.follows, inv.nodup, inv.outcomes,
      fun i handled => inv.made i (handled.of rfl rfl rfl)⟩
  have added : ((s.note th).add (some th)).Inv p pend (next + 1) := noted.add unused event
  rw [PGPDetector.finish]
  split
  · exact ⟨_, added.send (Nat.succ_pos s.batch.size) th⟩
  · refine ⟨pend, added.congr ?_⟩
    show _ = (th.evtCounter % 2 ^ 24 + 1) % _
    rw [Nat.add_mod, turn, slot, ← Nat.add_mod]

/-- A complete event is added after those that were skipped. -/
lemma complete (inv : s.Inv p pend (s.lastComplete + 1)) (th : TimingHeader)
    (unused : slot p th ∉ s.sent ++ s.underWay p pend) (event : (s.pgpEvents (slot p th)).outcome = some th)
    (begins : th.service = .BeginRun → s.batch.size = 0)
    (ahead : th.evtCounter % 2 ^ 24 ≠ (s.before th + 1) % 2 ^ 24 → s.before th < th.evtCounter % 2 ^ 24 ∧
      th.evtCounter % 2 ^ 24 - s.before th ≤ p.nbuffers ∧
      ∀ e < th.evtCounter % 2 ^ 24, s.before th < e → e % p.nbuffers ∉ s.sent ++ s.underWay p pend)
    {t : PGPDetector} (h : s.complete p th = .ok t) : ∃ pend', t.Inv p pend' (t.lastComplete + 1) := by
  rw [PGPDetector.complete] at h
  generalize s'_eq : (if th.service = .BeginRun then s.resetEventCounter else s) = s' at h
  -- A BeginRun resets the counter first.
  have start : s'.Inv p pend (s'.lastComplete + 1) ∧
      s'.sent ++ s'.underWay p pend = s.sent ++ s.underWay p pend ∧ s'.pgpEvents = s.pgpEvents ∧
      s'.lastComplete = s.before th := by
    rw [← s'_eq, before]
    split
    next run =>
      obtain ⟨inv', same⟩ := inv.resetEventCounter (begins run)
      exact ⟨inv', congrArg (s.sent ++ ·) same, rfl, rfl⟩
    next => exact ⟨inv, rfl, rfl, rfl⟩
  obtain ⟨inv', same, events, last⟩ := start
  rw [← last, ← same] at ahead
  rw [← same] at unused
  rw [← events] at event
  simp only at h
  split at h
  next skipped =>
    split at h
    · cases h
    · cases h
      obtain ⟨later, few, free⟩ := ahead skipped
      have lt : th.evtCounter % 2 ^ 24 < 2 ^ 24 := Nat.mod_lt _ (Nat.two_pow_pos 24)
      have count : (th.evtCounter % 2 ^ 24 + 2 ^ 32 - (s'.lastComplete + 1)) % 2 ^ 32 =
          th.evtCounter % 2 ^ 24 - (s'.lastComplete + 1) := by omega
      rw [count]
      obtain ⟨added, frame⟩ := inv'.brokenEvents
        (th.evtCounter % 2 ^ 24 - (s'.lastComplete + 1)) (by omega) (by
          intro j lt
          apply free
          · omega
          · omega)
      -- The slots of the skipped events are others, as they are fewer than the buffers.
      obtain ⟨unused', kept⟩ := frame (slot p th) unused (by
        intro j lt same
        have dvd : p.nbuffers ∣ th.evtCounter % 2 ^ 24 - (s'.lastComplete + 1 + j) :=
          (Nat.modEq_iff_dvd' (by omega)).mp same
        have le := Nat.le_of_dvd (by omega) dvd
        omega)
      rw [← kept] at event
      apply added.finish th _ unused' event
      rw [Nat.add_sub_cancel' later]
      rfl
  next next_ =>
    cases h
    apply inv'.finish th _ unused event
    rw [slot, not_not.mp next_, Nat.mod_mod_of_dvd _ p.nbuffers_dvd]

end Inv

/-- The lanes of an event to which a buffer is added. -/
lemma mask_add (event : PGPEvent) (dma : Dma) (i : Nat) :
    (event.add dma).mask.getLsbD i = (event.mask.getLsbD i || decide (dma.lane.val = i)) := by
  rw [PGPEvent.add, BitVec.getLsbD_or, BitVec.getLsbD_shiftLeft, BitVec.getLsbD_one]
  have lt := dma.lane.isLt
  apply congrArg (event.mask.getLsbD i || ·)
  rw [Bool.eq_iff_iff]
  simp only [Bool.and_eq_true, decide_eq_true_eq, Bool.not_eq_true', decide_eq_false_iff_not]
  omega

/-- An event whose other lanes have the header of a buffer is complete with this header. -/
lemma outcome_add (event : PGPEvent) (dma : Dma)
    (lanes : ∀ lane : Fin 8, lane ≠ dma.lane → event.mask.getLsbD lane → event.buffers lane = dma.timingHeader) :
    (event.add dma).outcome = some dma.timingHeader := by
  have here : (event.add dma).mask.getLsbD dma.lane.val = true := by
    rw [mask_add, decide_eq_true rfl, Bool.or_true]
  have some_ : (event.add dma).mask ≠ 0#8 := by
    intro none
    rw [none, BitVec.getLsbD_zero] at here
    cases here
  have each : ∀ lane < 8, (event.add dma).mask.getLsbD lane = true →
      (event.add dma).buffers lane = dma.timingHeader := by
    intro lane lt set
    rw [mask_add, Bool.or_eq_true, decide_eq_true_eq] at set
    by_cases same : lane = dma.lane.val
    · rw [same]
      exact Function.update_self ..
    · cases set with
      | inl before =>
        have other : (⟨lane, lt⟩ : Fin 8) ≠ dma.lane := fun here => same (congrArg Fin.val here)
        exact (Function.update_of_ne same ..).trans (lanes ⟨lane, lt⟩ other before)
      | inr new => exact absurd new.symm same
  rw [PGPEvent.outcome, if_neg some_, PGPEvent.timingHeader]
  cases first : (List.range 8).find? (event.add dma).mask.getLsbD with
  | none =>
    have not_ := List.find?_eq_none.mp first dma.lane.val (List.mem_range.mpr dma.lane.isLt)
    exact absurd here not_
  | some lane =>
    rw [Option.getD_some, each lane (List.mem_range.mp (List.mem_of_find?_eq_some first)) (List.find?_some first)]

namespace Inv
variable {pend : List Batch} {next : Nat}

/-- The reader keeps the invariant. -/
lemma reader (inv : s.Inv p pend (s.lastComplete + 1)) {dma : Dma} (received : dma.err = false → s.Received p dma)
    {t : PGPDetector} (h : s.reader p dma = .ok t) : ∃ pend', t.Inv p pend' (t.lastComplete + 1) := by
  rw [PGPDetector.reader] at h
  split at h
  · cases h
  · cases err : dma.err with
    | true =>
      rw [err, if_pos rfl] at h
      cases h
      exact ⟨pend, inv⟩
    | false =>
      rw [err, if_neg Bool.false_ne_true] at h
      obtain ⟨lanes, unused, begins, ahead⟩ := received err
      have free : ∀ index, index ∉ s.inUse p ↔ index ∉ s.sent ++ s.underWay p pend :=
        fun index => not_congr inv.mem_inUse
      rw [free] at unused
      simp only [Ahead, free] at ahead
      have inv' := inv.setEvent (fun mem => unused (List.mem_append_right _ mem))
        ((s.pgpEvents (slot p dma.timingHeader)).add dma)
      simp only at h
      split at h
      next all =>
        apply inv'.complete dma.timingHeader unused _ (begins all) (ahead all) h
        show (Function.update s.pgpEvents _ (_ : PGPEvent) _).outcome = _
        rw [Function.update_self]
        exact outcome_add _ dma (lanes all)
      next =>
        cases h
        exact ⟨pend, inv'⟩

/-- A worker takes a batch. -/
lemma take (inv : s.Inv p pend next) {q : Nat} (idle : s.processing q = none) {batch : Batch} {later : List Batch}
    (queued : s.workerInputQueues q = batch :: later) :
    ({ s with
      workerInputQueues := Function.update s.workerInputQueues q later
      processing := Function.update s.processing q (some (batch, 0)) } : PGPDetector).Inv p pend next := by
  refine ⟨?_, inv.count, inv.sizes, inv.follows, inv.nodup, inv.outcomes, ?_⟩
  · intro q'
    refine Eq.trans ?_ (inv.queues q')
    show s.workerOutputQueues q' ++ ((Function.update s.processing q _ q').toList.map Prod.fst) ++
      Function.update s.workerInputQueues q _ q' = s.batches q'
    by_cases this : q' = q
    · rw [this, Function.update_self, Function.update_self, batches, idle, queued, List.append_assoc, List.append_assoc]
      rfl
    · rw [Function.update_of_ne this, Function.update_of_ne this, batches]
  · intro i handled
    apply inv.made i
    cases handled with
    | rest mem => exact .rest mem
    | output queued mem => exact .output queued mem
    | @processing q' _ _ busy mem =>
      by_cases this : q' = q
      · -- nothing of the batch has been handled
        rw [this] at busy
        cases (Function.update_self ..).symm.trans busy
        cases mem
      · exact .processing ((Function.update_of_ne this ..).symm.trans busy) mem

/-- A worker handles an event. -/
lemma handle (inv : s.Inv p pend next) {q : Nat} {batch : Batch} {i : Nat} (busy : s.processing q = some (batch, i))
    (lt : i < batch.size) :
    ({ s with
      pebble :=
        if (s.pgpEvents ((batch.start + i) % p.nbuffers)).mask = 0#8 then s.pebble
        else Function.update s.pebble ((batch.start + i) % p.nbuffers)
          (s.pgpEvents ((batch.start + i) % p.nbuffers)).timingHeader
      processing := Function.update s.processing q (some (batch, i + 1)) } : PGPDetector).Inv p pend next := by
  refine ⟨?_, inv.count, inv.sizes, inv.follows, inv.nodup, inv.outcomes, ?_⟩
  · intro q'
    refine Eq.trans ?_ (inv.queues q')
    show s.workerOutputQueues q' ++ ((Function.update s.processing q _ q').toList.map Prod.fst) ++
      s.workerInputQueues q' = s.batches q'
    by_cases this : q' = q
    · rw [this, Function.update_self, batches, busy]
      rfl
    · rw [Function.update_of_ne this, batches]
  · intro index handled
    -- it was handled before, or this is the event
    have before : s.Handled p index ∨ index = (batch.start + i) % p.nbuffers := by
      cases handled with
      | rest mem => exact .inl (.rest mem)
      | output queued mem => exact .inl (.output queued mem)
      | @processing q' _ _ busy' mem =>
        by_cases this : q' = q
        · rw [this] at busy'
          cases (Function.update_self ..).symm.trans busy'
          rw [take_succ lt] at mem
          cases List.mem_append.mp mem with
          | inl old => exact .inl (.processing busy old)
          | inr new => exact .inr (List.mem_singleton.mp new)
        · exact .inl (.processing ((Function.update_of_ne this ..).symm.trans busy') mem)
    intro some_
    show (if _ then _ else _ : Nat → TimingHeader) index = (s.pgpEvents index).timingHeader
    by_cases this : index = (batch.start + i) % p.nbuffers
    · have some_ : (s.pgpEvents index).mask ≠ 0#8 := some_
      rw [← this, if_neg some_, Function.update_self]
    · have made := inv.made index (before.resolve_right this) some_
      split
      · exact made
      · exact (Function.update_of_ne this ..).trans made

/-- A worker passes a batch on. -/
lemma pass (inv : s.Inv p pend next) {q : Nat} {batch : Batch} {i : Nat} (busy : s.processing q = some (batch, i))
    (all : batch.size ≤ i) :
    ({ s with
      processing := Function.update s.processing q none
      workerOutputQueues := Function.update s.workerOutputQueues q (s.workerOutputQueues q ++ [batch]) } :
      PGPDetector).Inv p pend next := by
  refine ⟨?_, inv.count, inv.sizes, inv.follows, inv.nodup, inv.outcomes, ?_⟩
  · intro q'
    refine Eq.trans ?_ (inv.queues q')
    show Function.update s.workerOutputQueues q _ q' ++
      ((Function.update s.processing q none q').toList.map Prod.fst) ++ s.workerInputQueues q' = s.batches q'
    by_cases this : q' = q
    · rw [this, Function.update_self, Function.update_self, batches, busy]
      exact congrArg (· ++ s.workerInputQueues q) (List.append_nil _)
    · rw [Function.update_of_ne this, Function.update_of_ne this, batches]
  · intro index handled
    apply inv.made index
    cases handled with
    | rest mem => exact .rest mem
    | @output q' _ queued mem =>
      by_cases this : q' = q
      · have queued : _ ∈ Function.update s.workerOutputQueues q (s.workerOutputQueues q ++ [batch]) q := this ▸ queued
        rw [Function.update_self] at queued
        cases List.mem_append.mp queued with
        | inl old => exact .output old mem
        | inr new =>
          rw [List.mem_singleton.mp new] at mem
          apply Handled.processing busy
          rw [List.take_of_length_le (by rw [Batch.indices, List.length_map, List.length_range]; exact all)]
          exact mem
      · have queued : _ ∈ Function.update s.workerOutputQueues q (s.workerOutputQueues q ++ [batch]) q' := queued
        rw [Function.update_of_ne this] at queued
        exact .output queued mem
    | @processing q' _ _ busy' mem =>
      by_cases this : q' = q
      · rw [this] at busy'
        cases (Function.update_self ..).symm.trans busy'
      · exact .processing ((Function.update_of_ne this ..).symm.trans busy') mem

/-- The workers keep the invariant. -/
lemma worker (inv : s.Inv p pend next) {q : Nat} {t : PGPDetector} (h : s.workerFunc p q = .ok t) :
    t.Inv p pend next := by
  rw [workerFunc] at h
  cases busy : s.processing q with
  | none =>
    rw [busy] at h
    cases queued : s.workerInputQueues q with
    | nil =>
      rw [queued] at h
      cases h
    | cons batch later =>
      rw [queued] at h
      cases h
      exact inv.take busy queued
  | some at_ =>
    rw [busy] at h
    simp only at h
    split at h
    next lt =>
      cases h
      exact inv.handle busy lt
    next ge =>
      cases h
      exact inv.pass busy (Nat.le_of_not_lt ge)

/-- The collector takes a batch, which is the first that was dealt. -/
lemma collect (inv : s.Inv p pend next) (idle : s.collecting = none) {batch : Batch} {later : List Batch}
    (queued : s.workerOutputQueues (s.collected % p.nworkers) = batch :: later) :
    ∃ pend', pend = batch :: pend' ∧ ({ s with
      workerOutputQueues := Function.update s.workerOutputQueues (s.collected % p.nworkers) later
      collecting := some (batch, 0) } : PGPDetector).Inv p pend' next := by
  have turn : s.turn = s.collected := by
    rw [PGPDetector.turn, idle]
  have first := inv.queues (s.collected % p.nworkers)
  rw [turn, batches, queued] at first
  obtain ⟨pend', rfl⟩ := eq_cons_of_dealt first.symm
  have same : ({ s with
      workerOutputQueues := Function.update s.workerOutputQueues (s.collected % p.nworkers) later
      collecting := some (batch, 0) } : PGPDetector).underWay p pend' = s.underWay p (batch :: pend') := by
    rw [underWay, underWay, rest, rest, idle, List.flatMap_cons, List.nil_append]
    rfl
  refine ⟨pend', rfl, ?_, ?_, fun b mem => inv.sizes b (List.mem_cons_of_mem batch mem), inv.follows, ?_, ?_, ?_⟩
  · intro q
    show Function.update s.workerOutputQueues _ later q ++ _ ++ _ = dealt _ _ (s.collected + 1) _
    by_cases this : q = s.collected % p.nworkers
    · rw [this, Function.update_self]
      rw [dealt_self] at first
      exact (List.cons.inj first).2
    · rw [Function.update_of_ne this, ← dealt_other (Ne.symm this) batch pend', ← turn, ← inv.queues q]
      rfl
  · rw [inv.count, turn, List.length_cons, Nat.add_comm pend'.length, ← Nat.add_assoc]
    rfl
  · rw [same]
    exact inv.nodup
  · rw [same]
    exact inv.outcomes
  · intro index handled
    apply inv.made index
    cases handled with
    | rest mem => exact .output (queued ▸ List.mem_cons_self) mem
    | @output q _ queued' mem =>
      by_cases this : q = s.collected % p.nworkers
      · have queued' : _ ∈ Function.update s.workerOutputQueues _ later (s.collected % p.nworkers) := this ▸ queued'
        rw [Function.update_self] at queued'
        exact .output (queued ▸ List.mem_cons_of_mem batch queued') mem
      · have queued' : _ ∈ Function.update s.workerOutputQueues (s.collected % p.nworkers) later q := queued'
        rw [Function.update_of_ne this] at queued'
        exact .output queued' mem
    | processing busy mem => exact .processing busy mem

/-- The collector goes past an event that is broken, or hands it over. -/
lemma collect_next (inv : s.Inv p pend next) {batch : Batch} {i : Nat} (busy : s.collecting = some (batch, i))
    (lt : i < batch.size) {t : PGPDetector} (h : s.collector p = .ok t) :
    t.Inv p pend next ∧ t.collecting = some (batch, i + 1) := by
  have turn : s.turn = s.collected + 1 := by
    rw [PGPDetector.turn, busy]
  have rest_eq : s.rest p = (batch.indices p.nbuffers).drop i := by
    rw [PGPDetector.rest, busy]
  -- The event of this turn is the first of those under way.
  have before : s.underWay p pend = (batch.start + i) % p.nbuffers ::
      ((batch.indices p.nbuffers).drop (i + 1) ++ pend.flatMap (·.indices p.nbuffers) ++
        s.batch.indices p.nbuffers) := by
    rw [underWay, rest_eq, drop_eq lt]
    rfl
  have first : s.Handled p ((batch.start + i) % p.nbuffers) := by
    apply Handled.rest
    rw [rest_eq, drop_eq lt]
    exact List.mem_cons_self
  have queues := inv.queues
  have count := inv.count
  have nodup := inv.nodup
  have outcomes := inv.outcomes
  have later : ∀ {index}, index ∈ (batch.indices p.nbuffers).drop (i + 1) → s.Handled p index := by
    intro index mem
    apply Handled.rest
    rw [rest_eq, drop_eq lt]
    exact List.mem_cons_of_mem _ mem
  rw [turn] at queues count
  rw [before] at nodup outcomes
  rw [collector, busy] at h
  simp only [if_pos lt] at h
  split at h
  next broken =>
    cases h
    refine ⟨⟨queues, count, inv.sizes, inv.follows, ?_, ?_, ?_⟩, rfl⟩
    · apply List.Nodup.sublist _ nodup
      apply List.Sublist.append_left
      exact List.sublist_cons_self _ _
    · show s.read = s.handed ++ [none] ++ _
      rw [outcomes, List.map_cons, PGPEvent.outcome, if_pos broken, List.append_cons]
      rfl
    · intro index handled
      apply inv.made index
      cases handled with
      | rest mem => exact later mem
      | output queued mem => exact .output queued mem
      | processing busy mem => exact .processing busy mem
  next whole =>
    cases h
    refine ⟨⟨queues, count, inv.sizes, inv.follows, ?_, ?_, ?_⟩, rfl⟩
    · show (s.sent ++ [_] ++ _).Nodup
      rw [List.append_assoc]
      exact nodup
    · show s.read = s.handed ++ [some _] ++ _
      rw [outcomes, List.map_cons, PGPEvent.outcome, if_neg whole, inv.made _ first whole, List.append_cons]
      rfl
    · intro index handled
      apply inv.made index
      cases handled with
      | rest mem => exact later mem
      | output queued mem => exact .output queued mem
      | processing busy mem => exact .processing busy mem

/-- The collector has gone through its batch. -/
lemma collect_done (inv : s.Inv p pend next) {batch : Batch} {i : Nat} (busy : s.collecting = some (batch, i))
    (all : batch.size ≤ i) :
    ({ s with collecting := none, collected := s.collected + 1 } : PGPDetector).Inv p pend next := by
  have turn : s.turn = s.collected + 1 := by
    rw [PGPDetector.turn, busy]
  have same : ({ s with collecting := none, collected := s.collected + 1 } : PGPDetector).underWay p pend =
      s.underWay p pend := by
    have none : s.rest p = [] := by
      rw [rest, busy]
      exact drop_all all p.nbuffers
    rw [underWay, underWay, none]
    rfl
  refine ⟨fun q => turn ▸ inv.queues q, turn ▸ inv.count, inv.sizes, inv.follows, ?_, ?_, ?_⟩
  · rw [same]
    exact inv.nodup
  · rw [same]
    exact inv.outcomes
  · intro index handled
    apply inv.made index
    cases handled with
    | rest mem => cases mem
    | output queued mem => exact .output queued mem
    | processing busy mem => exact .processing busy mem

/-- The collector keeps the invariant, and takes the batches as they were dealt. -/
lemma collector (inv : s.Inv p pend next) {t : PGPDetector} (h : s.collector p = .ok t) :
    ∃ pend', t.Inv p pend' next := by
  have h' := h
  rw [PGPDetector.collector] at h
  cases busy : s.collecting with
  | none =>
    rw [busy] at h
    cases queued : s.workerOutputQueues (s.collected % p.nworkers) with
    | nil =>
      rw [queued] at h
      cases h
    | cons batch later =>
      rw [queued] at h
      cases h
      obtain ⟨pend', -, inv'⟩ := inv.collect busy queued
      exact ⟨pend', inv'⟩
  | some at_ =>
    rw [busy] at h
    simp only at h
    split at h
    next lt => exact ⟨pend, (inv.collect_next busy lt h').1⟩
    next ge =>
      cases h
      exact ⟨pend, inv.collect_done busy (Nat.le_of_not_lt ge)⟩

/-- An event that is freed is not under way. -/
lemma free (inv : s.Inv p pend next) {t : PGPDetector} (h : s.free = .ok t) : t.Inv p pend next := by
  rw [PGPDetector.free] at h
  cases waiting : s.sent with
  | nil =>
    rw [waiting] at h
    cases h
  | cons index later =>
    have nodup := inv.nodup
    rw [waiting, List.cons_append] at nodup
    obtain ⟨unused, nodup⟩ := List.nodup_cons.mp nodup
    rw [waiting] at h
    cases h
    have inv' := inv.setEvent (fun mem => unused (List.mem_append_right _ mem))
      { s.pgpEvents index with mask := 0#8 }
    exact ⟨inv'.queues, inv'.count, inv'.sizes, inv'.follows, nodup, inv'.outcomes,
      fun i handled => inv'.made i (handled.of rfl rfl rfl)⟩

end Inv

/-- Workers and the collector leave the batch of the reader alone. -/
lemma Moves.frame {t : PGPDetector} (h : s.Moves p t) :
    t.read = s.read ∧ t.batch = s.batch ∧ t.lastComplete = s.lastComplete := by
  cases h with
  | inl h =>
    obtain ⟨q, h⟩ := h
    rw [workerFunc] at h
    split at h
    · split at h
      · cases h
      · cases h
        exact ⟨rfl, rfl, rfl⟩
    · split at h
      · cases h
        exact ⟨rfl, rfl, rfl⟩
      · cases h
        exact ⟨rfl, rfl, rfl⟩
  | inr h =>
    rw [collector] at h
    split at h
    · split at h
      · cases h
      · cases h
        exact ⟨rfl, rfl, rfl⟩
    · split at h
      · simp only at h
        split at h
        · cases h
          exact ⟨rfl, rfl, rfl⟩
        · cases h
          exact ⟨rfl, rfl, rfl⟩
      · cases h
        exact ⟨rfl, rfl, rfl⟩

/-- Every step keeps the invariant. -/
lemma Inv.step {pend : List Batch} (inv : s.Inv p pend (s.lastComplete + 1)) {as : List PGPOp} {op : PGPOp}
    (ok : Allowed p as s op) {t : PGPDetector} (h : s.step p op = .ok t) :
    ∃ pend', t.Inv p pend' (t.lastComplete + 1) := by
  cases op with
  | reader dma => exact inv.reader ok h
  | worker q =>
    rw [(Moves.frame (.inl ⟨q, h⟩)).2.2]
    exact ⟨pend, inv.worker h⟩
  | collector =>
    rw [(Moves.frame (.inr h)).2.2]
    exact inv.collector h
  | free =>
    have frame : t.lastComplete = s.lastComplete := by
      have h : s.free = .ok t := h
      rw [PGPDetector.free] at h
      split at h
      · cases h
      · cases h
        rfl
    rw [frame]
    exact ⟨pend, inv.free h⟩

variable (p) in
/-- At the start nothing is under way. -/
lemma Inv.new : PGPDetector.new.Inv p [] 1 where
  queues _ := rfl
  count := rfl
  sizes _ mem := absurd mem List.not_mem_nil
  follows := rfl
  nodup := .nil
  outcomes := rfl
  made _ _ := absurd rfl

namespace Inv
variable {pend : List Batch} {next : Nat}

/-- The collector comes to the end of its batch. -/
lemma collector_ends (inv : s.Inv p pend next) {batch : Batch} {i : Nat} (busy : s.collecting = some (batch, i)) :
    ∃ t, Relation.ReflTransGen (Moves p) s t ∧ t.Inv p pend next ∧ t.collecting = none := by
  induction left : batch.size - i generalizing s i with
  | zero =>
    have all : batch.size ≤ i := Nat.le_of_sub_eq_zero left
    refine ⟨_, .single (.inr ?_), inv.collect_done busy all, rfl⟩
    rw [PGPDetector.collector, busy]
    exact if_neg (Nat.not_lt_of_le all)
  | succ left ih =>
    have lt : i < batch.size := by omega
    have moves : ∃ t, s.collector p = .ok t := by
      rw [PGPDetector.collector, busy]
      simp only [if_pos lt]
      split
      · exact ⟨_, rfl⟩
      · exact ⟨_, rfl⟩
    obtain ⟨u, h⟩ := moves
    obtain ⟨inv', busy'⟩ := inv.collect_next busy lt h
    obtain ⟨t, later, done⟩ := ih inv' busy' (by omega)
    exact ⟨t, .head (.inr h) later, done⟩

/-- A worker comes to the end of its batch. -/
lemma worker_ends (inv : s.Inv p pend next) {q : Nat} {batch : Batch} {i : Nat}
    (busy : s.processing q = some (batch, i)) :
    ∃ t, Relation.ReflTransGen (Moves p) s t ∧ t.Inv p pend next ∧ t.collecting = s.collecting ∧
      t.collected = s.collected ∧ t.workerOutputQueues q ≠ [] := by
  induction left : batch.size - i generalizing s i with
  | zero =>
    have all : batch.size ≤ i := Nat.le_of_sub_eq_zero left
    refine ⟨_, .single (.inl ⟨q, ?_⟩), inv.pass busy all, rfl, rfl, ?_⟩
    · rw [workerFunc, busy]
      exact if_neg (Nat.not_lt_of_le all)
    · show Function.update s.workerOutputQueues q _ q ≠ []
      rw [Function.update_self]
      exact List.append_ne_nil_of_right_ne_nil _ (List.cons_ne_nil batch [])
  | succ left ih =>
    have lt : i < batch.size := by omega
    obtain ⟨t, later, done⟩ := ih (inv.handle busy lt) (Function.update_self ..) (by omega)
    refine ⟨t, .head (.inl ⟨q, ?_⟩) later, done⟩
    rw [workerFunc, busy]
    exact if_pos lt

/-- The batch that the collector takes next gets to it. -/
lemma arrives {batch : Batch} (inv : s.Inv p (batch :: pend) next) (idle : s.collecting = none) :
    ∃ t, Relation.ReflTransGen (Moves p) s t ∧ t.Inv p (batch :: pend) next ∧ t.collecting = none ∧
      t.workerOutputQueues (t.collected % p.nworkers) ≠ [] := by
  have first := inv.queues (s.collected % p.nworkers)
  rw [turn, idle] at first
  rw [dealt_self, batches] at first
  cases out : s.workerOutputQueues (s.collected % p.nworkers) with
  | cons b later => exact ⟨s, .refl, inv, idle, out ▸ List.cons_ne_nil b later⟩
  | nil =>
    cases busy : s.processing (s.collected % p.nworkers) with
    | some at_ =>
      obtain ⟨t, moves, inv', idle', collected, out⟩ := inv.worker_ends busy
      exact ⟨t, moves, inv', idle'.trans idle, collected ▸ out⟩
    | none =>
      cases queued : s.workerInputQueues (s.collected % p.nworkers) with
      | nil =>
        rw [out, busy, queued] at first
        cases first
      | cons b later =>
        obtain ⟨t, moves, inv', idle', collected, out⟩ := (inv.take busy queued).worker_ends
          (Function.update_self ..)
        refine ⟨t, .head (.inl ⟨s.collected % p.nworkers, ?_⟩) moves, inv', idle'.trans idle, collected ▸ out⟩
        rw [workerFunc, busy]
        simp only [queued]

/-- The workers and the collector come to the end of what was dealt. -/
lemma drains (inv : s.Inv p pend next) :
    ∃ t, Relation.ReflTransGen (Moves p) s t ∧ t.Inv p [] next ∧ t.collecting = none := by
  induction pend generalizing s with
  | nil =>
    cases busy : s.collecting with
    | none => exact ⟨s, .refl, inv, busy⟩
    | some at_ => exact inv.collector_ends busy
  | cons batch pend ih =>
    have idle : ∃ t, Relation.ReflTransGen (Moves p) s t ∧ t.Inv p (batch :: pend) next ∧ t.collecting = none := by
      cases busy : s.collecting with
      | none => exact ⟨s, .refl, inv, busy⟩
      | some at_ => exact inv.collector_ends busy
    obtain ⟨t, moves, inv', idle⟩ := idle
    obtain ⟨u, moves', inv'', idle', out⟩ := inv'.arrives idle
    cases queued : u.workerOutputQueues (u.collected % p.nworkers) with
    | nil => exact absurd queued out
    | cons b later =>
      obtain ⟨pend', same, taken⟩ := inv''.collect idle' queued
      cases same
      obtain ⟨v, moves'', done⟩ := ih taken
      refine ⟨v, moves.trans (moves'.trans (.head (.inr ?_) moves'')), done⟩
      rw [PGPDetector.collector, idle']
      simp only [queued]

end Inv

/-- No more batches are dealt than there are events, so that no queue overflows. -/
lemma Inv.length_le {pend : List Batch} {next : Nat} (inv : s.Inv p pend next) (q : Nat) :
    (s.batches q).length ≤ p.nbuffers := by
  have pos : 0 < p.nbuffers := Nat.pos_of_dvd_of_pos p.nbuffers_dvd (Nat.two_pow_pos 24)
  have part : (pend.flatMap (·.indices p.nbuffers)).Sublist (s.sent ++ s.underWay p pend) := by
    apply List.Sublist.trans _ (List.sublist_append_right _ _)
    apply List.Sublist.trans _ (List.sublist_append_left _ _)
    exact List.sublist_append_right _ _
  calc (s.batches q).length
    _ ≤ pend.length := by
      rw [inv.queues q]
      exact (dealt_sublist pend).length_le
    _ ≤ (pend.flatMap (·.indices p.nbuffers)).length := by
      rw [List.length_flatMap, ← List.length_map (f := fun batch => (batch.indices p.nbuffers).length)]
      apply List.length_le_sum_of_one_le
      intro size mem
      obtain ⟨batch, dealt, rfl⟩ := List.mem_map.mp mem
      rw [Batch.indices, List.length_map, List.length_range]
      exact inv.sizes batch dealt
    _ ≤ (List.range p.nbuffers).length := by
      apply (List.subperm_of_subset (List.Nodup.sublist part inv.nodup) _).length_le
      intro index mem
      obtain ⟨batch, -, mem⟩ := List.mem_flatMap.mp mem
      obtain ⟨i, -, rfl⟩ := List.mem_map.mp mem
      exact List.mem_range.mpr (Nat.mod_lt _ pos)
    _ = p.nbuffers := List.length_range

/-- Workers and the collector leave the batch of the reader alone in any number of steps. -/
lemma frame_of_moves {t : PGPDetector} (moves : Relation.ReflTransGen (Moves p) s t) :
    t.read = s.read ∧ t.batch = s.batch := by
  induction moves with
  | refl => exact ⟨rfl, rfl⟩
  | tail _ move ih =>
    obtain ⟨read, batch, -⟩ := move.frame
    exact ⟨read.trans ih.1, batch.trans ih.2⟩

end PGPDetector

/-- Whatever the threads do in turn: the collector has skipped or handed over the events as the reader has
    added them to its batches, in order and each once, and it gets to all but those of the batch that the
    reader still adds to. -/
theorem collector_in_order (p : PGPParameters) (as : List PGPOp) (s : PGPDetector)
    (run : Run (PGPDetector.step p) (PGPDetector.Allowed p) .new as s) :
    (∃ later, s.read = s.handed ++ later) ∧ (∀ q, (s.batches q).length ≤ p.nbuffers) ∧
    ∃ t, Relation.ReflTransGen (PGPDetector.Moves p) s t ∧
      ∃ later, s.read = t.handed ++ later ∧ later.length = s.batch.size := by
  have inv : ∃ pend, s.Inv p pend (s.lastComplete + 1) := by
    apply run.invariant (P := fun _ s => ∃ pend, s.Inv p pend (s.lastComplete + 1))
    · exact ⟨[], .new p⟩
    · intro as s op t ⟨pend, inv⟩ ok h
      exact inv.step ok h
  obtain ⟨pend, inv⟩ := inv
  refine ⟨⟨_, inv.outcomes⟩, inv.length_le, ?_⟩
  obtain ⟨t, moves, inv', idle⟩ := inv.drains
  obtain ⟨read, batch⟩ := PGPDetector.frame_of_moves moves
  refine ⟨t, moves, _, read ▸ inv'.outcomes, ?_⟩
  rw [List.length_map, PGPDetector.underWay, PGPDetector.rest, idle, batch]
  exact (List.length_map _).trans List.length_range

/-- What is asked of a buffer can be looked up. -/
instance decidableReceived (p : PGPParameters) (s : PGPDetector) (dma : Dma) : Decidable (s.Received p dma) :=
  decidable_of_iff (_ ∧ _ ∧ _ ∧ _)
    ⟨fun ⟨lanes, unused, begins, ahead⟩ => ⟨lanes, unused, begins, ahead⟩,
      fun received => ⟨received.lanes, received.unused, received.begins, received.ahead⟩⟩

instance decidableAllowed (p : PGPParameters) (as : List PGPOp) (s : PGPDetector) :
    (op : PGPOp) → Decidable (PGPDetector.Allowed p as s op)
  | .reader dma => inferInstanceAs (Decidable (dma.err = false → s.Received p dma))
  | .worker _ | .collector | .free => .isTrue trivial

/-- A detector of one lane with two workers. -/
def twoWorkers : PGPParameters where
  nworkers := 2
  batchSize := 32
  laneMask := 1#8
  nbuffers := 4
  dmaSize := 1024
  timeJump _ _ := false
  nworkers_pos := Nat.two_pos
  nbuffers_dvd := ⟨2 ^ 22, rfl⟩

/-- A header with a pulse ID. -/
def header (service : TransitionId) (evtCounter pulseId : Nat) : TimingHeader := ⟨evtCounter, service, pulseId, 0⟩

/-- A buffer with a header. -/
def buffer (timingHeader : TimingHeader) : PGPOp := .reader ⟨64, false, 0, timingHeader⟩

/-- A SlowUpdate that waits in a batch is lost when a BeginRun resets the counter. -/
theorem pending_lost : ∃ s,
    Run (PGPDetector.step twoWorkers) (fun _ _ _ => True) .new
      [buffer (header .Configure 1 1), .worker 0, .worker 0, .worker 0, .collector, .collector, .collector, .free,
        buffer (header .SlowUpdate 2 2), buffer (header .BeginRun 1 3), .worker 1, .worker 1, .worker 1, .collector,
        .collector, .collector] s ∧
    s.batch.size = 0 ∧
    s.read = [some (header .Configure 1 1), some (header .SlowUpdate 2 2), some (header .BeginRun 1 3)] ∧
    s.handed = [some (header .Configure 1 1), some (header .BeginRun 1 3)] := by
  obtain ⟨s, run, test⟩ := Run.of_replay_any (PGPDetector.step twoWorkers) (fun _ _ _ => True) .new
    [buffer (header .Configure 1 1), .worker 0, .worker 0, .worker 0, .collector, .collector, .collector, .free,
      buffer (header .SlowUpdate 2 2), buffer (header .BeginRun 1 3), .worker 1, .worker 1, .worker 1, .collector,
      .collector, .collector]
    (fun s => s.batch.size = 0 ∧
      s.read = [some (header .Configure 1 1), some (header .SlowUpdate 2 2), some (header .BeginRun 1 3)] ∧
      s.handed = [some (header .Configure 1 1), some (header .BeginRun 1 3)]) (by decide +kernel)
  exact ⟨s, run, of_decide_eq_true test⟩

/-- A run with a broken event. -/
theorem collector_in_order_broken : ∃ s t,
    Run (PGPDetector.step twoWorkers) (PGPDetector.Allowed twoWorkers) .new
      [buffer (header .Configure 1 1), buffer (header .L1Accept 2 2), .worker 0, buffer (header .L1Accept 4 64)] s ∧
    s.read = [some (header .Configure 1 1), some (header .L1Accept 2 2), none, some (header .L1Accept 4 64)] ∧
    Relation.ReflTransGen (PGPDetector.Moves twoWorkers) s t ∧ t.handed = s.read := by
  obtain ⟨s, run, test⟩ := Run.of_replay_any (PGPDetector.step twoWorkers) (PGPDetector.Allowed twoWorkers) .new
    [buffer (header .Configure 1 1), buffer (header .L1Accept 2 2), .worker 0, buffer (header .L1Accept 4 64)]
    (fun s => s.batch.size = 0 ∧
      s.read = [some (header .Configure 1 1), some (header .L1Accept 2 2), none, some (header .L1Accept 4 64)])
    (by decide +kernel)
  obtain ⟨sent, read⟩ := of_decide_eq_true test
  obtain ⟨-, -, t, moves, later, all, length⟩ := collector_in_order twoWorkers _ s run
  rw [sent] at length
  rw [List.eq_nil_of_length_eq_zero length, List.append_nil] at all
  exact ⟨s, t, run, read, moves, all.symm⟩

end Lcls2.Drp
