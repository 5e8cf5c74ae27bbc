import Lcls2.Drp.PGPOrder

/-!
# The loop over the broken events

`PGPDetector::reader` marks the events between the last complete one and the next as broken. The counter of an
event has 24 bits, but the variable of the loop is an `unsigned` that starts at `m_lastComplete + 1` and is only
compared for equality. `brokenLoop` is that loop in 32 bits; it always ends, after `brokenEvents` of as many rounds
as the model of the reader takes (`brokenLoop_eq`). Where the counter turned over it goes round all 32 bits.
-/

namespace Lcls2.Drp

/-- The counters between two, which is to say after the first and before the second in 24 bits. -/
def between (last evtCounter : Nat) : List Nat :=
  (List.range ((evtCounter + 2 ^ 24 - (last + 1)) % 2 ^ 24)).map fun i => (last + 1 + i) % 2 ^ 24

namespace PGPDetector

/-- `for (unsigned e=m_lastComplete+1; e!=evtCounter; e++)`. -/
def brokenLoop (p : PGPParameters) (evtCounter e : BitVec 32) (s : PGPDetector) : PGPDetector :=
  if _h : e = evtCounter then s
  else brokenLoop p evtCounter (e + 1#32) (s.brokenEvent p e.toNat)
termination_by (evtCounter - e).toNat
decreasing_by bv_omega

section loop
variable {p : PGPParameters} {s : PGPDetector}

/-- Only the index of the first event counts. -/
lemma brokenEvents_congr {e e' : Nat} (same : e % p.nbuffers = e' % p.nbuffers) (count : Nat) :
    brokenEvents p count e s = brokenEvents p count e' s := by
  induction count generalizing e e' s with
  | zero => rfl
  | succ count ih =>
    have here : s.brokenEvent p e = s.brokenEvent p e' := by rw [brokenEvent, same, brokenEvent]
    have next : (e + 1) % p.nbuffers = (e' + 1) % p.nbuffers := by rw [Nat.add_mod, same, ← Nat.add_mod]
    rw [brokenEvents, brokenEvents, here]
    exact ih next

/-- The loop ends, after so many rounds. -/
lemma brokenLoop_eq (evtCounter e : BitVec 32) :
    brokenLoop p evtCounter e s = brokenEvents p (evtCounter - e).toNat e.toNat s := by
  generalize rounds : (evtCounter - e).toNat = count
  induction count generalizing e s with
  | zero =>
    have done : e = evtCounter := by bv_omega
    rw [brokenLoop, dif_pos done]
    rfl
  | succ count ih =>
    have more : ¬ e = evtCounter := by
      rintro rfl
      bv_omega
    have left : (evtCounter - (e + 1#32)).toNat = count := by bv_omega
    have wide : p.nbuffers ∣ 2 ^ 32 := p.nbuffers_dvd.trans ⟨2 ^ 8, rfl⟩
    have turn : (e + 1#32).toNat % p.nbuffers = (e.toNat + 1) % p.nbuffers := by
      rw [BitVec.toNat_add]
      exact Nat.mod_mod_of_dvd _ wide
    rw [brokenLoop, dif_neg more, ih _ left, brokenEvents]
    exact brokenEvents_congr turn count

/-- The events are marked one after the other. -/
lemma brokenEvents_foldl (count e : Nat) :
    brokenEvents p count e s = ((List.range count).map (e + ·)).foldl (brokenEvent p) s := by
  induction count generalizing e s with
  | zero => rfl
  | succ count ih =>
    rw [brokenEvents, ih, List.range_succ_eq_map, List.map_cons, List.map_map, List.foldl_cons, Nat.add_zero]
    congr 1
    apply List.map_congr_left
    intro i _
    exact Nat.add_right_comm e 1 i

/-- Those of the counters in 24 bits. -/
lemma foldl_between (last evtCounter : Nat) :
    (between last evtCounter).foldl (brokenEvent p) s =
      brokenEvents p ((evtCounter + 2 ^ 24 - (last + 1)) % 2 ^ 24) (last + 1) s := by
  have place : ∀ (s : PGPDetector) (e : Nat), s.brokenEvent p (e % 2 ^ 24) = s.brokenEvent p e := by
    intro s e
    rw [brokenEvent, Nat.mod_mod_of_dvd _ p.nbuffers_dvd, brokenEvent]
  rw [brokenEvents_foldl, between, List.foldl_map, List.foldl_map]
  congr 1
  funext s i
  exact place s _

/-- Each of them is added to what was read. -/
lemma brokenEvents_length (count e : Nat) :
    (brokenEvents p count e s).read.length = s.read.length + count := by
  induction count generalizing e s with
  | zero => rfl
  | succ count ih =>
    rw [brokenEvents, ih, brokenEvent, add, List.length_append]
    exact Nat.add_right_comm _ _ _

/-- And so is the complete event. -/
lemma finish_length (th : TimingHeader) : (s.finish p th).read.length = s.read.length + 1 := by
  simp only [finish]
  split
  · exact List.length_append
  · exact List.length_append

/-- What the reader notes of a complete event. -/
lemma finish_lastComplete (th : TimingHeader) : (s.finish p th).lastComplete = th.evtCounter % 2 ^ 24 := by
  simp only [finish]
  split
  · rfl
  · rfl

end loop

section reader
variable (p : PGPParameters) (s : PGPDetector)

/-- The detector as a buffer has been added to its event, and as it begins a run where it does. -/
def arrived (dma : Dma) : PGPDetector :=
  let event := (s.pgpEvents (slot p dma.timingHeader)).add dma
  let s := s.setEvent (slot p dma.timingHeader) event
  if dma.timingHeader.service = .BeginRun then s.resetEventCounter else s

/-- A buffer without an error that completes its event. -/
structure Completes (dma : Dma) : Prop where
  size : dma.size ≤ p.dmaSize
  err : dma.err = false
  mask : s.completes p dma

/-- Its counter follows on that of the last complete event, in 24 bits. -/
def Succeeds (th : TimingHeader) : Prop := th.evtCounter % 2 ^ 24 = (s.before th + 1) % 2 ^ 24

/-- The loop is reached: the event is no transition and its time follows on that of the last one. -/
def Skips (th : TimingHeader) : Prop :=
  th.service = .L1Accept ∧ p.timeJump s.lastTime th.time = false

/-- Just what lies between the last complete event and this one is marked, by the loop where it is no successor,
    and the next event that is complete is taken without marks exactly where it is the successor of this one. -/
def Accepts (dma : Dma) : Prop :=
  ∃ t, s.reader p dma = .ok t ∧
    (¬ s.Succeeds dma.timingHeader →
      t = (brokenLoop p (.ofNat 32 (dma.timingHeader.evtCounter % 2 ^ 24)) (.ofNat 32 (s.lastComplete + 1))
        (s.arrived p dma)).finish p dma.timingHeader) ∧
    t = ((between s.lastComplete (dma.timingHeader.evtCounter % 2 ^ 24)).foldl (brokenEvent p)
      (s.arrived p dma)).finish p dma.timingHeader ∧
    ∀ next, t.Completes p next →
      (t.reader p next = .ok ((t.arrived p next).finish p next.timingHeader) ↔ t.Succeeds next.timingHeader)

variable {p s} {dma : Dma}

/-- The counter that a complete event finds. -/
lemma arrived_lastComplete (dma : Dma) : (s.arrived p dma).lastComplete = s.before dma.timingHeader := by
  simp only [arrived, before]
  split
  · rfl
  · rfl

instance (th : TimingHeader) : Decidable (s.Succeeds th) := by
  unfold Succeeds
  infer_instance

/-- The reader, where a buffer completes its event. -/
lemma reader_eq (h : s.Completes p dma) :
    s.reader p dma =
      if s.Succeeds dma.timingHeader then .ok ((s.arrived p dma).finish p dma.timingHeader)
      else if dma.timingHeader.service ≠ .L1Accept ∨ p.timeJump s.lastTime dma.timingHeader.time then
        .error .jumpInEventCounter
      else
        .ok ((brokenEvents p
          ((dma.timingHeader.evtCounter % 2 ^ 24 + 2 ^ 32 - (s.before dma.timingHeader + 1)) % 2 ^ 32)
          (s.before dma.timingHeader + 1) (s.arrived p dma)).finish p dma.timingHeader) := by
  have full : ((s.pgpEvents (dma.timingHeader.evtCounter % 2 ^ 24 % p.nbuffers)).add dma).mask = p.laneMask := h.mask
  have time : (s.arrived p dma).lastTime = s.lastTime := by
    simp only [arrived]
    split
    · rfl
    · rfl
  have whole : s.reader p dma =
      if dma.timingHeader.evtCounter % 2 ^ 24 ≠ ((s.arrived p dma).lastComplete + 1) % 2 ^ 24 then
        if dma.timingHeader.service ≠ .L1Accept ∨ p.timeJump (s.arrived p dma).lastTime dma.timingHeader.time then
          .error .jumpInEventCounter
        else
          .ok ((brokenEvents p ((dma.timingHeader.evtCounter % 2 ^ 24 + 2 ^ 32 - ((s.arrived p dma).lastComplete + 1)) %
            2 ^ 32) ((s.arrived p dma).lastComplete + 1) (s.arrived p dma)).finish p dma.timingHeader)
      else .ok ((s.arrived p dma).finish p dma.timingHeader) := by
    rw [reader, if_neg (Nat.not_lt.mpr h.size), if_neg (by rw [h.err]; exact Bool.false_ne_true)]
    exact if_pos full
  rw [whole, arrived_lastComplete, time, ite_not]
  rfl

/-- What an event finds that begins no run. -/
lemma before_eq {th : TimingHeader} (event : th.service = .L1Accept) : s.before th = s.lastComplete := by
  rw [before, if_neg]
  intro begins
  rw [event] at begins
  cases begins

/-- An event that follows is taken without marks exactly where it is the successor. -/
lemma taken_iff {next : Dma} (h : s.Completes p next) (last : s.lastComplete < 2 ^ 24) :
    s.reader p next = .ok ((s.arrived p next).finish p next.timingHeader) ↔ s.Succeeds next.timingHeader := by
  rw [reader_eq h]
  constructor
  · intro taken
    by_contra skips
    rw [if_neg skips] at taken
    split at taken
    · cases taken
    · have length := congrArg (·.read.length) (Except.ok.inj taken)
      simp only [finish_length, brokenEvents_length] at length
      have small : s.before next.timingHeader < 2 ^ 24 := by
        rw [before]
        split
        · decide
        · exact last
      apply skips
      rw [Succeeds]
      omega
  · intro follows
    rw [if_pos follows]

/-- The marks are those between the counters exactly where the counter did not turn over. -/
lemma marks_iff {evtCounter : Nat} (small : evtCounter < 2 ^ 24) (last : s.lastComplete < 2 ^ 24)
    (t : PGPDetector) (th : TimingHeader) :
    (brokenEvents p ((evtCounter + 2 ^ 32 - (s.lastComplete + 1)) % 2 ^ 32) (s.lastComplete + 1) t).finish p th =
        ((between s.lastComplete evtCounter).foldl (brokenEvent p) t).finish p th ↔
      s.lastComplete < evtCounter := by
  rw [foldl_between]
  constructor
  · intro same
    have length := congrArg (·.read.length) same
    simp only [finish_length, brokenEvents_length] at length
    omega
  · intro lt
    have rounds : (evtCounter + 2 ^ 32 - (s.lastComplete + 1)) % 2 ^ 32 =
        (evtCounter + 2 ^ 24 - (s.lastComplete + 1)) % 2 ^ 24 := by
      omega
    rw [rounds]

/-- The reader does with the events between what is asked of it exactly where the counter did not turn over, or
    nothing lies between. -/
lemma accepts_iff (last : s.lastComplete < 2 ^ 24) (h : s.Completes p dma) (skips : s.Skips p dma.timingHeader) :
    s.Accepts p dma ↔
      s.lastComplete < dma.timingHeader.evtCounter % 2 ^ 24 ∨ s.Succeeds dma.timingHeader := by
  obtain ⟨event, time⟩ := skips
  have small : dma.timingHeader.evtCounter % 2 ^ 24 < 2 ^ 24 := Nat.mod_lt _ (by decide)
  have goes : ¬ (dma.timingHeader.service ≠ .L1Accept ∨ p.timeJump s.lastTime dma.timingHeader.time) := by
    rw [time]
    rintro (other | jump)
    · exact other event
    · cases jump
  have read := reader_eq h
  rw [if_neg goes, before_eq event] at read
  have noted : ∀ t : PGPDetector, (t.finish p dma.timingHeader).lastComplete < 2 ^ 24 := by
    intro t
    rw [finish_lastComplete]
    exact small
  cases Decidable.em (s.Succeeds dma.timingHeader) with
  | inl follows =>
    refine iff_of_true ?_ (.inr follows)
    rw [if_pos follows] at read
    refine ⟨_, read, (absurd follows ·), ?_, fun next done => taken_iff done (noted _)⟩
    rw [Succeeds, before_eq event] at follows
    have none_ : (dma.timingHeader.evtCounter % 2 ^ 24 + 2 ^ 24 - (s.lastComplete + 1)) % 2 ^ 24 = 0 := by omega
    rw [foldl_between, none_]
    rfl
  | inr skips =>
    rw [if_neg skips] at read
    have looped : brokenLoop p (.ofNat 32 (dma.timingHeader.evtCounter % 2 ^ 24)) (.ofNat 32 (s.lastComplete + 1))
        (s.arrived p dma) = brokenEvents p
          ((dma.timingHeader.evtCounter % 2 ^ 24 + 2 ^ 32 - (s.lastComplete + 1)) % 2 ^ 32) (s.lastComplete + 1)
          (s.arrived p dma) := by
      have start : (BitVec.ofNat 32 (s.lastComplete + 1)).toNat = s.lastComplete + 1 := by
        rw [BitVec.toNat_ofNat]
        omega
      have rounds :
          (BitVec.ofNat 32 (dma.timingHeader.evtCounter % 2 ^ 24) - BitVec.ofNat 32 (s.lastComplete + 1)).toNat =
          (dma.timingHeader.evtCounter % 2 ^ 24 + 2 ^ 32 - (s.lastComplete + 1)) % 2 ^ 32 := by
        rw [BitVec.toNat_sub, start, BitVec.toNat_ofNat]
        omega
      rw [brokenLoop_eq, start, rounds]
    rw [or_iff_left skips, ← marks_iff small last (s.arrived p dma) dma.timingHeader]
    constructor
    · rintro ⟨t, run, -, marks, -⟩
      cases read.symm.trans run
      exact marks
    · intro marks
      refine ⟨_, read, ?_, marks, fun next done => taken_iff done (noted _)⟩
      intro _
      rw [looped]

/-- For all counters of 24 bits the loop ends, and it marks just the events between the two exactly where the counter
    does not turn over, or the event is the successor so that nothing is marked. -/
theorem broken_iff (p : PGPParameters) (s : PGPDetector) (dma : Dma) (last : s.lastComplete < 2 ^ 24)
    (h : s.Completes p dma) (skips : s.Skips p dma.timingHeader) :
    s.Accepts p dma ↔
      s.lastComplete < dma.timingHeader.evtCounter % 2 ^ 24 ∨
      dma.timingHeader.evtCounter % 2 ^ 24 = (s.lastComplete + 1) % 2 ^ 24 := by
  rw [accepts_iff last h skips, Succeeds, before_eq skips.1]

end reader

/-- One worker, one lane, four events. -/
def oneLane : PGPParameters where
  nworkers := 1
  batchSize := 4
  laneMask := 128#8
  nbuffers := 4
  dmaSize := 100
  timeJump _ _ := false
  nworkers_pos := by decide
  nbuffers_dvd := by decide

/-- A buffer with an event of this counter. -/
def eventDma (evtCounter : Nat) : Dma := ⟨64, false, Fin.last 7, ⟨evtCounter, .L1Accept, evtCounter, 0⟩⟩

/-- Two events are missing. -/
theorem broken_two : new.Accepts oneLane (eventDma 3) :=
  (broken_iff oneLane new (eventDma 3) (by decide) ⟨by decide, rfl, by decide⟩ ⟨rfl, rfl⟩).mpr (.inl (by decide))

/-- Event 0 is missing after the last one of 24 bits: the loop marks as many as there are numbers from `2 ^ 24` to
    `2 ^ 32`, and one more. -/
theorem broken_turnover :
    ¬ ({ new with lastComplete := 2 ^ 24 - 1 } : PGPDetector).Accepts oneLane (eventDma 1) ∧
    between (2 ^ 24 - 1) 1 = [0] ∧
    ∀ t, ({ new with lastComplete := 2 ^ 24 - 1 } : PGPDetector).reader oneLane (eventDma 1) = .ok t →
      t.read.length = 2 ^ 32 - 2 ^ 24 + 2 := by
  have last : ({ new with lastComplete := 2 ^ 24 - 1 } : PGPDetector).lastComplete < 2 ^ 24 := by decide
  have h : ({ new with lastComplete := 2 ^ 24 - 1 } : PGPDetector).Completes oneLane (eventDma 1) :=
    ⟨by decide, rfl, by decide⟩
  refine ⟨?_, by decide, ?_⟩
  · rw [accepts_iff last h ⟨rfl, rfl⟩]
    decide
  · intro t read
    have goes : ¬ ((eventDma 1).timingHeader.service ≠ .L1Accept ∨
        oneLane.timeJump ({ new with lastComplete := 2 ^ 24 - 1 } : PGPDetector).lastTime
          (eventDma 1).timingHeader.time) := by
      decide
    rw [reader_eq h, if_neg (by decide), if_neg goes] at read
    rw [← Except.ok.inj read, finish_length, brokenEvents_length]
    rfl

end PGPDetector

end Lcls2.Drp
