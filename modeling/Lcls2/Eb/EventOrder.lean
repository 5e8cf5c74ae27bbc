import Lcls2.Eb.Process
import Lcls2.Lib.Epoch
import Lcls2.Lib.Run

/-!
# Ordering and completeness of the event builder

The runs of an initialised event builder: any calls of `process` and `expired`, any readings of the
clock. `Sound` holds in every state of a run whose batches are well formed (`Sound.step`). When,
besides, contributions come once and on time from the sources of the contract, the events are
processed in the order of their pulse IDs with exactly what arrived for them, and the builder only
ever stops because a free list is exhausted (`ordering_and_completeness`).
-/

namespace Lcls2.Eb
open Lcls2.Lib

/-- The low bits of a pulse ID that an epoch duration leaves out of the epoch. -/
lemma low_bits {duration : BitVec 64} (h : duration &&& (duration - 1#64) = 0#64) :
    ∃ k ≤ 56, ((duration - 1#64) &&& pidMask).toNat = 2 ^ k - 1 := by
  have hmask : pidMask.toNat = 2 ^ 56 - 1 := by decide
  rw [BitVec.toNat_and, hmask, Nat.and_two_pow_sub_one_eq_mod]
  by_cases zero : duration = 0#64
  · subst zero
    exact ⟨56, le_refl _, by decide⟩
  · have pos : 0 < duration.toNat := by
      apply Nat.pos_of_ne_zero
      intro e
      exact zero (BitVec.eq_of_toNat_eq e)
    have sub : (duration - 1#64).toNat = duration.toNat - 1 := by
      have := duration.isLt
      rw [BitVec.toNat_sub, BitVec.toNat_ofNat]
      omega
    have h' := congrArg BitVec.toNat h
    rw [BitVec.toNat_and, sub, BitVec.toNat_ofNat, Nat.zero_mod,
      Nat.and_sub_one_eq_zero_iff_isPowerOfTwo (by omega)] at h'
    obtain ⟨k, hk⟩ := h'
    rw [sub, hk]
    by_cases small : k ≤ 56
    · have : 2 ^ k ≤ 2 ^ 56 := Nat.pow_le_pow_right (by decide) small
      have pos : 0 < 2 ^ k := Nat.two_pow_pos k
      exact ⟨k, small, Nat.mod_eq_of_lt (by omega)⟩
    · refine ⟨56, le_refl _, ?_⟩
      obtain ⟨j, rfl⟩ := Nat.exists_eq_add_of_le (Nat.le_of_not_le small)
      have split : 2 ^ (56 + j) - 1 = (2 ^ 56 - 1) + 2 ^ 56 * (2 ^ j - 1) := by
        have le : 2 ^ 56 * 1 ≤ 2 ^ 56 * 2 ^ j := Nat.mul_le_mul_left _ (Nat.two_pow_pos j)
        rw [Nat.pow_add, Nat.mul_sub]
        omega
      rw [split, Nat.add_mul_mod_self_left, Nat.mod_eq_of_lt (by decide)]

/-- The epoch of a pulse ID is the pulse ID without the low bits. -/
lemma epochKey_eq {t : EbTables} {low : BitVec 64} {k : Nat} (hmask : t.mask = ~~~low)
    (hk : low.toNat = 2 ^ k - 1) {p : Nat} (hp : p < 2 ^ 64) :
    t.epochKey p = p / 2 ^ k * 2 ^ k := by
  rw [EbTables.epochKey, hmask]
  exact toNat_and_not_low hk hp

/-- Stamping the tables with a time or a count leaves the builder sound. -/
lemma Sound.stamp {app config arrived s} (sound : Sound app config arrived s) {t : EbTables}
    (untouched : s.tables.Untouched t) (events : s.tables.SameEvents t) :
    Sound app config arrived ⟨s.pending, t⟩ := by
  refine @Sound.relink _ _ _ _ ⟨s.pending, t⟩ sound events rfl sound.shape ?_
  show Held _ _ _ _ _
  rw [untouched.epochLut, untouched.epochFreelist, EbTables.epIndex_congr untouched.config]
  exact sound.epochs

/-- Stamping the tables does not change the order. -/
lemma Ordered.stamp {s} (ordered : Ordered s) {t : EbTables} (calls : t.calls = s.tables.calls) :
    Ordered ⟨s.pending, t⟩ := by
  have processed : t.processed = s.tables.processed := by
    rw [EbTables.processed, calls, EbTables.processed]
  show (t.processed ++ s.events).Pairwise _
  rw [processed]
  exact ordered

/-- A freshly initialised builder is sound. -/
lemma Sound.initial {app timeout epochs entries sources duration s}
    (h : (EventBuilder.new timeout).initialized epochs entries sources duration = some s) :
    Sound app s.tables.config [] s := by
  unfold EventBuilder.initialized at h
  split at h
  · cases h
  · rename_i power
    rw [not_not] at power
    simp only [EventBuilder.new, Option.all_none, Bool.true_or, if_true] at h
    cases h
    obtain ⟨k, _, hk⟩ := low_bits power
    refine ⟨rfl, ?_, ⟨.nil, by simp, by simp⟩, ⟨?_, ?_⟩, ⟨?_, ?_⟩, ?_, ?_, ?_⟩
    · intro p q le lt
      rw [epochKey_eq rfl hk (by omega), epochKey_eq rfl hk (by omega)]
      exact Nat.mul_le_mul_right _ (Nat.div_le_div_right le)
    · exact List.nodup_range
    · simp
    · exact List.nodup_range
    · simp
    · intro pid
      rfl
    · intro e he
      cases he
    · intro _ before event srcId age after hsplit
      simp at hsplit

/-- A freshly initialised builder has no events behind it. -/
lemma initialized_history {timeout epochs entries sources duration s}
    (h : (EventBuilder.new timeout).initialized epochs entries sources duration = some s) :
    s.history = [] := by
  unfold EventBuilder.initialized at h
  split at h
  · cases h
  · simp only [EventBuilder.new, Option.all_none, Bool.true_or, if_true] at h
    cases h
    rfl

section step
variable {app : EbApp} {config : EbConfig} {arrived : List EbDgram} {s : EventBuilder}
  {batch : List EbDgram}

lemma Sound.flushAll (sound : Sound app config arrived s) :
    Sound app config arrived (s.flushAll app) := by
  unfold EventBuilder.flushAll
  split
  · exact sound
  · rename_i epoch hepoch
    split
    · exact sound
    · rename_i event hevent
      apply sound.flushDue
      exact List.mem_flatMap.mpr ⟨epoch, List.mem_of_getLast? hepoch, List.mem_of_getLast? hevent⟩

lemma Ordered.flushAll (ordered : Ordered s) : Ordered (s.flushAll app) := by
  unfold EventBuilder.flushAll
  split
  · exact ordered
  · split
    · exact ordered
    · exact ordered.flushDue

lemma Sound.tryFlush (sound : Sound app config arrived s) :
    Sound app config arrived (s.tryFlush app) := by
  have stamped : Sound app config arrived ⟨s.pending, (s.tables.now app).2⟩ :=
    sound.stamp ⟨rfl, rfl, rfl, rfl⟩ ⟨rfl, rfl, rfl, rfl⟩
  unfold EventBuilder.tryFlush
  simp only
  split
  · exact stamped.flushAll
  · exact stamped

lemma Ordered.tryFlush (ordered : Ordered s) : Ordered (s.tryFlush app) := by
  have stamped : Ordered ⟨s.pending, (s.tables.now app).2⟩ := ordered.stamp rfl
  unfold EventBuilder.tryFlush
  simp only
  split
  · exact stamped.flushAll
  · exact stamped

lemma Sound.finish (sound : Sound app config arrived s) {event due ctrb t0}
    (hdue : ∀ x, due = some x → x ∈ s.events) :
    Sound app config arrived (s.finish app event due ctrb t0) := by
  cases due with
  | none => exact sound.tryFlush.stamp ⟨rfl, rfl, rfl, rfl⟩ ⟨rfl, rfl, rfl, rfl⟩
  | some x =>
    exact (sound.flushDue (hdue x rfl)).stamp ⟨rfl, rfl, rfl, rfl⟩ ⟨rfl, rfl, rfl, rfl⟩

lemma Ordered.finish (ordered : Ordered s) {event due ctrb t0} :
    Ordered (s.finish app event due ctrb t0) := by
  cases due with
  | none => exact (Ordered.tryFlush ordered).stamp rfl
  | some x => exact (Ordered.flushDue ordered).stamp rfl

/-- What processing a batch comes to. -/
def ProcessSpec (app : EbApp) (config : EbConfig) (arrived : List EbDgram) (s : EventBuilder)
    (batch : List EbDgram) : Except Thrown EventBuilder → Prop
  | .ok s' => Sound app config (arrived ++ batch) s' ∧ (Ahead s batch → Ordered s')
  | .error t => t.fault = .noEpoch ∧ t.state.tables.calls = s.tables.calls ∨
      ∃ part d rest s', batch = part ++ d :: rest ∧ Sound app config (arrived ++ part) s' ∧
        Refused app s' d t.fault ∧ t.state.tables.calls = s'.tables.calls ∧
        (Ahead s batch → Ahead s' (d :: rest))

/-- The start of a batch: the cursor is the first event of the epoch. -/
lemma hasCursor_head (ep : EbEpoch) : ep.HasCursor (ep.pending.head?.map (·.addr)) := by
  cases h : ep.pending with
  | nil => exact h
  | cons e events => exact ⟨e, by simp [h], rfl⟩

lemma Sound.process_spec (sound : Sound app config arrived s) (wf : WellFormed s.tables batch)
    (imm : BitVec 32) : ProcessSpec app config arrived s batch (s.process app batch imm) := by
  have stamped : Sound app config arrived ⟨s.pending, (s.tables.now app).2⟩ :=
    sound.stamp ⟨rfl, rfl, rfl, rfl⟩ ⟨rfl, rfl, rfl, rfl⟩
  obtain ⟨d, hd⟩ : ∃ d, batch.head? = some d := by
    obtain ⟨init, last, rfl, _⟩ := wf.closed
    cases init with
    | nil => exact ⟨last, rfl⟩
    | cons x _ => exact ⟨x, rfl⟩
  have mem : d ∈ batch := List.mem_of_head? hd
  have found := stamped.matchEpoch_spec d.pulseId
  unfold EventBuilder.process
  rw [hd]
  simp only
  generalize EventBuilder.matchEpoch ⟨s.pending, (s.tables.now app).2⟩ d.pulseId = r at found
  cases r with
  | error t => exact .inl found
  | ok r =>
    obtain ⟨s₁, ep⟩ := r
    obtain ⟨sound₁, hep, hkey, tables, events⟩ := found
    have hconfig : s₁.tables.config = s.tables.config := tables.config
    have loop : Loop app config arrived s₁ ep.addr ep.key (ep.pending.head?.map (·.addr)) none
        batch := by
      refine ⟨sound₁, ⟨ep, hep, rfl, rfl, hasCursor_head ep⟩, ?_, by simp⟩
      intro x hx
      rw [EbTables.epochKey_congr hconfig, hkey]
      exact wf.epoch x hx d mem
    have ahead : Ahead s batch → Ahead s₁ batch := by
      have processed : s₁.tables.processed = s.tables.processed := by
        rw [EbTables.processed, tables.calls]
        rfl
      rintro ⟨ordered, lt⟩
      refine ⟨?_, ?_⟩
      · show (s₁.tables.processed ++ s₁.events).Pairwise _
        rw [processed, events]
        exact ordered
      · rw [processed]
        exact lt
    have spec := @Loop.processLoop_spec _ _ _ _ _ _ _ _ _ (s.tables.now app).1 imm loop wf.closed
      wf.ascending
    simp only
    generalize EventBuilder.processLoop app ep.addr _ batch s₁ _ _ _ = r at spec
    cases r with
    | error t =>
      obtain ⟨part, x, rest, s', split, sound', refused, calls, ahead'⟩ := spec
      exact .inr ⟨part, x, rest, s', split, sound', refused, calls, fun h => ahead' (ahead h)⟩
    | ok r =>
      obtain ⟨s', e, due, x⟩ := r
      obtain ⟨sound', hdue, ordered⟩ := spec
      exact ⟨sound'.finish hdue, fun h => (ordered (ahead h)).finish⟩

/-- A `flush` call of the application changes nothing in the builder. -/
lemma Sound.flushCall (sound : Sound app config arrived s) :
    Sound app config arrived
      { s with tables := { s.tables with calls := s.tables.calls ++ [Call.flush] } } := by
  have history : EventBuilder.history
      { s with tables := { s.tables with calls := s.tables.calls ++ [Call.flush] } } =
      s.history := by
    simp [EventBuilder.history, EventBuilder.events, EbTables.processed, Call.processed]
  refine ⟨sound.config, sound.mono, ⟨sound.shape.keys, sound.shape.sorted, sound.shape.keyed⟩,
    sound.epochs, sound.events, ?_, ?_, ?_⟩
  · rw [history]
    exact sound.ledger
  · rw [history]
    exact sound.credit
  · intro prompt
    refine (sound.excused prompt).append ?_
    intro event srcId age mem
    simp at mem

lemma Sound.expired (sound : Sound app config arrived s) :
    Sound app config arrived (s.expired app) := by
  unfold EventBuilder.expired
  split
  · exact sound.flushCall
  · split
    · exact sound.flushCall
    · exact sound.flushAll

lemma Ordered.expired (ordered : Ordered s) : Ordered (s.expired app) := by
  have flushed : Ordered
      { s with tables := { s.tables with calls := s.tables.calls ++ [Call.flush] } } := by
    have same : EventBuilder.history
        { s with tables := { s.tables with calls := s.tables.calls ++ [Call.flush] } } =
        s.history := by
      simp [EventBuilder.history, EventBuilder.events, EbTables.processed, Call.processed]
    rw [Ordered, same]
    exact ordered
  unfold EventBuilder.expired
  split
  · exact flushed
  · split
    · exact flushed
    · exact ordered.flushAll

end step

/-- The contributions that a call brings. -/
def EventBuilder.Op.batch : EventBuilder.Op → List EbDgram
  | .process batch _ => batch
  | .expired => []

/-- All contributions that arrived, in the order of arrival. -/
def arrivals (ops : List EventBuilder.Op) : List EbDgram := ops.flatMap (·.batch)

/-- What the event builder is promised about the contributions of its next call. -/
structure OnTime (app : EbApp) (ops : List EventBuilder.Op) (s : EventBuilder)
    (batch : List EbDgram) : Prop where
  wellFormed : WellFormed s.tables batch
  once : (arrivals ops ++ batch).Pairwise fun d d' => d.pulseId = d'.pulseId → d.src ≠ d'.src
  member : ∀ d ∈ batch, ∀ first,
    (arrivals ops ++ batch).find? (·.pulseId = d.pulseId) = some first →
      (app.contract first).getLsbD d.src = true
  punctual : ∀ e ∈ s.tables.processed, ∀ d ∈ batch, e.sequence < d.pulseId

/-- A call that keeps the promises. -/
def Admissible (app : EbApp) (ops : List EventBuilder.Op) (s : EventBuilder) :
    EventBuilder.Op → Prop
  | .process batch _ => OnTime app ops s batch
  | .expired => True

/-- The runs of an initialised builder under such calls. -/
abbrev EbRun (app : EbApp) (s₀ : EventBuilder) (ops : List EventBuilder.Op) (s : EventBuilder) :
    Prop :=
  Run (EventBuilder.step app) (Admissible app) s₀ ops s

section run
variable {app : EbApp} {config : EbConfig} {arrived : List EbDgram} {s s₀ t : EventBuilder}
  {ops : List EventBuilder.Op} {op : EventBuilder.Op} {batch : List EbDgram}

@[simp] lemma arrivals_snoc (ops : List EventBuilder.Op) (op : EventBuilder.Op) :
    arrivals (ops ++ [op]) = arrivals ops ++ op.batch := by
  simp [arrivals]

/-- A call with a well-formed batch keeps the builder sound, and in order if the batch is ahead. -/
lemma Sound.step (sound : Sound app config arrived s)
    (wf : ∀ batch imm, op = .process batch imm → WellFormed s.tables batch)
    (h : EventBuilder.step app s op = .ok t) :
    Sound app config (arrived ++ op.batch) t ∧ (Ahead s op.batch → Ordered t) := by
  cases op with
  | process batch imm =>
    have spec := sound.process_spec (wf batch imm rfl) imm
    have h : s.process app batch imm = .ok t := h
    rw [h] at spec
    exact spec
  | expired =>
    have h : Except.ok (s.expired app) = Except.ok t := h
    cases h
    refine ⟨?_, fun ahead => ahead.1.expired⟩
    show Sound app config (arrived ++ []) _
    rw [List.append_nil]
    exact sound.expired

/-- In a sorted list, what is recorded for a pulse ID is what its one event holds. -/
lemma recorded_of_mem {events : List EbEvent}
    (sorted : events.Pairwise (·.sequence < ·.sequence)) {e} (he : e ∈ events) :
    recorded events e.sequence = e.contributions := by
  obtain ⟨before, after, rfl⟩ := List.append_of_mem he
  rw [List.pairwise_append, List.pairwise_cons] at sorted
  have hbefore : recorded before e.sequence = [] :=
    recorded_eq_nil fun x hx => Nat.ne_of_lt (sorted.2.2 x hx e (by simp))
  have hafter : recorded after e.sequence = [] :=
    recorded_eq_nil fun x hx => Nat.ne_of_gt (sorted.2.1.1 x hx)
  have hself : recorded [e] e.sequence = e.contributions := by simp [recorded]
  rw [List.append_cons, recorded_append, recorded_append, hbefore, hself, hafter]
  simp

/-- In an ordered history, an event holds exactly what arrived for its pulse ID. -/
lemma Sound.exact (sound : Sound app config arrived s) (ordered : Ordered s) {e}
    (he : e ∈ s.history) : e.contributions = arrived.filter (·.pulseId = e.sequence) := by
  rw [← sound.recorded_eq, recorded_of_mem ordered he]

/-- A run that keeps the promises stays sound and in order. -/
lemma EbRun.sound {timeout epochs entries sources duration}
    (init : (EventBuilder.new timeout).initialized epochs entries sources duration = some s₀)
    (run : EbRun app s₀ ops s) :
    Sound app s₀.tables.config (arrivals ops) s ∧ Ordered s := by
  refine run.invariant (P := fun ops s => Sound app s₀.tables.config (arrivals ops) s ∧ Ordered s)
    ?_ ?_
  · refine ⟨Sound.initial init, ?_⟩
    rw [Ordered, initialized_history init]
    exact .nil
  · rintro ops s op t ⟨sound, ordered⟩ ok h
    rw [arrivals_snoc]
    have wf : ∀ batch imm, op = .process batch imm → WellFormed s.tables batch := by
      rintro batch imm rfl
      exact ok.wellFormed
    obtain ⟨sound', ordered'⟩ := sound.step wf h
    refine ⟨sound', ordered' ⟨ordered, ?_⟩⟩
    cases op with
    | process batch imm => exact ok.punctual
    | expired => exact fun _ _ _ hd => absurd hd List.not_mem_nil

/-- What is promised about the contributions leaves the builder no reason to refuse one. -/
lemma Refused.exhausted {part d rest fault} (refused : Refused app s d fault)
    (sound : Sound app config (arrived ++ part) s) (ahead : Ahead s (d :: rest))
    (once : (arrived ++ (part ++ d :: rest)).Pairwise
      fun d d' => d.pulseId = d'.pulseId → d.src ≠ d'.src)
    (member : ∀ first, (arrived ++ (part ++ d :: rest)).find? (·.pulseId = d.pulseId) = some first →
      (app.contract first).getLsbD d.src = true) : fault = .noEvent := by
  have before : ∀ x ∈ s.history, x.sequence = d.pulseId → x ∈ s.events := by
    intro x hx seq
    cases List.mem_append.mp hx with
    | inl processed => exact absurd seq (Nat.ne_of_lt (ahead.2 x processed d (by simp)))
    | inr pending => exact pending
  rw [← List.append_assoc] at once member
  cases refused with
  | noEvent => rfl
  | notInContract fresh lacks =>
    -- nothing of this pulse ID arrived before, so the contract is that of this contribution
    have none : (arrived ++ part).find? (·.pulseId = d.pulseId) = none := by
      rw [List.find?_eq_none]
      intro x hx
      simp only [decide_eq_true_eq]
      intro same
      have h : x ∈ (arrived ++ part).filter (·.pulseId = d.pulseId) :=
        List.mem_filter.mpr ⟨hx, by simpa using same⟩
      rw [← sound.recorded_eq, mem_recorded] at h
      obtain ⟨e, he, seq, _⟩ := h
      exact fresh e (before e he seq) seq
    have has := member d (by rw [List.find?_append, none]; simp)
    rw [lacks] at has
    exact Bool.noConfusion has
  | @notRemaining e he seq lacks =>
    have he' : e ∈ s.history := List.mem_append_right _ he
    have holds := sound.exact ahead.1 he'
    obtain ⟨contract, credit⟩ := sound.credit e he'
    have first : (arrived ++ part).find? (·.pulseId = d.pulseId) = some e.creator := by
      rw [← List.head?_filter, ← seq, ← holds]
      rfl
    have has := member e.creator (by rw [List.find?_append, first]; simp)
    rw [credit, contract, has, Bool.true_and, List.all_eq_false] at lacks
    obtain ⟨x, hx, same⟩ := lacks
    rw [holds, List.mem_filter] at hx
    have ne := (List.pairwise_append.mp once).2.2 x hx.1 d (by simp)
      (by simpa [seq] using hx.2)
    exact absurd (by simpa using same) ne

/-- Ordering and completeness: in every state of a run the pending lists are sorted on both levels,
    the events were processed in the order of their pulse IDs, each with exactly the contributions
    that arrived for its pulse ID, and the next call succeeds unless a free list is exhausted. -/
theorem ordering_and_completeness {timeout epochs entries sources : Nat} {duration : BitVec 64}
    (init : (EventBuilder.new timeout).initialized epochs entries sources duration = some s₀)
    (run : EbRun app s₀ ops s) :
    s.pending.Pairwise (·.key < ·.key) ∧
    (∀ ep ∈ s.pending, ep.pending.Pairwise (·.sequence < ·.sequence) ∧
      ∀ e ∈ ep.pending, s.tables.epochKey e.sequence = ep.key) ∧
    s.tables.processed.Pairwise (·.sequence < ·.sequence) ∧
    (∀ e ∈ s.tables.processed,
      e.contributions = (arrivals ops).filter (·.pulseId = e.sequence)) ∧
    (∀ op t, Admissible app ops s op → EventBuilder.step app s op = .error t →
      t.fault = .noEpoch ∨ t.fault = .noEvent) := by
  obtain ⟨sound, ordered⟩ := run.sound init
  refine ⟨sound.shape.keys, ?_, ?_, ?_, ?_⟩
  · intro ep hep
    exact ⟨sound.shape.sorted ep hep, sound.shape.keyed ep hep⟩
  · exact (List.pairwise_append.mp ordered).1
  · intro e he
    exact sound.exact ordered (List.mem_append_left _ he)
  · intro op t ok h
    cases op with
    | process batch imm =>
      have spec := sound.process_spec ok.wellFormed imm
      have h : s.process app batch imm = .error t := h
      rw [h] at spec
      cases spec with
      | inl noEpoch => exact .inl noEpoch.1
      | inr spec =>
        obtain ⟨part, d, rest, s', rfl, sound', refused, _, ahead⟩ := spec
        exact .inr (refused.exhausted sound' (ahead ⟨ordered, ok.punctual⟩) ok.once
          (ok.member d (by simp)))
    | expired =>
      have h : Except.ok (s.expired app) = Except.error t := h
      cases h

end run

/-- Two contributors in readout group 0, and a clock that ticks every microsecond. -/
def twoSources : EbApp where
  contractors group := if group = 0 then 3#64 else 0#64
  clock reads := reads * 1000

/-- An event datagram of readout group 0 that closes its batch. -/
def single (pid src : Nat) : EbDgram where
  pulseIdAndControl := BitVec.ofNat 64 pid ||| eolBit
  env := 0x0c000001#32
  src
  sizeofPayload := 0

/-- A builder with a timeout of a second and epochs of four pulse IDs. -/
def freshEb : EventBuilder := ((EventBuilder.new 1000).initialized 4 4 2 4#64).getD (.new 0)

/-- A batch of one contribution is well formed. -/
lemma single_wellFormed (t : EbTables) (pid src : Nat) : WellFormed t [single pid src] := by
  refine ⟨⟨[], single pid src, rfl, ?_, by simp⟩, by simp, by simp⟩
  have h : (single pid src) = (single pid src).setEOL := by
    simp [single, EbDgram.setEOL, BitVec.or_assoc]
  rw [h, EbDgram.setEOL_isEOL]

/-- Both sources contribute to pulse ID 5, which is then processed with the two contributions. -/
theorem ordering_and_completeness_two_sources :
    ∃ s, EbRun twoSources freshEb
        [.process [single 5 0] 0#32, .process [single 5 1] 0#32] s ∧
      s.tables.processed.map EbEvent.sequence = [5] ∧
      ∀ e ∈ s.tables.processed, e.contributions =
        (arrivals [.process [single 5 0] 0#32, .process [single 5 1] 0#32]).filter
          (·.pulseId = e.sequence) := by
  have check : passes (fun s₁ => decide (s₁.tables.processed = []) &&
      passes (fun s₂ => decide (s₂.tables.processed.map EbEvent.sequence = [5]))
        (EventBuilder.step twoSources s₁ (.process [single 5 1] 0#32)))
      (EventBuilder.step twoSources freshEb (.process [single 5 0] 0#32)) = true := by
    decide +kernel
  obtain ⟨s₁, h₁, check⟩ := passes_iff.mp check
  rw [Bool.and_eq_true, decide_eq_true_eq] at check
  obtain ⟨none₁, check⟩ := check
  obtain ⟨s₂, h₂, done⟩ := passes_iff.mp check
  have first₀ : ([single 5 0] : List EbDgram).find? (·.pulseId = 5) = some (single 5 0) := by
    decide +kernel
  have first₁ : ([single 5 0, single 5 1] : List EbDgram).find? (·.pulseId = 5) =
      some (single 5 0) := by
    decide +kernel
  have run₁ : EbRun twoSources freshEb [.process [single 5 0] 0#32] s₁ := by
    refine Run.nil.snoc ⟨single_wellFormed _ _ _, by simp [arrivals], ?_, ?_⟩ h₁
    · intro d hd first hfirst
      cases List.mem_singleton.mp hd
      cases first₀.symm.trans hfirst
      decide +kernel
    · intro e he
      cases he
  have run : EbRun twoSources freshEb
      [.process [single 5 0] 0#32, .process [single 5 1] 0#32] s₂ := by
    refine run₁.snoc ⟨single_wellFormed _ _ _, ?_, ?_, by simp [none₁]⟩ h₂
    · decide +kernel
    · intro d hd first hfirst
      cases List.mem_singleton.mp hd
      cases first₁.symm.trans hfirst
      decide +kernel
  have init : (EventBuilder.new 1000).initialized 4 4 2 4#64 = some freshEb := rfl
  exact ⟨s₂, run, of_decide_eq_true done, (ordering_and_completeness init run).2.2.2.1⟩

end Lcls2.Eb
