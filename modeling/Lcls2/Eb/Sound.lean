import Lcls2.Eb.Flush

/-!
# The invariant of the event builder

`Sound app config arrived s` is what holds between any two steps of the builder when `arrived` is the
list of the contributions it was given so far.

* `shape`: the two levels of sorted lists, and every event in the epoch of its pulse ID;
* `epochs`, `events`: the pools and the lookup tables agree with the lists;
* `ledger`: for each pulse ID, the events there have been hold exactly what arrived for it;
* `credit`: the remaining bits of an event are its contract without the sources that contributed;
* `excused`: a fix-up happened to a timed-out event, or to one whose pulse ID was processed before,
  as long as the contributions arrived in an order that is `Prompt`.

The last section shows that flushing keeps it, whatever event is due.
-/

namespace Lcls2.Eb
open Lcls2.Lib

/-- The pending epochs are sorted, and so are the events of each, which belong to it. -/
structure Shape (t : EbTables) (pending : List EbEpoch) : Prop where
  keys : pending.Pairwise (·.key < ·.key)
  sorted : ∀ ep ∈ pending, ep.pending.Pairwise (·.sequence < ·.sequence)
  keyed : ∀ ep ∈ pending, ∀ e ∈ ep.pending, t.epochKey e.sequence = ep.key

/-- The bit list of an event: what is in the contract of its creator and did not contribute yet. -/
def EbEvent.Credit (app : EbApp) (e : EbEvent) : Prop :=
  e.contract = app.contract e.creator ∧
  ∀ i, e.remaining.getLsbD i = (e.contract.getLsbD i && e.contributions.all (·.src ≠ i))

/-- Whatever a contributor of some contribution has sent for a later pulse ID came after what it sent
    for this one. -/
def Prompt (app : EbApp) (arrived : List EbDgram) : Prop :=
  ∀ d ∈ arrived, ∀ later ∈ arrived, (app.contract d).getLsbD later.src = true →
    d.pulseId < later.pulseId → ∃ own ∈ arrived, own.src = later.src ∧ own.pulseId = d.pulseId

/-- Every fix-up among the calls was of a timed-out event, or of one whose pulse ID was processed
    before. -/
def Excused (timeout : Int) (calls : List Call) : Prop :=
  ∀ before event srcId age after, calls = before ++ Call.fixup event srcId age :: after →
    timeout ≤ age ∨ ∃ e, Call.process e ∈ before ∧ e.sequence = event.sequence

/-- What the builder keeps between any two steps. -/
structure Sound (app : EbApp) (config : EbConfig) (arrived : List EbDgram) (s : EventBuilder) :
    Prop where
  config : s.tables.config = config
  mono : ∀ p q, p ≤ q → q < 2 ^ 56 → s.tables.epochKey p ≤ s.tables.epochKey q
  shape : Shape s.tables s.pending
  epochs : s.tables.HoldsEpochs s.pending
  events : s.tables.HoldsEvents s.events
  ledger : ∀ pid, (s.history.filter (·.sequence = pid)).flatMap (·.contributions) =
    arrived.filter (·.pulseId = pid)
  credit : ∀ e ∈ s.history, e.Credit app
  excused : (∀ part, part <+: arrived → Prompt app part) →
    Excused s.tables.eventTimeout s.tables.calls

namespace Excused

variable {timeout : Int} {calls new : List Call}

/-- Calls that are no fix-ups, or excused ones, may follow. -/
lemma append (h : Excused timeout calls)
    (ok : ∀ event srcId age, Call.fixup event srcId age ∈ new →
      timeout ≤ age ∨ ∃ e, Call.process e ∈ calls ∧ e.sequence = event.sequence) :
    Excused timeout (calls ++ new) := by
  intro before event srcId age after split
  rcases List.append_eq_append_iff.mp split with ⟨front, rfl, hnew⟩ | ⟨back, rfl, hback⟩
  · have mem : Call.fixup event srcId age ∈ new := hnew ▸ by simp
    rcases ok event srcId age mem with old | ⟨e, he, same⟩
    · exact .inl old
    · exact .inr ⟨e, List.mem_append_left _ he, same⟩
  · cases back with
    | nil =>
      have mem : Call.fixup event srcId age ∈ new := by
        rw [List.nil_append] at hback
        rw [← hback]
        exact List.mem_cons_self
      rcases ok event srcId age mem with old | ⟨e, he, same⟩
      · exact .inl old
      · exact .inr ⟨e, by simpa using he, same⟩
    | cons c back =>
      obtain ⟨rfl, _⟩ := List.cons.inj hback
      exact h before event srcId age back rfl

end Excused

/-- Releasing an event keeps the fix-ups excused if its own are. -/
lemma release_excused {app now t e} (h : Excused t.eventTimeout t.calls)
    (ok : e.remaining ≠ 0#64 → t.eventTimeout ≤ now - e.t0 ∨
      ∃ x, Call.process x ∈ t.calls ∧ x.sequence = e.sequence) :
    Excused (release app now t e).eventTimeout (release app now t e).calls := by
  rw [release_calls, EbTables.eventTimeout_congr release_config]
  refine h.append ?_
  intro event srcId age mem
  split at mem
  · rename_i incomplete
    rcases List.mem_append.mp mem with mem | mem
    · obtain ⟨_, _, same⟩ := List.mem_map.mp mem
      cases same
      exact ok incomplete
    · simp at mem
  · simp at mem

/-- An event that does not wait is complete, of the contract of the complete due event, or old. -/
lemma not_waits {due now t e} (h : waits due now t e = false) (incomplete : e.remaining ≠ 0#64) :
    (e.contract = due.contract ∧ due.remaining = 0#64) ∨ t.eventTimeout ≤ now - e.t0 := by
  by_contra contra
  rw [not_or, not_le, not_and_or] at contra
  have : waits due now t e = true := by
    simp only [waits, decide_eq_true_eq]
    exact ⟨incomplete, contra.1, contra.2⟩
  rw [h] at this
  exact Bool.noConfusion this

/-- A flush keeps the fix-ups excused if every incomplete event of the contract of the due event is
    one whose pulse ID was processed before. -/
lemma Flush.excused {app due now events t events' t'}
    (walk : Flush app due now events t events' t')
    (sorted : events.Pairwise (·.sequence < ·.sequence)) (mem : due ∈ events)
    (old : ∀ e ∈ events, e.sequence ≤ due.sequence → e.remaining ≠ 0#64 →
      e.contract = due.contract → due.remaining = 0#64 →
      ∃ x, Call.process x ∈ t.calls ∧ x.sequence = e.sequence)
    (h : Excused t.eventTimeout t.calls) : Excused t'.eventTimeout t'.calls := by
  induction walk with
  | stop => exact h
  | @last e events t go _ =>
    have le : e.sequence ≤ due.sequence := by
      rcases List.mem_cons.mp mem with rfl | mem
      · exact le_refl _
      · exact Nat.le_of_lt (List.rel_of_pairwise_cons sorted mem)
    refine release_excused h ?_
    intro incomplete
    rcases not_waits go incomplete with ⟨same, complete⟩ | timedOut
    · exact .inr (old e (by simp) le incomplete same complete)
    · exact .inl timedOut
  | @next e events t _ _ go other _ ih =>
    have mem : due ∈ events := by
      rcases List.mem_cons.mp mem with rfl | mem
      · exact absurd rfl other
      · exact mem
    have le : e.sequence ≤ due.sequence := Nat.le_of_lt (List.rel_of_pairwise_cons sorted mem)
    refine ih (List.Pairwise.of_cons sorted) mem ?_ ?_
    · intro x hx hle incomplete same complete
      obtain ⟨y, hy, e⟩ := old x (List.mem_cons_of_mem _ hx) hle incomplete same complete
      refine ⟨y, ?_, e⟩
      rw [release_calls]
      exact List.mem_append_left _ hy
    · refine release_excused h ?_
      intro incomplete
      rcases not_waits go incomplete with ⟨same, complete⟩ | timedOut
      · exact .inr (old e (by simp) le incomplete same complete)
      · exact .inl timedOut

/-- The contributions of the events of one pulse ID. -/
def recorded (events : List EbEvent) (pid : Nat) : List EbDgram :=
  (events.filter (·.sequence = pid)).flatMap (·.contributions)

lemma recorded_append (l₁ l₂ : List EbEvent) (pid : Nat) :
    recorded (l₁ ++ l₂) pid = recorded l₁ pid ++ recorded l₂ pid := by
  simp [recorded]

/-- Damage does not change what is recorded. -/
lemma recorded_undamaged (events : List EbEvent) (pid : Nat) :
    recorded (events.map EbEvent.undamaged) pid = recorded events pid := by
  induction events with
  | nil => rfl
  | cons e events ih =>
    simp only [recorded, List.map_cons, List.filter_cons, undamaged_sequence] at ih ⊢
    by_cases h : e.sequence = pid
    · simp [h, ih]
    · simp [h, ih]

lemma mem_recorded {events pid d} :
    d ∈ recorded events pid ↔ ∃ e ∈ events, e.sequence = pid ∧ d ∈ e.contributions := by
  simp only [recorded, List.mem_flatMap, List.mem_filter, decide_eq_true_eq, and_assoc]

lemma recorded_eq_nil {events pid} (h : ∀ e ∈ events, e.sequence ≠ pid) :
    recorded events pid = [] := by
  have : events.filter (·.sequence = pid) = [] := by
    simpa [List.filter_eq_nil_iff] using h
  simp [recorded, this]

/-- Trimming does not change what does not depend on the events. -/
lemma trimmed_map {β : Type*} {pending pending' : List EbEpoch}
    (trim : List.Forall₂ EbEpoch.Trimmed pending pending') (f : EbEpoch → β)
    (same : ∀ ep ep', ep.Trimmed ep' → f ep' = f ep) : pending'.map f = pending.map f := by
  induction trim with
  | nil => rfl
  | cons h _ ih => simp [same _ _ h, ih]

namespace Shape

variable {t : EbTables} {pending : List EbEpoch}

/-- The pending epochs differ in their keys. -/
lemma key_inj (shape : Shape t pending) {x y} (hx : x ∈ pending) (hy : y ∈ pending)
    (h : x.key = y.key) : x = y :=
  sorted_inj shape.keys hx hy h

/-- The pending events are sorted across the epochs. -/
lemma events_sorted (shape : Shape t pending)
    (mono : ∀ p q, p ≤ q → q < 2 ^ 56 → t.epochKey p ≤ t.epochKey q) :
    (pending.flatMap (·.pending)).Pairwise (·.sequence < ·.sequence) := by
  rw [List.pairwise_flatMap]
  refine ⟨shape.sorted, ?_⟩
  refine List.Pairwise.imp_of_mem ?_ shape.keys
  intro x y hx hy lt e he f hf
  by_contra ge
  have le := mono f.sequence e.sequence (Nat.le_of_not_lt ge) (EbDgram.pulseId_lt _)
  rw [shape.keyed x hx e he, shape.keyed y hy f hf] at le
  exact absurd lt (Nat.not_lt.mpr le)

/-- Trimmed epochs keep the shape. -/
lemma trimmed (shape : Shape t pending) {pending'}
    (trim : List.Forall₂ EbEpoch.Trimmed pending pending') : Shape t pending' := by
  have keys := trimmed_map trim (·.key) fun _ _ h => h.2.1
  have origin : ∀ ep' ∈ pending', ∃ ep ∈ pending, ep.Trimmed ep' := by
    intro ep' h'
    obtain ⟨i, hi, rfl⟩ := List.getElem_of_mem h'
    have hi' : i < pending.length := trim.length_eq ▸ hi
    exact ⟨pending[i], List.getElem_mem hi', trim.get hi' hi⟩
  refine ⟨?_, ?_, ?_⟩
  · have h := List.pairwise_map.mpr shape.keys
    rw [← keys] at h
    exact List.pairwise_map.mp h
  · intro ep' h'
    obtain ⟨ep, hep, _, _, suffix⟩ := origin ep' h'
    exact (shape.sorted ep hep).sublist suffix.sublist
  · intro ep' h' e he
    obtain ⟨ep, hep, _, key, suffix⟩ := origin ep' h'
    rw [key]
    exact shape.keyed ep hep e (suffix.subset he)

end Shape

namespace Sound

variable {app : EbApp} {config : EbConfig} {arrived : List EbDgram} {s : EventBuilder}

lemma recorded_eq (sound : Sound app config arrived s) (pid : Nat) :
    recorded s.history pid = arrived.filter (·.pulseId = pid) :=
  sound.ledger pid

lemma events_sorted (sound : Sound app config arrived s) :
    s.events.Pairwise (·.sequence < ·.sequence) :=
  sound.shape.events_sorted sound.mono

/-- Two pending events of one pulse ID are the same. -/
lemma sequence_inj (sound : Sound app config arrived s) {x y} (hx : x ∈ s.events)
    (hy : y ∈ s.events) (h : x.sequence = y.sequence) : x = y :=
  sorted_inj sound.events_sorted hx hy h

/-- A bit of the contract is gone once its source contributed. -/
lemma remaining_of_mem (sound : Sound app config arrived s) {e d} (he : e ∈ s.history)
    (hd : d ∈ e.contributions) : e.remaining.getLsbD d.src = false := by
  rw [(sound.credit e he).2, Bool.and_eq_false_iff]
  right
  rw [List.all_eq_false]
  exact ⟨d, hd, by simp⟩

/-- An incomplete event that is not newer than a complete one of the same contract is a second event
    of its pulse ID. -/
lemma second (sound : Sound app config arrived s) (prompt : Prompt app arrived) {e due}
    (he : e ∈ s.events) (hdue : due ∈ s.events) (le : e.sequence ≤ due.sequence)
    (incomplete : e.remaining ≠ 0#64) (same : e.contract = due.contract)
    (complete : due.remaining = 0#64) :
    ∃ x, Call.process x ∈ s.tables.calls ∧ x.sequence = e.sequence := by
  have he' : e ∈ s.history := List.mem_append_right _ he
  have hdue' : due ∈ s.history := List.mem_append_right _ hdue
  have lt : e.sequence < due.sequence := by
    refine Nat.lt_of_le_of_ne le ?_
    intro h
    rw [sound.sequence_inj he hdue h] at incomplete
    exact incomplete complete
  -- a source that is missing in the older event, but not in the newer one
  obtain ⟨i, hi⟩ : ∃ i, e.remaining.getLsbD i = true := by
    by_contra none
    refine incomplete (BitVec.eq_of_getLsbD_eq ?_)
    intro i _
    have h : ¬ e.remaining.getLsbD i = true := fun h => none ⟨i, h⟩
    simpa using h
  have hi' := hi
  rw [(sound.credit e he').2, Bool.and_eq_true] at hi'
  have gone : due.remaining.getLsbD i = false := by simp [complete]
  rw [(sound.credit due hdue').2, ← same, hi'.1, Bool.true_and, List.all_eq_false] at gone
  obtain ⟨later, hlater, hsrc⟩ := gone
  have hsrc : later.src = i := by simpa using hsrc
  -- it has contributed to the older pulse ID, so to another event of it
  have mem_arrived : ∀ x ∈ s.history, ∀ d ∈ x.contributions,
      d ∈ arrived ∧ d.pulseId = x.sequence := by
    intro x hx d hd
    have h := mem_recorded.mpr ⟨x, hx, rfl, hd⟩
    rw [sound.recorded_eq, List.mem_filter] at h
    exact ⟨h.1, by simpa using h.2⟩
  have hcreator := mem_arrived e he' e.creator (by simp [EbEvent.contributions])
  have hlater := mem_arrived due hdue' later hlater
  obtain ⟨own, hown, ownSrc, ownPid⟩ := prompt e.creator hcreator.1 later hlater.1
    (by rw [← (sound.credit e he').1, hsrc]; exact hi'.1) (by omega)
  have h : own ∈ arrived.filter (·.pulseId = e.sequence) := by
    simp [hown, ownPid, hcreator.2]
  rw [← sound.recorded_eq, mem_recorded] at h
  obtain ⟨x, hx, hseq, hown⟩ := h
  rcases List.mem_append.mp hx with processed | pending
  · obtain ⟨c, hc, hproc⟩ := List.mem_filterMap.mp processed
    cases c with
    | process y =>
      cases hproc
      exact ⟨x, hc, hseq⟩
    | _ => cases hproc
  · have := sound.sequence_inj pending he hseq
    subst this
    have h := sound.remaining_of_mem he' hown
    rw [ownSrc, hsrc, hi] at h
    exact Bool.noConfusion h

/-- Flushing up to a pending event keeps the invariant. -/
lemma flushDue (sound : Sound app config arrived s) {due} (hdue : due ∈ s.events) :
    Sound app config arrived (s.flushDue app due) := by
  let now := (s.tables.now app).1
  let t := { (s.tables.now app).2 with tLastFlush := now }
  have walk : Flush app due now s.events t (s.flushDue app due).events (s.flushDue app due).tables :=
    flushEpochs_flush s.pending t
  have trim : List.Forall₂ EbEpoch.Trimmed s.pending (s.flushDue app due).pending :=
    flushEpochs_trimmed s.pending t
  have hconfig : (s.flushDue app due).tables.config = s.tables.config := walk.config
  have history : (s.flushDue app due).history.map EbEvent.undamaged =
      s.history.map EbEvent.undamaged := walk.history
  refine ⟨hconfig.trans sound.config, ?_, ?_, ?_, walk.held sound.events, ?_, ?_, ?_⟩
  · rw [EbTables.epochKey_congr hconfig]
    exact sound.mono
  · have shape := sound.shape.trimmed trim
    exact ⟨shape.keys, shape.sorted, by rw [EbTables.epochKey_congr hconfig]; exact shape.keyed⟩
  · unfold EbTables.HoldsEpochs
    rw [walk.epochs.1, walk.epochs.2, EbTables.epIndex_congr hconfig]
    refine sound.epochs.congr ?_
    exact trimmed_map trim (fun ep => (ep.addr, s.tables.epIndex ep.key))
      fun _ _ h => by simp [h.1, h.2.1]
  · intro pid
    have h := recorded_undamaged (s.flushDue app due).history pid
    rw [history, recorded_undamaged, sound.recorded_eq] at h
    exact h.symm
  · intro e he
    have h := List.mem_map_of_mem (f := EbEvent.undamaged) he
    rw [history] at h
    obtain ⟨x, hx, same⟩ := List.mem_map.mp h
    have credit : x.undamaged.Credit app := sound.credit x hx
    rw [same] at credit
    exact credit
  · intro prompt
    refine walk.excused sound.events_sorted hdue ?_ (sound.excused prompt)
    intro e he le incomplete same complete
    exact sound.second (prompt arrived (List.prefix_refl _)) he hdue le incomplete same complete

end Sound

end Lcls2.Eb
