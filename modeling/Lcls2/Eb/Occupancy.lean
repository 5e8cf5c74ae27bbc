import Lcls2.Eb.LookupTables

/-!
# The occupancy of the event pool

`EventBuilder::eventOccCnt` is the number of allocations less that of frees (`eb/EventBuilder.hh`), and
`resetCounters` sets both to zero. The pool itself knows how many events are in use: those that are not in its queue.
With events in use at a reset the two differ from then on, and the frees to come wrap the occupancy below zero.
-/

namespace Lcls2.Eb
open Lcls2.Lib

/-- The objects that have been allocated and not been freed. -/
def GenericPool.inUse (p : GenericPool) : Nat := p.numberofObjects - p.entries.length

namespace EventBuilder

/-- `EventBuilder::eventAllocCnt` and `eventFreeCnt`. -/
def eventAllocCnt (s : EventBuilder) : UInt64 := s.tables.eventFreelist.elim 0 GenericPool.numberofAllocs
def eventFreeCnt (s : EventBuilder) : UInt64 := s.tables.eventFreelist.elim 0 GenericPool.numberofFrees

/-- `EventBuilder::eventOccCnt`. -/
def eventOccCnt (s : EventBuilder) : UInt64 := s.eventAllocCnt - s.eventFreeCnt

/-- The live events. -/
def eventsInUse (s : EventBuilder) : Nat := s.tables.eventFreelist.elim 0 GenericPool.inUse

/-- The calls over one connection, and `resetCounters`. -/
inductive Request where
  | act (a : Action)
  | resetCounters

/-- One such call. -/
def request (app : EbApp) (s : EventBuilder) : Request → Except Thrown EventBuilder
  | .act a => s.act app a
  | .resetCounters => .ok { s with tables := s.tables.resetCounters }

end EventBuilder

/-- Calls with well-formed batches, over one connection. -/
def Requested (_ : List EventBuilder.Request) (s : EventBuilder) : EventBuilder.Request → Prop
  | .act a => Connected [] s a
  | .resetCounters => True

/-- And the counters are reset when no event is live. -/
def Drained (_ : List EventBuilder.Request) (s : EventBuilder) : EventBuilder.Request → Prop
  | .act a => Connected [] s a
  | .resetCounters => s.eventsInUse = 0

/-- An ascending list of numbers below a bound. -/
lemma length_le_of_ascending {l : List Nat} {n : Nat} (sorted : l.Pairwise (· < ·)) (below : ∀ x ∈ l, x < n) :
    l.length ≤ n := by
  have nodup : l.Nodup := sorted.imp Nat.ne_of_lt
  have sub : l ⊆ List.range n := by
    intro x hx
    exact List.mem_range.mpr (below x hx)
  have le := (nodup.subperm sub).length_le
  rwa [List.length_range] at le

section
variable {app : EbApp} {config : EbConfig} {arrived : List EbDgram} {s t : EventBuilder} {off : UInt64}

/-- The pool has in use what is pending. -/
lemma Accounted.inUse (h : Accounted off s) : s.eventsInUse = s.events.length := by
  have events := h.events
  rw [EbTables.AccountsEvents] at events
  rw [EventBuilder.eventsInUse]
  cases pool : s.tables.eventFreelist with
  | none =>
    rw [pool] at events
    exact events.elim
  | some p =>
    rw [pool] at events
    have length := events.1.length_eq
    rw [List.length_append, List.length_map, List.length_range] at length
    show p.numberofObjects - p.entries.length = _
    rw [← length, Nat.add_sub_cancel]

/-- Pending events differ in their pulse IDs. -/
lemma Sound.events_length (sound : Sound app config arrived s) : s.events.length < 2 ^ 64 := by
  have le : (s.events.map EbEvent.sequence).length ≤ 2 ^ 56 := by
    apply length_le_of_ascending
    · exact List.pairwise_map.mpr sound.events_sorted
    · intro x hx
      obtain ⟨e, -, rfl⟩ := List.mem_map.mp hx
      exact e.creator.pulseId_lt
  rw [List.length_map] at le
  exact Nat.lt_of_le_of_lt le (Nat.pow_lt_pow_right (by decide) (by decide))

/-- The occupancy of a pool that is accounted for. -/
lemma Accounted.occupancy (h : Accounted off s) (sound : Sound app config arrived s) :
    s.eventOccCnt.toNat = s.eventsInUse := by
  rw [h.inUse]
  have events := h.events
  rw [EbTables.AccountsEvents] at events
  rw [EventBuilder.eventOccCnt, EventBuilder.eventAllocCnt, EventBuilder.eventFreeCnt]
  cases pool : s.tables.eventFreelist with
  | none =>
    rw [pool] at events
    exact events.elim
  | some p =>
    rw [pool] at events
    have counts := events.2
    rw [List.length_map, UInt64.add_zero] at counts
    show (p.numberofAllocs - p.numberofFrees).toNat = _
    rw [counts, UInt64.add_comm, UInt64.add_sub_cancel]
    exact UInt64.toNat_ofNat_of_lt sound.events_length

/-- A reset of the counters of a pool forgets what is live. -/
lemma Accounts.reset {live : List Nat} {pool : Option GenericPool} (h : Accounts off live pool) :
    Accounts (UInt64.ofNat live.length) live (pool.map GenericPool.clearCounters) := by
  cases pool with
  | none => exact h.elim
  | some p => exact ⟨h.1, rfl⟩

/-- A reset when no event is live keeps the pools accounted for, but for the epochs. -/
lemma Accounted.reset (h : Accounted off s) (empty : s.eventsInUse = 0) :
    ∃ off, Accounted off { s with tables := s.tables.resetCounters } := by
  refine ⟨_, ?_, Accounts.reset h.epochs⟩
  have none_ : s.events = [] := List.length_eq_zero_iff.mp (h.inUse ▸ empty)
  have events := h.events
  rw [EbTables.AccountsEvents, none_] at events
  show Accounts 0 (s.events.map (·.addr)) _
  rw [none_]
  exact Accounts.reset events

/-- A reset leaves the builder sound. -/
lemma Sound.reset (sound : Sound app config arrived s) :
    Sound app config arrived { s with tables := s.tables.resetCounters } := by
  have cells : ∀ pool : Option GenericPool,
      freeEntries (pool.map GenericPool.clearCounters) = freeEntries pool := by
    intro pool
    cases pool with
    | none => rfl
    | some p => rfl
  have shape : Shape s.tables.resetCounters s.pending :=
    ⟨sound.shape.keys, sound.shape.sorted, sound.shape.keyed⟩
  refine ⟨sound.config, sound.mono, shape, ?_, ?_, sound.ledger, sound.credit, sound.excused⟩
  · have epochs := sound.epochs
    rw [EbTables.HoldsEpochs, ← cells] at epochs
    exact epochs
  · have events := sound.events
    rw [EbTables.HoldsEvents, ← cells] at events
    exact events

/-- Just after a reset the occupancy is zero. -/
lemma occupancy_reset (s : EventBuilder) :
    EventBuilder.eventOccCnt { s with tables := s.tables.resetCounters } = 0 := by
  rw [EventBuilder.eventOccCnt, EventBuilder.eventAllocCnt, EventBuilder.eventFreeCnt]
  show (s.tables.eventFreelist.map GenericPool.clearCounters).elim 0 _ -
    (s.tables.eventFreelist.map GenericPool.clearCounters).elim 0 _ = 0
  cases s.tables.eventFreelist with
  | none => exact UInt64.sub_self 0
  | some p => exact UInt64.sub_self 0

/-- While the events in use do not change. -/
lemma inUse_reset (s : EventBuilder) :
    EventBuilder.eventsInUse { s with tables := s.tables.resetCounters } = s.eventsInUse := by
  show (s.tables.eventFreelist.map GenericPool.clearCounters).elim 0 _ = s.tables.eventFreelist.elim 0 _
  cases s.tables.eventFreelist with
  | none => rfl
  | some p => rfl

end

section run
variable {app : EbApp} {config : EbConfig} {s s₀ t : EventBuilder} {as : List EventBuilder.Request}
  {timeout epochs entries sources : Nat} {duration : BitVec 64}

/-- What the requests keep when no event is live at a reset. -/
def Counted (app : EbApp) (config : EbConfig) (s : EventBuilder) : Prop :=
  (∃ off, Accounted off s) ∧ ∃ arrived, Sound app config arrived s

/-- The occupancy is that of the pool. -/
lemma Counted.occupancy (h : Counted app config s) : s.eventOccCnt.toNat = s.eventsInUse := by
  obtain ⟨⟨off, accounted⟩, arrived, sound⟩ := h
  exact accounted.occupancy sound

/-- One call keeps that. -/
lemma Counted.act {a : EventBuilder.Action} (h : Counted app config s) (ok : Connected [] s a)
    (step : s.act app a = .ok t) : Counted app config t := by
  obtain ⟨⟨off, accounted⟩, sound⟩ := h
  obtain ⟨accounted, sound⟩ := accounted.act sound ok step
  exact ⟨accounted.elim (⟨_, ·⟩) (⟨_, ·⟩), sound⟩

/-- And so does a reset with no event live. -/
lemma Counted.request {a : EventBuilder.Request} (h : Counted app config s) (ok : Drained as s a)
    (step : s.request app a = .ok t) : Counted app config t := by
  cases a with
  | act a => exact h.act ok step
  | resetCounters =>
    obtain ⟨⟨off, accounted⟩, arrived, sound⟩ := h
    cases step
    exact ⟨accounted.reset ok, arrived, sound.reset⟩

/-- The occupancy is the number of live events throughout a run exactly where the counters are reset only
    while no event is live. -/
theorem occupancy_iff
    (init : (EventBuilder.new timeout).initialized epochs entries sources duration = some s₀)
    (run : Run (EventBuilder.request app) Requested s₀ as s) :
    (∀ bs t, bs <+: as → Run (EventBuilder.request app) Requested s₀ bs t →
        t.eventOccCnt.toNat = t.eventsInUse) ↔
      Run (EventBuilder.request app) Drained s₀ as s := by
  have start : Counted app s₀.tables.config s₀ := ⟨⟨0, .initial init⟩, [], Sound.initial init⟩
  apply Run.everywhere_iff (I := fun _ s => Counted app s₀.tables.config s)
    (P := fun _ s => s.eventOccCnt.toNat = s.eventsInUse) start start.occupancy
  · intro as s a t h ok step
    exact h.request ok step
  · intro as s a t h _ ok step
    cases a with
    | act a => exact iff_of_true (h.act ok step).occupancy ok
    | resetCounters =>
      cases step
      show _ ↔ s.eventsInUse = 0
      rw [occupancy_reset, inUse_reset]
      exact eq_comm
  · exact run

/-- After a reset with no event live an event is counted. -/
theorem occupancy_reset_early :
    ∃ s, Run (EventBuilder.request twoSources) Requested smallEb
        [.resetCounters, .act (.call (.process [single 4 0] 0#32))] s ∧
      (∀ bs t, bs <+: [.resetCounters, .act (.call (.process [single 4 0] 0#32))] →
        Run (EventBuilder.request twoSources) Requested smallEb bs t →
        t.eventOccCnt.toNat = t.eventsInUse) := by
  have init : (EventBuilder.new 1000).initialized 1 1 2 1#64 = some smallEb := rfl
  have check : passes (fun s₁ : EventBuilder => passes (fun _ => true)
        (s₁.request twoSources (.act (.call (.process [single 4 0] 0#32)))))
      (smallEb.request twoSources .resetCounters) = true := by
    decide +kernel
  obtain ⟨s₁, h₁, check⟩ := passes_iff.mp check
  obtain ⟨s₂, h₂, -⟩ := passes_iff.mp check
  have empty : smallEb.eventsInUse = 0 := by decide +kernel
  have drained : Run (EventBuilder.request twoSources) Drained smallEb [.resetCounters] s₁ :=
    Run.nil.snoc (a := EventBuilder.Request.resetCounters) empty h₁
  have drained : Run (EventBuilder.request twoSources) Drained smallEb
      [.resetCounters, .act (.call (.process [single 4 0] 0#32))] s₂ :=
    drained.snoc (single_wellFormed s₁.tables 4 0) h₂
  have run : Run (EventBuilder.request twoSources) Requested smallEb
      [.resetCounters, .act (.call (.process [single 4 0] 0#32))] s₂ := by
    refine drained.mono ?_
    intro as s a ok
    cases a with
    | act a => exact ok
    | resetCounters => trivial
  exact ⟨s₂, run, (occupancy_iff init run).mpr drained⟩

/-- With one event live at a reset the occupancy is zero, and wraps when the event is freed. -/
theorem occupancy_wraps :
    ∃ s t, Run (EventBuilder.request twoSources) Requested smallEb
        [.act (.call (.process [single 4 0] 0#32)), .resetCounters] s ∧
      Run (EventBuilder.request twoSources) Requested smallEb
        [.act (.call (.process [single 4 0] 0#32)), .resetCounters,
          .act (.call (.process [single 4 1] 0#32))] t ∧
      s.eventOccCnt = 0 ∧ s.eventsInUse = 1 ∧ t.eventOccCnt = 0xffffffffffffffff ∧ t.eventsInUse = 0 := by
  have check : passes (fun s₁ : EventBuilder => passes (fun s₂ : EventBuilder => passes (fun s₃ =>
          decide (s₂.eventOccCnt = 0 ∧ s₂.eventsInUse = 1 ∧
            s₃.eventOccCnt = 0xffffffffffffffff ∧ s₃.eventsInUse = 0))
          (s₂.request twoSources (.act (.call (.process [single 4 1] 0#32)))))
        (s₁.request twoSources .resetCounters))
      (smallEb.request twoSources (.act (.call (.process [single 4 0] 0#32)))) = true := by
    decide +kernel
  obtain ⟨s₁, h₁, check⟩ := passes_iff.mp check
  obtain ⟨s₂, h₂, check⟩ := passes_iff.mp check
  obtain ⟨s₃, h₃, check⟩ := passes_iff.mp check
  have run : Run (EventBuilder.request twoSources) Requested smallEb
      [.act (.call (.process [single 4 0] 0#32)), .resetCounters] s₂ :=
    (Run.nil.snoc (single_wellFormed _ 4 0) h₁).snoc trivial h₂
  exact ⟨s₂, s₃, run, run.snoc (single_wellFormed _ 4 1) h₃, of_decide_eq_true check⟩

end run

end Lcls2.Eb
