import Lcls2.Lib.Brackets
import Lcls2.Psana.DgramManager

/-!
# Runs are bracketed

The user calls `__next__` over and over. What he gets should be what the source holds, with one
`EndRun` for every `BeginRun`. `RunsBracketed` says so for a history of calls, `InOrder` is what a
call has to find for it to stay true, and `bracketed_iff` shows that nothing else is needed and that
nothing of it can be left out.
-/

namespace Lcls2.Psana
open Lib
open Eb (TransitionId)

/-- The event a call has returned. -/
def Outcome.event? : Outcome → Option Event
  | .event e => some e
  | .stopIteration | .indexError => none

/-- A call that returns a transition. -/
def Outcome.returns (service : TransitionId) (o : Outcome) : Bool :=
  o.event?.any fun e => e.dgram.service = service

/-- What begins a run. -/
abbrev Outcome.Opens (o : Outcome) : Prop := o.returns .BeginRun = true

/-- What ends the time in which a run has to be ended. -/
abbrev Outcome.Closes (o : Outcome) : Prop := o.Opens ∨ o = .stopIteration

/-- A user who calls `__next__`, with what he got. -/
structure Iteration where
  manager : DgramManager
  results : List Outcome
  deriving DecidableEq, Repr

namespace Iteration

/-- Nothing has been called yet. -/
def start (config : Dgram) (source : Source) : Iteration := ⟨.init config source, []⟩

/-- A call of `__next__`. -/
def call (s : Iteration) (_ : Unit) : Except NextFault Iteration := do
  let (o, m) ← s.manager.next
  return ⟨m, s.results ++ [o]⟩

/-- The events returned so far. -/
def events (s : Iteration) : List Event := s.results.filterMap Outcome.event?

/-- The dgrams among them that were read. -/
def reads (s : Iteration) : List Dgram := s.events.filterMap Event.source

end Iteration

/-- An `EndRun` made up is later than the event before it. -/
def Later (a e : Event) : Prop := e.source = none → a.timestamp.toNat < e.timestamp.toNat

/-- What the user should get from dgrams `items`. -/
structure RunsBracketed (items : List Dgram) (s : Iteration) : Prop where
  /-- every dgram comes once and in order -/
  complete : s.reads ++ s.manager.buffered_beginruns.toList ++ s.manager.pending = items
  /-- when the iteration stops all of them have come -/
  all : .stopIteration ∈ s.results → s.reads = items
  /-- a run that is over has one `EndRun` -/
  closed : ∀ mid, Between Outcome.Opens Outcome.Closes s.results mid →
    mid.countP (Outcome.returns .EndRun) = 1
  /-- the last one has no more than that -/
  atMost : ∀ mid, Since Outcome.Opens Outcome.Closes s.results mid →
    mid.countP (Outcome.returns .EndRun) ≤ 1
  /-- an `EndRun` made up is later than the event before it -/
  later : s.events.IsChain Later
  /-- what has stopped remains so -/
  stops : ∀ pre post, s.results = pre ++ .stopIteration :: post → ∀ o ∈ post, o = .stopIteration

/-- The call at hand has to make up an `EndRun`. -/
def DgramManager.Fabricates (m : DgramManager) : Prop :=
  m.buffered_beginruns = none ∧ m.found_endrun = false ∧
    ∀ d, m.pending.head? = some d → d.service = .BeginRun

/-- What a call has to find. -/
structure Iteration.InOrder (s : Iteration) : Prop where
  /-- the iteration has not been stopped -/
  going : .stopIteration ∉ s.results
  /-- where an `EndRun` is made up, the low word of the time before it is below what the unit
      conversion makes of it -/
  fits : s.manager.Fabricates → ∀ t, s.manager._timestamps.getLast? = some t →
    t.toNat % 2 ^ 32 < (t.toNat % 2 ^ 32 * 1000 + 1) % 2 ^ 32
  /-- the dgram that comes next is no second `EndRun` of a run -/
  single : s.manager.buffered_beginruns = none → s.manager.found_endrun = true →
    (∃ o ∈ s.results, o.Opens) → ∀ d, s.manager.pending.head? = some d → d.service ≠ .EndRun

/-- The time of an `EndRun` made up, compared with the time it follows. -/
lemma lt_fakeTime (t : BitVec 64) :
    t.toNat < (Event.fake_endrun (DgramManager.seconds t)
        (DgramManager.fakeUsec t)).timestamp.toNat ↔
      t.toNat % 2 ^ 32 < (t.toNat % 2 ^ 32 * 1000 + 1) % 2 ^ 32 := by
  have time : (Event.fake_endrun (DgramManager.seconds t)
      (DgramManager.fakeUsec t)).timestamp.toNat =
        t.toNat / 2 ^ 32 * 2 ^ 32 + (t.toNat % 2 ^ 32 * 1000 + 1) % 2 ^ 32 := by
    have low : (t.toNat % 2 ^ 32 * 1000 + 1) % 2 ^ 32 < 2 ^ 32 := Nat.mod_lt _ (by simp)
    have high : t.toNat / 2 ^ 32 < 2 ^ 32 := by
      have := t.isLt
      omega
    simp only [Event.timestamp, Event.dgram, createTransition, DgramManager.seconds,
      DgramManager.fakeUsec, BitVec.toNat_append, BitVec.extractLsb'_toNat, BitVec.toNat_ofNat,
      BitVec.toNat_setWidth, Nat.shiftRight_eq_div_pow, Nat.mod_eq_of_lt high]
    rw [← Nat.shiftLeft_add_eq_or_of_lt low, Nat.shiftLeft_eq]
  rw [time]
  have split := Nat.div_add_mod t.toNat (2 ^ 32)
  omega

/-- With low words from 4294968 on the conversion can run over. -/
example : ¬ 4294968 % 2 ^ 32 < (4294968 % 2 ^ 32 * 1000 + 1) % 2 ^ 32 := by decide

/-- What holds of a history of calls that all found things in order. -/
structure Iteration.Inv (items : List Dgram) (s : Iteration) : Prop extends
    RunsBracketed items s where
  timestamps : s.manager._timestamps = s.events.map Event.timestamp
  buffered : ∀ d, s.manager.buffered_beginruns = some d →
    d.service = .BeginRun ∧ s.manager.found_endrun = true
  /-- the flag counts the `EndRun`s of the run at hand -/
  current : .stopIteration ∉ s.results →
    ∀ mid, Since Outcome.Opens Outcome.Closes s.results mid →
      mid.countP (Outcome.returns .EndRun) = if s.manager.found_endrun = true then 1 else 0
  /-- a run that has to be ended has been begun -/
  begun : .stopIteration ∉ s.results → s.manager.found_endrun = false →
    s.manager._timestamps ≠ []
  /-- once stopped, the flag has been turned over -/
  ended : .stopIteration ∈ s.results → s.manager.buffered_beginruns = none ∧
    s.manager.pending = [] ∧ s.manager.found_endrun = false

namespace Iteration

/-- A call, by cases. -/
lemma call_turn {s t : Iteration} {u : Unit} (h : s.call u = .ok t) :
    ∃ o, t.results = s.results ++ [o] ∧ s.manager.Turn t.manager o := by
  obtain ⟨⟨o, m⟩, e, h⟩ := bind_ok h
  cases h
  exact ⟨o, rfl, DgramManager.next_turn e⟩

variable {items : List Dgram} {s t : Iteration}

/-- Before the first call. -/
lemma Inv.start (config : Dgram) (source : Source) :
    (start config source).Inv (DgramManager.init config source).pending where
  complete := rfl
  all := by rintro ⟨⟩
  closed := by
    intro mid h
    exact (not_between_nil h).elim
  atMost := by
    intro mid h
    exact (not_since_nil h).elim
  later := .nil
  stops := by
    intro pre post e
    cases pre <;> cases e
  timestamps := rfl
  buffered := by rintro d ⟨⟩
  current := by
    intro _ mid h
    exact (not_since_nil h).elim
  begun := by rintro _ ⟨⟩
  ended := by rintro ⟨⟩

/-- After one more call that returned an event. -/
lemma events_snoc {o : Outcome} (results : t.results = s.results ++ [o]) :
    t.events = s.events ++ o.event?.toList := by
  rw [events, events, results, List.filterMap_append]
  cases o <;> rfl

lemma reads_snoc {o : Outcome} (results : t.results = s.results ++ [o]) :
    t.reads = s.reads ++ (o.event?.bind Event.source).toList := by
  rw [reads, reads, events_snoc results, List.filterMap_append]
  cases o with
  | event e => cases e <;> rfl
  | stopIteration => rfl
  | indexError => rfl

/-- What one more entry adds to a count. -/
lemma countP_snoc (mid : List Outcome) (o : Outcome) :
    (mid ++ [o]).countP (Outcome.returns .EndRun) =
      mid.countP (Outcome.returns .EndRun) + if o.returns .EndRun = true then 1 else 0 := by
  rw [List.countP_append, List.countP_singleton]

/-- An event added to a history without a stop adds none. -/
lemma going_snoc {e : Event} (results : t.results = s.results ++ [.event e])
    (going : .stopIteration ∉ s.results) : .stopIteration ∉ t.results := by
  rw [results]
  simpa using going

/-- The pairing is kept by an event that finds the `EndRun`s of the run at hand counted right. -/
lemma Inv.paired (inv : s.Inv items) (going : .stopIteration ∉ s.results) {e : Event}
    (results : t.results = s.results ++ [.event e])
    (begins : e.dgram.service = .BeginRun →
      s.manager.found_endrun = true ∧ t.manager.found_endrun = false)
    (ends : e.dgram.service = .EndRun → t.manager.found_endrun = true ∧
      ((∃ o ∈ s.results, o.Opens) → s.manager.found_endrun = false))
    (passes : e.dgram.service ≠ .BeginRun → e.dgram.service ≠ .EndRun →
      t.manager.found_endrun = s.manager.found_endrun) :
    (∀ mid, Between Outcome.Opens Outcome.Closes t.results mid →
      mid.countP (Outcome.returns .EndRun) = 1) ∧
    ∀ mid, Since Outcome.Opens Outcome.Closes t.results mid →
      mid.countP (Outcome.returns .EndRun) = if t.manager.found_endrun = true then 1 else 0 := by
  have opens : Outcome.Opens (.event e) ↔ e.dgram.service = .BeginRun := by
    simp [Outcome.Opens, Outcome.returns, Outcome.event?]
  have closes : Outcome.Closes (.event e) ↔ e.dgram.service = .BeginRun := by
    simp [Outcome.Closes, opens]
  have marks : (Outcome.event e).returns .EndRun = true ↔ e.dgram.service = .EndRun := by
    simp [Outcome.returns, Outcome.event?]
  rw [results]
  constructor
  · intro mid h
    cases between_snoc.mp h with
    | inl h => exact inv.closed mid h
    | inr h =>
      have found := (begins (closes.mp h.1)).1
      rw [inv.current going mid h.2, if_pos found]
  · intro mid h
    cases since_snoc.mp h with
    | inl h =>
      obtain ⟨ho, rfl⟩ := h
      rw [(begins (opens.mp ho)).2]
      rfl
    | inr h =>
      obtain ⟨ho, mid, hmid, rfl⟩ := h
      have before := inv.current going mid hmid
      have noBegin := mt closes.mpr ho
      rw [countP_snoc, before]
      by_cases hend : e.dgram.service = .EndRun
      · have opened : ∃ o ∈ s.results, o.Opens := by
          obtain ⟨pre, b, eq, hb, _⟩ := hmid
          exact ⟨b, by simp [eq], hb⟩
        rw [if_pos (marks.mpr hend), (ends hend).1, (ends hend).2 opened]
        rfl
      · rw [if_neg (mt marks.mp hend), passes noBegin hend, Nat.add_zero]

/-- Every event but one made up too early follows the one before it as it should. -/
lemma Inv.later_snoc (inv : s.Inv items) {e : Event}
    (results : t.results = s.results ++ [.event e]) :
    t.events.IsChain Later ↔ (e.source = none → ∀ time,
      s.manager._timestamps.getLast? = some time → time.toNat < e.timestamp.toNat) := by
  rw [events_snoc results, inv.timestamps, List.getLast?_map]
  show (s.events ++ [e]).IsChain Later ↔ _
  rw [List.isChain_append]
  constructor
  · rintro ⟨_, _, last⟩ fake time h
    obtain ⟨a, ha, rfl⟩ := Option.map_eq_some_iff.mp h
    exact last a ha e rfl fake
  · intro h
    refine ⟨inv.later, List.isChain_singleton e, ?_⟩
    intro a ha b hb fake
    cases Option.mem_some_iff.mp hb
    exact h fake a.timestamp (by rw [Option.mem_def.mp ha]; rfl)

/-- A call that returns an event, in a history that has not stopped. -/
lemma Inv.returned (inv : s.Inv items) (going : .stopIteration ∉ s.results) {e : Event}
    (results : t.results = s.results ++ [.event e])
    (complete : e.source.toList ++ t.manager.buffered_beginruns.toList ++ t.manager.pending =
      s.manager.buffered_beginruns.toList ++ s.manager.pending)
    (timestamps : t.manager._timestamps = s.manager._timestamps ++ [e.timestamp])
    (buffered : ∀ d, t.manager.buffered_beginruns = some d →
      d.service = .BeginRun ∧ t.manager.found_endrun = true)
    (later : e.source = none → ∀ time,
      s.manager._timestamps.getLast? = some time → time.toNat < e.timestamp.toNat)
    (begins : e.dgram.service = .BeginRun →
      s.manager.found_endrun = true ∧ t.manager.found_endrun = false)
    (ends : e.dgram.service = .EndRun → t.manager.found_endrun = true ∧
      ((∃ o ∈ s.results, o.Opens) → s.manager.found_endrun = false))
    (passes : e.dgram.service ≠ .BeginRun → e.dgram.service ≠ .EndRun →
      t.manager.found_endrun = s.manager.found_endrun) : t.Inv items := by
  have paired := inv.paired going results begins ends passes
  have going' := going_snoc results going
  refine ⟨⟨?_, fun h => (going' h).elim, paired.1, ?_, (inv.later_snoc results).mpr later, ?_⟩, ?_,
    buffered, fun _ => paired.2, ?_, fun h => (going' h).elim⟩
  · rw [reads_snoc results, ← inv.complete]
    simpa [Outcome.event?] using complete
  · intro mid h
    rw [paired.2 mid h]
    split <;> omega
  · intro pre post eq
    exact (going' (by simp [eq])).elim
  · rw [timestamps, events_snoc results, inv.timestamps, List.map_append]
    rfl
  · intro _ _
    rw [timestamps]
    exact List.append_ne_nil_of_right_ne_nil _ (List.cons_ne_nil _ _)

/-- A call that finds things in order keeps them so. -/
lemma Inv.call (inv : s.Inv items) (inOrder : s.InOrder) {u : Unit} (h : s.call u = .ok t) :
    t.Inv items := by
  obtain ⟨o, results, turn⟩ := call_turn h
  have going := inOrder.going
  cases turn with
  | buffered d waits buffered found pending timestamps =>
    obtain ⟨service, ended⟩ := inv.buffered d waits
    refine inv.returned going results ?_ timestamps ?_ (by rintro ⟨⟩) ?_ ?_ ?_
    · rw [buffered, waits, pending]
      rfl
    · rw [buffered]
      rintro _ ⟨⟩
    · intro _
      exact ⟨ended, found⟩
    · intro hend
      -- The buffer holds BeginRuns only.
      have clash : d.service = .EndRun := hend
      rw [service] at clash
      cases clash
    · intro hb
      exact absurd service hb
  | read d waits buffered pending begins found timestamps =>
    refine inv.returned going results ?_ timestamps ?_ (by rintro ⟨⟩) ?_ ?_ ?_
    · rw [buffered, waits, pending]
      rfl
    · rw [buffered]
      rintro _ ⟨⟩
    · intro service
      exact ⟨begins service, found.trans (if_pos service)⟩
    · intro service
      have service : d.service = .EndRun := service
      refine ⟨by rw [found, service]; rfl, fun opened => ?_⟩
      apply Bool.eq_false_of_not_eq_true
      intro ended
      exact inOrder.single waits ended opened d (by rw [pending]; rfl) service
    · intro hb he
      have hb : d.service ≠ .BeginRun := hb
      have he : d.service ≠ .EndRun := he
      rw [found, if_neg hb, if_neg he]
  | fabricated time waits open_ begins last buffered found pending timestamps =>
    refine inv.returned going results ?_ timestamps ?_ ?_ (by rintro ⟨⟩) ?_ ?_
    · rw [buffered, waits, pending]
      cases s.manager.pending <;> rfl
    · intro d hd
      exact ⟨begins d (buffered ▸ hd), found⟩
    · intro _ time' last'
      rw [last] at last'
      cases last'
      exact (lt_fakeTime time).mpr (inOrder.fits ⟨waits, open_, begins⟩ time last)
    · intro _
      exact ⟨found, fun _ => open_⟩
    · intro _ he
      exact absurd rfl he
  | stopped waits buffered none_left none_left' ended found timestamps =>
    have reads : t.reads = s.reads := by
      rw [reads_snoc results]
      exact List.append_nil _
    have events : t.events = s.events := by
      rw [events_snoc results]
      exact List.append_nil _
    have complete : s.reads = items := by
      have complete := inv.complete
      rw [waits, none_left] at complete
      simpa using complete
    have closes : Outcome.Closes .stopIteration := .inr rfl
    have opens : ¬ Outcome.Opens .stopIteration := by
      intro h
      cases h
    refine ⟨⟨?_, fun _ => reads.trans complete, ?_, ?_, events ▸ inv.later, ?_⟩, ?_, ?_, ?_, ?_, ?_⟩
    · rw [buffered, none_left', reads, complete]
      simp
    · intro mid hmid
      rw [results] at hmid
      cases between_snoc.mp hmid with
      | inl hmid => exact inv.closed mid hmid
      | inr hmid => rw [inv.current going mid hmid.2, if_pos ended]
    · intro mid hmid
      rw [results] at hmid
      cases since_snoc.mp hmid with
      | inl hmid => exact absurd hmid.1 opens
      | inr hmid => exact absurd closes hmid.1
    · intro pre post eq
      rw [results] at eq
      cases post using List.reverseRecOn with
      | nil =>
        intro o ho
        cases ho
      | append_singleton post c =>
        have eq : s.results ++ [.stopIteration] = (pre ++ .stopIteration :: post) ++ [c] := by
          simpa using eq
        obtain ⟨before, _⟩ := List.append_inj' eq rfl
        exact (going (by simp [before])).elim
    · rw [timestamps, events, inv.timestamps]
    · rw [buffered]
      rintro _ ⟨⟩
    · intro going'
      exact (going' (by simp [results])).elim
    · intro going'
      exact (going' (by simp [results])).elim
    · intro _
      exact ⟨buffered, none_left', found⟩
  | failed waits open_ empty =>
    exact absurd empty (inv.begun going open_)

/-- What is in order after a call was in order before it. -/
lemma Inv.inOrder (inv : s.Inv items) {u : Unit} (h : s.call u = .ok t)
    (after : RunsBracketed items t) : s.InOrder := by
  obtain ⟨o, results, turn⟩ := call_turn h
  have going : .stopIteration ∉ s.results := by
    intro stopped
    obtain ⟨waits, none_left, open_⟩ := inv.ended stopped
    -- the flag has been turned over, so that the call makes an `EndRun` up, or fails to
    have again : o = .stopIteration := by
      obtain ⟨pre, post, eq⟩ := List.append_of_mem stopped
      exact after.stops pre (post ++ [o]) (by simp [results, eq]) o (by simp)
    cases turn with
    | buffered _ _ _ _ _ _ => cases again
    | read _ _ _ _ _ _ _ => cases again
    | fabricated _ _ _ _ _ _ _ _ _ => cases again
    | stopped _ _ _ _ ended _ _ =>
      rw [open_] at ended
      cases ended
    | failed _ _ _ => cases again
  refine ⟨going, ?_, ?_⟩
  · rintro ⟨waits, open_, begins⟩ time last
    cases turn with
    | buffered d waits' _ _ _ _ =>
      rw [waits] at waits'
      cases waits'
    | read d _ _ pending begins' _ _ =>
      have service := begins d (by rw [pending]; rfl)
      rw [begins' service] at open_
      cases open_
    | fabricated time' _ _ _ last' _ _ _ _ =>
      rw [last] at last'
      cases last'
      exact (lt_fakeTime time).mp ((inv.later_snoc results).mp after.later rfl time last)
    | stopped _ _ _ _ ended _ _ =>
      rw [open_] at ended
      cases ended
    | failed _ _ empty => exact absurd empty (inv.begun going open_)
  · intro waits ended opened d head service
    have reopens : ∀ r ∈ s.results, Outcome.Closes r → Outcome.Opens r := by
      intro r hr closes
      cases closes with
      | inl opens => exact opens
      | inr stop => exact (going (stop ▸ hr)).elim
    obtain ⟨mid, hmid⟩ := exists_since opened reopens
    -- There is one EndRun since the run was opened, and this would be the second one.
    have one := inv.current going mid hmid
    rw [if_pos ended] at one
    cases turn with
    | buffered d waits' _ _ _ _ =>
      rw [waits] at waits'
      cases waits'
    | read c _ _ pending _ _ _ =>
      rw [pending] at head
      cases head
      have passes : ¬ Outcome.Closes (.event (.read d)) := by
        simp [Outcome.Closes, Outcome.Opens, Outcome.returns, Outcome.event?, Event.dgram, service]
      have two := after.atMost (mid ++ [.event (.read d)])
        (results ▸ since_snoc.mpr (.inr ⟨passes, mid, hmid, rfl⟩))
      have counts : (Outcome.event (.read d)).returns .EndRun = true := by
        simp [Outcome.returns, Outcome.event?, Event.dgram, service]
      rw [countP_snoc, one, if_pos counts] at two
      omega
    | fabricated _ _ open_ _ _ _ _ _ _ =>
      rw [open_] at ended
      cases ended
    | stopped _ _ none_left _ _ _ _ =>
      rw [none_left] at head
      cases head
    | failed _ open_ _ =>
      rw [open_] at ended
      cases ended

end Iteration

/-- In a sequence of calls everything stays bracketed exactly where every call finds things in
    order. -/
theorem bracketed_iff (config : Dgram) (source : Source) (calls : List Unit) (s : Iteration)
    (run : Run Iteration.call (fun _ _ _ => True) (.start config source) calls s) :
    (∀ part t, part <+: calls →
        Run Iteration.call (fun _ _ _ => True) (.start config source) part t →
        RunsBracketed (source.dgrams.filter fun d => d.service ≠ .Configure) t) ↔
      Run Iteration.call (fun _ t _ => t.InOrder) (.start config source) calls s := by
  have start := Iteration.Inv.start config source
  refine Run.everywhere_iff (P := fun _ t => RunsBracketed _ t)
    (I := fun _ t => t.Inv (source.dgrams.filter fun d => d.service ≠ .Configure))
    start start.toRunsBracketed ?_ ?_ run
  · intro _ s u t inv inOrder h
    exact inv.call inOrder h
  · intro _ s u t inv _ _ h
    constructor
    · exact inv.inOrder h
    · intro inOrder
      exact (inv.call inOrder h).toRunsBracketed

/-- A file that ends within a run. -/
def openRun : Source := .file [⟨.BeginRun, 0x100000005#64⟩]

/-- What the first call brings. -/
def openRunBegun : Iteration where
  manager :=
    { DgramManager.init ⟨.Configure, 0x100000004#64⟩ (.file []) with
      _timestamps := [0x100000005#64]
      found_endrun := false }
  results := [.event (.read ⟨.BeginRun, 0x100000005#64⟩)]

/-- The second call makes the `EndRun` up. -/
theorem bracketed_open_run :
    ∃ s, Run Iteration.call (fun _ _ _ => True) (.start ⟨.Configure, 0x100000004#64⟩ openRun)
        [(), ()] s ∧
      RunsBracketed (openRun.dgrams.filter fun d => d.service ≠ .Configure) s ∧
      s.events = [.read ⟨.BeginRun, 0x100000005#64⟩, .fake_endrun 1#32 5001#32] := by
  have first : (Iteration.start ⟨.Configure, 0x100000004#64⟩ openRun).InOrder := by
    refine ⟨by decide, ?_, ?_⟩
    · rintro ⟨_, open_, _⟩
      cases open_
    · intro _ _ _ d h
      cases h
      decide
  have second : openRunBegun.InOrder := by
    refine ⟨by decide, ?_, ?_⟩
    · intro _ time last
      cases last
      decide
    · intro _ ended
      cases ended
  have begun : Run Iteration.call (fun _ t _ => t.InOrder)
      (.start ⟨.Configure, 0x100000004#64⟩ openRun) [()] openRunBegun := .snoc .nil first rfl
  have ended := begun.snoc (a := ()) second rfl
  have plain := ended.mono fun _ _ _ _ => trivial
  exact ⟨_, plain, (bracketed_iff _ _ _ _ plain).mpr ended _ _ List.prefix_rfl plain, by decide⟩

/-- A run with its `EndRun`. -/
def endedRun : List Dgram := [⟨.BeginRun, 0x100000005#64⟩, ⟨.EndRun, 0x100000006#64⟩]

/-- What four calls bring. -/
def endedRunAgain : Iteration where
  manager :=
    { DgramManager.init ⟨.Configure, 0x100000004#64⟩ (.file []) with
      _timestamps := [0x100000005#64, 0x100000006#64, 0x100001771#64] }
  results := [.event (.read ⟨.BeginRun, 0x100000005#64⟩), .event (.read ⟨.EndRun, 0x100000006#64⟩),
    .stopIteration, .event (.fake_endrun 1#32 6001#32)]

/-- After the end of a file whose run has been ended, the next call makes up another `EndRun`. -/
theorem endrun_after_stop :
    ∃ s, Run Iteration.call (fun _ _ _ => True)
        (.start ⟨.Configure, 0x100000004#64⟩ (.file endedRun)) [(), (), (), ()] s ∧
      ¬ RunsBracketed (endedRun.filter fun d => d.service ≠ .Configure) s := by
  refine ⟨endedRunAgain, Run.of_foldlM (by decide +kernel), ?_⟩
  intro bracketed
  have again := bracketed.stops [.event (.read ⟨.BeginRun, 0x100000005#64⟩),
    .event (.read ⟨.EndRun, 0x100000006#64⟩)] [.event (.fake_endrun 1#32 6001#32)] rfl
  cases again _ (List.mem_singleton_self _)

end Lcls2.Psana
