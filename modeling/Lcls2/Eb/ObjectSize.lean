import Lcls2.Eb.LookupTables

/-!
# The size of an event object

`EventBuilder::initialize` keeps the pools of an earlier connection when the numbers of their objects
are the same. It does not compare the number of sources, with which the size of an event object grows:
the contributions of an event are an array of pointers behind it, and `EbEvent::_add` puts one more at
its end without a check.
-/

namespace Lcls2.Eb
open Lcls2.Lib

/-- The arguments of a call of `EventBuilder::initialize`. -/
structure Init where
  epochs : Nat
  entries : Nat
  sources : Nat
  duration : BitVec 64
  deriving DecidableEq

namespace Init

/-- The call is not refused. -/
def Accepted (c : Init) : Prop := c.duration &&& (c.duration - 1#64) = 0#64

instance (c : Init) : Decidable c.Accepted := inferInstanceAs (Decidable (_ = _))

/-- The numbers of epoch and of event objects, which are `unsigned`. -/
def counts (c : Init) : Nat × Nat := (2 * c.epochs % 2 ^ 32, 2 * c.epochs * c.entries % 2 ^ 32)

end Init

/-- The accepted calls of `initialize`, in order. -/
def initCalls (as : List EventBuilder.Action) : List Init :=
  as.filterMap fun
    | .init epochs entries sources duration =>
      if Init.Accepted ⟨epochs, entries, sources, duration⟩ then
        some ⟨epochs, entries, sources, duration⟩
      else none
    | _ => none

/-- Whose pools there are after one more call: those of an earlier call stay if they have the numbers of
    objects that it asks for. -/
def Init.keeps : Option Init → Init → Init
  | none, c => c
  | some m, c => if c.counts = m.counts then m else c

/-- The call whose pools are still there. -/
def poolMaker (cs : List Init) : Option Init := cs.foldl (fun made c => some (Init.keeps made c)) none

/-- Where the array of `n` contributions of an event ends. -/
def contributionsEnd (n : Nat) : Nat := sizeofEbEvent + n * sizeofPtr

/-- The dimensions of a pool. -/
def GenericPool.dims (p : GenericPool) : Nat × Nat := (p.sizeofObject, p.numberofObjects)

/-- The pools have the same dimensions. -/
structure SamePools (t t' : EbTables) : Prop where
  events : t'.eventFreelist.map GenericPool.dims = t.eventFreelist.map GenericPool.dims
  epochs : t'.epochFreelist.map GenericPool.dims = t.epochFreelist.map GenericPool.dims

namespace SamePools

variable {t t' t'' : EbTables}

lemma refl (t : EbTables) : SamePools t t := ⟨rfl, rfl⟩

lemma trans (h : SamePools t t') (h' : SamePools t' t'') : SamePools t t'' :=
  ⟨h'.events.trans h.events, h'.epochs.trans h.epochs⟩

end SamePools

/-- Allocating keeps the dimensions. -/
lemma alloc_dims {pool : Option GenericPool} {size a : Nat} {p : GenericPool}
    (taken : pool.bind (·.alloc size) = some (a, p)) :
    (some p).map GenericPool.dims = pool.map GenericPool.dims := by
  obtain ⟨q, rfl, halloc⟩ := Option.bind_eq_some_iff.mp taken
  clear taken
  simp only [GenericPool.alloc] at halloc
  split at halloc
  · cases halloc
  · split at halloc
    · cases halloc
    · cases halloc
      rfl

/-- Freeing keeps the dimensions. -/
lemma free_dims (pool : Option GenericPool) (a : Nat) :
    (pool.map fun p : GenericPool => p.free a).map GenericPool.dims = pool.map GenericPool.dims := by
  cases pool with
  | none => rfl
  | some p => rfl

section calls
variable {app : EbApp} {s : EventBuilder}

/-- A flush keeps the dimensions of the pools. -/
lemma Flush.samePools {due now events t events' t'} (walk : Flush app due now events t events' t') :
    SamePools t t' := by
  have release : ∀ e t, SamePools t (release app now t e) := by
    intro e t
    constructor
    · rw [release_eventFreelist]
      exact free_dims _ _
    · rw [release_epochFreelist]
  induction walk with
  | stop => exact .refl _
  | last => exact release _ _
  | next _ _ _ ih => exact (release _ _).trans ih

lemma flushDue_samePools (s : EventBuilder) (due : EbEvent) :
    SamePools s.tables (s.flushDue app due).tables := by
  have walk := (flushDue_flush app s due).samePools
  exact ⟨walk.events, walk.epochs⟩

lemma flushAll_samePools (s : EventBuilder) : SamePools s.tables (s.flushAll app).tables := by
  rw [EventBuilder.flushAll]
  split
  · exact .refl _
  · split
    · exact .refl _
    · exact flushDue_samePools s _

lemma expired_samePools (s : EventBuilder) : SamePools s.tables (s.expired app).tables := by
  simp only [EventBuilder.expired]
  split
  · exact ⟨rfl, rfl⟩
  · split
    · exact ⟨rfl, rfl⟩
    · exact flushAll_samePools s

lemma finish_samePools (s : EventBuilder) (event : EbEvent) (due : Option EbEvent) (ctrb : EbDgram)
    (t0 : Int) : SamePools s.tables (s.finish app event due ctrb t0).tables := by
  cases due with
  | none =>
    have tried : SamePools s.tables (s.tryFlush app).tables := by
      simp only [EventBuilder.tryFlush]
      split
      · have flushed := @flushAll_samePools app ⟨s.pending, (s.tables.now app).2⟩
        exact ⟨flushed.events, flushed.epochs⟩
      · exact ⟨rfl, rfl⟩
    exact ⟨tried.events, tried.epochs⟩
  | some x =>
    have flushed := @flushDue_samePools app s x
    exact ⟨flushed.events, flushed.epochs⟩

lemma settle_samePools (s : EventBuilder) (event : EbEvent) (due : Option EbEvent) :
    SamePools s.tables (s.settle app event due).1.tables := by
  unfold EventBuilder.settle
  split
  · split
    · exact .refl _
    · split
      · exact flushDue_samePools s _
      · exact .refl _
  · exact .refl _

lemma add_samePools {event ctrb r} (h : s.add event ctrb = .ok r) : SamePools s.tables r.1.tables := by
  simp only [EventBuilder.add] at h
  split at h
  · cases h
  · cases h
    exact ⟨rfl, rfl⟩

lemma newEvent_samePools {epoch ctrb before next imm t0 r}
    (h : s.newEvent app epoch ctrb before next imm t0 = .ok r) : SamePools s.tables r.1.tables := by
  unfold EventBuilder.newEvent at h
  split at h
  · cases h
  · rename_i addr pool halloc
    simp only at h
    split at h
    · cases h
    · cases h
      exact ⟨alloc_dims halloc, rfl⟩

lemma insertScan_samePools {epoch ctrb after imm t0 r}
    (h : s.insertScan app epoch ctrb after imm t0 = .ok r) : SamePools s.tables r.1.tables := by
  unfold EventBuilder.insertScan at h
  split at h
  · cases h
  · split at h
    · exact newEvent_samePools h
    · simp only at h
      split at h
      · cases h
      · split at h
        · exact add_samePools h
        · exact newEvent_samePools h

lemma insert_samePools {epoch ctrb after imm t0 r}
    (h : s.insert app epoch ctrb after imm t0 = .ok r) : SamePools s.tables r.1.tables := by
  unfold EventBuilder.insert at h
  split at h
  · exact insertScan_samePools h
  · split at h
    · cases h
    · split at h
      · exact add_samePools h
      · exact insertScan_samePools h

lemma discardEmpty_samePools (epochs : List EbEpoch) (t : EbTables) :
    SamePools t (discardEmpty epochs t).2 := by
  induction epochs generalizing t with
  | nil => exact .refl t
  | cons epoch before ih =>
    simp only [discardEmpty]
    split
    · have discarded : SamePools t (t.discard epoch) := ⟨rfl, free_dims _ _⟩
      exact discarded.trans (ih _)
    · exact ih t

lemma newEpoch_samePools {key before next r} (h : s.newEpoch key before next = .ok r) :
    SamePools s.tables r.1.tables := by
  unfold EventBuilder.newEpoch at h
  cases before with
  | nil =>
    have same := discardEmpty_samePools next.reverse s.tables
    simp only at h
    split at h
    · cases h
    · rename_i addr pool halloc
      cases h
      exact same.trans ⟨rfl, alloc_dims halloc⟩
  | cons epoch before =>
    have same := discardEmpty_samePools before s.tables
    simp only at h
    split at h
    · cases h
    · rename_i addr pool halloc
      cases h
      exact same.trans ⟨rfl, alloc_dims halloc⟩

lemma matchEpoch_samePools {pid r} (h : s.matchEpoch pid = .ok r) : SamePools s.tables r.1.tables := by
  have scan : ∀ key, s.matchScan key = .ok r → SamePools s.tables r.1.tables := by
    intro key h
    unfold EventBuilder.matchScan at h
    split at h
    · cases h
      exact .refl _
    · exact newEpoch_samePools h
  unfold EventBuilder.matchEpoch at h
  simp only at h
  split at h
  · exact scan _ h
  · split at h
    · cases h
    · split at h
      · cases h
        exact .refl _
      · exact scan _ h

lemma processLoop_samePools {epoch t0} {batch : List EbDgram} {cursor due imm r}
    (h : EventBuilder.processLoop app epoch t0 batch s cursor due imm = .ok r) :
    SamePools s.tables r.1.tables := by
  induction batch generalizing s cursor due imm with
  | nil => cases h
  | cons d batch ih =>
    rw [EventBuilder.processLoop] at h
    cases inserted : s.insert app epoch d cursor imm t0 with
    | error t =>
      rw [inserted] at h
      cases h
    | ok o =>
      have same := (insert_samePools inserted).trans (@settle_samePools app o.1 o.2 due)
      rw [inserted] at h
      simp only at h
      split at h
      · cases h
        exact same
      · exact same.trans (ih h)

lemma process_samePools {batch : List EbDgram} {imm t} (h : s.process app batch imm = .ok t) :
    SamePools s.tables t.tables := by
  simp only [EventBuilder.process] at h
  split at h
  · cases h
  · cases found : EventBuilder.matchEpoch ⟨s.pending, (s.tables.now app).2⟩ _ with
    | error e =>
      rw [found] at h
      cases h
    | ok o =>
      have first : SamePools s.tables o.1.tables := by
        have same := matchEpoch_samePools found
        exact ⟨same.events, same.epochs⟩
      rw [found] at h
      simp only at h
      split at h
      · cases h
      · rename_i done
        cases h
        exact (first.trans (processLoop_samePools done)).trans (finish_samePools _ _ _ _ _)

lemma clear_samePools (s : EventBuilder) : SamePools s.tables s.clear.tables := by
  have counters : ∀ pool : Option GenericPool,
      (pool.map GenericPool.clearCounters).map GenericPool.dims = pool.map GenericPool.dims := by
    intro pool
    cases pool with
    | none => rfl
    | some p => rfl
  have delete : ∀ events t, SamePools t (List.foldl EbTables.deleteEvent t events) := by
    intro events
    induction events with
    | nil => exact .refl
    | cons e events ih =>
      intro t
      have first : SamePools t (t.deleteEvent e) := ⟨free_dims _ _, rfl⟩
      exact first.trans (ih _)
  have deleted : ∀ epochs t, SamePools t (deleteEvents epochs t).2 := by
    intro epochs
    induction epochs with
    | nil => exact .refl
    | cons epoch rest ih => exact fun t => (delete _ _).trans (ih _)
  have same := (deleted s.pending s.tables).trans
    (discardEmpty_samePools (deleteEvents s.pending s.tables).1.reverse _)
  exact same.trans ⟨counters _, counters _⟩

end calls

/-- The pools are those of the call that made them. -/
def MadeBy (t : EbTables) : Option Init → Prop
  | none => t.eventFreelist = none
  | some m => t.eventFreelist.map GenericPool.dims = some (contributionsEnd m.sources, m.counts.2) ∧
      (t.epochFreelist.map GenericPool.dims).map Prod.snd = some m.counts.1

section life
variable {app : EbApp} {s t : EventBuilder} {t' : EbTables} {made : Option Init}
  {as : List EventBuilder.Action} {timeout : Nat}

/-- What keeps the dimensions keeps whose pools they are. -/
lemma MadeBy.same (h : MadeBy s.tables made) (same : SamePools s.tables t') : MadeBy t' made := by
  cases made with
  | none =>
    have none_ : s.tables.eventFreelist = none := h
    have events := same.events
    rw [none_] at events
    exact Option.map_eq_none_iff.mp events
  | some m => exact ⟨same.events.trans h.1, (congrArg _ same.epochs).trans h.2⟩

/-- A pool of given dimensions is stale exactly when it has another number of objects. -/
lemma stale_iff {pool : Option GenericPool} {n k : Nat}
    (count : (pool.map GenericPool.dims).map Prod.snd = some k) :
    pool.all (fun p => decide (n ≠ p.numberofObjects)) = true ↔ n ≠ k := by
  cases pool with
  | none => cases count
  | some p =>
    cases count
    simp [GenericPool.dims]

/-- An accepted call keeps the pools or makes its own. -/
lemma MadeBy.initialized (h : MadeBy s.tables made) (c : Init)
    (init : s.initialized c.epochs c.entries c.sources c.duration = some t) :
    c.Accepted ∧ MadeBy t.tables (some (Init.keeps made c)) := by
  unfold EventBuilder.initialized at init
  split at init
  · cases init
  · rename_i power
    refine ⟨not_not.mp power, ?_⟩
    simp only at init
    cases made with
    | none =>
      have none_ : s.tables.eventFreelist = none := h
      rw [none_] at init
      simp only [Option.all_none, Bool.or_true, if_true] at init
      cases init
      exact ⟨rfl, rfl⟩
    | some m =>
      obtain ⟨events, epochs⟩ := h
      have epochs' := @stale_iff _ (2 * c.epochs % 2 ^ 32) _ epochs
      have events' := @stale_iff _ (2 * c.epochs * c.entries % 2 ^ 32) _ (congrArg _ events)
      rw [Init.keeps]
      split at init
      · rename_i stale
        rw [Bool.or_eq_true, epochs', events'] at stale
        cases init
        rw [if_neg]
        · exact ⟨rfl, rfl⟩
        · intro same
          rcases stale with other | other
          · exact other (congrArg Prod.fst same)
          · exact other (congrArg Prod.snd same)
      · rename_i kept
        rw [Bool.or_eq_true, epochs', events', not_or, not_not, not_not] at kept
        cases init
        rw [if_pos (Prod.ext kept.1 kept.2)]
        exact ⟨events, epochs⟩

@[simp] lemma initCalls_snoc (as : List EventBuilder.Action) (a : EventBuilder.Action) :
    initCalls (as ++ [a]) = initCalls as ++ initCalls [a] := by
  simp [initCalls]

/-- In every state the pools are those of the last call that had to make them. -/
lemma madeBy_of_run
    (run : Run (EventBuilder.act app) (fun _ _ _ => True) (EventBuilder.new timeout) as s) :
    MadeBy s.tables (poolMaker (initCalls as)) := by
  have start : MadeBy (EventBuilder.new timeout).tables (poolMaker (initCalls [])) := rfl
  refine run.invariant (P := fun as s => MadeBy s.tables (poolMaker (initCalls as))) start ?_
  intro as s a t h _ step
  rw [initCalls_snoc]
  cases a with
  | init epochs entries sources duration =>
    cases e : s.initialized epochs entries sources duration with
    | none =>
      have refused : ¬ Init.Accepted ⟨epochs, entries, sources, duration⟩ := by
        intro accepted
        have power : duration &&& (duration - 1#64) = 0#64 := accepted
        unfold EventBuilder.initialized at e
        rw [if_neg (not_not.mpr power)] at e
        simp only at e
        split at e
        · cases e
        · cases e
      have step : Except.ok ((s.initialized epochs entries sources duration).getD s) = Except.ok t := step
      rw [e] at step
      cases step
      have nothing : initCalls [.init epochs entries sources duration] = [] := by
        simp [initCalls, refused]
      rw [nothing, List.append_nil]
      exact h
    | some t' =>
      have step : Except.ok ((s.initialized epochs entries sources duration).getD s) = Except.ok t := step
      rw [e] at step
      cases step
      obtain ⟨accepted, made⟩ := h.initialized ⟨epochs, entries, sources, duration⟩ e
      have call : initCalls [.init epochs entries sources duration] =
          [⟨epochs, entries, sources, duration⟩] := by
        simp [initCalls, accepted]
      rw [call, poolMaker, List.foldl_append]
      exact made
  | call op =>
    have nothing : initCalls [.call op] = [] := rfl
    rw [nothing, List.append_nil]
    cases op with
    | process batch imm => exact h.same (process_samePools step)
    | expired =>
      cases step
      exact h.same (expired_samePools s)
  | clear =>
    have nothing : initCalls [EventBuilder.Action.clear] = [] := rfl
    rw [nothing, List.append_nil]
    cases step
    exact h.same (clear_samePools s)

/-- An event object has room for one contribution of each source of the last `initialize` exactly when
    the call that made the pools had at least as many sources. -/
theorem object_has_room
    (run : Run (EventBuilder.act app) (fun _ _ _ => True) (EventBuilder.new timeout) as s) (c : Init)
    (last : (initCalls as).getLast? = some c) :
    ∃ m p, poolMaker (initCalls as) = some m ∧ s.tables.eventFreelist = some p ∧
      (contributionsEnd c.sources ≤ p.sizeofObject ↔ c.sources ≤ m.sources) ∧
      ((∀ n < c.sources, contributionsEnd (n + 1) ≤ p.sizeofObject) ↔ c.sources ≤ m.sources) := by
  have made := madeBy_of_run run
  obtain ⟨m, hm⟩ : ∃ m, poolMaker (initCalls as) = some m := by
    obtain ⟨cs, e⟩ := List.getLast?_eq_some_iff.mp last
    rw [e, poolMaker, List.foldl_append]
    exact ⟨_, rfl⟩
  rw [hm] at made
  obtain ⟨p, hp, dims⟩ := Option.map_eq_some_iff.mp made.1
  have size : p.sizeofObject = contributionsEnd m.sources := congrArg Prod.fst dims
  have room : ∀ n, contributionsEnd n ≤ contributionsEnd m.sources ↔ n ≤ m.sources := by
    intro n
    simp only [contributionsEnd, sizeofPtr]
    omega
  refine ⟨m, p, hm, hp, ?_, ?_⟩
  · rw [size]
    exact room c.sources
  · rw [size]
    constructor
    · intro h
      by_contra more
      have last := (room _).mp (h m.sources (Nat.lt_of_not_le more))
      exact Nat.not_succ_le_self _ last
    · intro h n hn
      exact (room _).mpr (Nat.le_trans hn h)

end life

/-- A connect with one source, and one with as many epochs and entries but eight sources. -/
def moreSources : List EventBuilder.Action := [.init 4 4 1 4#64, .init 4 4 8 4#64]

/-- The same connects the other way round. -/
def fewerSources : List EventBuilder.Action := [.init 4 4 8 4#64, .init 4 4 1 4#64]

/-- With fewer sources than before there is room. -/
theorem object_has_room_fewer :
    ∃ s p, Run (EventBuilder.act twoSources) (fun _ _ _ => True) (EventBuilder.new 1000) fewerSources s ∧
      s.tables.eventFreelist = some p ∧ contributionsEnd 1 ≤ p.sizeofObject := by
  have run : Run (EventBuilder.act twoSources) (fun _ _ _ => True) (EventBuilder.new 1000)
      fewerSources _ := Run.of_foldlM rfl
  obtain ⟨m, p, maker, pool, room, -⟩ := object_has_room run ⟨4, 4, 1, 4#64⟩ rfl
  cases maker
  exact ⟨_, p, run, pool, room.mpr (by decide)⟩

/-- With more sources than before the contributions are written past the object, whose size is still
    that for one. -/
theorem object_too_small :
    ∃ s p, Run (EventBuilder.act twoSources) (fun _ _ _ => True) (EventBuilder.new 1000) moreSources s ∧
      s.tables.eventFreelist = some p ∧ p.sizeofObject = 72 ∧ contributionsEnd 8 = 128 := by
  have run : Run (EventBuilder.act twoSources) (fun _ _ _ => True) (EventBuilder.new 1000)
      moreSources _ := Run.of_foldlM rfl
  exact ⟨_, _, run, rfl, rfl, rfl⟩

end Lcls2.Eb
