import Lcls2.Eb.EventOrder
import Lcls2.Eb.Lifecycle

/-!
# Lookup tables and pools

Two things that the invariant `Sound` leaves open. The tables are transparent: a builder that only ever
scans its lists does the same (`process_scan`). And the pools are accounted for: every address of a pool
is that of one live object or free once (`Accounts`), so that what is allocated is freed exactly once.

The invariant of this module is kept by `clear` too, after which `Sound` starts afresh.
-/

namespace Lcls2.Eb
open Lcls2.Lib

/-- Each address of a pool is that of a live object, or free, and only once; and all that was allocated
    but the live objects has been freed, except for those that a reset of the counters forgot. -/
def Accounts (forgotten : UInt64) (live : List Nat) : Option GenericPool → Prop
  | none => False
  | some p => (live ++ p.entries).Perm (List.range p.numberofObjects) ∧
      p.numberofAllocs + forgotten = p.numberofFrees + UInt64.ofNat live.length

namespace Accounts

variable {live live' : List Nat} {pool : Option GenericPool} {p : GenericPool} {a size : Nat} {off : UInt64}

/-- The order of the objects does not matter. -/
lemma perm (h : Accounts off live pool) (same : live'.Perm live) : Accounts off live' pool := by
  cases pool with
  | none => exact h.elim
  | some p => exact ⟨(same.append_right _).trans h.1, by rw [same.length_eq]; exact h.2⟩

/-- Allocating moves an address from the free ones to the live ones. -/
lemma alloc (h : Accounts off live pool) (taken : pool.bind (·.alloc size) = some (a, p)) :
    Accounts off (a :: live) (some p) := by
  obtain ⟨q, rfl, halloc⟩ := Option.bind_eq_some_iff.mp taken
  clear taken
  simp only [GenericPool.alloc] at halloc
  split at halloc
  · cases halloc
  · split at halloc
    · cases halloc
    · rename_i entry entries he
      cases halloc
      obtain ⟨cells, counts⟩ := h
      rw [he] at cells
      refine ⟨List.perm_middle.symm.trans cells, ?_⟩
      show q.numberofAllocs + 1 + off = q.numberofFrees + UInt64.ofNat (live.length + 1)
      rw [UInt64.add_assoc, UInt64.add_comm 1, ← UInt64.add_assoc, counts, UInt64.ofNat_add, UInt64.add_assoc]
      rfl

/-- Freeing moves it back. -/
lemma free (h : Accounts off (a :: live) pool) :
    Accounts off live (pool.map fun p : GenericPool => p.free a) := by
  cases pool with
  | none => exact h.elim
  | some p =>
    obtain ⟨cells, counts⟩ := h
    refine ⟨?_, ?_⟩
    · have moved : (live ++ (p.entries ++ [a])).Perm (a :: live ++ p.entries) := by
        rw [← List.append_assoc]
        exact List.perm_append_singleton _ _
      exact moved.trans cells
    · show p.numberofAllocs + off = p.numberofFrees + 1 + UInt64.ofNat live.length
      rw [counts, List.length_cons, UInt64.ofNat_add, UInt64.add_assoc, UInt64.add_comm 1]
      rfl

end Accounts

namespace EbTables

/-- The event pool accounts for a list of pending events. -/
def AccountsEvents (t : EbTables) (events : List EbEvent) : Prop :=
  Accounts 0 (events.map (·.addr)) t.eventFreelist

/-- The epoch pool accounts for a list of pending epochs. -/
def AccountsEpochs (forgotten : UInt64) (t : EbTables) (epochs : List EbEpoch) : Prop :=
  Accounts forgotten (epochs.map (·.addr)) t.epochFreelist

end EbTables

/-- The pools of a builder account for what is pending, but for the epochs that were pending when the
    counters were last reset. -/
structure Accounted (forgotten : UInt64) (s : EventBuilder) : Prop where
  events : s.tables.AccountsEvents s.events
  epochs : s.tables.AccountsEpochs forgotten s.pending

section flush
variable {app : EbApp} {due : EbEvent} {now : Int} {events events' : List EbEvent}
  {t t' : EbTables} {s : EventBuilder} {off : UInt64}

/-- A flush frees the events that it takes away. -/
lemma Flush.accounts (walk : Flush app due now events t events' t') (h : t.AccountsEvents events) :
    t'.AccountsEvents events' := by
  have release : ∀ {e events t}, t.AccountsEvents (e :: events) →
      (release app now t e).AccountsEvents events := by
    intro e events t h
    rw [EbTables.AccountsEvents, release_eventFreelist]
    exact h.free
  induction walk with
  | stop => exact h
  | last => exact release h
  | next _ _ _ ih => exact ih (release h)

lemma Accounted.flushDue (h : Accounted off s) (due : EbEvent) : Accounted off (s.flushDue app due) := by
  have walk := flushDue_flush app s due
  constructor
  · exact walk.accounts h.events
  · have addrs := trimmed_map (flushDue_trimmed app s due) (·.addr) fun _ _ trim => trim.1
    rw [EbTables.AccountsEpochs, addrs, walk.epochs.2]
    exact h.epochs

lemma Accounted.flushAll (h : Accounted off s) : Accounted off (s.flushAll app) := by
  rw [EventBuilder.flushAll]
  split
  · exact h
  · split
    · exact h
    · exact h.flushDue _

/-- Stamping the tables leaves the pools alone. -/
lemma Accounted.stamp (h : Accounted off s) {t : EbTables}
    (events : t.eventFreelist = s.tables.eventFreelist)
    (epochs : t.epochFreelist = s.tables.epochFreelist) : Accounted off ⟨s.pending, t⟩ := by
  constructor
  · show Accounts _ _ t.eventFreelist
    rw [events]
    exact h.events
  · show Accounts _ _ t.epochFreelist
    rw [epochs]
    exact h.epochs

lemma Accounted.tryFlush (h : Accounted off s) : Accounted off (s.tryFlush app) := by
  have stamped : Accounted off ⟨s.pending, (s.tables.now app).2⟩ := h.stamp rfl rfl
  simp only [EventBuilder.tryFlush]
  split
  · exact stamped.flushAll
  · exact stamped

lemma Accounted.expired (h : Accounted off s) : Accounted off (s.expired app) := by
  have flushed : Accounted off
      { s with tables := { s.tables with calls := s.tables.calls ++ [Call.flush] } } := h.stamp rfl rfl
  simp only [EventBuilder.expired]
  split
  · exact flushed
  · split
    · exact flushed
    · exact h.flushAll

lemma Accounted.finish (h : Accounted off s) {event due ctrb t0} :
    Accounted off (s.finish app event due ctrb t0) := by
  cases due with
  | none => exact h.tryFlush.stamp rfl rfl
  | some x => exact (h.flushDue x).stamp rfl rfl

lemma Accounted.settle (h : Accounted off s) (event : EbEvent) (due : Option EbEvent) :
    Accounted off (s.settle app event due).1 := by
  unfold EventBuilder.settle
  split
  · split
    · exact h
    · split
      · exact h.flushDue _
      · exact h
  · exact h

end flush

section insert
variable {app : EbApp} {config : EbConfig} {arrived : List EbDgram} {s s' : EventBuilder}
  {t : EbTables} {d : EbDgram} {ep : EbEpoch} {e : EbEvent} {off : UInt64}

/-- Writing an event back leaves the addresses of the events. -/
lemma setEvent_addrs (s : EventBuilder) (e : EbEvent) :
    (s.setEvent e).events.map (·.addr) = s.events.map (·.addr) := by
  have place : ∀ x : EbEvent, (if x.addr = e.addr then e else x).addr = x.addr := by
    intro x
    split
    · rename_i same
      exact same.symm
    · rfl
  simp only [EventBuilder.events, EventBuilder.setEvent, List.map_flatMap, List.flatMap_map, List.map_map,
    Function.comp_def, place]

/-- Adding a contribution leaves the pools alone. -/
lemma Accounted.add (h : Accounted off s) {r} (added : s.add e d = .ok r) : Accounted off r.1 := by
  simp only [EventBuilder.add] at added
  split at added
  · cases added
  · cases added
    constructor
    · rw [EbTables.AccountsEvents, setEvent_addrs]
      exact h.events
    · have addrs : ∀ e' : EbEvent, (s.setEvent e').pending.map (·.addr) = s.pending.map (·.addr) := by
        intro e'
        simp only [EventBuilder.setEvent, List.map_map]
        rfl
      rw [EbTables.AccountsEpochs, addrs]
      exact h.epochs

/-- Linking an event at a new address into an epoch. -/
lemma Accounted.link (h : Accounted off s) {pre post pool} {before next : List EbEvent}
    (hpending : s.pending = pre ++ ep :: post) (hep : ep.pending = before.reverse ++ next)
    (halloc : s.tables.eventFreelist.bind (·.alloc sizeofEbEvent) = some (e.addr, pool))
    (hpending' : s'.pending = pre ++ { ep with pending := before.reverse ++ e :: next } :: post)
    (events : s'.tables.eventFreelist = some pool)
    (epochs : s'.tables.epochFreelist = s.tables.epochFreelist) : Accounted off s' := by
  constructor
  · rw [EbTables.AccountsEvents, events]
    refine (Accounts.alloc h.events halloc).perm ?_
    simp only [EventBuilder.events, hpending, hpending', List.flatMap_append, List.flatMap_cons, hep,
      List.map_append, List.map_cons, List.append_assoc, List.cons_append]
    rw [List.perm_iff_count]
    intro b
    simp only [List.count_append, List.count_cons]
    omega
  · have same := h.epochs
    rw [EbTables.AccountsEpochs, hpending] at same
    rw [EbTables.AccountsEpochs, epochs, hpending']
    simpa using same

/-- Making an event takes its address from the pool. -/
lemma Accounted.newEvent (h : Accounted off s) (sound : Sound app config arrived s) (hmem : ep ∈ s.pending)
    {before next imm t0 r} (hep : ep.pending = before.reverse ++ next)
    (made : s.newEvent app ep.addr d before next imm t0 = .ok r) : Accounted off r.1 := by
  unfold EventBuilder.newEvent at made
  split at made
  · cases made
  · rename_i addr pool halloc
    simp only at made
    split at made
    · cases made
    · cases made
      obtain ⟨pre, post, hpending⟩ := List.append_of_mem hmem
      let e : EbEvent :=
        { addr, size := d.sizeofPayload, remaining := app.contract d &&& ~~~srcBit d.src,
          contract := app.contract d, t0, immData := imm, damage := 0#16, creator := d, added := [] }
      have hpending' := sound.setPending_pending (l := before.reverse ++ e :: next) hpending
      exact h.link (e := e) hpending hep halloc hpending' rfl rfl

/-- Discarding epochs gives their addresses back. -/
lemma discardEmpty_accounts (epochs : List EbEpoch) (t : EbTables) (rest : List EbEpoch)
    (h : t.AccountsEpochs off (epochs ++ rest)) :
    (discardEmpty epochs t).2.AccountsEpochs off ((discardEmpty epochs t).1 ++ rest) := by
  induction epochs generalizing t rest with
  | nil => exact h
  | cons epoch before ih =>
    simp only [discardEmpty]
    split
    · exact ih _ _ (Accounts.free h)
    · have inner : t.AccountsEpochs off (before ++ epoch :: rest) :=
        Accounts.perm h (List.perm_middle.map _)
      exact Accounts.perm (ih t (epoch :: rest) inner) (List.perm_middle.symm.map _)

/-- Inserting a contribution keeps the pools accounted for. -/
lemma Accounted.insert (h : Accounted off s) (sound : Sound app config arrived s) (hmem : ep ∈ s.pending)
    (key : s.tables.epochKey d.pulseId = ep.key) {cursor imm t0 r} (hcursor : ep.HasCursor cursor)
    (inserted : s.insert app ep.addr d cursor imm t0 = .ok r) : Accounted off r.1 := by
  rw [sound.insert_eq_scan hmem key hcursor] at inserted
  have ends := @Sound.insertScan_ends app _ _ _ d _ sound hmem cursor imm t0 hcursor
  generalize s.insertScan app ep.addr d cursor imm t0 = o at ends inserted
  cases ends with
  | hit => exact h.add inserted
  | gap hep => exact h.newEvent sound hmem hep inserted

/-- Making an epoch discards empty ones and takes its address from the pool. -/
lemma Accounted.newEpoch (h : Accounted off s) {key : Nat} {before next r}
    (hpending : s.pending = before.reverse ++ next) (made : s.newEpoch key before next = .ok r) :
    Accounted off r.1 := by
  -- An epoch from the pool is put between those that are left.
  have link : ∀ {left next' : List EbEpoch} {t : EbTables} {addr pool lut},
      (left.reverse ++ next').flatMap (·.pending) = s.events →
      s.tables.SameEvents t → t.AccountsEpochs off (left.reverse ++ next') →
      t.epochFreelist.bind (·.alloc sizeofEbEpoch) = some (addr, pool) →
      Accounted off ⟨left.reverse ++ { addr, key, pending := [] } :: next',
        { t with epochFreelist := some pool, epochLut := lut }⟩ := by
    intro left next' t addr pool lut events tables accounts halloc
    constructor
    · have same : EventBuilder.events ⟨left.reverse ++ { addr, key, pending := [] } :: next',
          { t with epochFreelist := some pool, epochLut := lut }⟩ = s.events := by
        rw [← events]
        simp [EventBuilder.events]
      rw [same]
      show Accounts _ _ t.eventFreelist
      rw [tables.eventFreelist]
      exact h.events
    · refine (Accounts.alloc accounts halloc).perm ?_
      rw [List.map_append, List.map_append, List.map_cons]
      exact List.perm_middle
  unfold EventBuilder.newEpoch at made
  cases before with
  | nil =>
    have list := discardEmpty_list next.reverse s.tables
    have tables := discardEmpty_sameEvents next.reverse s.tables
    have accounts : s.tables.AccountsEpochs off (next.reverse ++ []) := by
      refine Accounts.perm h.epochs ?_
      rw [hpending, List.append_nil]
      exact (List.reverse_perm next).map _
    have accounts := discardEmpty_accounts _ _ _ accounts
    generalize discardEmpty next.reverse s.tables = discarded at list tables accounts made
    obtain ⟨left, t⟩ := discarded
    simp only [List.append_nil] at list tables accounts made
    have left_eq : left.reverse = next.filter (fun ep => !ep.pending.isEmpty) := by
      rw [list, ← List.filter_reverse, List.reverse_reverse]
    split at made
    · cases made
    · rename_i addr pool halloc
      cases made
      refine @link [] _ _ _ _ _ ?_ tables (accounts.perm ?_) halloc
      · rw [List.reverse_nil, List.nil_append, left_eq, flatMap_filter_pending, EventBuilder.events,
          hpending]
        rfl
      · exact (List.reverse_perm left).map _
  | cons epoch before =>
    have list := discardEmpty_list before s.tables
    have tables := discardEmpty_sameEvents before s.tables
    have accounts : s.tables.AccountsEpochs off (before ++ epoch :: next) := by
      refine Accounts.perm h.epochs ?_
      simp only [hpending, List.reverse_cons, List.append_assoc, List.singleton_append]
      exact ((List.reverse_perm before).symm.append_right _).map _
    have accounts := discardEmpty_accounts _ _ _ accounts
    simp only at made
    generalize discardEmpty before s.tables = discarded at list tables accounts made
    obtain ⟨left, t⟩ := discarded
    simp only at list tables accounts made
    have left_eq : left.reverse = before.reverse.filter (fun ep => !ep.pending.isEmpty) := by
      rw [list, List.filter_reverse]
    split at made
    · cases made
    · rename_i addr pool halloc
      cases made
      refine link ?_ tables (accounts.perm ?_) halloc
      · simp only [List.reverse_cons, left_eq, List.flatMap_append, flatMap_filter_pending]
        simp [EventBuilder.events, hpending]
      · simp only [List.reverse_cons, List.append_assoc, List.singleton_append]
        exact ((List.reverse_perm left).append_right _).map _

/-- Finding or making an epoch keeps the pools accounted for. -/
lemma Accounted.matchEpoch (h : Accounted off s) (sound : Sound app config arrived s) {pid : Nat} {r}
    (found : s.matchEpoch pid = .ok r) : Accounted off r.1 := by
  rw [sound.matchEpoch_eq_scan] at found
  have ends := sound.matchScan_ends (s.tables.epochKey pid)
  generalize s.matchScan (s.tables.epochKey pid) = o at ends found
  cases ends with
  | hit hep key =>
    cases found
    exact h
  | gap hpending lo hi => exact h.newEpoch hpending found

end insert

namespace EventBuilder

/-- The loop of `EventBuilder::process`, without the table of the events. -/
def processLoopScan (app : EbApp) (epoch : Nat) (t0 : Int) :
    List EbDgram → EventBuilder → Option Nat → Option EbEvent → BitVec 32 →
    Except Thrown (EventBuilder × EbEvent × Option EbEvent × EbDgram)
  | [], s, _, _, _ => .error ⟨.overrun, s⟩
  | ctrb :: batch, s, cursor, due, imm =>
    match s.insertScan app epoch ctrb cursor imm t0 with
    | .error t => .error t
    | .ok (s, event) =>
      let (s, due) := s.settle app event due
      if ctrb.isEOL then .ok (s, event, due, ctrb)
      else processLoopScan app epoch t0 batch s (some event.addr) due (imm + 1#32)

/-- `EventBuilder::process`, without the lookup tables. -/
def processScan (app : EbApp) (s : EventBuilder) (batch : List EbDgram) (imm : BitVec 32) :
    Except Thrown EventBuilder :=
  let (t0, tables) := s.tables.now app
  let s := { s with tables }
  match batch.head? with
  | none => .error ⟨.overrun, s⟩
  | some ctrb =>
    match s.matchScan (s.tables.epochKey ctrb.pulseId) with
    | .error t => .error t
    | .ok (s, epoch) =>
      match processLoopScan app epoch.addr t0 batch s (epoch.pending.head?.map (·.addr)) none imm with
      | .error t => .error t
      | .ok (s, event, due, ctrb) => .ok (s.finish app event due ctrb t0)

end EventBuilder

section process
variable {off : UInt64} {app : EbApp} {config : EbConfig} {arrived : List EbDgram} {s : EventBuilder}
  {d : EbDgram} {batch : List EbDgram} {epoch key : Nat} {cursor : Option Nat} {due : Option EbEvent}

/-- One turn of the loop over a batch. -/
lemma Loop.turn {t0 imm r} (loop : Loop app config arrived s epoch key cursor due (d :: batch))
    (ascending : (d :: batch).Pairwise (·.pulseId < ·.pulseId))
    (inserted : s.insert app epoch d cursor imm t0 = .ok r) :
    Loop app config (arrived ++ [d]) (r.1.settle app r.2 due).1 epoch key (some r.2.addr)
      (r.1.settle app r.2 due).2 batch := by
  obtain ⟨ep, hep, rfl, hepkey, hcursor⟩ := loop.linked
  have key_d : s.tables.epochKey d.pulseId = ep.key :=
    (loop.keys d List.mem_cons_self).trans hepkey.symm
  have spec := @Sound.insert_spec _ _ _ _ _ _ loop.sound hep key_d cursor imm t0 hcursor
  rw [inserted] at spec
  have hconfig := spec.sound.config.trans loop.sound.config.symm
  have keys : ∀ x ∈ d :: batch, r.1.tables.epochKey x.pulseId = key := by
    rw [EbTables.epochKey_congr hconfig]
    exact loop.keys
  have old : ∀ x, due = some x → x ∈ s.events ∧ x.sequence < d.pulseId :=
    fun x hx => ⟨(loop.due x hx).1, (loop.due x hx).2 d List.mem_cons_self⟩
  have keys' : ∀ x ∈ batch, r.1.tables.epochKey x.pulseId = key :=
    fun x hx => keys x (List.mem_cons_of_mem d hx)
  exact (spec.settle (keys d List.mem_cons_self) keys' old ascending).1

/-- The loop over a batch does not need the table, and keeps the pools accounted for. -/
lemma Loop.processLoop_scan {t0 : Int} {imm : BitVec 32}
    (loop : Loop app config arrived s epoch key cursor due batch) (h : Accounted off s)
    (ascending : batch.Pairwise (·.pulseId < ·.pulseId)) :
    EventBuilder.processLoop app epoch t0 batch s cursor due imm =
        EventBuilder.processLoopScan app epoch t0 batch s cursor due imm ∧
      ∀ r, EventBuilder.processLoop app epoch t0 batch s cursor due imm = .ok r →
        Accounted off r.1 := by
  induction batch generalizing arrived s cursor due imm with
  | nil =>
    refine ⟨rfl, ?_⟩
    intro r e
    cases e
  | cons d batch ih =>
    obtain ⟨ep, hep, rfl, hepkey, hcursor⟩ := loop.linked
    have key_d : s.tables.epochKey d.pulseId = ep.key :=
      (loop.keys d List.mem_cons_self).trans hepkey.symm
    have scan := @Sound.insert_eq_scan app _ _ _ d _ loop.sound hep key_d cursor imm t0 hcursor
    rw [EventBuilder.processLoop, EventBuilder.processLoopScan, ← scan]
    cases inserted : s.insert app ep.addr d cursor imm t0 with
    | error t =>
      refine ⟨rfl, ?_⟩
      intro r e
      cases e
    | ok r =>
      have accounted := @Accounted.settle app _ _ (h.insert loop.sound hep key_d hcursor inserted) r.2 due
      have rest := @ih _ _ _ _ (imm + 1#32) (loop.turn ascending inserted) accounted ascending.of_cons
      simp only
      split
      · refine ⟨rfl, ?_⟩
        intro r' e
        cases e
        exact accounted
      · exact rest

/-- Processing a batch does not need the tables, and keeps the pools accounted for. -/
lemma Sound.process_scan (sound : Sound app config arrived s) (h : Accounted off s)
    (wf : WellFormed s.tables batch) (imm : BitVec 32) :
    s.process app batch imm = s.processScan app batch imm ∧
      ∀ t, s.process app batch imm = .ok t → Accounted off t := by
  have stamped : Sound app config arrived ⟨s.pending, (s.tables.now app).2⟩ :=
    sound.stamp ⟨rfl, rfl, rfl, rfl⟩ ⟨rfl, rfl, rfl, rfl⟩
  have h : Accounted off ⟨s.pending, (s.tables.now app).2⟩ := h.stamp rfl rfl
  obtain ⟨d, hd⟩ : ∃ d, batch.head? = some d := by
    obtain ⟨init, last, rfl, _⟩ := wf.closed
    cases init with
    | nil => exact ⟨last, rfl⟩
    | cons x _ => exact ⟨x, rfl⟩
  have spec := stamped.matchEpoch_spec d.pulseId
  simp only [EventBuilder.process, EventBuilder.processScan, hd, ← stamped.matchEpoch_eq_scan]
  cases found : EventBuilder.matchEpoch ⟨s.pending, (s.tables.now app).2⟩ d.pulseId with
  | error t =>
    refine ⟨rfl, ?_⟩
    intro t e
    cases e
  | ok r =>
    have h := h.matchEpoch stamped found
    rw [found] at spec
    obtain ⟨sound₁, hep, hkey, tables, -⟩ := spec
    have loop : Loop app config arrived r.1 r.2.addr r.2.key (r.2.pending.head?.map (·.addr)) none
        batch := by
      refine ⟨sound₁, ⟨r.2, hep, rfl, rfl, hasCursor_head r.2⟩, ?_, by simp⟩
      intro x hx
      have hconfig : r.1.tables.config = s.tables.config := tables.config
      rw [EbTables.epochKey_congr hconfig, hkey]
      exact wf.epoch x hx d (List.mem_of_head? hd)
    obtain ⟨scan, accounted⟩ :=
      @Loop.processLoop_scan _ _ _ _ _ _ _ _ _ _ (s.tables.now app).1 imm loop h wf.ascending
    simp only [← scan]
    cases done : EventBuilder.processLoop app r.2.addr (s.tables.now app).1 batch r.1
        (r.2.pending.head?.map (·.addr)) none imm with
    | error t =>
      refine ⟨by trivial, ?_⟩
      intro t e
      cases e
    | ok o =>
      refine ⟨by trivial, ?_⟩
      intro t e
      cases e
      exact (accounted o done).finish

end process

section clear
variable {off : UInt64} {app : EbApp} {config : EbConfig} {arrived : List EbDgram} {s : EventBuilder}
  {events : List EbEvent} {epochs : List EbEpoch} {t : EbTables}

/-- Deleting the events of a list frees them. -/
lemma deleteEvent_accounts (events rest : List EbEvent) (t : EbTables)
    (h : t.AccountsEvents (events ++ rest)) :
    (events.foldl EbTables.deleteEvent t).AccountsEvents rest := by
  induction events generalizing t with
  | nil => exact h
  | cons e events ih => exact ih _ (Accounts.free h)

/-- What deleting events leaves alone. -/
lemma deleteEvent_frame (events : List EbEvent) (t : EbTables) :
    (events.foldl EbTables.deleteEvent t).config = t.config ∧
      (events.foldl EbTables.deleteEvent t).epochFreelist = t.epochFreelist := by
  induction events generalizing t with
  | nil => exact ⟨rfl, rfl⟩
  | cons e events ih => exact ih _

/-- The two loops of `clear` free every event and leave every epoch empty. -/
lemma deleteEvents_spec (epochs : List EbEpoch) (t : EbTables)
    (h : t.AccountsEvents (epochs.flatMap (·.pending))) :
    (deleteEvents epochs t).1 = epochs.map (fun ep => { ep with pending := [] }) ∧
      (deleteEvents epochs t).2.AccountsEvents [] ∧
      (deleteEvents epochs t).2.config = t.config ∧
      (deleteEvents epochs t).2.epochFreelist = t.epochFreelist := by
  induction epochs generalizing t with
  | nil => exact ⟨rfl, h, rfl, rfl⟩
  | cons epoch rest ih =>
    obtain ⟨config, freelist⟩ := deleteEvent_frame epoch.pending t
    obtain ⟨list, accounts, config', freelist'⟩ :=
      ih _ (deleteEvent_accounts epoch.pending _ t h)
    refine ⟨?_, accounts, config'.trans config, freelist'.trans freelist⟩
    rw [List.map_cons, ← list]
    rfl

/-- Clearing the counters of a pool with no live objects. -/
lemma Accounts.clearCounters {pool : Option GenericPool} {off : UInt64} (h : Accounts off [] pool) :
    Accounts 0 [] (pool.map GenericPool.clearCounters) := by
  cases pool with
  | none => exact h.elim
  | some p => exact ⟨h.1, rfl⟩

/-- The free entries of a pool with no live objects. -/
lemma Accounts.nodup {pool : Option GenericPool} {off : UInt64} (h : Accounts off [] pool) :
    (freeEntries pool).Nodup := by
  cases pool with
  | none => exact List.nodup_nil
  | some p => exact h.1.nodup_iff.mpr List.nodup_range

/-- After `clear` nothing is pending and every object is free. -/
lemma Accounted.clear (h : Accounted off s) :
    s.clear.pending = [] ∧ s.clear.tables.config = s.tables.config ∧
      Accounted 0 s.clear := by
  obtain ⟨list, events, config, freelist⟩ := deleteEvents_spec s.pending s.tables h.events
  have epochs : (deleteEvents s.pending s.tables).2.AccountsEpochs off
      ((deleteEvents s.pending s.tables).1.reverse ++ []) := by
    rw [EbTables.AccountsEpochs, freelist]
    refine Accounts.perm h.epochs ?_
    rw [List.append_nil, list, List.map_reverse, List.map_map]
    exact List.reverse_perm _
  have epochs := discardEmpty_accounts _ _ _ epochs
  have gone := discardEmpty_list (deleteEvents s.pending s.tables).1.reverse
    (deleteEvents s.pending s.tables).2
  have same := discardEmpty_sameEvents (deleteEvents s.pending s.tables).1.reverse
    (deleteEvents s.pending s.tables).2
  have empty : (discardEmpty (deleteEvents s.pending s.tables).1.reverse
      (deleteEvents s.pending s.tables).2).1 = [] := by
    rw [gone, list, List.filter_eq_nil_iff]
    intro ep hep
    obtain ⟨ep', -, rfl⟩ := List.mem_map.mp (List.mem_reverse.mp hep)
    simp
  rw [empty, List.nil_append] at epochs
  have pending : s.clear.pending = [] := by
    show List.reverse _ = []
    rw [empty]
    rfl
  have none_ : s.clear.events = [] := by rw [EventBuilder.events, pending]; rfl
  refine ⟨pending, same.config.trans config, ?_, ?_⟩
  · rw [none_]
    show Accounts 0 [] (GenericPool.clearCounters <$> _)
    have freed := events
    rw [EbTables.AccountsEvents, ← same.eventFreelist] at freed
    exact Accounts.clearCounters freed
  · rw [pending]
    exact Accounts.clearCounters epochs

/-- After `clear` the builder is as sound as a new one. -/
lemma Sound.clear (sound : Sound app config arrived s) (h : Accounted off s) :
    Sound app config [] s.clear := by
  obtain ⟨pending, same, accounted⟩ := h.clear
  have none_ : s.clear.events = [] := by rw [EventBuilder.events, pending]; rfl
  have history : s.clear.history = [] := by
    rw [EventBuilder.history, none_]
    rfl
  have events := accounted.events
  have epochs := accounted.epochs
  rw [none_] at events
  rw [pending] at epochs
  refine ⟨same.trans sound.config, ?_, ⟨?_, ?_, ?_⟩, ⟨?_, ?_⟩, ⟨?_, ?_⟩, ?_, ?_, ?_⟩
  · rw [EbTables.epochKey_congr same]
    exact sound.mono
  · rw [pending]
    exact .nil
  · simp [pending]
  · simp [pending]
  · rw [pending]
    exact Accounts.nodup epochs
  · intro i a e
    cases e
  · rw [none_]
    exact Accounts.nodup events
  · intro i a e
    cases e
  · rw [history]
    intro pid
    rfl
  · rw [history]
    intro e he
    cases he
  · intro _ before event srcId age after split
    cases before with
    | nil => cases split
    | cons => cases split

end clear

/-- Calls with well-formed batches, over one connection. -/
def Connected (_ : List EventBuilder.Action) (s : EventBuilder) : EventBuilder.Action → Prop
  | .init _ _ _ _ => False
  | .call (.process batch _) => WellFormed s.tables batch
  | .call .expired | .clear => True

section run
variable {app : EbApp} {config : EbConfig} {s s₀ t : EventBuilder} {as : List EventBuilder.Action}
  {timeout epochs entries sources : Nat} {duration : BitVec 64} {off : UInt64}

/-- A new builder has all its objects free. -/
lemma Accounted.initial
    (init : (EventBuilder.new timeout).initialized epochs entries sources duration = some s₀) :
    Accounted 0 s₀ := by
  unfold EventBuilder.initialized at init
  split at init
  · cases init
  · simp only [EventBuilder.new, Option.all_none, Bool.true_or, if_true] at init
    cases init
    exact ⟨⟨List.Perm.refl _, rfl⟩, ⟨List.Perm.refl _, rfl⟩⟩

/-- Every call keeps the builder sound, since the last `clear`, and accounted for. -/
lemma Accounted.act {a : EventBuilder.Action} (h : Accounted off s)
    (sound : ∃ arrived, Sound app config arrived s) (ok : Connected as s a)
    (step : s.act app a = .ok t) :
    (Accounted off t ∨ Accounted 0 t) ∧ ∃ arrived, Sound app config arrived t := by
  obtain ⟨arrived, sound⟩ := sound
  cases a with
  | init epochs entries sources duration => exact ok.elim
  | call op =>
    cases op with
    | process batch imm =>
      have step : s.process app batch imm = .ok t := step
      have spec := sound.process_spec ok imm
      rw [step] at spec
      exact ⟨.inl ((sound.process_scan h ok imm).2 t step), _, spec.1⟩
    | expired =>
      cases step
      exact ⟨.inl h.expired, arrived, sound.expired⟩
  | clear =>
    cases step
    exact ⟨.inr h.clear.2.2, [], sound.clear h⟩

/-- Tables and pools are consistent: in every state of a run of `process`, `expired` and `clear` each
    table entry leads to a live object of its index; processing a batch comes to the same without the
    tables, and never follows a pointer to a freed object; each address of a pool is that of one live
    object or free once, and what was allocated but the live objects was freed; and `clear` leaves
    every object free. -/
theorem tables_consistent
    (init : (EventBuilder.new timeout).initialized epochs entries sources duration = some s₀)
    (run : Run (EventBuilder.act app) Connected s₀ as s) :
    (∀ i a, s.tables.epochLut i = some a →
      ∃ ep ∈ s.pending, ep.addr = a ∧ s.tables.epIndex ep.key = i) ∧
    (∀ i a, s.tables.eventLut i = some a →
      ∃ e ∈ s.events, e.addr = a ∧ s.tables.evIndex e.sequence = i) ∧
    (∀ batch imm, WellFormed s.tables batch →
      s.process app batch imm = s.processScan app batch imm ∧
        ∀ t, s.process app batch imm = .error t → t.fault ≠ .dangling) ∧
    (∃ p, s.tables.epochFreelist = some p ∧
      (s.pending.map (·.addr) ++ p.entries).Perm (List.range p.numberofObjects) ∧
      p.numberofAllocs = p.numberofFrees + UInt64.ofNat s.pending.length) ∧
    (∃ p, s.tables.eventFreelist = some p ∧
      (s.events.map (·.addr) ++ p.entries).Perm (List.range p.numberofObjects) ∧
      p.numberofAllocs = p.numberofFrees + UInt64.ofNat s.events.length) ∧
    ∃ epochs events, s.clear.tables.epochFreelist = some epochs ∧
      s.clear.tables.eventFreelist = some events ∧
      epochs.entries.Perm (List.range epochs.numberofObjects) ∧
      events.entries.Perm (List.range events.numberofObjects) := by
  have next : ∀ as s a t, (Accounted 0 s ∧ ∃ arrived, Sound app s₀.tables.config arrived s) →
      Connected as s a → s.act app a = .ok t →
      Accounted 0 t ∧ ∃ arrived, Sound app s₀.tables.config arrived t := by
    intro _ _ _ _ inv ok step
    obtain ⟨accounted, sound⟩ := inv.1.act inv.2 ok step
    exact ⟨accounted.elim id id, sound⟩
  obtain ⟨accounted, arrived, sound⟩ := run.invariant
    (P := fun _ s => Accounted 0 s ∧ ∃ arrived, Sound app s₀.tables.config arrived s)
    ⟨.initial init, [], Sound.initial init⟩ next
  -- what `Accounts` says of a pool
  have holds : ∀ {live : List Nat} {pool : Option GenericPool}, Accounts 0 live pool →
      ∃ p, pool = some p ∧ (live ++ p.entries).Perm (List.range p.numberofObjects) ∧
        p.numberofAllocs = p.numberofFrees + UInt64.ofNat live.length := by
    intro live pool h
    cases pool with
    | none => exact h.elim
    | some p => exact ⟨p, rfl, h.1, (UInt64.add_zero _).symm.trans h.2⟩
  refine ⟨sound.epochs.live, sound.events.live, ?_, ?_, ?_, ?_⟩
  · intro batch imm wf
    refine ⟨(sound.process_scan accounted wf imm).1, ?_⟩
    intro t thrown dangling
    have spec := sound.process_spec wf imm
    rw [thrown] at spec
    rcases spec with noEpoch | ⟨part, d, rest, s', _, _, refused, _⟩
    · rw [noEpoch.1] at dangling
      cases dangling
    · rw [dangling] at refused
      cases refused
  · obtain ⟨p, e, cells, counts⟩ := holds accounted.epochs
    rw [List.length_map] at counts
    exact ⟨p, e, cells, counts⟩
  · obtain ⟨p, e, cells, counts⟩ := holds accounted.events
    rw [List.length_map] at counts
    exact ⟨p, e, cells, counts⟩
  · obtain ⟨pending, -, cleared⟩ := accounted.clear
    have none_ : s.clear.events = [] := by rw [EventBuilder.events, pending]; rfl
    obtain ⟨p, e, cells, -⟩ := holds cleared.epochs
    obtain ⟨p', e', cells', -⟩ := holds cleared.events
    rw [pending] at cells
    rw [none_] at cells'
    exact ⟨p, p', e, e', cells, cells'⟩

end run

/-- A builder with two epochs and two events, so that pulse IDs that differ by 2 collide. -/
def smallEb : EventBuilder := ((EventBuilder.new 1000).initialized 1 1 2 1#64).getD (.new 0)

/-- With two pulse IDs that collide in both tables all objects are in use; after `clear` all are
    free. -/
theorem tables_consistent_collision :
    ∃ s, Run (EventBuilder.act twoSources) Connected smallEb
        [.call (.process [single 4 0] 0#32), .call (.process [single 6 0] 0#32)] s ∧
      s.tables.evIndex 4 = s.tables.evIndex 6 ∧ s.events.map EbEvent.sequence = [4, 6] ∧
      ∃ epochs events, s.clear.tables.epochFreelist = some epochs ∧
        s.clear.tables.eventFreelist = some events ∧
        epochs.entries.Perm (List.range epochs.numberofObjects) ∧
        events.entries.Perm (List.range events.numberofObjects) := by
  have check : passes (fun s₁ => passes (fun s₂ =>
        decide (s₂.tables.evIndex 4 = s₂.tables.evIndex 6 ∧
          s₂.events.map EbEvent.sequence = [4, 6]))
        (EventBuilder.act twoSources s₁ (.call (.process [single 6 0] 0#32))))
      (EventBuilder.act twoSources smallEb (.call (.process [single 4 0] 0#32))) = true := by
    decide +kernel
  obtain ⟨s₁, h₁, check⟩ := passes_iff.mp check
  obtain ⟨s₂, h₂, check⟩ := passes_iff.mp check
  have run : Run (EventBuilder.act twoSources) Connected smallEb
      [.call (.process [single 4 0] 0#32), .call (.process [single 6 0] 0#32)] s₂ :=
    (Run.nil.snoc (single_wellFormed _ 4 0) h₁).snoc (single_wellFormed _ 6 0) h₂
  have init : (EventBuilder.new 1000).initialized 1 1 2 1#64 = some smallEb := rfl
  obtain ⟨collide, both⟩ := of_decide_eq_true check
  exact ⟨s₂, run, collide, both, (tables_consistent init run).2.2.2.2.2⟩

end Lcls2.Eb
