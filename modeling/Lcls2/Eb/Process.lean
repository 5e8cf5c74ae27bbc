import Lcls2.Eb.Insert

/-!
# Processing a batch

`EventBuilder::process` carries a cursor and a due event from one contribution of a batch to the next
and flushes in the middle. `Loop` is the invariant of this loop, `processLoop_spec` what it comes to.

`Ordered` says that the events there have been are in the order of their pulse IDs. It is kept when
no contribution is for a pulse ID that was processed before, which is what `Ahead` asks for a batch;
the rest of the invariant does not need it.
-/

namespace Lcls2.Eb
open Lcls2.Lib

/-- A chain of contributions closed by end-of-list, ascending within one epoch. -/
structure WellFormed (t : EbTables) (batch : List EbDgram) : Prop where
  closed : ∃ init last, batch = init ++ [last] ∧ last.isEOL = true ∧ ∀ d ∈ init, d.isEOL = false
  ascending : batch.Pairwise (·.pulseId < ·.pulseId)
  epoch : ∀ d ∈ batch, ∀ d' ∈ batch, t.epochKey d.pulseId = t.epochKey d'.pulseId

/-- The events there have been are in the order of their pulse IDs. -/
def Ordered (s : EventBuilder) : Prop := s.history.Pairwise (·.sequence < ·.sequence)

/-- The contributions to come are for pulse IDs after those processed. -/
def Ahead (s : EventBuilder) (batch : List EbDgram) : Prop :=
  Ordered s ∧ ∀ e ∈ s.tables.processed, ∀ d ∈ batch, e.sequence < d.pulseId

section order
variable {app : EbApp} {config : EbConfig} {arrived : List EbDgram} {s s' : EventBuilder}
  {due e : EbEvent}

/-- A flush processes nothing behind the due event. -/
lemma Flush.processed_le {now events t events' t'} (walk : Flush app due now events t events' t')
    (sorted : events.Pairwise (·.sequence < ·.sequence)) (mem : due ∈ events) :
    ∀ y ∈ t'.processed, y ∈ t.processed ∨ y.sequence ≤ due.sequence := by
  induction walk with
  | stop => exact fun _ h => .inl h
  | @last e events t _ _ =>
    intro y hy
    obtain ⟨e', same, h⟩ := release_processed app now t e
    rw [h] at hy
    rcases List.mem_append.mp hy with hy | hy
    · exact .inl hy
    · rw [List.mem_singleton.mp hy, ← undamaged_sequence, same, undamaged_sequence]
      rcases List.mem_cons.mp mem with rfl | mem
      · exact .inr (le_refl _)
      · exact .inr (Nat.le_of_lt (List.rel_of_pairwise_cons sorted mem))
  | @next e events t _ _ _ other _ ih =>
    have mem : due ∈ events := by
      rcases List.mem_cons.mp mem with rfl | mem
      · exact absurd rfl other
      · exact mem
    intro y hy
    obtain ⟨e', same, h⟩ := release_processed app now t e
    rcases ih sorted.of_cons mem y hy with hy | hy
    · rw [h] at hy
      rcases List.mem_append.mp hy with hy | hy
      · exact .inl hy
      · rw [List.mem_singleton.mp hy, ← undamaged_sequence, same, undamaged_sequence]
        exact .inr (Nat.le_of_lt (List.rel_of_pairwise_cons sorted mem))
    · exact .inr hy

/-- `_flush(due)` is the walk over the pending events. -/
lemma flushDue_flush (app : EbApp) (s : EventBuilder) (due : EbEvent) :
    Flush app due (s.tables.now app).1 s.events
      { (s.tables.now app).2 with tLastFlush := (s.tables.now app).1 }
      (s.flushDue app due).events (s.flushDue app due).tables :=
  flushEpochs_flush s.pending _

lemma flushDue_trimmed (app : EbApp) (s : EventBuilder) (due : EbEvent) :
    List.Forall₂ EbEpoch.Trimmed s.pending (s.flushDue app due).pending :=
  flushEpochs_trimmed s.pending _

lemma Sound.flushDue_processed (sound : Sound app config arrived s) (hdue : due ∈ s.events) :
    ∀ y ∈ (s.flushDue app due).tables.processed,
      y ∈ s.tables.processed ∨ y.sequence ≤ due.sequence :=
  (flushDue_flush app s due).processed_le sound.events_sorted hdue

/-- A flush keeps the order. -/
lemma Ordered.flushDue (ordered : Ordered s) : Ordered (s.flushDue app due) := by
  have same : ((s.flushDue app due).history.map EbEvent.undamaged).map EbEvent.sequence =
      (s.history.map EbEvent.undamaged).map EbEvent.sequence :=
    congrArg _ (flushDue_flush app s due).history
  simp only [List.map_map] at same
  have h : s.history.Pairwise fun x y => x.sequence < y.sequence := ordered
  rw [← List.pairwise_map (f := EbEvent.sequence) (R := (· < ·))] at h
  refine List.pairwise_map.mp ?_
  have same : (s.flushDue app due).history.map EbEvent.sequence =
    s.history.map EbEvent.sequence := same
  rw [same]
  exact h

/-- An event behind the due event stays in its epoch. -/
lemma Sound.flushDue_linked (sound : Sound app config arrived s) (hdue : due ∈ s.events)
    {ep} (hep : ep ∈ s.pending) (he : e ∈ ep.pending) (lt : due.sequence < e.sequence) :
    ∃ ep' ∈ (s.flushDue app due).pending, ep'.addr = ep.addr ∧ ep'.key = ep.key ∧
      e ∈ ep'.pending := by
  have mem : e ∈ s.events := List.mem_flatMap.mpr ⟨ep, hep, he⟩
  obtain ⟨before, after, split⟩ := List.append_of_mem hdue
  have sorted := sound.events_sorted
  rw [split, List.pairwise_append] at sorted
  have behind : e ∈ after := by
    rw [split] at mem
    rcases List.mem_append.mp mem with mem | mem
    · have := sorted.2.2 e mem due (by simp)
      omega
    · rcases List.mem_cons.mp mem with rfl | mem
      · exact absurd lt (lt_irrefl _)
      · exact mem
  have stays : e ∈ (s.flushDue app due).events :=
    ((flushDue_flush app s due).keeps split rfl).subset behind
  obtain ⟨ep', hep', he'⟩ := List.mem_flatMap.mp stays
  have trim := flushDue_trimmed app s due
  obtain ⟨i, hi, rfl⟩ := List.getElem_of_mem hep'
  have hi' : i < s.pending.length := trim.length_eq ▸ hi
  obtain ⟨addr, key, suffix⟩ := trim.get hi' hi
  have same : s.pending[i] = ep := by
    refine sound.shape.key_inj (List.getElem_mem hi') hep ?_
    rw [← sound.shape.keyed _ (List.getElem_mem hi') e (suffix.subset he'),
      sound.shape.keyed ep hep e he]
  refine ⟨_, List.getElem_mem hi, ?_, ?_, he'⟩
  · exact addr.trans (congrArg EbEpoch.addr same)
  · exact key.trans (congrArg EbEpoch.key same)

end order

/-- What the loop over a batch keeps; `batch` is what is left of it. -/
structure Loop (app : EbApp) (config : EbConfig) (arrived : List EbDgram) (s : EventBuilder)
    (epoch key : Nat) (cursor : Option Nat) (due : Option EbEvent) (batch : List EbDgram) :
    Prop where
  sound : Sound app config arrived s
  linked : ∃ ep ∈ s.pending, ep.addr = epoch ∧ ep.key = key ∧ ep.HasCursor cursor
  keys : ∀ d ∈ batch, s.tables.epochKey d.pulseId = key
  due : ∀ x, due = some x → x ∈ s.events ∧ ∀ d ∈ batch, x.sequence < d.pulseId

section loop
variable {app : EbApp} {config : EbConfig} {arrived : List EbDgram} {s s' : EventBuilder}
  {d : EbDgram} {batch : List EbDgram} {epoch key : Nat} {cursor : Option Nat}
  {due : Option EbEvent} {e : EbEvent}

/-- An inserted contribution keeps the order if its pulse ID is ahead. -/
lemma Inserted.ahead (ins : Inserted app config arrived s d epoch s' e)
    (ahead : Ahead s (d :: batch)) : Ahead s' batch := by
  have processed : s'.tables.processed = s.tables.processed := by
    simp only [EbTables.processed, ins.calls]
  obtain ⟨ordered, lt⟩ := ahead
  have ordered : (s.tables.processed ++ s.events).Pairwise (·.sequence < ·.sequence) := ordered
  rw [List.pairwise_append] at ordered
  refine ⟨?_, ?_⟩
  · unfold Ordered EventBuilder.history
    rw [processed, List.pairwise_append]
    refine ⟨ordered.1, ins.sound.events_sorted, ?_⟩
    intro x hx y hy
    rcases ins.origin y hy with seq | hy
    · rw [seq]
      exact lt x hx d (by simp)
    · exact ordered.2.2 x hx y hy
  · intro x hx y hy
    rw [processed] at hx
    exact lt x hx y (List.mem_cons_of_mem _ hy)

/-- What one turn of the loop does after the insertion. -/
lemma Inserted.settle (ins : Inserted app config arrived s d epoch s' e)
    (hkey : s'.tables.epochKey d.pulseId = key)
    (keys : ∀ x ∈ batch, s'.tables.epochKey x.pulseId = key)
    (hdue : ∀ x, due = some x → x ∈ s.events ∧ x.sequence < d.pulseId)
    (ascending : (d :: batch).Pairwise (·.pulseId < ·.pulseId)) :
    Loop app config (arrived ++ [d]) (s'.settle app e due).1 epoch key (some e.addr)
      (s'.settle app e due).2 batch ∧
    (∀ x, (s'.settle app e due).2 = some x → x ∈ (s'.settle app e due).1.events) ∧
    e ∈ (s'.settle app e due).1.events ∧
    (Ahead s' batch → Ahead (s'.settle app e due).1 batch) := by
  obtain ⟨ep, hep, rfl, hepkey, he⟩ := ins.linked
  rw [hkey] at hepkey
  have lt : ∀ x ∈ batch, d.pulseId < x.pulseId := fun x hx => List.rel_of_pairwise_cons ascending hx
  have old : ∀ x, due = some x → x ∈ s'.events ∧ ∀ y ∈ batch, x.sequence < y.pulseId := by
    intro x hx
    obtain ⟨hmem, hlt⟩ := hdue x hx
    exact ⟨ins.kept x hmem (Nat.ne_of_lt hlt), fun y hy => hlt.trans (lt y hy)⟩
  have mem : e ∈ s'.events := List.mem_flatMap.mpr ⟨ep, hep, he⟩
  have new : ∀ x, some e = some x → x ∈ s'.events ∧ ∀ y ∈ batch, x.sequence < y.pulseId := by
    rintro x ⟨⟩
    exact ⟨mem, fun y hy => ins.sequence ▸ lt y hy⟩
  have keep : ∀ due', (∀ x, due' = some x → x ∈ s'.events ∧ ∀ y ∈ batch, x.sequence < y.pulseId) →
      Loop app config (arrived ++ [d]) s' ep.addr key (some e.addr) due' batch :=
    fun due' h => ⟨ins.sound, ⟨ep, hep, rfl, hepkey, e, he, rfl⟩, keys, h⟩
  unfold EventBuilder.settle
  split
  · split
    · exact ⟨keep _ new, fun x hx => (new x hx).1, mem, id⟩
    · rename_i x
      split
      · -- the due event of another contract is flushed; this event is behind it and stays
        obtain ⟨hx, hlt⟩ := hdue x rfl
        have hx' := ins.kept x hx (Nat.ne_of_lt hlt)
        have sound := ins.sound.flushDue hx'
        have hconfig := sound.config.trans ins.sound.config.symm
        obtain ⟨ep', hep', addr, hkey', he'⟩ :=
          ins.sound.flushDue_linked hx' hep he (by rw [ins.sequence]; exact hlt)
        have mem' : e ∈ (s'.flushDue app x).events := List.mem_flatMap.mpr ⟨ep', hep', he'⟩
        refine ⟨⟨sound, ⟨ep', hep', addr, hkey'.trans hepkey, e, he', rfl⟩, ?_, ?_⟩, ?_, mem', ?_⟩
        · rw [EbTables.epochKey_congr hconfig]
          exact keys
        · rintro y ⟨⟩
          exact ⟨mem', (new e rfl).2⟩
        · rintro y ⟨⟩
          exact mem'
        · rintro ⟨ordered, ahead⟩
          refine ⟨ordered.flushDue, ?_⟩
          intro y hy z hz
          rcases ins.sound.flushDue_processed hx' y hy with hy | hy
          · exact ahead y hy z hz
          · exact Nat.lt_of_le_of_lt hy (hlt.trans (lt z hz))
      · exact ⟨keep _ new, fun x hx => (new x hx).1, mem, id⟩
  · exact ⟨keep _ old, fun x hx => (old x hx).1, mem, id⟩

/-- What the loop over a batch comes to: all of it is recorded, or a contribution was refused after
    the part before it had been recorded. -/
def LoopSpec (app : EbApp) (config : EbConfig) (arrived : List EbDgram) (s : EventBuilder)
    (batch : List EbDgram) :
    Except Thrown (EventBuilder × EbEvent × Option EbEvent × EbDgram) → Prop
  | .ok (s', _, due, _) => Sound app config (arrived ++ batch) s' ∧
      (∀ x, due = some x → x ∈ s'.events) ∧ (Ahead s batch → Ordered s')
  | .error t => ∃ part d rest s', batch = part ++ d :: rest ∧
      Sound app config (arrived ++ part) s' ∧ Refused app s' d t.fault ∧
      t.state.tables.calls = s'.tables.calls ∧ (Ahead s batch → Ahead s' (d :: rest))

/-- The loop over a batch. -/
lemma Loop.processLoop_spec {t0 : Int} {imm : BitVec 32} (loop : Loop app config arrived s epoch key cursor due batch)
    (closed : ∃ init last, batch = init ++ [last] ∧ last.isEOL = true ∧
      ∀ d ∈ init, d.isEOL = false)
    (ascending : batch.Pairwise (·.pulseId < ·.pulseId)) :
    LoopSpec app config arrived s batch
      (EventBuilder.processLoop app epoch t0 batch s cursor due imm) := by
  induction batch generalizing arrived s cursor due imm with
  | nil =>
    obtain ⟨init, last, h, _⟩ := closed
    simp at h
  | cons d batch ih =>
    obtain ⟨ep, hep, rfl, hepkey, hcursor⟩ := loop.linked
    have key_d : s.tables.epochKey d.pulseId = ep.key := (loop.keys d (by simp)).trans hepkey.symm
    have spec := @Sound.insert_spec _ _ _ _ _ _ loop.sound hep key_d cursor imm t0 hcursor
    rw [EventBuilder.processLoop]
    generalize s.insert app ep.addr d cursor imm t0 = r at spec
    cases r with
    | error t => exact ⟨[], d, batch, s, rfl, by simpa using loop.sound, spec.1, spec.2, id⟩
    | ok r =>
      obtain ⟨s₁, e⟩ := r
      have hconfig := spec.sound.config.trans loop.sound.config.symm
      have keys : ∀ x ∈ d :: batch, s₁.tables.epochKey x.pulseId = key := by
        rw [EbTables.epochKey_congr hconfig]
        exact loop.keys
      have old : ∀ x, due = some x → x ∈ s.events ∧ x.sequence < d.pulseId :=
        fun x hx => ⟨(loop.due x hx).1, (loop.due x hx).2 d (by simp)⟩
      have keys' : ∀ x ∈ batch, s₁.tables.epochKey x.pulseId = key :=
        fun x hx => keys x (by simp [hx])
      obtain ⟨loop', hdue, _, order⟩ := spec.settle (keys d (by simp)) keys' old ascending
      have order : Ahead s (d :: batch) → Ahead (s₁.settle app e due).1 batch :=
        fun ahead => order (spec.ahead ahead)
      simp only
      split
      · rename_i eol
        have last : batch = [] := by
          obtain ⟨init, last, h, _, notEol⟩ := closed
          cases init with
          | nil =>
            rw [List.nil_append] at h
            exact (List.cons.inj h).2
          | cons x init =>
            obtain ⟨rfl, _⟩ := List.cons.inj h
            rw [notEol d (by simp)] at eol
            exact Bool.noConfusion eol
        subst last
        exact ⟨loop'.sound, hdue, fun ahead => (order ahead).1⟩
      · rename_i notEol
        have closed' : ∃ init last, batch = init ++ [last] ∧ last.isEOL = true ∧
            ∀ x ∈ init, x.isEOL = false := by
          obtain ⟨init, last, h, eol, notEol'⟩ := closed
          cases init with
          | nil =>
            obtain ⟨rfl, _⟩ := List.cons.inj h
            exact absurd eol notEol
          | cons x init =>
            obtain ⟨_, h⟩ := List.cons.inj h
            exact ⟨init, last, h, eol, fun y hy => notEol' y (by simp [hy])⟩
        have rest := @ih _ _ _ _ (imm + 1#32) loop' closed' ascending.of_cons
        generalize EventBuilder.processLoop app ep.addr t0 batch _ _ _ _ = r at rest
        cases r with
        | ok r =>
          obtain ⟨sound, hdue, ordered⟩ := rest
          exact ⟨by simpa using sound, hdue, fun ahead => ordered (order ahead)⟩
        | error t =>
          obtain ⟨part, x, rest, s', rfl, sound, refused, calls, ahead'⟩ := rest
          exact ⟨d :: part, x, rest, s', rfl, by simpa using sound, refused, calls,
            fun ahead => ahead' (order ahead)⟩

end loop

end Lcls2.Eb
