import Lcls2.Eb.Sound

/-!
# Inserting a contribution

`EventBuilder::_insert` finds the event of a contribution by the lookup table or by a scan from the
cursor, or makes a new one; `EventBuilder::_match` does the same for the epoch. The two specs are:

* `insert_spec`: the contribution is recorded with the event of its pulse ID, in its epoch, and the
  other events stay; or the builder throws, and `Refused` says on what account;
* `matchEpoch_spec`: the epoch of a pulse ID is pending, and no event changed.

Adding to an event and linking a new one are one operation on the sorted list, `Sound.place`, which
replaces the events of one pulse ID (one or none) by one that has a contribution more.
-/

namespace Lcls2.Eb
open Lcls2.Lib

@[simp] lemma srcBit_getLsbD (src i : Nat) :
    (srcBit src).getLsbD i = decide (i = src ∧ i < 64) := by
  rw [srcBit, BitVec.getLsbD_shiftLeft, BitVec.getLsbD_one, Bool.eq_iff_iff]
  simp only [Bool.and_eq_true, Bool.not_eq_true', decide_eq_true_eq, decide_eq_false_iff_not]
  omega

/-- Taking down the bit of a source. -/
lemma takeDown_getLsbD (bits : BitVec 64) (src i : Nat) :
    (bits &&& ~~~srcBit src).getLsbD i = (bits.getLsbD i && decide (i ≠ src)) := by
  by_cases lt : i < 64
  · rw [BitVec.getLsbD_and, BitVec.getLsbD_not, srcBit_getLsbD]
    simp [lt]
  · have h : bits.getLsbD i = false := BitVec.getLsbD_of_ge _ _ (Nat.le_of_not_lt lt)
    simp [h]

/-- No bit was taken down if the source had none. -/
lemma takeDown_eq_self {bits : BitVec 64} {src : Nat} :
    bits &&& ~~~srcBit src = bits ↔ bits.getLsbD src = false := by
  constructor
  · intro h
    have h := congrArg (BitVec.getLsbD · src) h
    simpa [takeDown_getLsbD] using h.symm
  · intro h
    refine BitVec.eq_of_getLsbD_eq ?_
    intro i _
    rw [takeDown_getLsbD]
    by_cases e : i = src
    · simp [e, h]
    · simp [e]

/-- What the insertion of a contribution leaves as it was in the tables. -/
structure EbTables.Untouched (t t' : EbTables) : Prop where
  config : t'.config = t.config
  epochLut : t'.epochLut = t.epochLut
  epochFreelist : t'.epochFreelist = t.epochFreelist
  calls : t'.calls = t.calls

/-- The outcome of inserting `d` into the epoch at an address. -/
structure Inserted (app : EbApp) (config : EbConfig) (arrived : List EbDgram) (s : EventBuilder)
    (d : EbDgram) (epoch : Nat) (s' : EventBuilder) (e : EbEvent) : Prop where
  sound : Sound app config (arrived ++ [d]) s'
  linked : ∃ ep ∈ s'.pending, ep.addr = epoch ∧ ep.key = s'.tables.epochKey d.pulseId ∧
    e ∈ ep.pending
  sequence : e.sequence = d.pulseId
  kept : ∀ x ∈ s.events, x.sequence ≠ d.pulseId → x ∈ s'.events
  origin : ∀ x ∈ s'.events, x.sequence = d.pulseId ∨ x ∈ s.events
  calls : s'.tables.calls = s.tables.calls

/-- Why the builder throws on a contribution. -/
inductive Refused (app : EbApp) (s : EventBuilder) (d : EbDgram) : EbFault → Prop where
  | noEvent :
    Refused app s d .noEvent
  | notInContract :
    (∀ e ∈ s.events, e.sequence ≠ d.pulseId) →
    (app.contract d).getLsbD d.src = false →
    Refused app s d .notInContract
  | notRemaining {e} :
    e ∈ s.events →
    e.sequence = d.pulseId →
    e.remaining.getLsbD d.src = false →
    Refused app s d .notRemaining

/-- What inserting a contribution may come to. -/
def InsertSpec (app : EbApp) (config : EbConfig) (arrived : List EbDgram) (s : EventBuilder)
    (d : EbDgram) (epoch : Nat) : Except Thrown (EventBuilder × EbEvent) → Prop
  | .ok (s', e) => Inserted app config arrived s d epoch s' e
  | .error t => Refused app s d t.fault ∧ t.state.tables.calls = s.tables.calls

section place
variable {app : EbApp} {config : EbConfig} {arrived : List EbDgram} {s s' : EventBuilder}
  {d : EbDgram} {pre post : List EbEpoch} {ep : EbEpoch} {l₁ old l₂ : List EbEvent} {e : EbEvent}

/-- The events of later epochs are later than all that belongs to an epoch. -/
lemma Sound.later (sound : Sound app config arrived s) (hpending : s.pending = pre ++ ep :: post)
    (key : s.tables.epochKey d.pulseId = ep.key) {x} (hx : x ∈ post.flatMap (·.pending)) :
    d.pulseId < x.sequence := by
  obtain ⟨ep', hep', hx⟩ := List.mem_flatMap.mp hx
  by_contra ge
  have le := sound.mono x.sequence d.pulseId (Nat.le_of_not_lt ge) (EbDgram.pulseId_lt _)
  have keys := sound.shape.keys
  rw [hpending, List.pairwise_append] at keys
  have lt := List.rel_of_pairwise_cons keys.2.1 hep'
  have keyed := sound.shape.keyed ep' (by simp [hpending, hep']) x hx
  omega

/-- Replacing the events of one pulse ID in an epoch by one with a contribution more. -/
lemma Sound.place (sound : Sound app config arrived s)
    (hpending : s.pending = pre ++ ep :: post) (hep : ep.pending = l₁ ++ old ++ l₂)
    (lo : ∀ x ∈ l₁, x.sequence < d.pulseId) (hi : ∀ x ∈ l₂, d.pulseId < x.sequence)
    (hold : ∀ x ∈ old, x.sequence = d.pulseId)
    (key : s.tables.epochKey d.pulseId = ep.key) (seq : e.sequence = d.pulseId)
    (gain : e.contributions = old.flatMap (·.contributions) ++ [d]) (credit : e.Credit app)
    (hpending' : s'.pending = pre ++ { ep with pending := l₁ ++ e :: l₂ } :: post)
    (tables : s.tables.Untouched s'.tables)
    (holds : s'.tables.HoldsEvents s'.events) :
    Inserted app config arrived s d ep.addr s' e := by
  have processed : s'.tables.processed = s.tables.processed := by
    rw [EbTables.processed, tables.calls, EbTables.processed]
  have mem : ep ∈ s.pending := by simp [hpending]
  -- The events before, at and behind the place.
  have hevents : s.events = (pre.flatMap (·.pending) ++ l₁) ++ old ++
      (l₂ ++ post.flatMap (·.pending)) := by
    simp [EventBuilder.events, hpending, hep]
  have hevents' : s'.events = (pre.flatMap (·.pending) ++ l₁) ++ [e] ++
      (l₂ ++ post.flatMap (·.pending)) := by
    simp [EventBuilder.events, hpending']
  have hhistory : ∀ pid, recorded s.history pid =
      recorded (s.tables.processed ++ (pre.flatMap (·.pending) ++ l₁)) pid ++ recorded old pid ++
        recorded (l₂ ++ post.flatMap (·.pending)) pid := by
    intro pid
    rw [EventBuilder.history, hevents]
    simp only [recorded_append, List.append_assoc]
  have hhistory' : ∀ pid, recorded s'.history pid =
      recorded (s.tables.processed ++ (pre.flatMap (·.pending) ++ l₁)) pid ++ recorded [e] pid ++
        recorded (l₂ ++ post.flatMap (·.pending)) pid := by
    intro pid
    rw [EventBuilder.history, hevents', processed]
    simp only [recorded_append, List.append_assoc]
  -- Nothing behind the place has this pulse ID.
  have behind : ∀ x ∈ l₂ ++ post.flatMap (·.pending), x.sequence ≠ d.pulseId := by
    intro x hx
    rcases List.mem_append.mp hx with hx | hx
    · exact Nat.ne_of_gt (hi x hx)
    · exact Nat.ne_of_gt (sound.later hpending key hx)
  refine ⟨⟨?_, ?_, ⟨?_, ?_, ?_⟩, ?_, holds, ?_, ?_, ?_⟩, ?_, seq, ?_, ?_, ?_⟩
  · exact tables.config.trans sound.config
  · rw [EbTables.epochKey_congr tables.config]
    exact sound.mono
  · have keys := sound.shape.keys
    rw [hpending, List.pairwise_append, List.pairwise_cons] at keys
    rw [hpending', List.pairwise_append, List.pairwise_cons]
    exact ⟨keys.1, keys.2.1, fun x hx y hy => by
      rcases List.mem_cons.mp hy with rfl | hy
      · exact keys.2.2 x hx ep (by simp)
      · exact keys.2.2 x hx y (by simp [hy])⟩
  · intro x hx
    rw [hpending'] at hx
    rcases List.mem_append.mp hx with hx | hx
    · exact sound.shape.sorted x (by simp [hpending, hx])
    · rcases List.mem_cons.mp hx with rfl | hx
      · have sorted := sound.shape.sorted ep mem
        rw [hep, List.append_assoc, List.pairwise_append, List.pairwise_append] at sorted
        rw [List.pairwise_append, List.pairwise_cons, seq]
        refine ⟨sorted.1, ⟨hi, sorted.2.1.2.1⟩, ?_⟩
        intro x₁ hx₁ x₂ hx₂
        rcases List.mem_cons.mp hx₂ with rfl | hx₂
        · exact seq ▸ lo x₁ hx₁
        · exact sorted.2.2 x₁ hx₁ x₂ (by simp [hx₂])
      · exact sound.shape.sorted x (by simp [hpending, hx])
  · intro x hx y hy
    rw [hpending'] at hx
    rw [EbTables.epochKey_congr tables.config]
    rcases List.mem_append.mp hx with hx | hx
    · exact sound.shape.keyed x (by simp [hpending, hx]) y hy
    · rcases List.mem_cons.mp hx with rfl | hx
      · rcases List.mem_append.mp hy with hy | hy
        · exact sound.shape.keyed ep mem y (by simp [hep, hy])
        · rcases List.mem_cons.mp hy with rfl | hy
          · rw [seq]
            exact key
          · exact sound.shape.keyed ep mem y (by simp [hep, hy])
      · exact sound.shape.keyed x (by simp [hpending, hx]) y hy
  · unfold EbTables.HoldsEpochs
    rw [tables.epochLut, tables.epochFreelist, EbTables.epIndex_congr tables.config]
    refine sound.epochs.congr ?_
    simp only [hpending, hpending', List.map_append, List.map_cons]
  · intro pid
    have h := sound.recorded_eq pid
    rw [hhistory] at h
    change recorded s'.history pid = _
    rw [hhistory', List.filter_append, ← h]
    by_cases e' : d.pulseId = pid
    · subst e'
      have last := recorded_eq_nil behind
      have new : recorded [e] d.pulseId = e.contributions := by simp [recorded, seq]
      have before : recorded old d.pulseId = old.flatMap (·.contributions) := by
        have : old.filter (·.sequence = d.pulseId) = old := by
          simpa [List.filter_eq_self] using hold
        simp [recorded, this]
      simp [last, new, before, gain]
    · have new : recorded [e] pid = [] := by simp [recorded, seq, e']
      have before : recorded old pid = [] :=
        recorded_eq_nil fun x hx => by rw [hold x hx]; exact e'
      simp [new, before, e']
  · intro x hx
    rw [EventBuilder.history, hevents', processed] at hx
    by_cases h : x = e
    · exact h ▸ credit
    · refine sound.credit x ?_
      rw [EventBuilder.history, hevents]
      simp only [List.mem_append, List.mem_singleton, h, or_false] at hx ⊢
      tauto
  · intro prompt
    rw [tables.calls, EbTables.eventTimeout_congr tables.config]
    exact sound.excused fun part hpart => prompt part (hpart.trans (List.prefix_append _ _))
  · refine ⟨{ ep with pending := l₁ ++ e :: l₂ }, ?_, rfl, ?_, by simp⟩
    · rw [hpending']
      exact List.mem_append_right _ List.mem_cons_self
    · rw [EbTables.epochKey_congr tables.config]
      exact key.symm
  · intro x hx ne
    rw [hevents] at hx
    rw [hevents']
    simp only [List.mem_append] at hx ⊢
    rcases hx with (hx | hx) | hx
    · exact .inl (.inl hx)
    · exact absurd (hold x hx) ne
    · exact .inr hx
  · intro x hx
    rw [hevents'] at hx
    rw [hevents]
    simp only [List.mem_append, List.mem_singleton] at hx ⊢
    rcases hx with (hx | rfl) | hx
    · exact .inr (.inl (.inl hx))
    · exact .inl seq
    · exact .inr (.inr hx)
  · exact tables.calls

end place

/-- What an allocation takes is the first free entry. -/
lemma freeEntries_alloc {pool : Option GenericPool} {size a : Nat} {pool' : GenericPool}
    (h : pool.bind (·.alloc size) = some (a, pool')) :
    freeEntries pool = a :: freeEntries (some pool') := by
  obtain ⟨p, rfl, halloc⟩ := Option.bind_eq_some_iff.mp h
  clear h
  unfold GenericPool.alloc at halloc
  split at halloc
  · cases halloc
  · split at halloc
    · cases halloc
    · rename_i entry entries hentries
      cases halloc
      exact hentries

section insert
variable {app : EbApp} {config : EbConfig} {arrived : List EbDgram} {s : EventBuilder}
  {d : EbDgram} {ep : EbEpoch}

/-- Writing an event back changes it in its place. -/
lemma Sound.setEvent_pending (sound : Sound app config arrived s) {pre post l₁ l₂} {e e' : EbEvent}
    (hpending : s.pending = pre ++ ep :: post) (hep : ep.pending = l₁ ++ e :: l₂)
    (addr : e'.addr = e.addr) :
    (s.setEvent e').pending = pre ++ { ep with pending := l₁ ++ e' :: l₂ } :: post := by
  have hevents : s.events = (pre.flatMap (·.pending) ++ l₁) ++ e ::
      (l₂ ++ post.flatMap (·.pending)) := by
    simp [EventBuilder.events, hpending, hep]
  have nodup := sound.events.addr_nodup
  rw [hevents, List.map_append, List.map_cons, List.nodup_middle, List.nodup_cons,
    ← List.map_append] at nodup
  have other : ∀ x ∈ (pre.flatMap (·.pending) ++ l₁) ++ (l₂ ++ post.flatMap (·.pending)),
      (if x.addr = e'.addr then e' else x) = x := by
    intro x hx
    refine if_neg ?_
    intro h
    exact nodup.1 (List.mem_map.mpr ⟨x, hx, h.trans addr⟩)
  have id_of : ∀ l : List EbEvent,
      (∀ x ∈ l, x ∈ (pre.flatMap (·.pending) ++ l₁) ++ (l₂ ++ post.flatMap (·.pending))) →
      l.map (fun x => if x.addr = e'.addr then e' else x) = l := by
    intro l hl
    rw [List.map_congr_left fun x hx => other x (hl x hx), List.map_id']
  have id_epochs : ∀ l : List EbEpoch, (∀ x ∈ l, x ∈ pre ∨ x ∈ post) →
      l.map (fun epoch : EbEpoch => { epoch with
        pending := epoch.pending.map fun x => if x.addr = e'.addr then e' else x }) = l := by
    intro l hl
    conv_rhs => rw [← List.map_id' l]
    refine List.map_congr_left ?_
    intro x hx
    have h := id_of x.pending fun y hy => by
      simp only [List.mem_append, List.mem_flatMap]
      rcases hl x hx with h | h
      · exact .inl (.inl ⟨x, h, hy⟩)
      · exact .inr (.inr ⟨x, h, hy⟩)
    simp only [h]
  have h₁ := id_of l₁ fun x hx => by simp [hx]
  have h₂ := id_of l₂ fun x hx => by simp [hx]
  simp only [EventBuilder.setEvent, hpending, List.map_append, List.map_cons,
    id_epochs pre fun x hx => .inl hx, id_epochs post fun x hx => .inr hx, hep, h₁, h₂,
    if_pos addr.symm]

/-- Adding a contribution to the pending event of its pulse ID. -/
lemma Sound.add_spec (sound : Sound app config arrived s) (hmem : ep ∈ s.pending)
    (key : s.tables.epochKey d.pulseId = ep.key) {e} (he : e ∈ ep.pending)
    (seq : e.sequence = d.pulseId) :
    InsertSpec app config arrived s d ep.addr (s.add e d) := by
  have mem : e ∈ s.events := List.mem_flatMap.mpr ⟨ep, hmem, he⟩
  unfold EventBuilder.add
  simp only
  split
  · rename_i h
    exact ⟨.notRemaining mem seq (takeDown_eq_self.mp h), rfl⟩
  · obtain ⟨pre, post, hpending⟩ := List.append_of_mem hmem
    obtain ⟨l₁, l₂, hep⟩ := List.append_of_mem he
    let e' : EbEvent := { e with
      added := e.added ++ [d]
      size := e.size + d.sizeofPayload
      remaining := e.remaining &&& ~~~srcBit d.src }
    have addr : e'.addr = e.addr := rfl
    have hpending' := sound.setEvent_pending hpending hep addr
    have hep' : ep.pending = l₁ ++ [e] ++ l₂ := by simpa using hep
    have sorted := sound.shape.sorted ep hmem
    rw [hep, List.pairwise_append, List.pairwise_cons] at sorted
    obtain ⟨contract, credit⟩ := sound.credit e (List.mem_append_right _ mem)
    refine sound.place hpending hep' ?_ ?_ (by simpa using seq) key
      seq (by simp [EbEvent.contributions]) ⟨contract, ?_⟩ hpending' ⟨rfl, rfl, rfl, rfl⟩ ?_
    · intro x hx
      exact seq ▸ sorted.2.2 x hx e (by simp)
    · intro x hx
      exact seq ▸ sorted.2.1.1 x hx
    · intro i
      have h := credit i
      simp only [EbEvent.contributions, List.all_cons, List.all_append, List.all_nil,
        Bool.and_true] at h ⊢
      rw [takeDown_getLsbD, h]
      simp only [Bool.and_assoc, ne_eq, eq_comm]
    · have hevents : s.events = pre.flatMap (·.pending) ++
          (l₁ ++ e :: l₂ ++ post.flatMap (·.pending)) := by
        simp only [EventBuilder.events, hpending, hep, List.flatMap_append, List.flatMap_cons]
      have hevents' : (s.setEvent e').events = pre.flatMap (·.pending) ++
          (l₁ ++ e' :: l₂ ++ post.flatMap (·.pending)) := by
        simp only [EventBuilder.events, hpending', List.flatMap_append, List.flatMap_cons]
      show Held _ _ (s.setEvent e').events _ _
      refine sound.events.congr ?_
      rw [hevents, hevents']
      simp only [List.map_append, List.map_cons]
      rfl

/-- Linking the list of an epoch anew. -/
lemma Sound.setPending_pending (sound : Sound app config arrived s) {pre post l}
    (hpending : s.pending = pre ++ ep :: post) :
    (s.setPending ep.addr l).pending = pre ++ { ep with pending := l } :: post := by
  have nodup := sound.epochs.addr_nodup
  rw [hpending] at nodup
  have h := map_at (fun epoch => { epoch with pending := l }) nodup
  rw [EventBuilder.setPending, hpending]
  exact h

/-- Making an event for a contribution in the gap that is left for it. -/
lemma Sound.newEvent_spec (sound : Sound app config arrived s) (hmem : ep ∈ s.pending)
    (key : s.tables.epochKey d.pulseId = ep.key) {before next imm t0}
    (hep : ep.pending = before.reverse ++ next) (lo : ∀ x ∈ before, x.sequence < d.pulseId)
    (hi : ∀ x ∈ next, d.pulseId < x.sequence)
    (fresh : ∀ e ∈ s.events, e.sequence = d.pulseId → e ∈ ep.pending) :
    InsertSpec app config arrived s d ep.addr (s.newEvent app ep.addr d before next imm t0) := by
  unfold EventBuilder.newEvent
  split
  · exact ⟨.noEvent, rfl⟩
  · rename_i addr pool halloc
    simp only
    split
    · rename_i h
      refine ⟨.notInContract ?_ (takeDown_eq_self.mp h), rfl⟩
      intro e he seq
      have mem := fresh e he seq
      rw [hep] at mem
      rcases List.mem_append.mp mem with mem | mem
      · exact absurd seq (Nat.ne_of_lt (lo e (List.mem_reverse.mp mem)))
      · exact absurd seq (Nat.ne_of_gt (hi e mem))
    · rename_i taken
      obtain ⟨pre, post, hpending⟩ := List.append_of_mem hmem
      let e : EbEvent :=
        { addr, size := d.sizeofPayload, remaining := app.contract d &&& ~~~srcBit d.src,
          contract := app.contract d, t0, immData := imm, damage := 0#16, creator := d, added := [] }
      have hpending' := sound.setPending_pending (l := before.reverse ++ e :: next) hpending
      have hlist : ep.pending = before.reverse ++ [] ++ next := by simpa using hep
      refine sound.place (e := e) hpending hlist ?_ hi (by simp) key rfl rfl ⟨rfl, ?_⟩ hpending'
        ⟨rfl, rfl, rfl, rfl⟩ ?_
      · intro x hx
        exact lo x (List.mem_reverse.mp hx)
      · intro i
        simp only [e, EbEvent.contributions, List.all_cons, List.all_nil, Bool.and_true,
          takeDown_getLsbD, ne_eq, eq_comm]
      · have held := sound.events
        unfold EbTables.HoldsEvents at held
        rw [freeEntries_alloc halloc] at held
        have gained : Held EbEvent.addr (fun e => s.tables.evIndex e.sequence) (e :: s.events)
            (freeEntries (some pool))
            (Function.update s.tables.eventLut (s.tables.evIndex d.pulseId) (some addr)) :=
          held.acquire (update_gain _)
        refine gained.perm ?_
        have hevents : s.events = (pre.flatMap (·.pending) ++ before.reverse) ++
            (next ++ post.flatMap (·.pending)) := by
          simp [EventBuilder.events, hpending, hlist]
        have hevents' : (s.setPending ep.addr (before.reverse ++ e :: next)).events =
            (pre.flatMap (·.pending) ++ before.reverse) ++ e ::
              (next ++ post.flatMap (·.pending)) := by
          simp [EventBuilder.events, hpending']
        rw [hevents]
        exact List.perm_middle.symm.trans (List.Perm.of_eq hevents'.symm)

/-- The pending event of a pulse ID is in the epoch of the pulse ID. -/
lemma Sound.fresh (sound : Sound app config arrived s) (hmem : ep ∈ s.pending)
    (key : s.tables.epochKey d.pulseId = ep.key) {e} (he : e ∈ s.events)
    (seq : e.sequence = d.pulseId) : e ∈ ep.pending := by
  obtain ⟨ep', hep', he⟩ := List.mem_flatMap.mp he
  have same : ep'.key = ep.key := by rw [← sound.shape.keyed ep' hep' e he, seq, key]
  rw [← sound.shape.key_inj hep' hmem same]
  exact he

/-- The cursor of a batch: an event of the epoch, or the end of its list if it is empty. -/
def EbEpoch.HasCursor (ep : EbEpoch) : Option Nat → Prop
  | none => ep.pending = []
  | some a => ∃ e ∈ ep.pending, e.addr = a

/-- Where a scan of the events of an epoch ends: at the event of the pulse ID, or in its gap. -/
inductive ScanEnds (app : EbApp) (s : EventBuilder) (ep : EbEpoch) (d : EbDgram) (imm : BitVec 32)
    (t0 : Int) : Except Thrown (EventBuilder × EbEvent) → Prop where
  | hit {e : EbEvent} :
    e ∈ ep.pending →
    e.sequence = d.pulseId →
    ScanEnds app s ep d imm t0 (s.add e d)
  | gap {before next : List EbEvent} :
    ep.pending = before.reverse ++ next →
    (∀ x ∈ before, x.sequence < d.pulseId) →
    (∀ x ∈ next, d.pulseId < x.sequence) →
    ScanEnds app s ep d imm t0 (s.newEvent app ep.addr d before next imm t0)

/-- The walk over the events of an epoch ends at the right place. -/
lemma Sound.insertScan_ends (sound : Sound app config arrived s) (hmem : ep ∈ s.pending)
    {cursor imm t0} (hcursor : ep.HasCursor cursor) :
    ScanEnds app s ep d imm t0 (s.insertScan app ep.addr d cursor imm t0) := by
  unfold EventBuilder.insertScan
  rw [sound.epochs.find_addr hmem fun _ => rfl]
  simp only
  cases cursor with
  | none =>
    refine .gap (by simp) (by simp) ?_
    intro x hx
    rw [hcursor] at hx
    cases hx
  | some a =>
    simp only [List.span_eq_takeWhile_dropWhile]
    generalize hbefore : ep.pending.takeWhile (fun x => decide (x.addr ≠ a)) = before
    generalize hnext : ep.pending.dropWhile (fun x => decide (x.addr ≠ a)) = next
    have whole : before ++ next = ep.pending := by
      rw [← hbefore, ← hnext, List.takeWhile_append_dropWhile]
    have found : next ≠ [] := by
      obtain ⟨e, he, haddr⟩ := hcursor
      rw [← hnext, ne_eq, List.dropWhile_eq_nil_iff]
      intro h
      have := h e he
      simp [haddr] at this
    rw [if_neg (by simpa using found)]
    have sorted : (before.reverse.reverse ++ next).Pairwise (·.sequence < ·.sequence) := by
      rw [List.reverse_reverse, whole]
      exact sound.shape.sorted ep hmem
    have right := scanForward_spec (k := d.pulseId) sorted fun h => absurd h found
    have together := scanForward_whole EbEvent.sequence d.pulseId before.reverse next
    rw [List.reverse_reverse, whole] at together
    split
    · rename_i b e n hscan
      rw [hscan] at right together
      exact .hit (by rw [← together]; simp [Spot.whole]) right
    · rename_i b n hscan
      rw [hscan] at right together
      exact .gap together.symm right.1 right.2

/-- Either end of the walk is one of the two insertions. -/
lemma Sound.insertScan_spec (sound : Sound app config arrived s) (hmem : ep ∈ s.pending)
    (key : s.tables.epochKey d.pulseId = ep.key) {cursor imm t0} (hcursor : ep.HasCursor cursor) :
    InsertSpec app config arrived s d ep.addr (s.insertScan app ep.addr d cursor imm t0) := by
  have ends := @Sound.insertScan_ends app _ _ _ d _ sound hmem cursor imm t0 hcursor
  generalize s.insertScan app ep.addr d cursor imm t0 = r at ends
  cases ends with
  | hit he seq => exact sound.add_spec hmem key he seq
  | gap hep lo hi =>
    exact sound.newEvent_spec hmem key hep lo hi fun e he seq => sound.fresh hmem key he seq

/-- The table leads to the event that the walk over the events would find. -/
lemma Sound.insert_eq_scan (sound : Sound app config arrived s) (hmem : ep ∈ s.pending)
    (key : s.tables.epochKey d.pulseId = ep.key) {cursor imm t0} (hcursor : ep.HasCursor cursor) :
    s.insert app ep.addr d cursor imm t0 = s.insertScan app ep.addr d cursor imm t0 := by
  unfold EventBuilder.insert
  split
  · rfl
  · rename_i a hlut
    obtain ⟨e, he, rfl, _⟩ := sound.events.live _ _ hlut
    rw [sound.events.find_addr he fun _ => rfl]
    simp only
    split
    · rename_i seq
      have mem := sound.fresh hmem key he seq
      have ends := @Sound.insertScan_ends app _ _ _ d _ sound hmem cursor imm t0 hcursor
      generalize s.insertScan app ep.addr d cursor imm t0 = r at ends
      cases ends with
      | hit he' seq' =>
        rw [sound.sequence_inj he (List.mem_flatMap.mpr ⟨ep, hmem, he'⟩) (seq.trans seq'.symm)]
      | gap hep lo hi =>
        rw [hep] at mem
        rcases List.mem_append.mp mem with mem | mem
        · exact absurd seq (Nat.ne_of_lt (lo e (List.mem_reverse.mp mem)))
        · exact absurd seq (Nat.ne_of_gt (hi e mem))
    · rfl

/-- Inserting a contribution into the epoch of its pulse ID. -/
lemma Sound.insert_spec (sound : Sound app config arrived s) (hmem : ep ∈ s.pending)
    (key : s.tables.epochKey d.pulseId = ep.key) {cursor imm t0} (hcursor : ep.HasCursor cursor) :
    InsertSpec app config arrived s d ep.addr (s.insert app ep.addr d cursor imm t0) := by
  rw [sound.insert_eq_scan hmem key hcursor]
  exact sound.insertScan_spec hmem key hcursor

end insert

/-- What the making of an epoch leaves as it was in the tables. -/
structure EbTables.SameEvents (t t' : EbTables) : Prop where
  config : t'.config = t.config
  eventLut : t'.eventLut = t.eventLut
  eventFreelist : t'.eventFreelist = t.eventFreelist
  calls : t'.calls = t.calls

section epoch
variable {app : EbApp} {config : EbConfig} {arrived : List EbDgram} {s s' : EventBuilder}
  {t : EbTables} {d : EbDgram}

/-- Other epochs with the same events are as sound. -/
lemma Sound.relink (sound : Sound app config arrived s) (tables : s.tables.SameEvents s'.tables)
    (events : s'.events = s.events) (shape : Shape s.tables s'.pending)
    (epochs : s'.tables.HoldsEpochs s'.pending) : Sound app config arrived s' := by
  have history : s'.history = s.history := by
    simp only [EventBuilder.history, EbTables.processed, events, tables.calls]
  refine ⟨tables.config.trans sound.config, ?_, ⟨shape.keys, shape.sorted, ?_⟩, epochs, ?_, ?_, ?_,
    ?_⟩
  · rw [EbTables.epochKey_congr tables.config]
    exact sound.mono
  · rw [EbTables.epochKey_congr tables.config]
    exact shape.keyed
  · unfold EbTables.HoldsEvents
    rw [tables.eventLut, tables.eventFreelist, EbTables.evIndex_congr tables.config, events]
    exact sound.events
  · rw [history]
    exact sound.ledger
  · rw [history]
    exact sound.credit
  · rw [tables.calls, EbTables.eventTimeout_congr tables.config]
    exact sound.excused

/-- The walk of `_flushBefore` discards the epochs that have no events. -/
lemma discardEmpty_list (epochs : List EbEpoch) (t : EbTables) :
    (discardEmpty epochs t).1 = epochs.filter (fun ep => !ep.pending.isEmpty) := by
  induction epochs generalizing t with
  | nil => rfl
  | cons epoch before ih =>
    simp only [discardEmpty, List.filter_cons]
    by_cases h : epoch.pending.isEmpty = true
    · simp [h, ih]
    · simp [h, ih]

lemma discardEmpty_sameEvents (epochs : List EbEpoch) (t : EbTables) :
    t.SameEvents (discardEmpty epochs t).2 := by
  induction epochs generalizing t with
  | nil => exact ⟨rfl, rfl, rfl, rfl⟩
  | cons epoch before ih =>
    simp only [discardEmpty]
    split
    · have h := ih (t.discard epoch)
      exact ⟨h.config, h.eventLut, h.eventFreelist, h.calls⟩
    · exact ih t

/-- Discarding an epoch keeps the pool and the table in order. -/
lemma holdsEpochs_discard {epoch rest} (holds : t.HoldsEpochs (epoch :: rest)) :
    (t.discard epoch).HoldsEpochs rest :=
  Held.weaken (Held.release holds) (freeEntries_free _ _)

lemma discardEmpty_holds (epochs : List EbEpoch) (t : EbTables) (rest : List EbEpoch)
    (holds : t.HoldsEpochs (epochs ++ rest)) :
    (discardEmpty epochs t).2.HoldsEpochs ((discardEmpty epochs t).1 ++ rest) := by
  induction epochs generalizing t rest with
  | nil => exact holds
  | cons epoch before ih =>
    simp only [discardEmpty]
    split
    · exact ih _ _ (holdsEpochs_discard holds)
    · have h := ih t (epoch :: rest) (holds.perm List.perm_middle.symm)
      exact h.perm List.perm_middle

/-- Epochs without events do not count for the events. -/
lemma flatMap_filter_pending (epochs : List EbEpoch) :
    (epochs.filter (fun ep => !ep.pending.isEmpty)).flatMap (·.pending) =
      epochs.flatMap (·.pending) := by
  induction epochs with
  | nil => rfl
  | cons epoch rest ih =>
    cases h : epoch.pending with
    | nil => simp [h, ih]
    | cons => simp [h, ih]

/-- What matching an epoch to a pulse ID may come to. -/
def MatchSpec (app : EbApp) (config : EbConfig) (arrived : List EbDgram) (s : EventBuilder)
    (key : Nat) : Except Thrown (EventBuilder × EbEpoch) → Prop
  | .ok (s', ep) => Sound app config arrived s' ∧ ep ∈ s'.pending ∧ ep.key = key ∧
      s.tables.SameEvents s'.tables ∧ s'.events = s.events
  | .error t => t.fault = .noEpoch ∧ t.state.tables.calls = s.tables.calls

/-- Putting a new epoch into the gap between two lists of epochs. -/
lemma Sound.link (sound : Sound app config arrived s) {key addr : Nat}
    {before next : List EbEpoch} {pool : GenericPool}
    (lists : (before.reverse ++ next).Sublist s.pending)
    (events : (before.reverse ++ next).flatMap (·.pending) = s.events)
    (tables : s.tables.SameEvents t) (holds : t.HoldsEpochs (before.reverse ++ next))
    (halloc : t.epochFreelist.bind (·.alloc sizeofEbEpoch) = some (addr, pool))
    (lo : ∀ x ∈ before, x.key < key) (hi : ∀ x ∈ next, key < x.key) {lut}
    (hlut : ∀ j b, lut j = some b → t.epochLut j = some b ∨ (j = t.epIndex key ∧ b = addr)) :
    MatchSpec app config arrived s key
      (.ok (⟨before.reverse ++ { addr, key, pending := [] } :: next,
        { t with epochFreelist := some pool, epochLut := lut }⟩, { addr, key, pending := [] })) := by
  have tables' : s.tables.SameEvents { t with epochFreelist := some pool, epochLut := lut } :=
    ⟨tables.config, tables.eventLut, tables.eventFreelist, tables.calls⟩
  have hevents : EventBuilder.events ⟨before.reverse ++ { addr, key, pending := [] } :: next,
      { t with epochFreelist := some pool, epochLut := lut }⟩ = s.events := by
    rw [← events]
    simp [EventBuilder.events]
  refine ⟨sound.relink tables' hevents ⟨?_, ?_, ?_⟩ ?_, by simp, rfl, tables', hevents⟩
  · have keys := sound.shape.keys.sublist lists
    rw [List.pairwise_append] at keys ⊢
    refine ⟨keys.1, List.pairwise_cons.mpr ⟨hi, keys.2.1⟩, ?_⟩
    intro x hx y hy
    rcases List.mem_cons.mp hy with rfl | hy
    · exact lo x (List.mem_reverse.mp hx)
    · exact keys.2.2 x hx y hy
  · intro x hx
    rcases List.mem_append.mp hx with hx | hx
    · exact sound.shape.sorted x (lists.subset (List.mem_append_left _ hx))
    · rcases List.mem_cons.mp hx with rfl | hx
      · exact .nil
      · exact sound.shape.sorted x (lists.subset (List.mem_append_right _ hx))
  · intro x hx
    rcases List.mem_append.mp hx with hx | hx
    · exact sound.shape.keyed x (lists.subset (List.mem_append_left _ hx))
    · rcases List.mem_cons.mp hx with rfl | hx
      · intro e he
        cases he
      · exact sound.shape.keyed x (lists.subset (List.mem_append_right _ hx))
  · unfold EbTables.HoldsEpochs at holds
    rw [freeEntries_alloc halloc] at holds
    have gained : Held EbEpoch.addr (fun ep => t.epIndex ep.key)
        ({ addr, key, pending := [] } :: (before.reverse ++ next)) (freeEntries (some pool)) lut :=
      Held.acquire holds hlut
    exact gained.perm List.perm_middle.symm

/-- The table gains the entry of a new epoch if the place is free. -/
lemma update_free_gain (table : ℕ → Option ℕ) {i a : ℕ} (j b : ℕ)
    (h : (if table i = none then Function.update table i (some a) else table) j = some b) :
    table j = some b ∨ (j = i ∧ b = a) := by
  split at h
  · exact update_gain table j b h
  · exact .inl h

/-- Making an epoch for a key in the gap that is left for it. -/
lemma Sound.newEpoch_spec (sound : Sound app config arrived s) {key : Nat}
    {before next : List EbEpoch}
    (hpending : s.pending = before.reverse ++ next) (lo : ∀ x ∈ before, x.key < key)
    (hi : ∀ x ∈ next, key < x.key) :
    MatchSpec app config arrived s key (s.newEpoch key before next) := by
  unfold EventBuilder.newEpoch
  cases before with
  | nil =>
    have list := discardEmpty_list next.reverse s.tables
    have tables := discardEmpty_sameEvents next.reverse s.tables
    have holds : s.tables.HoldsEpochs (next.reverse ++ []) := by
      rw [List.append_nil]
      refine sound.epochs.perm ?_
      simp [hpending]
    have holds := discardEmpty_holds _ _ _ holds
    generalize discardEmpty next.reverse s.tables = discarded at list tables holds
    obtain ⟨left, t⟩ := discarded
    simp only [List.append_nil] at list tables holds ⊢
    -- Without an older epoch the empty ones are looked for among the younger ones.
    have left_eq : left.reverse = next.filter (fun ep => !ep.pending.isEmpty) := by
      rw [list, ← List.filter_reverse, List.reverse_reverse]
    split
    · exact ⟨rfl, tables.calls⟩
    · rename_i addr pool halloc
      refine @Sound.link _ _ _ _ _ sound _ _ [] _ _ ?_ ?_ tables (holds.perm ?_) halloc lo ?_ _
        (update_free_gain _)
      · simp only [List.reverse_nil, List.nil_append, left_eq, hpending]
        exact List.filter_sublist
      · simp only [List.reverse_nil, List.nil_append, left_eq, flatMap_filter_pending]
        simp [EventBuilder.events, hpending]
      · exact (List.reverse_perm left).symm
      · intro x hx
        rw [left_eq] at hx
        exact hi x (List.mem_filter.mp hx).1
  | cons epoch before =>
    have list := discardEmpty_list before s.tables
    have tables := discardEmpty_sameEvents before s.tables
    have holds : s.tables.HoldsEpochs (before ++ epoch :: next) := by
      refine sound.epochs.perm ?_
      simp only [hpending, List.reverse_cons, List.append_assoc, List.singleton_append]
      exact (List.reverse_perm before).append_right _
    have holds := discardEmpty_holds _ _ _ holds
    simp only
    generalize discardEmpty before s.tables = discarded at list tables holds
    obtain ⟨left, t⟩ := discarded
    simp only at list tables holds ⊢
    have left_eq : left.reverse = before.reverse.filter (fun ep => !ep.pending.isEmpty) := by
      rw [list, List.filter_reverse]
    split
    · exact ⟨rfl, tables.calls⟩
    · rename_i addr pool halloc
      refine sound.link ?_ ?_ tables (holds.perm ?_) halloc ?_ hi (update_free_gain _)
      · simp only [List.reverse_cons, left_eq, hpending]
        exact (List.filter_sublist.append_right _).append_right _
      · simp only [List.reverse_cons, left_eq, List.flatMap_append, flatMap_filter_pending]
        simp [EventBuilder.events, hpending]
      · simp only [List.reverse_cons, List.append_assoc, List.singleton_append]
        exact ((List.reverse_perm left).symm).append_right _
      · intro x hx
        rcases List.mem_cons.mp hx with rfl | hx
        · exact lo x (by simp)
        · rw [list] at hx
          exact lo x (List.mem_cons_of_mem _ (List.mem_filter.mp hx).1)

/-- Where a scan of the epochs ends: at the epoch of the key, or in its gap. -/
inductive MatchEnds (s : EventBuilder) (key : Nat) : Except Thrown (EventBuilder × EbEpoch) → Prop where
  | hit {ep : EbEpoch} :
    ep ∈ s.pending →
    ep.key = key →
    MatchEnds s key (.ok (s, ep))
  | gap {before next : List EbEpoch} :
    s.pending = before.reverse ++ next →
    (∀ x ∈ before, x.key < key) →
    (∀ x ∈ next, key < x.key) →
    MatchEnds s key (s.newEpoch key before next)

/-- The walk over the epochs ends at the right place. -/
lemma Sound.matchScan_ends (sound : Sound app config arrived s) (key : Nat) :
    MatchEnds s key (s.matchScan key) := by
  unfold EventBuilder.matchScan
  have sorted : (s.pending.reverse.reverse ++ []).Pairwise (EbEpoch.key · < EbEpoch.key ·) := by
    simpa using sound.shape.keys
  have right := @scanReverse_spec _ _ _ EbEpoch.key key _ _ sorted (by simp)
  have together := scanReverse_whole EbEpoch.key key s.pending.reverse []
  rw [List.reverse_reverse, List.append_nil] at together
  split
  · rename_i b ep n hscan
    rw [hscan] at right together
    refine .hit ?_ right
    rw [← together]
    simp [Spot.whole]
  · rename_i b n hscan
    rw [hscan] at right together
    exact .gap together.symm right.1 right.2

/-- The table leads to the epoch that the walk over the epochs would find. -/
lemma Sound.matchEpoch_eq_scan (sound : Sound app config arrived s) (pid : Nat) :
    s.matchEpoch pid = s.matchScan (s.tables.epochKey pid) := by
  unfold EventBuilder.matchEpoch
  simp only
  split
  · rfl
  · rename_i a hlut
    obtain ⟨ep, hep, rfl, _⟩ := sound.epochs.live _ _ hlut
    rw [sound.epochs.find_addr hep fun _ => rfl]
    simp only
    split
    · rename_i same
      have ends := sound.matchScan_ends (s.tables.epochKey pid)
      generalize s.matchScan (s.tables.epochKey pid) = r at ends
      cases ends with
      | hit hep' key => rw [sound.shape.key_inj hep hep' (same.trans key.symm)]
      | gap hpending lo hi =>
        rw [hpending] at hep
        rcases List.mem_append.mp hep with mem | mem
        · exact absurd same (Nat.ne_of_lt (lo ep (List.mem_reverse.mp mem)))
        · exact absurd same (Nat.ne_of_gt (hi ep mem))
    · rfl

/-- Finding or making the epoch of a pulse ID. -/
lemma Sound.matchEpoch_spec (sound : Sound app config arrived s) (pid : Nat) :
    MatchSpec app config arrived s (s.tables.epochKey pid) (s.matchEpoch pid) := by
  rw [sound.matchEpoch_eq_scan]
  have ends := sound.matchScan_ends (s.tables.epochKey pid)
  generalize s.matchScan (s.tables.epochKey pid) = r at ends
  cases ends with
  | hit hep key => exact ⟨sound, hep, key, ⟨rfl, rfl, rfl, rfl⟩, rfl⟩
  | gap hpending lo hi => exact sound.newEpoch_spec hpending lo hi

end epoch

end Lcls2.Eb
