import Lcls2.Eb.EventBuilder

/-!
# Flushing the event builder

`EventBuilder::_flush(due)` walks two nested lists and leaves both in the middle. `Flush` is the same
walk over all pending events in list order, where every step takes the first event away;
`flushEpochs_flush` connects the two.

The lemmas on `Flush` follow by induction on the walk:

* `Flush.keeps`: the walk does not go past the due event;
* `Flush.held`: released events leave their address to the pool and nothing dangling in the table;
* `Flush.history`: no event is lost on the way from the pending list to the application, and but for
  the damage the events that are processed are those that were pending.
-/

namespace Lcls2.Eb
open Lcls2.Lib

/-- The settings among the members of the builder, which no call changes. -/
structure EbConfig where
  mask : BitVec 64
  epochLutSize : Nat
  eventLutSize : Nat
  eventTimeout : Int

namespace EbTables

def config (t : EbTables) : EbConfig where
  mask := t.mask
  epochLutSize := t.epochLutSize
  eventLutSize := t.eventLutSize
  eventTimeout := t.eventTimeout

variable {app : EbApp} {t t' : EbTables}

lemma mask_congr (h : t'.config = t.config) : t'.mask = t.mask := congrArg EbConfig.mask h

lemma eventTimeout_congr (h : t'.config = t.config) : t'.eventTimeout = t.eventTimeout :=
  congrArg EbConfig.eventTimeout h

lemma epochKey_congr (h : t'.config = t.config) : t'.epochKey = t.epochKey := by
  funext pid
  simp only [epochKey, mask_congr h]

lemma epIndex_congr (h : t'.config = t.config) : t'.epIndex = t.epIndex := by
  have size : t'.epochLutSize = t.epochLutSize := congrArg EbConfig.epochLutSize h
  funext key
  simp only [epIndex, mask_congr h, size]

lemma evIndex_congr (h : t'.config = t.config) : t'.evIndex = t.evIndex := by
  have size : t'.eventLutSize = t.eventLutSize := congrArg EbConfig.eventLutSize h
  funext key
  simp only [evIndex, size]

@[simp] lemma now_config : (t.now app).2.config = t.config := rfl
@[simp] lemma now_calls : (t.now app).2.calls = t.calls := rfl
@[simp] lemma discard_config {epoch} : (t.discard epoch).config = t.config := rfl
@[simp] lemma discard_calls {epoch} : (t.discard epoch).calls = t.calls := rfl

end EbTables

/-- An event but for the damage that `fixup` marks in it. -/
def EbEvent.undamaged (e : EbEvent) : EbEvent := { e with damage := 0#16 }

@[simp] lemma undamaged_markDropped (e : EbEvent) :
    (EbTables.markDropped e).undamaged = e.undamaged := rfl
@[simp] lemma undamaged_addr (e : EbEvent) : e.undamaged.addr = e.addr := rfl
@[simp] lemma undamaged_sequence (e : EbEvent) : e.undamaged.sequence = e.sequence := rfl
@[simp] lemma undamaged_contributions (e : EbEvent) :
    e.undamaged.contributions = e.contributions := rfl

section release
variable {app : EbApp} {now : Int} {t : EbTables} {e : EbEvent}

@[simp] lemma release_config : (release app now t e).config = t.config := by
  unfold release
  split <;> rfl

@[simp] lemma release_epochLut : (release app now t e).epochLut = t.epochLut := by
  unfold release
  split <;> rfl

@[simp] lemma release_epochFreelist : (release app now t e).epochFreelist = t.epochFreelist := by
  unfold release
  split <;> rfl

lemma release_eventLut :
    (release app now t e).eventLut = clear t.eventLut (t.evIndex e.sequence) e.addr := by
  unfold release
  split <;> rfl

lemma release_eventFreelist :
    (release app now t e).eventFreelist =
      t.eventFreelist.map fun p : GenericPool => p.free e.addr := by
  unfold release
  split <;> rfl

/-- The calls that a release makes: the fix-ups of an incomplete event, then its processing. -/
lemma release_calls :
    (release app now t e).calls =
      t.calls ++ (if e.remaining ≠ 0#64 then
        (sources e.remaining).map (Call.fixup e · (now - e.t0)) ++
          [Call.process (EbTables.markDropped e)]
      else [Call.process e]) := by
  unfold release
  split
  · rw [← List.append_assoc]
    rfl
  · rfl

variable (app now t e) in
/-- A release processes its event, perhaps marked, and no other. -/
lemma release_processed :
    ∃ e', e'.undamaged = e.undamaged ∧
      (release app now t e).processed = t.processed ++ [e'] := by
  have none : ((sources e.remaining).map (Call.fixup e · (now - e.t0))).filterMap
      Call.processed = [] := by
    simp [List.filterMap_map, Function.comp_def, Call.processed]
  simp only [EbTables.processed, release_calls]
  split
  · refine ⟨EbTables.markDropped e, rfl, ?_⟩
    simp only [List.filterMap_append, none]
    rfl
  · exact ⟨e, rfl, by simp [Call.processed]⟩

end release

/-- Returning an entry adds at most this entry to the free ones. -/
lemma freeEntries_free (pool : Option GenericPool) (a : Nat) :
    (freeEntries (pool.map fun p : GenericPool => p.free a)).Sublist (freeEntries pool ++ [a]) := by
  cases pool with
  | none => exact List.nil_sublist _
  | some p => exact List.Sublist.refl _

/-- The event pool and its lookup table are in order for a list of pending events. -/
def EbTables.HoldsEvents (t : EbTables) (events : List EbEvent) : Prop :=
  Held EbEvent.addr (fun e => t.evIndex e.sequence) events (freeEntries t.eventFreelist) t.eventLut

/-- The epoch pool and its lookup table are in order for a list of pending epochs. -/
def EbTables.HoldsEpochs (t : EbTables) (epochs : List EbEpoch) : Prop :=
  Held EbEpoch.addr (fun ep => t.epIndex ep.key) epochs (freeEntries t.epochFreelist) t.epochLut

/-- The walk of `_flush(due)` over all pending events. -/
inductive Flush (app : EbApp) (due : EbEvent) (now : Int) :
    List EbEvent → EbTables → List EbEvent → EbTables → Prop where
  | stop {events t} :
    Flush app due now events t events t
  | last {e events t} :
    waits due now t e = false →
    e.addr = due.addr →
    Flush app due now (e :: events) t events (release app now t e)
  | next {e events t events' t'} :
    waits due now t e = false →
    e.addr ≠ due.addr →
    Flush app due now events (release app now t e) events' t' →
    Flush app due now (e :: events) t events' t'

section walk
variable {app : EbApp} {due : EbEvent} {now : Int}

variable (app due now) in
/-- The inner loop is a part of the walk: it is all of it when it returned, and else it used up the
    events of the epoch. -/
lemma flushEvents_flush (events : List EbEvent) (t : EbTables) :
    if (flushEvents app due now events t).2.2 then
      ∀ rest, Flush app due now (events ++ rest) t
        ((flushEvents app due now events t).1 ++ rest) (flushEvents app due now events t).2.1
    else
      (flushEvents app due now events t).1 = [] ∧
      ∀ rest rest' t', Flush app due now rest (flushEvents app due now events t).2.1 rest' t' →
        Flush app due now (events ++ rest) t rest' t' := by
  induction events generalizing t with
  | nil => exact ⟨rfl, fun _ _ _ walk => walk⟩
  | cons e events ih =>
    simp only [flushEvents]
    split
    · intro rest
      exact .stop
    · rename_i go
      rw [Bool.not_eq_true] at go
      split
      · rename_i same
        intro rest
        exact .last go same
      · rename_i other
        have ih := ih (release app now t e)
        split
        · rename_i returned
          rw [if_pos returned] at ih
          intro rest
          exact .next go other (ih rest)
        · rename_i returned
          rw [if_neg returned] at ih
          obtain ⟨empty, ih⟩ := ih
          refine ⟨empty, ?_⟩
          intro rest rest' t' walk
          exact .next go other (ih rest rest' t' walk)

/-- The two nested loops of `_flush(due)` are the walk over all pending events. -/
lemma flushEpochs_flush (epochs : List EbEpoch) (t : EbTables) :
    Flush app due now (epochs.flatMap (·.pending)) t
      ((flushEpochs app due now epochs t).1.flatMap (·.pending))
      (flushEpochs app due now epochs t).2 := by
  induction epochs generalizing t with
  | nil => exact .stop
  | cons epoch rest ih =>
    have inner := flushEvents_flush app due now epoch.pending t
    simp only [flushEpochs]
    split
    · rename_i returned
      rw [if_pos returned] at inner
      exact inner _
    · rename_i returned
      rw [if_neg returned] at inner
      obtain ⟨empty, inner⟩ := inner
      have outer := inner _ _ _ (ih _)
      simpa [empty] using outer

/-- What a flush leaves of an epoch. -/
def EbEpoch.Trimmed (epoch epoch' : EbEpoch) : Prop :=
  epoch'.addr = epoch.addr ∧ epoch'.key = epoch.key ∧ epoch'.pending <:+ epoch.pending

lemma EbEpoch.Trimmed.refl (epoch : EbEpoch) : epoch.Trimmed epoch :=
  ⟨rfl, rfl, List.suffix_refl _⟩

/-- The inner loop takes events away at the front only. -/
lemma flushEvents_suffix (events : List EbEvent) (t : EbTables) :
    (flushEvents app due now events t).1 <:+ events := by
  induction events generalizing t with
  | nil => exact List.suffix_refl _
  | cons e events ih =>
    simp only [flushEvents]
    split
    · exact List.suffix_refl _
    · split
      · exact List.suffix_cons _ _
      · exact (ih _).trans (List.suffix_cons _ _)

/-- A flush keeps the epochs and trims each of them. -/
lemma flushEpochs_trimmed (epochs : List EbEpoch) (t : EbTables) :
    List.Forall₂ EbEpoch.Trimmed epochs (flushEpochs app due now epochs t).1 := by
  induction epochs generalizing t with
  | nil => exact .nil
  | cons epoch rest ih =>
    have head : epoch.Trimmed
        { epoch with pending := (flushEvents app due now epoch.pending t).1 } :=
      ⟨rfl, rfl, flushEvents_suffix _ _⟩
    simp only [flushEpochs]
    split
    · exact .cons head (List.forall₂_same.mpr fun ep _ => EbEpoch.Trimmed.refl ep)
    · exact .cons head (ih _)

end walk

namespace Flush

variable {app : EbApp} {due : EbEvent} {now : Int} {events events' : List EbEvent}
  {t t' : EbTables}

/-- A flush leaves the settings as they are. -/
lemma config (walk : Flush app due now events t events' t') : t'.config = t.config := by
  induction walk with
  | stop => rfl
  | last => exact release_config
  | next _ _ _ ih => exact ih.trans release_config

/-- A flush leaves the tables of the epochs as they are. -/
lemma epochs (walk : Flush app due now events t events' t') :
    t'.epochLut = t.epochLut ∧ t'.epochFreelist = t.epochFreelist := by
  induction walk with
  | stop => exact ⟨rfl, rfl⟩
  | last => exact ⟨release_epochLut, release_epochFreelist⟩
  | next _ _ _ ih => exact ⟨ih.1.trans release_epochLut, ih.2.trans release_epochFreelist⟩

/-- A flush takes events away at the front only. -/
lemma suffix (walk : Flush app due now events t events' t') : events' <:+ events := by
  induction walk with
  | stop => exact List.suffix_refl _
  | last => exact List.suffix_cons _ _
  | next _ _ _ ih => exact ih.trans (List.suffix_cons _ _)

/-- A flush keeps what lies behind the due event. -/
lemma keeps (walk : Flush app due now events t events' t') {before d after}
    (split : events = before ++ d :: after) (hd : d.addr = due.addr) : after <:+ events' := by
  induction walk generalizing before with
  | stop =>
    subst split
    exact ⟨before ++ [d], by simp⟩
  | last _ same =>
    cases before with
    | nil =>
      obtain ⟨_, rfl⟩ := List.cons.inj split
      exact List.suffix_refl _
    | cons _ before =>
      obtain ⟨_, rfl⟩ := List.cons.inj split
      exact ⟨before ++ [d], by simp⟩
  | next _ other _ ih =>
    cases before with
    | nil =>
      obtain ⟨rfl, _⟩ := List.cons.inj split
      exact absurd hd other
    | cons _ before =>
      obtain ⟨_, rfl⟩ := List.cons.inj split
      exact ih rfl

/-- A flush loses no event: the processed ones and the pending ones together stay the same but for
    the damage. -/
lemma history (walk : Flush app due now events t events' t') :
    (t'.processed ++ events').map EbEvent.undamaged =
      (t.processed ++ events).map EbEvent.undamaged := by
  induction walk with
  | stop => rfl
  | @last e events t _ _ =>
    obtain ⟨e', same, h⟩ := release_processed app now t e
    simp [h, same]
  | @next e events t _ _ _ _ _ ih =>
    obtain ⟨e', same, h⟩ := release_processed app now t e
    rw [ih, h]
    simp [same]

/-- Releasing the first event keeps the pool and the table in order. -/
lemma holds_release {e : EbEvent} (holds : t.HoldsEvents (e :: events)) :
    (release app now t e).HoldsEvents events := by
  have h := holds.release
  unfold EbTables.HoldsEvents
  rw [release_eventLut, release_eventFreelist, EbTables.evIndex_congr release_config]
  exact h.weaken (freeEntries_free _ _)

/-- A flush keeps the event pool and its lookup table in order. -/
lemma held (walk : Flush app due now events t events' t') (holds : t.HoldsEvents events) :
    t'.HoldsEvents events' := by
  induction walk with
  | stop => exact holds
  | last => exact holds_release holds
  | next _ _ _ ih => exact ih (holds_release holds)

end Flush

end Lcls2.Eb
