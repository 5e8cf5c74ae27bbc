import Lcls2.Eb.MonitorBuffers

/-!
# Result batches of the trigger event builder

The results of a TEB lie in consecutive slots of the batch region and are cut into batches: at the end of an epoch,
behind a transition, at the end of the region and on a timeout. A result is written into its slot before the batch at
the end of the region is posted, so a batch that fills the whole region is posted with its first result overwritten.

* `OpenBatch` is what the open batch is, `Results` what holds of the region and of what has been posted.
* `Results.post`, `Results.write`, `Results.start` and `Results.append` are the moves that `process` is made of.
* `results_batched_iff` is the result for runs.
-/

namespace Lcls2.Eb
open Lcls2.Lib

namespace Teb

/-- The results of the open batch. -/
def open_ (s : Teb) : List Routed := s.batch.elim [] TebBatch.results

/-- The slot of the next event. -/
def slot (p : TebParams) (s : Teb) : Nat := (s.eventIdx &&& (p.numBuffers - 1#32)).toNat

/-- The start of `Teb::run`, with nothing posted yet. -/
def begun (s : Teb) : Teb := { s.start with posted := [] }

/-- A contributor sends an input to the TEB that its epoch is of; the others receive an event that they are not to
    respond to. -/
def Routes (p : TebParams) (numEbs index : Nat) (_ : List Op) (_ : Teb) : Op → Prop
  | .process event _ =>
    ImmData.response event.immData = true ↔ event.creator.pulseId / p.maxEntries.toNat % numEbs = index
  | .flush => True

/-- And no result is written to the first slot of the region while it is that of the open batch. -/
def InRegion (p : TebParams) (numEbs index : Nat) (ops : List Op) (s : Teb) (op : Op) : Prop :=
  Routes p numEbs index ops s op ∧
    match op with
    | .process event _ => ImmData.response event.immData = true → s.slot p = 0 → ∀ b ∈ s.batch, b.start ≠ 0
    | .flush => True

/-- The result that an event is to have: its pulse ID, and the receivers of its readout groups that did supply an
    input. -/
def due (p : TebParams) : Op → List (Nat × BitVec 64)
  | .process event _ =>
    if ImmData.response event.immData then
      [(event.creator.pulseId, (p.receiversOf event.creator.readoutGroups).getD 0 &&& ~~~event.remaining)]
    else []
  | .flush => []

end Teb

/-- The pulse ID of a result and whom it is for. -/
def Routed.key (r : Routed) : Nat × BitVec 64 := (r.1.pulseId, r.2)

/-- A posted batch: its results as they were made in slots of the region, of one epoch, with the bit on the last one
    only; it is posted to whom one of its results is for. -/
structure Posted.Good (p : TebParams) (c : Posted) : Prop where
  made : c.entries.map ResultDgram.copy = c.results.map fun r => r.1.copy
  ends : IsChain (fun r : ResultDgram => r.isEOL) c.entries
  fits : c.start + c.entries.length ≤ p.numBuffers.toNat
  epoch : ∀ r ∈ c.entries, ∀ r' ∈ c.entries, p.batMan.epoch r.pulseId = p.batMan.epoch r'.pulseId
  dsts : ∀ dst, dst ∈ c.dsts ↔ dst < 64 ∧ ∃ r ∈ c.results, r.2.getLsbD dst = true

/-- The posted batches and the open one are the results of the events, in the order of their pulse IDs; a flush
    leaves none open. -/
structure Teb.Batched (p : TebParams) (ops : List Teb.Op) (s : Teb) : Prop where
  parts : (s.posted.flatMap Posted.results ++ s.open_).map Routed.key = ops.flatMap (Teb.due p)
  order : (s.posted.flatMap Posted.results ++ s.open_).Pairwise fun r r' => r.1.pulseId < r'.1.pulseId
  posted : ∀ c ∈ s.posted, c.Good p
  flushed : ops.getLast? = some .flush → s.batch = none

/-- What the open batch is: its results lie from its start to its end, they are of one epoch, and none has the bit. -/
structure OpenBatch (p : TebParams) (mem : Nat → ResultDgram) (b : TebBatch) : Prop where
  some_ : b.results ≠ []
  holds : slots mem b.start b.results.length = b.results.map Prod.fst
  len : b.end_ + 1 = b.start + b.results.length
  fits : b.end_ < p.numBuffers.toNat
  clear : ∀ r ∈ b.results, r.1.isEOL = false
  epoch : ∀ r ∈ b.results, p.batMan.epoch r.1.pulseId = p.batMan.epoch (mem b.start).pulseId
  dsts : ∀ dst, b.dsts.getLsbD dst = true ↔ ∃ r ∈ b.results, r.2.getLsbD dst = true

/-- What holds of the region when the next event gets the slot `front`. -/
structure Teb.Results (p : TebParams) (keys : List (Nat × BitVec 64)) (front : Nat) (s : Teb) : Prop where
  batch : ∀ b ∈ s.batch, OpenBatch p s.mem b ∧ (b.end_ + 1) % p.numBuffers.toNat = front
  parts : (s.posted.flatMap Posted.results ++ s.open_).map Routed.key = keys
  posted : ∀ c ∈ s.posted, c.Good p

section moves
variable {app : TebApp} {p : TebParams} {s t : Teb} {b : TebBatch} {keys : List (Nat × BitVec 64)}
  {front slot : Nat} {dsts : BitVec 64}

lemma mem_sources {bits : BitVec 64} {i : Nat} : i ∈ sources bits ↔ i < 64 ∧ bits.getLsbD i = true := by
  rw [sources, List.mem_filter, List.mem_range]

/-- What sending leaves. -/
lemma Teb.sendTo_ok {dsts : List Nat} (h : Teb.sendTo app p dsts s = .ok t) : ∃ n, t = { s with sends := n } := by
  induction dsts generalizing s with
  | nil =>
    cases h
    exact ⟨t.sends, rfl⟩
  | cons dst dsts ih =>
    rw [Teb.sendTo] at h
    split at h
    · cases h
    · split at h
      · cases h
      · obtain ⟨n, e⟩ := ih h
        exact ⟨n, e⟩

/-- What the post of a batch leaves: the bit at its end, and what is posted. -/
lemma Teb.post_ok (h : s.post app p b = .ok t) :
    ∃ sends count, t = { s with
      mem := Function.update s.mem b.end_ (s.mem b.end_).setEOL
      sends
      posted := s.posted ++ [{
        start := b.start
        dsts := sources b.dsts
        entries := slots (Function.update s.mem b.end_ (s.mem b.end_).setEOL) b.start (b.end_ - b.start + 1)
        results := b.results }]
      batchCount := count } := by
  obtain ⟨u, sent, h⟩ := bind_ok h
  obtain ⟨n, rfl⟩ := sendTo_ok sent
  cases h
  exact ⟨n, _, rfl⟩

/-- The open batch with its last result. -/
lemma OpenBatch.split {mem : Nat → ResultDgram} (o : OpenBatch p mem b) :
    ∃ init last, b.results = init ++ [last] ∧ b.end_ = b.start + init.length ∧
      slots mem b.start init.length = init.map Prod.fst ∧ mem b.end_ = last.1 := by
  have e := (List.dropLast_append_getLast o.some_).symm
  generalize b.results.dropLast = init, b.results.getLast o.some_ = last at e
  have len := o.len
  have holds := o.holds
  rw [e, List.length_append, List.length_singleton] at len
  rw [e, List.length_append, List.length_singleton, slots_succ, List.map_append] at holds
  obtain ⟨before, here⟩ := List.append_inj' holds rfl
  have ends : b.end_ = b.start + init.length := by omega
  refine ⟨init, last, e, ends, before, ?_⟩
  rw [ends]
  exact List.singleton_inj.mp here

/-- A posted batch is what the open one was. -/
lemma OpenBatch.good (o : OpenBatch p s.mem b) :
    Posted.Good p {
      start := b.start
      dsts := sources b.dsts
      entries := slots (Function.update s.mem b.end_ (s.mem b.end_).setEOL) b.start (b.end_ - b.start + 1)
      results := b.results } := by
  obtain ⟨init, last, e, ends, before, here⟩ := o.split
  have entries : slots (Function.update s.mem b.end_ (s.mem b.end_).setEOL) b.start (b.end_ - b.start + 1) =
      init.map Prod.fst ++ [last.1.setEOL] := by
    have count : b.end_ - b.start = init.length := by omega
    rw [count, slots_succ, ← ends, Function.update_self, here, ← before]
    congr 1
    apply slots_congr
    intro i lo hi
    exact Function.update_of_ne (by omega) _ _
  rw [entries]
  have same : ∀ r ∈ b.results, ∀ r' ∈ b.results, p.batMan.epoch r.1.pulseId = p.batMan.epoch r'.1.pulseId :=
    fun r hr r' hr' => (o.epoch r hr).trans (o.epoch r' hr').symm
  have result : ∀ r ∈ init.map Prod.fst ++ [last.1.setEOL], ∃ r' ∈ b.results, r.pulseId = r'.1.pulseId := by
    intro r hr
    rw [e]
    cases List.mem_append.mp hr with
    | inl early =>
      obtain ⟨r', hr', rfl⟩ := List.mem_map.mp early
      exact ⟨r', List.mem_append_left _ hr', rfl⟩
    | inr end_ =>
      rw [List.mem_singleton.mp end_, ResultDgram.setEOL_pulseId]
      exact ⟨last, List.mem_append_right _ (List.mem_singleton_self last), rfl⟩
  refine ⟨?_, ?_, ?_, ?_, ?_⟩
  · rw [e]
    simp only [List.map_append, List.map_map, List.map_singleton, ResultDgram.setEOL_copy]
    rfl
  · apply chain_append
    · intro r hr
      obtain ⟨r', hr', rfl⟩ := List.mem_map.mp hr
      apply o.clear
      rw [e]
      exact List.mem_append_left _ hr'
    · exact last.1.setEOL_isEOL
  · rw [List.length_append, List.length_map, List.length_singleton]
    show b.start + (init.length + 1) ≤ _
    have fits := o.fits
    omega
  · intro r hr r' hr'
    obtain ⟨q, hq, same₁⟩ := result r hr
    obtain ⟨q', hq', same₂⟩ := result r' hr'
    rw [same₁, same₂]
    exact same q hq q' hq'
  · intro dst
    rw [← o.dsts dst]
    exact mem_sources

namespace Teb.Results

/-- The post of the open batch. -/
lemma post (inv : Results p keys front { s with batch := some b }) (h : s.post app p b = .ok t) :
    Results p keys front { t with batch := none } := by
  obtain ⟨o, -⟩ := inv.batch b rfl
  obtain ⟨sends, count, rfl⟩ := post_ok h
  refine ⟨nofun, ?_, ?_⟩
  · rw [← inv.parts]
    simp only [open_, Option.elim_none, Option.elim_some, List.append_nil, List.flatMap_append,
      List.flatMap_singleton]
  · intro c hc
    cases List.mem_append.mp hc with
    | inl before => exact inv.posted c before
    | inr now =>
      rw [List.mem_singleton.mp now]
      exact o.good

/-- The region with the batch that is open. -/
lemma reopen (inv : Results p keys front s) (hb : s.batch = some b) :
    Results p keys front { s with batch := some b } := by
  rw [← hb]
  exact inv

/-- A flush. -/
lemma flush (inv : Results p keys front s) (h : s.flush app p = .ok t) :
    Results p keys front t ∧ t.batch = none := by
  rw [Teb.flush] at h
  cases hb : s.batch with
  | none =>
    rw [hb] at h
    cases h
    exact ⟨inv, hb⟩
  | some b =>
    rw [hb] at h
    obtain ⟨u, posted, h⟩ := bind_ok h
    cases h
    exact ⟨(inv.reopen hb).post posted, rfl⟩

/-- A write outside the open batch. -/
lemma write (inv : Results p keys front s) (free : ∀ b ∈ s.batch, slot < b.start ∨ b.end_ < slot) (r : ResultDgram) :
    Results p keys front { s with mem := Function.update s.mem slot r } := by
  refine ⟨?_, inv.parts, inv.posted⟩
  intro b hb
  obtain ⟨o, next⟩ := inv.batch b hb
  have apart := free b hb
  have len := o.len
  have pos := List.length_pos_iff.mpr o.some_
  have same : ∀ i, b.start ≤ i → i < b.start + b.results.length → Function.update s.mem slot r i = s.mem i := by
    intro i lo hi
    apply Function.update_of_ne
    omega
  refine ⟨⟨o.some_, ?_, o.len, o.fits, o.clear, ?_, o.dsts⟩, next⟩
  · rw [← o.holds]
    exact slots_congr same
  · show ∀ r' ∈ b.results, _ = p.batMan.epoch (Function.update s.mem slot r b.start).pulseId
    rw [same b.start (Nat.le_refl _) (by omega)]
    exact o.epoch

/-- A result starts a batch. -/
lemma start (inv : Results p keys front { s with batch := none }) (fits : slot < p.numBuffers.toNat)
    (clear : (s.mem slot).isEOL = false) :
    Results p (keys ++ [((s.mem slot).pulseId, dsts)]) ((slot + 1) % p.numBuffers.toNat)
      { s with batch := some (s.newBatch dsts slot) } := by
  refine ⟨?_, ?_, inv.posted⟩
  · intro b hb
    cases hb
    refine ⟨⟨List.cons_ne_nil _ _, rfl, rfl, fits, ?_, ?_, ?_⟩, rfl⟩
    · intro r hr
      rw [List.mem_singleton.mp hr]
      exact clear
    · intro r hr
      rw [List.mem_singleton.mp hr]
      rfl
    · intro dst
      constructor
      · intro bit
        exact ⟨_, List.mem_singleton_self _, bit⟩
      · rintro ⟨r, hr, bit⟩
        rw [List.mem_singleton.mp hr] at bit
        exact bit
  · have parts := inv.parts
    rw [open_, Option.elim_none, List.append_nil] at parts
    rw [← parts, open_, Option.elim_some, List.map_append]
    rfl

/-- A result behind the open batch is appended. -/
lemma append (inv : Results p keys front { s with batch := some b }) (next : b.end_ + 1 = slot)
    (fits : slot < p.numBuffers.toNat) (clear : (s.mem slot).isEOL = false)
    (epoch : p.batMan.epoch (s.mem slot).pulseId = p.batMan.epoch (s.mem b.start).pulseId) :
    Results p (keys ++ [((s.mem slot).pulseId, dsts)]) ((slot + 1) % p.numBuffers.toNat)
      { s with batch := some (s.append b dsts slot) } := by
  obtain ⟨o, -⟩ := inv.batch b rfl
  have len := o.len
  have grown : (s.append b dsts slot).results = b.results ++ [(s.mem slot, dsts)] :=
    if_neg (by omega)
  refine ⟨?_, ?_, inv.posted⟩
  · intro b' hb'
    cases hb'
    refine ⟨⟨?_, ?_, ?_, fits, ?_, ?_, ?_⟩, rfl⟩
    · rw [grown]
      exact List.append_ne_nil_of_right_ne_nil _ (List.cons_ne_nil _ _)
    · rw [grown, List.length_append, List.length_singleton, slots_succ, List.map_append]
      show slots s.mem b.start b.results.length ++ [s.mem (b.start + b.results.length)] = _
      rw [o.holds, ← len, next]
      rfl
    · rw [grown, List.length_append, List.length_singleton]
      show slot + 1 = b.start + (b.results.length + 1)
      omega
    · rw [grown]
      intro r hr
      cases List.mem_append.mp hr with
      | inl early => exact o.clear r early
      | inr end_ =>
        rw [List.mem_singleton.mp end_]
        exact clear
    · rw [grown]
      intro r hr
      cases List.mem_append.mp hr with
      | inl early => exact o.epoch r early
      | inr end_ =>
        rw [List.mem_singleton.mp end_]
        exact epoch
    · intro dst
      show (b.dsts ||| dsts).getLsbD dst = true ↔ _
      rw [grown, BitVec.getLsbD_or, Bool.or_eq_true, o.dsts dst]
      constructor
      · rintro (⟨r, hr, bit⟩ | bit)
        · exact ⟨r, List.mem_append_left _ hr, bit⟩
        · exact ⟨_, List.mem_append_right _ (List.mem_singleton_self _), bit⟩
      · rintro ⟨r, hr, bit⟩
        cases List.mem_append.mp hr with
        | inl early => exact .inl ⟨r, early, bit⟩
        | inr end_ =>
          rw [List.mem_singleton.mp end_] at bit
          exact .inr bit
  · have parts := inv.parts
    rw [open_, Option.elim_some] at parts
    rw [← parts, open_, Option.elim_some, grown, ← List.append_assoc, List.map_append]
    rfl

end Teb.Results

/-- A batch is kept open, or posted if its last result flushes. -/
def Teb.Kept (app : TebApp) (p : TebParams) (s : Teb) (b : TebBatch) (flush : Bool) (t : Teb) : Prop :=
  if flush then ∃ u, s.post app p b = .ok u ∧ t = { u with batch := none }
  else t = { s with batch := some b }

/-- Appending the result a batch was started with changes nothing. -/
lemma Teb.append_newBatch : s.append (s.newBatch dsts slot) dsts slot = s.newBatch dsts slot := by
  rw [Teb.append, newBatch, if_pos rfl, BitVec.or_self]

/-- How a result is put to a batch. -/
lemma Teb.addToBatch_ok (h : s.addToBatch app p b dsts slot = .ok t) :
    (p.batMan.expired (s.mem slot).pulseId (s.mem b.start).pulseId = false ∧
      Kept app p s (s.append b dsts slot) (flushes (s.mem slot).toEbDgram) t) ∨
    (p.batMan.expired (s.mem slot).pulseId (s.mem b.start).pulseId = true ∧
      ∃ u, s.post app p b = .ok u ∧
        Kept app p u (u.newBatch dsts slot) (flushes (s.mem slot).toEbDgram) t) := by
  simp only [Teb.addToBatch] at h
  cases expired : p.batMan.expired (s.mem slot).pulseId (s.mem b.start).pulseId with
  | false =>
    refine .inl ⟨rfl, ?_⟩
    cases hf : flushes (s.mem slot).toEbDgram with
    | false =>
      rw [expired, hf] at h
      cases h
      exact rfl
    | true =>
      rw [expired, hf] at h
      obtain ⟨⟨u, b'⟩, same, h⟩ := bind_ok h
      cases same
      obtain ⟨v, posted, h⟩ := bind_ok h
      cases h
      exact ⟨v, posted, rfl⟩
  | true =>
    refine .inr ⟨rfl, ?_⟩
    rw [expired] at h
    obtain ⟨⟨u, b'⟩, before, h⟩ := bind_ok h
    obtain ⟨v, posted, before⟩ := bind_ok before
    cases before
    refine ⟨_, posted, ?_⟩
    cases hf : flushes (s.mem slot).toEbDgram with
    | false =>
      rw [hf] at h
      cases h
      exact rfl
    | true =>
      rw [hf] at h
      obtain ⟨w, last, h⟩ := bind_ok h
      cases h
      rw [append_newBatch] at last
      exact ⟨w, last, rfl⟩

/-- The result in the slot has found its batch; an open batch is of its epoch. -/
structure Teb.Placed (p : TebParams) (keys : List (Nat × BitVec 64)) (slot : Nat) (s t : Teb) : Prop where
  results : Teb.Results p keys ((slot + 1) % p.numBuffers.toNat) t
  eventIdx : t.eventIdx = s.eventIdx
  pidPrv : t.pidPrv = s.pidPrv
  epoch : ∀ b ∈ t.batch, p.batMan.epoch (t.mem b.start).pulseId = p.batMan.epoch (s.mem slot).pulseId

/-- The batch with the result is kept open or posted. -/
lemma Teb.Results.kept {flush : Bool}
    (inv : Teb.Results p keys ((slot + 1) % p.numBuffers.toNat) { s with batch := some b })
    (epoch : p.batMan.epoch (s.mem b.start).pulseId = p.batMan.epoch (s.mem slot).pulseId)
    (h : Teb.Kept app p s b flush t) : Teb.Placed p keys slot s t := by
  cases flush with
  | false =>
    cases h
    refine ⟨inv, rfl, rfl, ?_⟩
    intro b' hb
    cases hb
    exact epoch
  | true =>
    obtain ⟨u, posted, rfl⟩ := h
    refine ⟨inv.post posted, ?_, ?_, nofun⟩
    · obtain ⟨sends, count, rfl⟩ := post_ok posted
      rfl
    · obtain ⟨sends, count, rfl⟩ := post_ok posted
      rfl

/-- A result that no batch precedes. -/
lemma Teb.Results.addFirst (inv : Teb.Results p keys front { s with batch := none }) (fits : slot < p.numBuffers.toNat)
    (clear : (s.mem slot).isEOL = false) (h : s.addToBatch app p (s.newBatch dsts slot) dsts slot = .ok t) :
    Teb.Placed p (keys ++ [((s.mem slot).pulseId, dsts)]) slot s t := by
  have started := @start _ _ _ _ _ dsts inv fits clear
  cases Teb.addToBatch_ok h with
  | inl kept =>
    obtain ⟨-, kept⟩ := kept
    rw [Teb.append_newBatch] at kept
    exact started.kept rfl kept
  | inr expired =>
    -- a result is of its own epoch
    have other := BatchManager.expired_iff.mp expired.1
    exact absurd rfl other

/-- A result behind the open batch. -/
lemma Teb.Results.addNext (inv : Teb.Results p keys slot { s with batch := some b }) (next : b.end_ + 1 = slot)
    (fits : slot < p.numBuffers.toNat) (clear : (s.mem slot).isEOL = false)
    (h : s.addToBatch app p b dsts slot = .ok t) :
    Teb.Placed p (keys ++ [((s.mem slot).pulseId, dsts)]) slot s t := by
  cases Teb.addToBatch_ok h with
  | inl kept =>
    have epoch := BatchManager.not_expired_iff.mp kept.1
    have appended := @append _ _ _ _ _ _ dsts inv next fits clear epoch
    exact appended.kept epoch.symm kept.2
  | inr expired =>
    obtain ⟨-, u, posted, kept⟩ := expired
    have inv := inv.post posted
    obtain ⟨sends, count, rfl⟩ := post_ok posted
    have same : Function.update s.mem b.end_ (s.mem b.end_).setEOL slot = s.mem slot :=
      Function.update_of_ne (by omega) _ _
    have started := @start _ _ _ _ _ dsts inv fits (by rw [← clear, ← same])
    have placed := started.kept rfl kept
    refine ⟨?_, placed.eventIdx, placed.pidPrv, ?_⟩
    · rw [← same]
      exact placed.results
    · rw [← same]
      exact placed.epoch

/-- What a flush leaves. -/
lemma Teb.flush_ok (h : s.flush app p = .ok t) :
    t.eventIdx = s.eventIdx ∧ t.pidPrv = s.pidPrv ∧ ∀ i, (∀ b ∈ s.batch, i ≠ b.end_) → t.mem i = s.mem i := by
  rw [Teb.flush] at h
  cases hb : s.batch with
  | none =>
    rw [hb] at h
    cases h
    exact ⟨rfl, rfl, fun _ _ => rfl⟩
  | some b =>
    rw [hb] at h
    obtain ⟨u, posted, h⟩ := bind_ok h
    obtain ⟨sends, count, rfl⟩ := post_ok posted
    cases h
    exact ⟨rfl, rfl, fun i other => Function.update_of_ne (other b rfl) _ _⟩

/-- The result in the slot behind the open batch, if there is one, finds its batch. -/
lemma Teb.Results.tryPost (inv : Teb.Results p keys slot s) (fits : slot < p.numBuffers.toNat)
    (clear : (s.mem slot).isEOL = false) (free : slot = 0 → ∀ b ∈ s.batch, b.start ≠ 0)
    (h : s.tryPost app p dsts slot = .ok t) :
    Teb.Placed p (keys ++ [((s.mem slot).pulseId, dsts)]) slot s t := by
  obtain ⟨u, wrapped, h⟩ := bind_ok h
  rw [Teb.wrap] at wrapped
  cases Nat.eq_zero_or_pos slot with
  | inl zero =>
    rw [if_pos zero] at wrapped
    obtain ⟨flushed, closed⟩ := inv.flush wrapped
    obtain ⟨eventIdx, pidPrv, kept⟩ := Teb.flush_ok wrapped
    have same : u.mem slot = s.mem slot := by
      apply kept
      intro b hb e
      have len := (inv.batch b hb).1.len
      have pos := List.length_pos_iff.mpr (inv.batch b hb).1.some_
      have start := free zero b hb
      omega
    rw [closed] at h
    have closed : Teb.Results p keys slot { u with batch := none } := by
      rw [← closed]
      exact flushed
    have placed := closed.addFirst fits (by rw [same, clear]) h
    refine ⟨?_, placed.eventIdx.trans eventIdx, placed.pidPrv.trans pidPrv, ?_⟩
    · rw [← same]
      exact placed.results
    · rw [← same]
      exact placed.epoch
  | inr pos =>
    rw [if_neg (Nat.ne_of_gt pos)] at wrapped
    cases wrapped
    cases hb : s.batch with
    | none =>
      rw [hb] at h
      have closed : Teb.Results p keys slot { s with batch := none } := by
        rw [← hb]
        exact inv
      exact closed.addFirst fits clear h
    | some b =>
      rw [hb] at h
      obtain ⟨o, next⟩ := inv.batch b hb
      have last := o.fits
      cases Nat.lt_or_ge (b.end_ + 1) p.numBuffers.toNat with
      | inl inside =>
        rw [Nat.mod_eq_of_lt inside] at next
        exact (inv.reopen hb).addNext next fits clear h
      | inr end_ =>
        -- the batch at the end of the region would be followed by the first slot
        rw [Nat.le_antisymm end_ last, Nat.mod_self] at next
        exact absurd next (Nat.ne_of_lt pos)

end moves

section calls
variable {app : TebApp} {p : TebParams} {s t : Teb} {event : EbEvent} {polled : List (BitVec 32)}

namespace Teb

/-- What a batch and its posts read and change. -/
def region (s : Teb) := (s.mem, s.eventIdx, s.batch, s.posted, s.pidPrv)

lemma Results.congr {keys : List (Nat × BitVec 64)} {front : Nat} (inv : Results p keys front s)
    (mem : t.mem = s.mem) (batch : t.batch = s.batch) (posted : t.posted = s.posted) : Results p keys front t := by
  refine ⟨?_, ?_, ?_⟩
  · rw [batch, mem]
    exact inv.batch
  · rw [posted, open_, batch]
    exact inv.parts
  · rw [posted]
    exact inv.posted

lemma pollMonBufs_region (h : s.pollMonBufs p polled = .ok t) : t.region = s.region := by
  induction polled generalizing s with
  | nil =>
    cases h
    rfl
  | cons imm polled ih =>
    rw [pollMonBufs] at h
    split at h
    · cases h
    · have same := ih h
      exact same

lemma assignMonBuf_region {roundRobin : Bool} {n : Nat} {dsts : BitVec 32} {rdg rdg' : ResultDgram}
    (h : assignMonBuf roundRobin n dsts s rdg = .ok (t, rdg')) :
    t.region = s.region ∧ rdg'.toEbDgram = rdg.toEbDgram := by
  induction n generalizing s dsts with
  | zero =>
    rw [assignMonBuf] at h
    split at h
    · cases h
      exact ⟨rfl, rfl⟩
    · cases h
  | succ n ih =>
    rw [assignMonBuf] at h
    split at h
    · cases h
      exact ⟨rfl, rfl⟩
    · cases roundRobin with
      | true =>
        simp only [if_true] at h
        split at h
        · cases h
        · split at h
          · have kept := ih h
            exact kept
          · split at h
            · cases h
              exact ⟨rfl, rfl⟩
            · have kept := ih h
              exact kept
      | false =>
        simp only [Bool.false_eq_true, if_false] at h
        split at h
        · cases h
        · split at h
          · exact ih h
          · split at h
            · cases h
              exact ⟨rfl, rfl⟩
            · exact ih h

lemma monitor_region {rdg rdg' : ResultDgram} (h : s.monitor p polled rdg = .ok (t, rdg')) :
    t.region = s.region ∧ rdg'.toEbDgram = rdg.toEbDgram := by
  obtain ⟨u, taken, h⟩ := bind_ok h
  obtain ⟨same, dgram⟩ := assignMonBuf_region h
  exact ⟨same.trans (pollMonBufs_region taken), dgram⟩

/-- The trigger's decision leaves the region and what a result has of its event. -/
lemma decideEvent_region {rdg rdg' : ResultDgram} (h : s.decideEvent app p event polled rdg = .ok (t, rdg')) :
    t.region = s.region ∧ rdg'.toEbDgram = rdg.toEbDgram := by
  have prescaled : ∀ (s : Teb) (rdg : ResultDgram), (s.handlePrescale app rdg).1.region = s.region ∧
      (s.handlePrescale app rdg).2.toEbDgram = rdg.toEbDgram := by
    intro s rdg
    rw [handlePrescale]
    split
    · exact ⟨rfl, rfl⟩
    · split
      · exact ⟨rfl, rfl⟩
      · exact ⟨rfl, rfl⟩
  have counted : ∀ (s : Teb) (persist : Prop) [Decidable persist],
      (if persist then { s with writeCount := s.writeCount + 1 } else s).region = s.region := by
    intro s persist _
    split
    · rfl
    · rfl
  simp only [decideEvent] at h
  split at h
  · obtain ⟨same, dgram⟩ := prescaled s { rdg with data := app.event event rdg }
    split at h
    · obtain ⟨same', dgram'⟩ := monitor_region h
      exact ⟨(same'.trans (counted _ _)).trans same, dgram'.trans dgram⟩
    · cases h
      exact ⟨(counted _ _).trans same, dgram⟩
  · cases h
    exact ⟨rfl, rfl⟩

/-- What the part for a "selected" TEB does: a result of the event is written and put to a batch. -/
lemma respond_ok {idx : Nat} (h : s.respond app p event polled idx = .ok t) :
    ∃ (u : Teb) (rdg : ResultDgram) (receivers : BitVec 64), u.region = s.region ∧
      rdg.pulseId = event.creator.pulseId ∧ rdg.isEOL = false ∧
      p.receiversOf event.creator.readoutGroups = some receivers ∧
      { u with mem := Function.update u.mem idx rdg }.tryPost app p (receivers &&& ~~~event.remaining) idx =
        .ok t := by
  obtain ⟨⟨u, rdg⟩, decided, h⟩ := bind_ok h
  obtain ⟨same, dgram⟩ := decideEvent_region decided
  cases found : p.receiversOf event.creator.readoutGroups with
  | none =>
    simp only [found] at h
    cases h
  | some receivers =>
    simp only [found] at h
    refine ⟨u, rdg, receivers, same, ?_, ?_, rfl, h⟩
    · rw [dgram]
      exact event.creator.copy_pulseId
    · rw [dgram]
      exact event.creator.copy_isEOL

/-- What holds between two calls. -/
structure Between (p : TebParams) (numEbs index : Nat) (ops : List Op) (s : Teb) : Prop where
  results : Results p (ops.flatMap (due p)) (s.slot p) s
  order : (ops.flatMap (due p)).Pairwise fun r r' => r.1 < r'.1
  below : ∀ r ∈ ops.flatMap (due p), r.1 ≤ s.pidPrv
  selected : ∀ b ∈ s.batch, (s.mem b.start).pulseId / p.maxEntries.toNat % numEbs = index
  flushed : ops.getLast? = some .flush → s.batch = none

variable {numEbs index k m : Nat} {ops : List Op}

/-- The slot of the next event counts modulo the number of slots. -/
lemma slot_mod (pow : p.numBuffers.toNat = 2 ^ k) : s.slot p = s.eventIdx.toNat % 2 ^ k := by
  have low : (p.numBuffers - 1#32).toNat = 2 ^ k - 1 := by
    have pos := Nat.two_pow_pos k
    have lt := p.numBuffers.isLt
    rw [BitVec.toNat_sub, pow]
    rw [pow] at lt
    show (2 ^ 32 - 1 + 2 ^ k) % 2 ^ 32 = _
    omega
  rw [slot, BitVec.toNat_and, low, Nat.and_two_pow_sub_one_eq_mod]

/-- The slots go round. -/
lemma slot_succ (pow : p.numBuffers.toNat = 2 ^ k) (next : t.eventIdx = s.eventIdx + 1#32) :
    t.slot p = (s.slot p + 1) % p.numBuffers.toNat := by
  have lt := p.numBuffers.isLt
  rw [pow, Nat.pow_lt_pow_iff_right (by decide)] at lt
  rw [slot_mod pow, slot_mod pow, next, pow, BitVec.toNat_add]
  show (s.eventIdx.toNat + 1) % 2 ^ 32 % 2 ^ k = _
  rw [Nat.mod_mod_of_dvd _ (Nat.pow_dvd_pow 2 (Nat.le_of_lt lt)), Nat.mod_add_mod]

lemma slot_lt (pow : p.numBuffers.toNat = 2 ^ k) : s.slot p < p.numBuffers.toNat := by
  rw [slot_mod pow, pow]
  exact Nat.mod_lt _ (Nat.two_pow_pos k)

lemma pulseId_lt_word (d : EbDgram) : d.pulseId < 2 ^ 64 :=
  Nat.lt_trans d.pulseId_lt (Nat.pow_lt_pow_right (by decide) (by decide))

namespace Between

/-- The results of the events that there have been, and of one more. -/
lemma due_concat (op : Op) : (ops ++ [op]).flatMap (due p) = ops.flatMap (due p) ++ due p op := by
  rw [List.flatMap_append, List.flatMap_singleton]

/-- The state before the first call. -/
lemma start (s : Teb) : Between p numEbs index [] s.begun :=
  ⟨⟨nofun, rfl, nofun⟩, .nil, nofun, nofun, nofun⟩

lemma flush (inv : Between p numEbs index ops s) (h : s.flush app p = .ok t) :
    Between p numEbs index (ops ++ [.flush]) t := by
  obtain ⟨results, closed⟩ := inv.results.flush h
  obtain ⟨eventIdx, pidPrv, -⟩ := flush_ok h
  have same : t.slot p = s.slot p := by rw [slot, slot, eventIdx]
  have none_ : ∀ b ∈ t.batch, False := by
    intro b hb
    rw [closed] at hb
    cases hb
  refine ⟨?_, ?_, ?_, fun b hb => (none_ b hb).elim, fun _ => closed⟩
  · rw [due_concat, due, List.append_nil, same]
    exact results
  · rw [due_concat, due, List.append_nil]
    exact inv.order
  · rw [due_concat, due, List.append_nil, pidPrv]
    exact inv.below

/-- An event for which the TEB responds. -/
lemma respond (inv : Between p numEbs index ops s) (buffers : p.numBuffers.toNat = 2 ^ k)
    (entries : p.maxEntries.toNat = 2 ^ m) (response : ImmData.response event.immData = true)
    (route : event.creator.pulseId / p.maxEntries.toNat % numEbs = index)
    (free : s.slot p = 0 → ∀ b ∈ s.batch, b.start ≠ 0) (later : s.pidPrv < event.creator.pulseId)
    {s' : Teb} (mem : s'.mem = s.mem) (batch : s'.batch = s.batch) (posted : s'.posted = s.posted)
    (eventIdx : s'.eventIdx = s.eventIdx + 1#32) (pidPrv : s'.pidPrv = event.creator.pulseId)
    (h : s'.respond app p event polled (s.slot p) = .ok t) :
    Between p numEbs index (ops ++ [.process event polled]) t := by
  obtain ⟨u, rdg, receivers, same, pulseId, clear, found, h⟩ := respond_ok h
  rw [region, region, Prod.mk.injEq, Prod.mk.injEq, Prod.mk.injEq, Prod.mk.injEq] at same
  obtain ⟨mem', eventIdx', batch', posted', pidPrv'⟩ := same
  have results := inv.results.congr (mem'.trans mem) (batch'.trans batch) (posted'.trans posted)
  have fits := @slot_lt p s k buffers
  -- the slot is behind the open batch, or the first one
  have apart : ∀ b ∈ u.batch, s.slot p < b.start ∨ b.end_ < s.slot p := by
    intro b hb
    obtain ⟨o, next⟩ := results.batch b hb
    have last := o.fits
    cases Nat.lt_or_ge (b.end_ + 1) p.numBuffers.toNat with
    | inl inside =>
      rw [Nat.mod_eq_of_lt inside] at next
      exact .inr (by omega)
    | inr end_ =>
      rw [Nat.le_antisymm end_ last, Nat.mod_self] at next
      rw [batch', batch] at hb
      have start := free next.symm b hb
      exact .inl (by omega)
  have written := results.write apart rdg
  have here : ({ u with mem := Function.update u.mem (s.slot p) rdg } : Teb).mem (s.slot p) = rdg :=
    Function.update_self _ _ _
  have placed := written.tryPost fits (by rw [here, clear]) (by rw [batch', batch]; exact free) h
  rw [here, pulseId] at placed
  have key : due p (.process event polled) = [(event.creator.pulseId, receivers &&& ~~~event.remaining)] := by
    rw [due, if_pos response, found, Option.getD_some]
  refine ⟨?_, ?_, ?_, ?_, ?_⟩
  · rw [due_concat, key, @slot_succ p s t k buffers (placed.eventIdx.trans (eventIdx'.trans eventIdx))]
    exact placed.results
  · rw [due_concat, key, List.pairwise_append]
    refine ⟨inv.order, List.pairwise_singleton _ _, ?_⟩
    intro r hr r' hr'
    rw [List.mem_singleton.mp hr']
    exact Nat.lt_of_le_of_lt (inv.below r hr) later
  · have now : t.pidPrv = event.creator.pulseId := placed.pidPrv.trans (pidPrv'.trans pidPrv)
    rw [due_concat, key, now]
    intro r hr
    cases List.mem_append.mp hr with
    | inl before => exact Nat.le_of_lt (Nat.lt_of_le_of_lt (inv.below r before) later)
    | inr now => rw [List.mem_singleton.mp now]
  · intro b hb
    have epoch := placed.epoch b hb
    rw [here, BatchManager.epoch_eq_iff entries (pulseId_lt_word _) (pulseId_lt_word _), pulseId] at epoch
    rw [entries, epoch, ← entries]
    exact route
  · rw [List.getLast?_concat]
    nofun

/-- An event for which it does not respond. The open batch is of another epoch. -/
lemma acknowledge (inv : Between p numEbs index ops s) (entries : p.maxEntries.toNat = 2 ^ m)
    (response : ImmData.response event.immData = false)
    (route : event.creator.pulseId / p.maxEntries.toNat % numEbs ≠ index) (later : s.pidPrv < event.creator.pulseId)
    {s' : Teb} (mem : s'.mem = s.mem) (batch : s'.batch = s.batch) (posted : s'.posted = s.posted)
    (pidPrv : s'.pidPrv = event.creator.pulseId) (h : s'.acknowledge app p event = .ok t) :
    Between p numEbs index (ops ++ [.process event polled]) t := by
  obtain ⟨u, flushed, h⟩ := bind_ok h
  cases h
  have results := inv.results.congr mem batch posted
  have closed : Results p (ops.flatMap (due p)) (s.slot p) u ∧ u.batch = none ∧ u.pidPrv = event.creator.pulseId := by
    rw [flushIfDue] at flushed
    cases hb : s'.batch with
    | none =>
      rw [hb] at flushed
      cases flushed
      exact ⟨results, hb, pidPrv⟩
    | some b =>
      have before : (s'.mem b.start).pulseId / p.maxEntries.toNat % numEbs = index := by
        rw [mem]
        rw [batch] at hb
        exact inv.selected b hb
      have expired : p.batMan.expired event.creator.pulseId (s'.mem b.start).pulseId = true := by
        rw [BatchManager.expired_iff, Ne, BatchManager.epoch_eq_iff entries (pulseId_lt_word _) (pulseId_lt_word _),
          ← entries]
        intro same
        rw [same] at route
        exact route before
      rw [hb] at flushed
      simp only [expired, Bool.true_or, if_true] at flushed
      obtain ⟨-, pidPrv', -⟩ := flush_ok flushed
      obtain ⟨results', none_⟩ := results.flush flushed
      exact ⟨results', none_, pidPrv'.trans pidPrv⟩
  obtain ⟨results, none_, pidPrv⟩ := closed
  have nothing : due p (.process event polled) = [] := by
    rw [due, response, if_neg Bool.false_ne_true]
  have absent : ∀ b ∈ u.batch, False := by
    intro b hb
    rw [none_] at hb
    cases hb
  refine ⟨⟨fun b hb => (absent b hb).elim, ?_, results.posted⟩, ?_, ?_, fun b hb => (absent b hb).elim, ?_⟩
  · rw [due_concat, nothing, List.append_nil]
    exact results.parts
  · rw [due_concat, nothing, List.append_nil]
    exact inv.order
  · rw [due_concat, nothing, List.append_nil]
    intro r hr
    rw [pidPrv]
    exact Nat.le_of_lt (Nat.lt_of_le_of_lt (inv.below r hr) later)
  · rw [List.getLast?_concat]
    nofun

/-- One call. -/
lemma step {op : Op} (inv : Between p numEbs index ops s) (buffers : p.numBuffers.toNat = 2 ^ k)
    (entries : p.maxEntries.toNat = 2 ^ m) (ok : InRegion p numEbs index ops s op) (h : s.step app p op = .ok t) :
    Between p numEbs index (ops ++ [op]) t := by
  cases op with
  | flush => exact inv.flush h
  | process event polled =>
    obtain ⟨route, free⟩ := ok
    rw [Teb.step, Teb.process] at h
    simp only at h
    split at h
    · cases h
    · rename_i later
      have later := Nat.lt_of_not_le later
      cases response : ImmData.response event.immData with
      | true =>
        rw [if_pos response] at h
        have route := route.mp response
        have free := free response
        apply inv.respond buffers entries response route free later ?_ ?_ ?_ ?_ ?_ h
        · rfl
        · rfl
        · rfl
        · rfl
        · rfl
      | false =>
        rw [response, if_neg Bool.false_ne_true] at h
        have route : event.creator.pulseId / p.maxEntries.toNat % numEbs ≠ index := by
          intro e
          rw [route.mpr e] at response
          cases response
        apply inv.acknowledge entries response route later ?_ ?_ ?_ ?_ h
        · rfl
        · rfl
        · rfl
        · rfl

/-- What has been posted, and what is open. -/
lemma batched (inv : Between p numEbs index ops s) : Batched p ops s where
  parts := inv.results.parts
  order := by
    have order := inv.order
    rw [← inv.results.parts, List.pairwise_map] at order
    exact order
  posted := inv.results.posted
  flushed := inv.flushed

end Between

/-- What has been posted stays. -/
lemma Kept.posted {b : TebBatch} {flush : Bool} (kept : Kept app p s b flush t) : s.posted ⊆ t.posted := by
  cases flush with
  | false =>
    cases kept
    exact List.Subset.refl _
  | true =>
    obtain ⟨u, posted, rfl⟩ := kept
    obtain ⟨sends, count, rfl⟩ := post_ok posted
    exact List.subset_append_left _ _

lemma addToBatch_posted {b : TebBatch} {dsts : BitVec 64} {slot : Nat} (h : s.addToBatch app p b dsts slot = .ok t) :
    s.posted ⊆ t.posted := by
  cases addToBatch_ok h with
  | inl kept => exact kept.2.posted
  | inr expired =>
    obtain ⟨-, u, posted, kept⟩ := expired
    obtain ⟨sends, count, rfl⟩ := post_ok posted
    exact List.Subset.trans (List.subset_append_left _ _) kept.posted

/-- The open batch is posted on wrapping, whatever follows. -/
lemma tryPost_wrap {b : TebBatch} {dsts : BitVec 64} (hb : s.batch = some b) (h : s.tryPost app p dsts 0 = .ok t) :
    ∃ c ∈ t.posted, c.results = b.results ∧
      c.entries = slots (Function.update s.mem b.end_ (s.mem b.end_).setEOL) b.start (b.end_ - b.start + 1) := by
  obtain ⟨u, wrapped, h⟩ := bind_ok h
  rw [wrap, if_pos rfl, Teb.flush, hb] at wrapped
  obtain ⟨v, posted, wrapped⟩ := bind_ok wrapped
  obtain ⟨sends, count, rfl⟩ := post_ok posted
  cases wrapped
  have among := addToBatch_posted h (List.mem_append_right s.posted (List.mem_singleton_self _))
  exact ⟨_, among, rfl, rfl⟩

/-- A result in the first slot of the open batch is posted in the place of the batch's first one. -/
lemma Between.not_batched (inv : Between p numEbs index ops s) (later : s.pidPrv < event.creator.pulseId)
    (first : s.slot p = 0) {b : TebBatch} (hb : s.batch = some b) (zero : b.start = 0)
    {s' : Teb} (batch : s'.batch = s.batch) (h : s'.respond app p event polled (s.slot p) = .ok t)
    (after : List Op) : ¬ Batched p after t := by
  intro batched
  obtain ⟨u, rdg, receivers, same, pulseId, -, -, h⟩ := respond_ok h
  rw [region, region, Prod.mk.injEq, Prod.mk.injEq, Prod.mk.injEq, Prod.mk.injEq] at same
  obtain ⟨-, -, batch', -, -⟩ := same
  rw [first] at h
  obtain ⟨c, hc, results, entries⟩ :=
    tryPost_wrap (s := { u with mem := Function.update u.mem 0 rdg }) ((batch'.trans batch).trans hb) h
  have made := (batched.posted c hc).made
  obtain ⟨o, -⟩ := inv.results.batch b hb
  obtain ⟨old, rest, e⟩ := List.exists_cons_of_ne_nil o.some_
  rw [results, entries, zero, slots_cons, e] at made
  -- what is posted first has the new pulse ID
  have there : (Function.update (Function.update u.mem 0 rdg) b.end_
      (Function.update u.mem 0 rdg b.end_).setEOL 0).pulseId = event.creator.pulseId := by
    cases Nat.eq_zero_or_pos b.end_ with
    | inl zero => rw [zero, Function.update_self, Function.update_self, ResultDgram.setEOL_pulseId, pulseId]
    | inr pos => rw [Function.update_of_ne (Nat.ne_of_lt pos), Function.update_self, pulseId]
  have heads := congrArg (fun r : ResultDgram => r.pulseId) (List.cons_eq_cons.mp made).1
  simp only [ResultDgram.copy_pulseId, there] at heads
  have among : old.key ∈ ops.flatMap (due p) := by
    rw [← inv.results.parts, open_, hb, Option.elim_some, e]
    exact List.mem_map_of_mem (List.mem_append_right _ List.mem_cons_self)
  have below : old.1.pulseId ≤ s.pidPrv := inv.below _ among
  rw [← heads] at below
  exact absurd later (Nat.not_lt_of_le below)

/-- A call leaves the batches in order exactly where it keeps to the region. -/
lemma Between.judge {op : Op} (inv : Between p numEbs index ops s) (buffers : p.numBuffers.toNat = 2 ^ k)
    (entries : p.maxEntries.toNat = 2 ^ m) (route : Routes p numEbs index ops s op) (h : s.step app p op = .ok t) :
    Batched p (ops ++ [op]) t ↔ InRegion p numEbs index ops s op := by
  constructor
  · intro batched
    refine ⟨route, ?_⟩
    cases op with
    | flush => exact trivial
    | process event polled =>
      intro response first b hb zero
      rw [Teb.step, Teb.process] at h
      simp only at h
      split at h
      · cases h
      · rename_i later
        refine inv.not_batched (Nat.lt_of_not_le later) first hb zero ?_ h _ batched
        rfl
  · intro ok
    exact (inv.step buffers entries ok h).batched

end Teb

end calls

/-- In every run of a TEB, started anew, whose numbers of buffers and of entries of a batch are powers of two and to
    which the contributors route by epochs: the results are batched as they should be after every call exactly where no
    result is written to the first slot of the region while the open batch starts there. -/
theorem results_batched_iff {k m : Nat} (app : TebApp) (p : TebParams) (buffers : p.numBuffers.toNat = 2 ^ k)
    (entries : p.maxEntries.toNat = 2 ^ m) (numEbs index : Nat) (s₀ s : Teb) (ops : List Teb.Op)
    (run : Run (Teb.step app p) (Teb.Routes p numEbs index) s₀.begun ops s) :
    (∀ bs t, bs <+: ops → Run (Teb.step app p) (Teb.Routes p numEbs index) s₀.begun bs t → t.Batched p bs) ↔
      Run (Teb.step app p) (Teb.InRegion p numEbs index) s₀.begun ops s := by
  refine @Run.everywhere_iff _ _ _ _ _ _ _ (fun ops s => s.Between p numEbs index ops) (fun ops s => s.Batched p ops)
    (.start s₀) (@Teb.Between.start p numEbs index s₀).batched ?_ ?_ _ _ run
  · intro ops s op t inv ok h
    exact inv.step buffers entries ok h
  · intro ops s op t inv _ route h
    exact inv.judge buffers entries route h

/-- A TEB without MEBs for two contributors of readout group 0. -/
def smallTeb (maxEntries numBuffers : BitVec 32) : TebParams where
  partition := 0
  id := 0
  rogs := 1#16
  receivers := [3#64]
  links := 2
  maxEntries
  numBuffers
  numMrqs := 0
  numMebEvBufs := 0

/-- A trigger that records everything, and posts that succeed. -/
def recordAll : TebApp where
  event _ _ := 2#32
  rogReserve _ _ _ := 0
  prescale := 0#32
  postRc _ := 0

/-- An `L1Accept` that both contributors supplied. -/
def l1Event (pid : Nat) : EbEvent where
  addr := 0
  size := 2
  remaining := 0#64
  contract := 3#64
  t0 := 0
  immData := 0#32
  damage := 0#16
  creator := { pulseIdAndControl := BitVec.ofNat 64 pid, env := 0x0c000001#32, src := 0, sizeofPayload := 0 }
  added := []

/-- A TEB that has not run. -/
def restTeb : Teb := .new (fun _ => requestFor 0#32) 0#32 0#32

instance (p : TebParams) (numEbs index : Nat) (ops : List Teb.Op) (s : Teb) :
    (op : Teb.Op) → Decidable (Teb.Routes p numEbs index ops s op)
  | .process event _ => inferInstanceAs (Decidable
      (ImmData.response event.immData = true ↔ event.creator.pulseId / p.maxEntries.toNat % numEbs = index))
  | .flush => .isTrue trivial

instance (p : TebParams) (numEbs index : Nat) (ops : List Teb.Op) (s : Teb) :
    (op : Teb.Op) → Decidable (Teb.InRegion p numEbs index ops s op)
  | .process event polled => inferInstanceAs (Decidable
      (Teb.Routes p numEbs index ops s (.process event polled) ∧
        (ImmData.response event.immData = true → s.slot p = 0 → ∀ b ∈ s.batch, b.start ≠ 0)))
  | .flush => .isTrue ⟨trivial, trivial⟩

/-- Epochs of two pulse IDs in a region of four slots: the batch at the end of the region is posted on wrapping. -/
theorem results_batched_wrap :
    ∃ s, Run (Teb.step recordAll (smallTeb 2#32 4#32)) (Teb.Routes (smallTeb 2#32 4#32) 1 0) restTeb.begun
        [.process (l1Event 3) [], .process (l1Event 4) [], .process (l1Event 5) [], .process (l1Event 8) [],
          .process (l1Event 9) [], .flush] s ∧
      s.Batched (smallTeb 2#32 4#32) [.process (l1Event 3) [], .process (l1Event 4) [], .process (l1Event 5) [],
        .process (l1Event 8) [], .process (l1Event 9) [], .flush] ∧
      s.posted.map (fun c => c.entries.map fun r => r.pulseId) = [[3], [4, 5], [8], [9]] := by
  obtain ⟨s, run, test⟩ := Run.of_replay_any (Teb.step recordAll (smallTeb 2#32 4#32))
    (Teb.InRegion (smallTeb 2#32 4#32) 1 0) restTeb.begun
    [.process (l1Event 3) [], .process (l1Event 4) [], .process (l1Event 5) [], .process (l1Event 8) [],
      .process (l1Event 9) [], .flush]
    (fun s => s.posted.map (fun c => c.entries.map fun r => r.pulseId) = [[3], [4, 5], [8], [9]]) (by decide +kernel)
  have routed := run.mono fun _ _ _ ok => ok.1
  refine ⟨s, routed, ?_, of_decide_eq_true test⟩
  exact (results_batched_iff (k := 2) (m := 1) recordAll (smallTeb 2#32 4#32) rfl rfl 1 0 restTeb s _ routed).mpr run
    _ s List.prefix_rfl routed

/-- A region of as many slots as a batch may have entries: the result of the pulse ID 128 takes the place of that of 64
    before the batch of all 64 is posted. -/
theorem first_result_lost :
    ∃ s, Run (Teb.step recordAll (smallTeb 64#32 64#32)) (Teb.Routes (smallTeb 64#32 64#32) 1 0) restTeb.begun
        ((List.range 65).map fun i => .process (l1Event (64 + i)) []) s ∧
      ∃ c, s.posted = [c] ∧ c.dsts = [0, 1] ∧
        c.entries.map (fun r => r.pulseId) = 128 :: (List.range 63).map (65 + ·) := by
  obtain ⟨s, run, test⟩ := Run.of_replay_any (Teb.step recordAll (smallTeb 64#32 64#32))
    (Teb.Routes (smallTeb 64#32 64#32) 1 0) restTeb.begun
    ((List.range 65).map fun i => .process (l1Event (64 + i)) [])
    (fun s => s.posted.map (fun c => (c.dsts, c.entries.map fun r => r.pulseId)) =
      [([0, 1], 128 :: (List.range 63).map (65 + ·))]) (by decide +kernel)
  obtain ⟨c, posted, both⟩ := List.map_eq_singleton_iff.mp (of_decide_eq_true test)
  obtain ⟨dsts, entries⟩ := Prod.mk.inj both
  exact ⟨s, run, c, posted, dsts, entries⟩

end Lcls2.Eb
