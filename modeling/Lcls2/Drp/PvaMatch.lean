import Lcls2.Drp.PvaDetector

/-!
# PGP datagrams are sent in order, with the PVs that match them

The invariant has two sides. `Orderly` is about PGP datagrams: those that were sent, the one that was matched and
waits for its PV buffer to be given back, those in the queue and the Disable that waits for them are, in this
order, those that have arrived. `Kept` is about PV buffers: each is in one place, and the times of those in the
queue and of the one that is filled increase.
-/

namespace Lcls2.Drp
open Lcls2.Lib
open Lcls2.Eb (TransitionId)

/-- What was attached to a datagram is nothing, or one PV datagram of the time of this L1Accept. -/
def PgpDgram.Carries (d : PgpDgram) : Prop :=
  d.attached = [] ∨ ∃ pvDg, d.attached = [pvDg] ∧ pvDg.time = d.header.time ∧ d.header.service = .L1Accept

namespace PvaDetector
variable (p : PvaParameters) (s : PvaDetector)

/-- The datagram that was matched and has not been sent. -/
def inHand : List PgpDgram :=
  match s.mode with
  | .giveBack _ _ toTeb => toTeb.toList
  | _ => []

/-- The transition that is sent when the queue has been swept. -/
def last : List PgpDgram :=
  match s.mode with
  | .timeout _ toTeb => toTeb.toList
  | _ => []

/-- The datagrams that have arrived and have not been sent. -/
def waiting : List PgpDgram := s.inHand ++ s.pgpQueue ++ s.last

/-- The datagrams that were sent, and those that wait. -/
def pipeline : List PgpDgram := s.sent ++ s.waiting

/-- The buffer that the worker has popped and not given back. -/
def returning : List Nat :=
  match s.mode with
  | .giveBack _ pvDg _ => [pvDg]
  | _ => []

/-- The worker is in `_matchUp`. -/
def Matching : Prop :=
  match s.mode with
  | .matchUp _ | .giveBack _ _ _ => True
  | _ => False

/-- What is asked of a step: time stamps increase and have 64 bits, L1Accepts and SlowUpdates come between
    Enable and Disable, and other transitions do not. -/
def Allowed (_ : List PvaOp) (s : PvaDetector) : PvaOp → Prop
  | .next header => header.time ≤ timeMax ∧ (∀ h ∈ s.arrived, h.time < header.time) ∧
      if header.service = .L1Accept ∨ header.service = .SlowUpdate then s.running = true
      else header.service = .Disable ∨ s.running = false
  | .process pvDg => ∀ t ∈ s.updates, t < pvDg.time
  | _ => True

/-- The side of the PGP datagrams. -/
structure Orderly : Prop where
  order : s.pipeline.map PgpDgram.header = s.arrived
  sorted : s.arrived.Pairwise (·.time < ·.time)
  bounded : ∀ h ∈ s.arrived, h.time ≤ timeMax
  fresh : ∀ d ∈ s.pgpQueue, d.attached = []
  carries : ∀ d ∈ s.pipeline, d.Carries
  stopped : s.running = false → (s.mode = .idle ∧ s.pgpQueue = []) ∨ ∃ d, s.mode = .timeout timeMax (some d)
  going : s.running = true → ∀ timestamp d, s.mode ≠ .timeout timestamp (some d)

/-- The side of the PV buffers. -/
structure Kept : Prop where
  buffers : (s.bufferFreelist ++ s.pvQueue ++ s.filling.toList ++ s.returning).Perm (List.range p.nbuffers)
  sorted : (s.pvQueue ++ s.filling.toList).Pairwise fun a b => (s.buffers a).time < (s.buffers b).time
  updated : ∀ b ∈ s.pvQueue ++ s.filling.toList, (s.buffers b).time ∈ s.updates

variable {p s}

/-- The comparison of whole time stamps. -/
lemma compare_two (ts1 ts2 : Nat) : compare 2 ts1 ts2 = if ts1 > ts2 then 1 else if ts2 > ts1 then -1 else 0 := by
  rw [compare, if_neg (fun h => absurd h.1 (by decide)), if_neg (by decide)]

/-- A turn of `_matchUp` where a queue is empty. -/
lemma matchUp_empty {time : Nat} (empty : s.pvQueue = [] ∨ s.pgpQueue = []) :
    ∃ timestamp, s.matchUp p time = { s with mode := .timeout timestamp none } := by
  rw [matchUp]
  cases pv : s.pvQueue with
  | nil => exact ⟨_, rfl⟩
  | cons pvDg pvs =>
    cases pgp : s.pgpQueue with
    | nil => exact ⟨_, rfl⟩
    | cons pgpDg pgps =>
      rw [pv, pgp] at empty
      cases empty with
      | inl h => cases h
      | inr h => cases h

/-- What is sent of a datagram that was matched. -/
def matched (s : PvaDetector) (pvDg : Nat) (pgpDg : PgpDgram) : PgpDgram :=
  if pgpDg.header.service = .L1Accept then pgpDg.attach (s.buffers pvDg) else pgpDg

/-- A turn of `_matchUp` with both queues. -/
lemma matchUp_cases (degree : p.tsMatchDegree = 2) {time pvDg : Nat} {pvs : List Nat} {pgpDg : PgpDgram}
    {pgps : List PgpDgram} (pv : s.pvQueue = pvDg :: pvs) (pgp : s.pgpQueue = pgpDg :: pgps) :
    ((s.buffers pvDg).time = pgpDg.header.time ∧ s.matchUp p time =
      { s with pgpQueue := pgps, pvQueue := pvs, mode := .giveBack time pvDg (some (s.matched pvDg pgpDg)) }) ∨
    (pgpDg.header.time < (s.buffers pvDg).time ∧ s.matchUp p time = s.handleYounger pgpDg pgps) ∨
    ((s.buffers pvDg).time < pgpDg.header.time ∧ s.matchUp p time = s.handleOlder time pvDg pvs) := by
  have keep : ¬ p.tsMatchDegree = 0 := by
    rw [degree]
    exact two_ne_zero
  have turn : s.matchUp p time =
      if compare 2 (s.buffers pvDg).time pgpDg.header.time = 0 then s.handleMatch p time pvDg pvs pgpDg pgps
      else if compare 2 (s.buffers pvDg).time pgpDg.header.time > 0 then s.handleYounger pgpDg pgps
      else s.handleOlder time pvDg pvs := by
    rw [matchUp]
    simp only [pv, pgp, if_neg keep]
    rw [degree, ← pv, ← pgp]
  rw [turn, compare_two]
  obtain older | same | younger := lt_trichotomy (s.buffers pvDg).time pgpDg.header.time
  · right
    right
    rw [if_neg (Nat.lt_asymm older), if_pos older]
    exact ⟨older, rfl⟩
  · left
    rw [same, if_neg (lt_irrefl _), if_neg (lt_irrefl _), if_pos rfl, handleMatch, matched]
    refine ⟨rfl, ?_⟩
    split
    · rfl
    · rfl
  · right
    left
    rw [if_pos younger]
    exact ⟨younger, rfl⟩

namespace Orderly

/-- A datagram arrives behind those that wait. -/
lemma arrives (inv : s.Orderly) {header : TimingHeader} (bounded : header.time ≤ timeMax)
    (later : ∀ h ∈ s.arrived, h.time < header.time) {t : PvaDetector} (arrived : t.arrived = s.arrived ++ [header])
    (pipeline : t.pipeline = s.pipeline ++ [.new header]) (fresh : ∀ d ∈ t.pgpQueue, d.attached = [])
    (stopped : t.running = false → (t.mode = .idle ∧ t.pgpQueue = []) ∨ ∃ d, t.mode = .timeout timeMax (some d))
    (going : t.running = true → ∀ timestamp d, t.mode ≠ .timeout timestamp (some d)) : t.Orderly where
  order := by
    rw [arrived, pipeline, List.map_append, inv.order]
    rfl
  sorted := by
    rw [arrived]
    exact List.pairwise_append.mpr ⟨inv.sorted, List.pairwise_singleton _ _,
      fun h mem h' new => List.mem_singleton.mp new ▸ later h mem⟩
  bounded := by
    rw [arrived]
    intro h mem
    cases List.mem_append.mp mem with
    | inl old => exact inv.bounded h old
    | inr new => exact List.mem_singleton.mp new ▸ bounded
  fresh := fresh
  carries := by
    rw [pipeline]
    intro d mem
    cases List.mem_append.mp mem with
    | inl old => exact inv.carries d old
    | inr new => exact List.mem_singleton.mp new ▸ .inl rfl
  stopped := stopped
  going := going

/-- What waits when the worker is idle. -/
lemma pipeline_idle (idle : s.mode = .idle) : s.pipeline = s.sent ++ s.pgpQueue := by
  rw [pipeline, waiting, inHand, last, idle]
  exact congrArg (s.sent ++ ·) (List.append_nil _)

/-- A datagram that has arrived is queued, or is sent when none waits. -/
lemma next (inv : s.Orderly) {as : List PvaOp} {header : TimingHeader} (ok : Allowed as s (.next header))
    {t : PvaDetector} (h : s.next header = .ok t) : t.Orderly := by
  obtain ⟨bounded, later, open_⟩ := ok
  rw [PvaDetector.next] at h
  cases mode : s.mode with
  | matchUp _ | giveBack _ _ _ | timeout _ _ =>
    rw [mode] at h
    cases h
  | idle =>
    have before := pipeline_idle mode
    -- While it is not running nothing waits.
    have none_ : s.running = false → s.pgpQueue = [] := by
      intro stopped
      cases inv.stopped stopped with
      | inl idle => exact idle.2
      | inr sweeping =>
        obtain ⟨d, sweeping⟩ := sweeping
        rw [mode] at sweeping
        cases sweeping
    have sends : s.running = false → s.sent ++ [PgpDgram.new header] ++ s.pgpQueue = s.pipeline ++ [.new header] := by
      intro stopped
      rw [before, none_ stopped, List.append_nil, List.append_nil]
    rw [mode] at h
    simp only at h
    split at h
    next queued =>
      rw [if_pos queued] at open_
      cases h
      apply inv.arrives bounded later rfl
      · show s.sent ++ ([] ++ (s.pgpQueue ++ [_]) ++ []) = _
        rw [before, List.append_nil, List.append_assoc]
        rfl
      · intro d mem
        cases List.mem_append.mp mem with
        | inl old => exact inv.fresh d old
        | inr new => exact List.mem_singleton.mp new ▸ rfl
      · intro stopped
        cases open_.symm.trans stopped
      · intro _ _ _ h
        cases h
    next passes =>
      rw [if_neg passes] at open_
      split at h
      next enable =>
        have stopped : s.running = false := by
          cases open_ with
          | inl disable =>
            rw [enable] at disable
            cases disable
          | inr stopped => exact stopped
        cases h
        apply inv.arrives bounded later rfl
        · exact Eq.trans (pipeline_idle rfl) (sends stopped)
        · exact inv.fresh
        · intro h
          cases h
        · intro _ _ _ h
          cases h
      next =>
        split at h
        next disable =>
          cases h
          apply inv.arrives bounded later rfl
          · show s.sent ++ ([] ++ s.pgpQueue ++ [_]) = _
            rw [before, List.nil_append, List.append_assoc]
          · exact inv.fresh
          · exact fun _ => .inr ⟨_, rfl⟩
          · intro h
            cases h
        next other =>
          have stopped := open_.resolve_left other
          cases h
          apply inv.arrives bounded later rfl
          · exact Eq.trans (pipeline_idle rfl) (sends stopped)
          · exact inv.fresh
          · exact fun _ => .inl ⟨rfl, none_ stopped⟩
          · intro going
            cases stopped.symm.trans going

/-- The worker goes on while the datagrams that are sent or wait stay the same but for what is attached. -/
lemma goes (inv : s.Orderly) {t : PvaDetector} (arrived : t.arrived = s.arrived)
    (pipeline : t.pipeline.map PgpDgram.header = s.pipeline.map PgpDgram.header)
    (carries : ∀ d ∈ t.pipeline, d.Carries) (fresh : ∀ d ∈ t.pgpQueue, d ∈ s.pgpQueue)
    (stopped : t.running = false → (t.mode = .idle ∧ t.pgpQueue = []) ∨ ∃ d, t.mode = .timeout timeMax (some d))
    (going : t.running = true → ∀ timestamp d, t.mode ≠ .timeout timestamp (some d)) : t.Orderly where
  order := by
    rw [arrived, pipeline, inv.order]
  sorted := arrived ▸ inv.sorted
  bounded := arrived ▸ inv.bounded
  fresh d mem := inv.fresh d (fresh d mem)
  carries := carries
  stopped := stopped
  going := going

/-- While the worker is in `_matchUp` it is running. -/
lemma running (inv : s.Orderly) (matching : s.Matching) : s.running = true := by
  cases stopped : s.running with
  | true => rfl
  | false =>
    rw [Matching] at matching
    cases inv.stopped stopped with
    | inl idle =>
      rw [idle.1] at matching
      cases matching
    | inr sweeping =>
      obtain ⟨d, sweeping⟩ := sweeping
      rw [sweeping] at matching
      cases matching

/-- The header of a datagram that was matched. -/
@[simp] lemma matched_header (pvDg : Nat) (pgpDg : PgpDgram) : (s.matched pvDg pgpDg).header = pgpDg.header := by
  rw [matched]
  split
  · rfl
  · rfl

/-- A PV datagram is attached to an L1Accept of its time. -/
lemma matched_carries {pvDg : Nat} {pgpDg : PgpDgram} (same : (s.buffers pvDg).time = pgpDg.header.time)
    (fresh : pgpDg.attached = []) : (s.matched pvDg pgpDg).Carries := by
  rw [matched]
  split
  next event =>
    right
    refine ⟨s.buffers pvDg, ?_, same, event⟩
    rw [PgpDgram.attach, fresh]
    rfl
  next => exact .inl fresh

/-- A turn of `_matchUp`. -/
lemma matchUp (degree : p.tsMatchDegree = 2) (inv : s.Orderly) {time : Nat} (mode : s.mode = .matchUp time) :
    (s.matchUp p time).Orderly := by
  have running : s.running = true := by
    apply inv.running
    rw [Matching, mode]
    trivial
  have before : s.pipeline = s.sent ++ s.pgpQueue := by
    rw [pipeline, waiting, inHand, last, mode]
    exact congrArg (s.sent ++ ·) (List.append_nil _)
  have carries := inv.carries
  rw [before] at carries
  have empty : ∀ timestamp, ({ s with mode := .timeout timestamp none } : PvaDetector).Orderly := by
    intro timestamp
    have same : ({ s with mode := .timeout timestamp none } : PvaDetector).pipeline = s.sent ++ s.pgpQueue :=
      congrArg (s.sent ++ ·) (List.append_nil _)
    apply inv.goes
    · rfl
    · rw [same, before]
    · rw [same]
      exact carries
    · exact fun d mem => mem
    · intro stopped
      cases running.symm.trans stopped
    · intro _ _ _ h
      cases h
  cases pv : s.pvQueue with
  | nil =>
    obtain ⟨timestamp, turn⟩ := matchUp_empty (.inl pv)
    exact turn ▸ empty timestamp
  | cons pvDg pvs =>
    cases pgp : s.pgpQueue with
    | nil =>
      obtain ⟨timestamp, turn⟩ := matchUp_empty (.inr pgp)
      exact turn ▸ empty timestamp
    | cons pgpDg pgps =>
      rw [pgp] at before carries
      have fresh : ∀ d ∈ pgps, d ∈ s.pgpQueue := fun d mem => pgp ▸ List.mem_cons_of_mem pgpDg mem
      have first : pgpDg.attached = [] := inv.fresh pgpDg (pgp ▸ List.mem_cons_self)
      have rest : ∀ dgram : PgpDgram, dgram.Carries → ∀ d ∈ s.sent ++ dgram :: pgps, d.Carries := by
        intro dgram here d mem
        cases List.mem_append.mp mem with
        | inl old => exact carries d (List.mem_append_left _ old)
        | inr new =>
          cases List.mem_cons.mp new with
          | inl same => exact same ▸ here
          | inr later => exact carries d (List.mem_append_right _ (List.mem_cons_of_mem _ later))
      obtain ⟨same, turn⟩ | ⟨-, turn⟩ | ⟨-, turn⟩ := matchUp_cases degree pv pgp
      · have after : (s.matchUp p time).pipeline = s.sent ++ s.matched pvDg pgpDg :: pgps := by
          rw [turn]
          exact congrArg (s.sent ++ ·) (List.append_nil _)
        rw [turn] at after ⊢
        apply inv.goes
        · rfl
        · rw [after, before, List.map_append, List.map_append, List.map_cons, List.map_cons, matched_header]
        · rw [after]
          exact rest _ (matched_carries same first)
        · exact fresh
        · intro stopped
          cases running.symm.trans stopped
        · intro _ _ _ h
          cases h
      · generalize sent_eq : (if pgpDg.header.service = .L1Accept then pgpDg.increase missingData else pgpDg) = dgram
        have header : dgram.header = pgpDg.header ∧ dgram.attached = pgpDg.attached := by
          rw [← sent_eq]
          split
          · exact ⟨rfl, rfl⟩
          · exact ⟨rfl, rfl⟩
        have after : (s.matchUp p time).pipeline = s.sent ++ dgram :: pgps := by
          rw [turn, handleYounger, sent_eq, pipeline, waiting, inHand, last, sendToTeb, mode]
          show s.sent ++ [dgram] ++ (pgps ++ []) = _
          rw [List.append_nil, ← List.append_cons]
        rw [turn] at after ⊢
        apply inv.goes
        · rfl
        · rw [after, before, List.map_append, List.map_append, List.map_cons, List.map_cons, header.1]
        · rw [after]
          exact rest _ (.inl (header.2.trans first))
        · exact fresh
        · intro stopped
          cases running.symm.trans stopped
        · exact inv.going
      · rw [turn]
        have after : (s.handleOlder time pvDg pvs).pipeline = s.sent ++ s.pgpQueue :=
          congrArg (s.sent ++ ·) (List.append_nil _)
        apply inv.goes
        · rfl
        · rw [after, before, pgp]
        · rw [after, pgp]
          exact carries
        · exact fun d mem => mem
        · intro stopped
          cases running.symm.trans stopped
        · intro _ _ _ h
          cases h

/-- A buffer is given back. -/
lemma giveBack (inv : s.Orderly) {time pvDg : Nat} {toTeb : Option PgpDgram}
    (mode : s.mode = .giveBack time pvDg toTeb) : (s.giveBack time pvDg toTeb).Orderly := by
  have running : s.running = true := by
    apply inv.running
    rw [Matching, mode]
    trivial
  have same : (s.giveBack time pvDg toTeb).pipeline = s.pipeline := by
    rw [pipeline, pipeline, waiting, waiting, inHand, inHand, last, last, mode]
    show s.sent ++ toTeb.toList ++ (s.pgpQueue ++ []) = s.sent ++ (toTeb.toList ++ s.pgpQueue ++ [])
    rw [List.append_nil, List.append_nil, List.append_assoc]
  apply inv.goes
  · rfl
  · rw [same]
  · exact same ▸ inv.carries
  · exact fun d mem => mem
  · intro stopped
    cases running.symm.trans stopped
  · intro _ _ _ h
    cases h

/-- A turn of `_timeout`. -/
lemma timeout (inv : s.Orderly) {timestamp : Nat} {toTeb : Option PgpDgram}
    (mode : s.mode = .timeout timestamp toTeb) : (s.timeout timestamp toTeb).Orderly := by
  have before : s.pipeline = s.sent ++ (s.pgpQueue ++ toTeb.toList) := by
    rw [pipeline, waiting, inHand, last, mode]
    rfl
  have carries := inv.carries
  rw [before] at carries
  have sweeping : s.running = false → timestamp = timeMax := by
    intro stopped
    cases inv.stopped stopped with
    | inl idle =>
      rw [mode] at idle
      cases idle.1
    | inr sweeping =>
      obtain ⟨d, sweeping⟩ := sweeping
      rw [mode] at sweeping
      cases sweeping
      rfl
  cases pgp : s.pgpQueue with
  | nil =>
    have turn : s.timeout timestamp toTeb = s.finish toTeb := by
      rw [PvaDetector.timeout, pgp]
    rw [pgp] at before carries
    have after : (s.finish toTeb).pipeline = s.sent ++ toTeb.toList := by
      rw [pipeline_idle rfl]
      show _ ++ s.pgpQueue = _
      rw [pgp, List.append_nil]
      rfl
    rw [turn]
    apply inv.goes
    · rfl
    · rw [after, before]
      rfl
    · rw [after]
      exact carries
    · exact fun d mem => mem
    · exact fun _ => .inl ⟨rfl, pgp⟩
    · intro _ _ _ h
      cases h
  | cons dgram pgps =>
    have here : dgram.header ∈ s.arrived := by
      rw [← inv.order, before, pgp]
      apply List.mem_map_of_mem
      exact List.mem_append_right _ List.mem_cons_self
    generalize sent_eq : (if dgram.header.service = .L1Accept then dgram.increase timedOut else dgram) = d'
    have turn : s.timeout timestamp toTeb =
        if dgram.header.time > timestamp then s.finish toTeb
        else ({ s with pgpQueue := pgps } : PvaDetector).sendToTeb d' := by
      rw [PvaDetector.timeout, ← sent_eq]
      simp only [pgp]
    rw [turn]
    split
    next newer =>
      -- only a sweep has a transition to send, and it leaves none behind
      have running : s.running = true := by
        cases stopped : s.running with
        | true => rfl
        | false =>
          rw [sweeping stopped] at newer
          exact absurd (inv.bounded _ here) (Nat.not_le_of_lt newer)
      cases toTeb with
      | some d => exact absurd mode (inv.going running timestamp d)
      | none =>
        have same : (s.finish none).pipeline = s.pipeline := by
          rw [pipeline_idle rfl, before]
          show s.sent ++ [] ++ s.pgpQueue = s.sent ++ (s.pgpQueue ++ [])
          rw [List.append_nil, List.append_nil]
        apply inv.goes
        · rfl
        · rw [same]
        · exact same ▸ inv.carries
        · exact fun d mem => mem
        · intro stopped
          cases running.symm.trans stopped
        · intro _ _ _ h
          cases h
    next =>
      have header : d'.header = dgram.header ∧ d'.attached = dgram.attached := by
        rw [← sent_eq]
        split
        · exact ⟨rfl, rfl⟩
        · exact ⟨rfl, rfl⟩
      have first : dgram.attached = [] := inv.fresh dgram (pgp ▸ List.mem_cons_self)
      have after : (({ s with pgpQueue := pgps } : PvaDetector).sendToTeb d').pipeline =
          s.sent ++ d' :: (pgps ++ toTeb.toList) := by
        rw [pipeline, waiting, inHand, last, sendToTeb, mode]
        show s.sent ++ [d'] ++ ([] ++ pgps ++ toTeb.toList) = _
        rw [List.nil_append, ← List.append_cons]
      rw [pgp] at before carries
      apply inv.goes
      · rfl
      · rw [after, before, List.map_append, List.map_append, List.map_cons, header.1]
        rfl
      · rw [after]
        intro d mem
        cases List.mem_append.mp mem with
        | inl old => exact carries d (List.mem_append_left _ old)
        | inr new =>
          cases List.mem_cons.mp new with
          | inl same => exact same ▸ .inl (header.2.trans first)
          | inr later => exact carries d (List.mem_append_right _ (List.mem_cons_of_mem _ later))
      · exact fun d mem => pgp ▸ List.mem_cons_of_mem dgram mem
      · intro stopped
        cases inv.stopped stopped with
        | inl idle =>
          rw [mode] at idle
          cases idle.1
        | inr sweeping => exact .inr sweeping
      · exact inv.going

/-- The other thread does not touch the datagrams. -/
lemma other (inv : s.Orderly) {t : PvaDetector} (running : t.running = s.running) (mode : t.mode = s.mode)
    (pgpQueue : t.pgpQueue = s.pgpQueue) (arrived : t.arrived = s.arrived) (sent : t.sent = s.sent) : t.Orderly := by
  have same : t.pipeline = s.pipeline := by
    rw [pipeline, pipeline, waiting, waiting, inHand, inHand, last, last, mode, pgpQueue, sent]
  apply inv.goes
  · exact arrived
  · rw [same]
  · exact same ▸ inv.carries
  · exact fun d mem => pgpQueue ▸ mem
  · rw [running, mode, pgpQueue]
    exact inv.stopped
  · rw [running, mode]
    exact inv.going

end Orderly

namespace Kept

/-- A buffer is in one place. -/
lemma nodup (kept : s.Kept p) :
    (s.bufferFreelist ++ s.pvQueue ++ s.filling.toList ++ s.returning).Nodup :=
  kept.buffers.nodup_iff.mpr List.nodup_range

/-- The buffers stay where they are. -/
lemma stays (kept : s.Kept p) {t : PvaDetector} (free : t.bufferFreelist = s.bufferFreelist)
    (pvQueue : t.pvQueue = s.pvQueue) (filling : t.filling = s.filling) (returning : t.returning = s.returning)
    (buffers : t.buffers = s.buffers) (updates : ∀ time ∈ s.updates, time ∈ t.updates) : t.Kept p where
  buffers := by
    rw [free, pvQueue, filling, returning]
    exact kept.buffers
  sorted := by
    rw [pvQueue, filling, buffers]
    exact kept.sorted
  updated := by
    rw [pvQueue, filling, buffers]
    exact fun b mem => updates _ (kept.updated b mem)

/-- The first buffer is popped. -/
lemma pops (kept : s.Kept p) (none_ : s.returning = []) {pvDg : Nat} {pvs : List Nat} (pv : s.pvQueue = pvDg :: pvs)
    {t : PvaDetector} (free : t.bufferFreelist = s.bufferFreelist) (pvQueue : t.pvQueue = pvs)
    (filling : t.filling = s.filling) (returning : t.returning = [pvDg]) (buffers : t.buffers = s.buffers)
    (updates : t.updates = s.updates) : t.Kept p where
  buffers := by
    apply List.Perm.trans _ kept.buffers
    rw [free, pvQueue, filling, returning, none_, pv, List.perm_iff_count]
    intro b
    simp only [List.count_append, List.count_cons, List.count_nil]
    omega
  sorted := by
    rw [pvQueue, filling, buffers]
    have sorted := kept.sorted
    rw [pv] at sorted
    exact (List.pairwise_cons.mp sorted).2
  updated := by
    rw [pvQueue, filling, buffers, updates]
    intro b mem
    apply kept.updated b
    rw [pv]
    exact List.mem_cons_of_mem pvDg mem

/-- A buffer that was popped is given back. -/
lemma giveBack (kept : s.Kept p) {time pvDg : Nat} {toTeb : Option PgpDgram}
    (mode : s.mode = .giveBack time pvDg toTeb) : (s.giveBack time pvDg toTeb).Kept p where
  buffers := by
    apply List.Perm.trans _ kept.buffers
    rw [returning, returning, mode, List.perm_iff_count]
    intro b
    show List.count b (s.bufferFreelist ++ [pvDg] ++ s.pvQueue ++ s.filling.toList ++ []) = _
    simp only [List.count_append, List.count_nil]
    omega
  sorted := kept.sorted
  updated := kept.updated

/-- A buffer is filled. -/
lemma process (kept : s.Kept p) {pvDg : PvDgram} (later : ∀ time ∈ s.updates, time < pvDg.time) {t : PvaDetector}
    (h : s.process pvDg = .ok t) : t.Kept p := by
  have more : ∀ time ∈ s.updates, time ∈ s.updates ++ [pvDg.time] := fun time mem => List.mem_append_left _ mem
  rw [PvaDetector.process] at h
  cases filling : s.filling with
  | some b =>
    rw [filling] at h
    cases h
  | none =>
    rw [filling] at h
    simp only at h
    split at h
    · cases free : s.bufferFreelist with
      | nil =>
        rw [free] at h
        cases h
        exact kept.stays free.symm rfl filling.symm rfl rfl more
      | cons buffer rest =>
        have nodup := kept.nodup
        have buffers := kept.buffers
        have sorted := kept.sorted
        have updated := kept.updated
        rw [filling] at nodup buffers sorted updated
        rw [free] at h nodup buffers
        cases h
        rw [Option.toList_none, List.append_nil] at nodup sorted updated
        -- The buffer that is filled is not in the queue.
        have other : ∀ b ∈ s.pvQueue, b ≠ buffer := by
          rintro b mem rfl
          rw [List.cons_append, List.cons_append] at nodup
          apply (List.nodup_cons.mp nodup).1
          exact List.mem_append_left _ (List.mem_append_right _ mem)
        have kept_ : ∀ b ∈ s.pvQueue, Function.update s.buffers buffer pvDg b = s.buffers b :=
          fun b mem => Function.update_of_ne (other b mem) _ _
        refine ⟨?_, ?_, ?_⟩
        · apply List.Perm.trans _ buffers
          rw [List.perm_iff_count]
          intro b
          show List.count b (rest ++ s.pvQueue ++ [buffer] ++ s.returning) = _
          simp only [List.count_append, List.count_cons, List.count_nil, Option.toList_none]
          omega
        · show (s.pvQueue ++ [buffer]).Pairwise fun a b =>
            (Function.update s.buffers buffer pvDg a).time < (Function.update s.buffers buffer pvDg b).time
          rw [List.pairwise_append]
          refine ⟨?_, List.pairwise_singleton _ _, ?_⟩
          · apply sorted.imp_of_mem
            intro a b memA memB lt
            rw [kept_ a memA, kept_ b memB]
            exact lt
          · intro a mem b new
            rw [List.mem_singleton.mp new, Function.update_self, kept_ a mem]
            exact later _ (updated a mem)
        · show ∀ b ∈ s.pvQueue ++ [buffer], (Function.update s.buffers buffer pvDg b).time ∈ s.updates ++ [pvDg.time]
          intro b mem
          cases List.mem_append.mp mem with
          | inl old =>
            rw [kept_ b old]
            exact more _ (updated b old)
          | inr new =>
            rw [List.mem_singleton.mp new, Function.update_self]
            exact List.mem_append_right _ (List.mem_singleton_self _)
    · cases h
      exact kept.stays rfl rfl filling.symm rfl rfl more

/-- The buffer that was filled is pushed. -/
lemma push (kept : s.Kept p) {t : PvaDetector} (h : s.push = .ok t) : t.Kept p := by
  rw [PvaDetector.push] at h
  cases filling : s.filling with
  | none =>
    rw [filling] at h
    cases h
  | some buffer =>
    have buffers := kept.buffers
    have sorted := kept.sorted
    have updated := kept.updated
    rw [filling] at h buffers sorted updated
    cases h
    have same : s.pvQueue ++ [buffer] ++ [] = s.pvQueue ++ (some buffer).toList := List.append_nil _
    refine ⟨?_, ?_, ?_⟩
    · apply List.Perm.trans _ buffers
      show List.Perm (s.bufferFreelist ++ (s.pvQueue ++ [buffer]) ++ [] ++ s.returning) _
      rw [List.append_assoc s.bufferFreelist, same, ← List.append_assoc]
    · show (s.pvQueue ++ [buffer] ++ []).Pairwise _
      rw [same]
      exact sorted
    · show ∀ b ∈ s.pvQueue ++ [buffer] ++ [], _
      rw [same]
      exact updated

/-- A turn of `_matchUp`. -/
lemma matchUp (degree : p.tsMatchDegree = 2) (kept : s.Kept p) {time : Nat} (mode : s.mode = .matchUp time) :
    (s.matchUp p time).Kept p := by
  have none_ : s.returning = [] := by
    rw [returning, mode]
  have empty : ∀ timestamp, ({ s with mode := .timeout timestamp none } : PvaDetector).Kept p := by
    intro timestamp
    exact kept.stays rfl rfl rfl none_.symm rfl fun _ mem => mem
  cases pv : s.pvQueue with
  | nil =>
    obtain ⟨timestamp, turn⟩ := matchUp_empty (.inl pv)
    exact turn ▸ empty timestamp
  | cons pvDg pvs =>
    cases pgp : s.pgpQueue with
    | nil =>
      obtain ⟨timestamp, turn⟩ := matchUp_empty (.inr pgp)
      exact turn ▸ empty timestamp
    | cons pgpDg pgps =>
      obtain ⟨-, turn⟩ | ⟨-, turn⟩ | ⟨-, turn⟩ := matchUp_cases degree pv pgp
      · rw [turn]
        exact kept.pops none_ pv rfl rfl rfl rfl rfl rfl
      · rw [turn]
        exact kept.stays rfl rfl rfl rfl rfl fun _ mem => mem
      · rw [turn]
        exact kept.pops none_ pv rfl rfl rfl rfl rfl rfl

/-- A turn of `_timeout`. -/
lemma timeout (kept : s.Kept p) {timestamp : Nat} {toTeb : Option PgpDgram}
    (mode : s.mode = .timeout timestamp toTeb) : (s.timeout timestamp toTeb).Kept p := by
  have none_ : s.returning = [] := by
    rw [returning, mode]
  have done : (s.finish toTeb).Kept p := kept.stays rfl rfl rfl none_.symm rfl fun _ mem => mem
  rw [PvaDetector.timeout]
  split
  · exact done
  · split
    · exact done
    · exact kept.stays rfl rfl rfl rfl rfl fun _ mem => mem

/-- The arrival of a datagram. -/
lemma next (kept : s.Kept p) {header : TimingHeader} {t : PvaDetector} (h : s.next header = .ok t) : t.Kept p := by
  rw [PvaDetector.next] at h
  cases mode : s.mode with
  | matchUp _ | giveBack _ _ _ | timeout _ _ =>
    rw [mode] at h
    cases h
  | idle =>
    have none_ : s.returning = [] := by
      rw [returning, mode]
    rw [mode] at h
    simp only at h
    split at h
    · cases h
      exact kept.stays rfl rfl rfl none_.symm rfl fun _ mem => mem
    · split at h
      · cases h
        exact kept.stays rfl rfl rfl none_.symm rfl fun _ mem => mem
      · split at h
        · cases h
          exact kept.stays rfl rfl rfl none_.symm rfl fun _ mem => mem
        · cases h
          exact kept.stays rfl rfl rfl none_.symm rfl fun _ mem => mem

end Kept

/-- What the thread of the PV leaves alone. -/
lemma process_frame {pvDg : PvDgram} {t : PvaDetector} (h : s.process pvDg = .ok t) :
    t.running = s.running ∧ t.mode = s.mode ∧ t.pgpQueue = s.pgpQueue ∧ t.arrived = s.arrived ∧ t.sent = s.sent ∧
      t.pvQueue = s.pvQueue ∧ ∀ b, b ∉ s.bufferFreelist → t.buffers b = s.buffers b := by
  rw [process] at h
  split at h
  · cases h
  · simp only at h
    split at h
    · split at h
      · cases h
        exact ⟨rfl, rfl, rfl, rfl, rfl, rfl, fun _ _ => rfl⟩
      next buffer rest free =>
        cases h
        refine ⟨rfl, rfl, rfl, rfl, rfl, rfl, ?_⟩
        intro b other
        apply Function.update_of_ne
        rintro rfl
        have free : s.bufferFreelist = b :: rest := free
        exact other (free ▸ List.mem_cons_self)
    · cases h
      exact ⟨rfl, rfl, rfl, rfl, rfl, rfl, fun _ _ => rfl⟩

/-- The worker keeps both sides. -/
lemma worker_keeps (degree : p.tsMatchDegree = 2) (inv : s.Orderly) (kept : s.Kept p) {t : PvaDetector}
    (h : s.worker p = .ok t) : t.Orderly ∧ t.Kept p := by
  rw [worker] at h
  cases mode : s.mode with
  | idle =>
    rw [mode] at h
    cases h
  | matchUp time =>
    rw [mode] at h
    cases h
    exact ⟨inv.matchUp degree mode, kept.matchUp degree mode⟩
  | giveBack time pvDg toTeb =>
    rw [mode] at h
    cases h
    exact ⟨inv.giveBack mode, kept.giveBack mode⟩
  | timeout timestamp toTeb =>
    rw [mode] at h
    cases h
    exact ⟨inv.timeout mode, kept.timeout mode⟩

/-- Every step keeps both sides. -/
lemma step_keeps (degree : p.tsMatchDegree = 2) (inv : s.Orderly) (kept : s.Kept p) {as : List PvaOp} {op : PvaOp}
    (ok : Allowed as s op) {t : PvaDetector} (h : s.step p op = .ok t) : t.Orderly ∧ t.Kept p := by
  cases op with
  | next header => exact ⟨inv.next ok h, kept.next h⟩
  | worker => exact worker_keeps degree inv kept h
  | process pvDg =>
    obtain ⟨running, mode, pgpQueue, arrived, sent, -⟩ := process_frame h
    exact ⟨inv.other running mode pgpQueue arrived sent, kept.process ok h⟩
  | push =>
    refine ⟨?_, kept.push h⟩
    have h : s.push = .ok t := h
    rw [push] at h
    split at h
    · cases h
    · cases h
      exact inv.other rfl rfl rfl rfl rfl

variable (p) in
/-- At the start both sides hold. -/
lemma new_keeps : (new p).Orderly ∧ (new p).Kept p := by
  refine ⟨⟨rfl, .nil, ?_, ?_, ?_, fun _ => .inl ⟨rfl, rfl⟩, ?_⟩, ⟨?_, .nil, ?_⟩⟩
  · intro h mem
    cases mem
  · intro d mem
    cases mem
  · intro d mem
    cases mem
  · intro going
    cases going
  · show List.Perm (List.range p.nbuffers ++ [] ++ [] ++ []) _
    rw [List.append_nil, List.append_nil, List.append_nil]
  · intro b mem
    cases mem

/-- The L1Accept is to be sent with this PV datagram: both are still in their queues and the worker is in
    `_matchUp`, or it is, or will be as the next one. -/
def Due (g : PgpDgram) (b : Nat) (pvDg : PvDgram) (s : PvaDetector) : Prop :=
  (s.Matching ∧ g ∈ s.pgpQueue ∧ b ∈ s.pvQueue ∧ s.buffers b = pvDg) ∨
    ∃ d ∈ s.sent ++ s.inHand, d.header = g.header ∧ d.attached = [pvDg]

/-- A buffer in the queue is the first one, or has a later time. -/
lemma Kept.first (kept : s.Kept p) {pvDg : Nat} {pvs : List Nat} (pv : s.pvQueue = pvDg :: pvs) {b : Nat}
    (mem : b ∈ s.pvQueue) : b = pvDg ∨ (b ∈ pvs ∧ (s.buffers pvDg).time < (s.buffers b).time) := by
  have sorted := kept.sorted
  rw [pv] at mem sorted
  cases List.mem_cons.mp mem with
  | inl same => exact .inl same
  | inr later => exact .inr ⟨later, (List.pairwise_cons.mp sorted).1 b (List.mem_append_left _ later)⟩

/-- A datagram in the queue is the first one, or has a later time. -/
lemma Orderly.first (inv : s.Orderly) {pgpDg : PgpDgram} {pgps : List PgpDgram} (pgp : s.pgpQueue = pgpDg :: pgps)
    {g : PgpDgram} (mem : g ∈ s.pgpQueue) : g = pgpDg ∨ (g ∈ pgps ∧ pgpDg.header.time < g.header.time) := by
  have sorted := inv.sorted
  rw [← inv.order, pipeline, waiting, pgp] at sorted
  have sorted := List.pairwise_map.mp sorted
  have sorted := (List.pairwise_append.mp (List.pairwise_append.mp (List.pairwise_append.mp sorted).2.1).1).2.1
  rw [pgp] at mem
  cases List.mem_cons.mp mem with
  | inl same => exact .inl same
  | inr later => exact .inr ⟨later, (List.pairwise_cons.mp sorted).1 g later⟩

namespace Due
variable {g : PgpDgram} {b : Nat} {pvDg : PvDgram}

/-- A turn of `_matchUp`: neither is consumed without the other. -/
lemma matchUp (degree : p.tsMatchDegree = 2) (inv : s.Orderly) (kept : s.Kept p) (event : g.header.service = .L1Accept)
    (same : pvDg.time = g.header.time) {time : Nat} (mode : s.mode = .matchUp time) (due : Due g b pvDg s) :
    Due g b pvDg (s.matchUp p time) := by
  have none_ : s.inHand = [] := by
    rw [inHand, mode]
  cases due with
  | inr done =>
    obtain ⟨d, mem, is⟩ := done
    rw [none_, List.append_nil] at mem
    right
    refine ⟨d, ?_, is⟩
    apply List.mem_append_left
    cases pv : s.pvQueue with
    | nil =>
      obtain ⟨timestamp, turn⟩ := matchUp_empty (.inl pv)
      exact turn ▸ mem
    | cons x xs =>
      cases pgp : s.pgpQueue with
      | nil =>
        obtain ⟨timestamp, turn⟩ := matchUp_empty (.inr pgp)
        exact turn ▸ mem
      | cons y ys =>
        obtain ⟨-, turn⟩ | ⟨-, turn⟩ | ⟨-, turn⟩ := matchUp_cases degree pv pgp
        · exact turn ▸ mem
        · exact turn ▸ List.mem_append_left _ mem
        · exact turn ▸ mem
  | inl queued =>
    obtain ⟨-, memG, memB, buffer⟩ := queued
    cases pv : s.pvQueue with
    | nil =>
      rw [pv] at memB
      cases memB
    | cons x xs =>
      cases pgp : s.pgpQueue with
      | nil =>
        rw [pgp] at memG
        cases memG
      | cons y ys =>
        have firstB := kept.first pv memB
        have firstG := inv.first pgp memG
        rw [buffer, same] at firstB
        obtain ⟨match_, turn⟩ | ⟨younger, turn⟩ | ⟨older, turn⟩ := matchUp_cases degree pv pgp
        · rw [turn]
          cases firstG with
          | inl first =>
            -- the L1Accept is the first one, and so is the PV of its time
            right
            cases firstB with
            | inr later =>
              rw [match_, first] at later
              exact absurd later.2 (lt_irrefl _)
            | inl firstB =>
              have fresh := inv.fresh g memG
              refine ⟨s.matched x y, List.mem_append_right _ (List.mem_singleton_self _), ?_, ?_⟩
              · rw [Orderly.matched_header, first]
              · rw [← first, ← firstB, matched, if_pos event, PgpDgram.attach, fresh, buffer]
                rfl
          | inr laterG =>
            left
            cases firstB with
            | inl firstB =>
              rw [← firstB, buffer, same] at match_
              exact absurd laterG.2 (match_ ▸ lt_irrefl _)
            | inr laterB => exact ⟨trivial, laterG.1, laterB.1, buffer⟩
        · rw [turn]
          left
          cases firstG with
          | inl first =>
            cases firstB with
            | inl firstB =>
              rw [← firstB, buffer, same, first] at younger
              exact absurd younger (lt_irrefl _)
            | inr laterB => exact absurd (first ▸ younger) (Nat.lt_asymm laterB.2)
          | inr laterG =>
            refine ⟨?_, laterG.1, memB, buffer⟩
            show PvaDetector.Matching { s with pgpQueue := ys, sent := s.sent ++ [_] }
            rw [Matching]
            simp only [mode]
        · rw [turn]
          left
          cases firstB with
          | inr laterB => exact ⟨trivial, memG, laterB.1, buffer⟩
          | inl firstB =>
            rw [← firstB, buffer, same] at older
            cases firstG with
            | inl first => exact absurd older (first ▸ lt_irrefl _)
            | inr laterG => exact absurd older (Nat.lt_asymm laterG.2)

/-- Every step. -/
lemma step (degree : p.tsMatchDegree = 2) (inv : s.Orderly) (kept : s.Kept p) (event : g.header.service = .L1Accept)
    (same : pvDg.time = g.header.time) {op : PvaOp} {t : PvaDetector} (h : s.step p op = .ok t)
    (due : Due g b pvDg s) : Due g b pvDg t := by
  cases op with
  | next header =>
    have h : s.next header = .ok t := h
    rw [PvaDetector.next] at h
    cases mode : s.mode with
    | matchUp _ | giveBack _ _ _ | timeout _ _ =>
      rw [mode] at h
      cases h
    | idle =>
      cases due with
      | inl queued =>
        have matching := queued.1
        rw [Matching, mode] at matching
        cases matching
      | inr done =>
        obtain ⟨d, mem, is⟩ := done
        have none_ : s.inHand = [] := by
          rw [inHand, mode]
        rw [none_, List.append_nil] at mem
        right
        refine ⟨d, List.mem_append_left _ ?_, is⟩
        rw [mode] at h
        simp only at h
        split at h
        · cases h
          exact mem
        · split at h
          · cases h
            exact List.mem_append_left _ mem
          · split at h
            · cases h
              exact mem
            · cases h
              exact List.mem_append_left _ mem
  | worker =>
    have h : s.worker p = .ok t := h
    rw [worker] at h
    cases mode : s.mode with
    | idle =>
      rw [mode] at h
      cases h
    | matchUp time =>
      rw [mode] at h
      cases h
      exact due.matchUp degree inv kept event same mode
    | giveBack time pvDg toTeb =>
      rw [mode] at h
      cases h
      cases due with
      | inl queued => exact .inl ⟨trivial, queued.2⟩
      | inr done =>
        obtain ⟨d, mem, is⟩ := done
        rw [inHand, mode] at mem
        exact .inr ⟨d, List.mem_append_left _ mem, is⟩
    | timeout timestamp toTeb =>
      rw [mode] at h
      cases h
      cases due with
      | inl queued =>
        have matching := queued.1
        rw [Matching, mode] at matching
        cases matching
      | inr done =>
        obtain ⟨d, mem, is⟩ := done
        rw [inHand, mode, List.append_nil] at mem
        right
        refine ⟨d, List.mem_append_left _ ?_, is⟩
        rw [PvaDetector.timeout]
        split
        · exact List.mem_append_left _ mem
        · split
          · exact List.mem_append_left _ mem
          · exact List.mem_append_left _ mem
  | process pv =>
    obtain ⟨-, mode, pgpQueue, -, sent, pvQueue, buffers⟩ := process_frame h
    rw [Due, Matching, mode, inHand, mode, pgpQueue, sent, pvQueue]
    cases due with
    | inr done => exact .inr done
    | inl queued =>
      obtain ⟨matching, memG, memB, buffer⟩ := queued
      refine .inl ⟨matching, memG, memB, ?_⟩
      rw [buffers b, buffer]
      intro free
      -- The buffer that is filled is a free one, which is not queued.
      have nodup := kept.nodup
      rw [List.append_assoc, List.append_assoc] at nodup
      exact (List.nodup_append.mp nodup).2.2 b free b (List.mem_append_left _ memB) rfl
  | push =>
    have h : s.push = .ok t := h
    rw [PvaDetector.push] at h
    split at h
    · cases h
    · cases h
      cases due with
      | inr done => exact .inr done
      | inl queued =>
        exact .inl ⟨queued.1, queued.2.1, List.mem_append_left _ queued.2.2.1, queued.2.2.2⟩

end Due
/-- What is left to do for the worker. -/
def left (s : PvaDetector) : Nat :=
  3 * (s.pvQueue.length + s.pgpQueue.length) +
    match s.mode with
    | .idle => 0
    | .timeout _ _ => 1
    | .matchUp _ => 2
    | .giveBack _ _ _ => 3

/-- While the worker is not idle it goes on, and less is left. -/
lemma worker_moves (degree : p.tsMatchDegree = 2) (busy : s.mode ≠ .idle) :
    ∃ t, s.worker p = .ok t ∧ t.left < s.left := by
  rw [worker, left]
  cases mode : s.mode with
  | idle => exact absurd mode busy
  | matchUp time =>
    refine ⟨_, rfl, ?_⟩
    cases pv : s.pvQueue with
    | nil =>
      obtain ⟨timestamp, turn⟩ := matchUp_empty (.inl pv)
      rw [turn, left, pv]
      exact Nat.lt_succ_self _
    | cons x xs =>
      cases pgp : s.pgpQueue with
      | nil =>
        obtain ⟨timestamp, turn⟩ := matchUp_empty (.inr pgp)
        rw [turn, left, pv, pgp]
        exact Nat.lt_succ_self _
      | cons y ys =>
        obtain ⟨-, turn⟩ | ⟨-, turn⟩ | ⟨-, turn⟩ := matchUp_cases degree pv pgp
        · rw [turn, left]
          simp only [List.length_cons]
          omega
        · rw [turn, left, handleYounger, sendToTeb]
          simp only [mode, pv, List.length_cons]
          omega
        · rw [turn, left, handleOlder]
          simp only [pgp, List.length_cons]
          omega
  | giveBack time pvDg toTeb => exact ⟨_, rfl, Nat.lt_succ_self _⟩
  | timeout timestamp toTeb =>
    refine ⟨_, rfl, ?_⟩
    rw [PvaDetector.timeout]
    cases pgp : s.pgpQueue with
    | nil =>
      simp only
      rw [left, finish, pgp]
      exact Nat.lt_succ_self _
    | cons y ys =>
      simp only
      split
      · rw [left, finish, pgp]
        exact Nat.lt_succ_self _
      · rw [left, sendToTeb]
        simp only [mode, List.length_cons]
        omega

/-- The worker comes to an end with what it does. -/
lemma comes_to_idle (degree : p.tsMatchDegree = 2) {as : List PvaOp}
    (run : Run (PvaDetector.step p) Allowed (new p) as s) :
    ∃ n t, Run (PvaDetector.step p) Allowed (new p) (as ++ List.replicate n .worker) t ∧ t.mode = .idle := by
  induction h : s.left using Nat.strong_induction_on generalizing s as with
  | _ _ ih =>
    by_cases idle : s.mode = .idle
    · exact ⟨0, s, (List.append_nil as).symm ▸ run, idle⟩
    · obtain ⟨t, move, less⟩ := worker_moves degree idle
      have run' : Run (PvaDetector.step p) Allowed (new p) (as ++ [.worker]) t := run.snoc trivial move
      obtain ⟨n, u, run'', idle'⟩ := ih t.left (h ▸ less) run' rfl
      refine ⟨n + 1, u, ?_, idle'⟩
      rw [List.append_assoc] at run''
      exact run''

end PvaDetector

/-- In every run, in which the two threads take turns in any way: PGP datagrams are sent in the order of their
    arrival, the worker comes to an end with them, and none is left behind after a Disable; a PV datagram is
    attached to an L1Accept of its time only; an L1Accept that is queued while `_matchUp` runs is sent with the
    PV datagram of its time in the other queue; and each PV buffer is free, queued, being filled, or popped by
    the worker and not given back. -/
theorem pv_matched {p : PvaParameters} (degree : p.tsMatchDegree = 2) {as : List PvaOp} {s : PvaDetector}
    (run : Run (PvaDetector.step p) PvaDetector.Allowed (.new p) as s) :
    ((s.sent ++ s.waiting).map PgpDgram.header = s.arrived ∧
      (∃ n t, Run (PvaDetector.step p) PvaDetector.Allowed (.new p) (as ++ List.replicate n .worker) t ∧
        t.mode = .idle) ∧
      (s.mode = .idle → s.running = false → s.sent.map PgpDgram.header = s.arrived)) ∧
    (∀ d ∈ s.sent, d.Carries) ∧
    (∀ bs t, Run (PvaDetector.step p) PvaDetector.Allowed (.new p) (as ++ bs) t → s.Matching →
      ∀ g ∈ s.pgpQueue, g.header.service = .L1Accept → ∀ b ∈ s.pvQueue, (s.buffers b).time = g.header.time →
        PvaDetector.Due g b (s.buffers b) t) ∧
    (s.bufferFreelist ++ s.pvQueue ++ s.filling.toList ++ s.returning).Perm (List.range p.nbuffers) := by
  have keeps : ∀ {as s}, Run (PvaDetector.step p) PvaDetector.Allowed (.new p) as s → s.Orderly ∧ s.Kept p := by
    intro as s run
    apply run.invariant (P := fun _ s => s.Orderly ∧ s.Kept p)
    · exact PvaDetector.new_keeps p
    · intro as s op t ⟨inv, kept⟩ ok h
      exact PvaDetector.step_keeps degree inv kept ok h
  obtain ⟨inv, kept⟩ := keeps run
  refine ⟨⟨inv.order, PvaDetector.comes_to_idle degree run, ?_⟩, ?_, ?_, kept.buffers⟩
  · intro idle stopped
    rw [← inv.order, PvaDetector.Orderly.pipeline_idle idle]
    cases inv.stopped stopped with
    | inl swept => rw [swept.2, List.append_nil]
    | inr sweeping =>
      obtain ⟨d, sweeping⟩ := sweeping
      cases idle.symm.trans sweeping
  · exact fun d mem => inv.carries d (List.mem_append_left _ mem)
  · intro bs t run' matching g memG event b memB same
    induction bs using List.reverseRecOn generalizing t with
    | nil =>
      rw [List.append_nil] at run'
      cases run.unique run'
      exact .inl ⟨matching, memG, memB, rfl⟩
    | append_singleton bs op ih =>
      rw [← List.append_assoc] at run'
      obtain ⟨u, run'', -, move⟩ := Run.snoc_iff.mp run'
      obtain ⟨inv', kept'⟩ := keeps run''
      exact (ih u run'').step degree inv' kept' event same move

/-- A header with a time. -/
def timed (service : TransitionId) (time : Nat) : TimingHeader := ⟨0, service, 0, time⟩

/-- One buffer. -/
def onePva : PvaParameters := ⟨2, 1333, 1⟩

instance (s : PvaDetector) : Decidable s.Matching :=
  match mode : s.mode with
  | .matchUp _ | .giveBack _ _ _ => .isTrue (by rw [PvaDetector.Matching, mode]; trivial)
  | .idle | .timeout _ _ => .isFalse (by rw [PvaDetector.Matching, mode]; exact id)

instance (as : List PvaOp) (s : PvaDetector) : (op : PvaOp) → Decidable (PvaDetector.Allowed as s op)
  | .next header => inferInstanceAs (Decidable (header.time ≤ timeMax ∧ (∀ h ∈ s.arrived, h.time < header.time) ∧
      if header.service = .L1Accept ∨ header.service = .SlowUpdate then s.running = true
      else header.service = .Disable ∨ s.running = false))
  | .process pvDg => inferInstanceAs (Decidable (∀ t ∈ s.updates, t < pvDg.time))
  | .worker | .push => .isTrue trivial

/-- The PV datagram of the runs below. -/
def aPv : PvDgram := ⟨5, 0#16, [7]⟩

/-- A buffer that the worker has popped is in no queue. -/
theorem buffer_returning : ∃ s,
    Run (PvaDetector.step onePva) PvaDetector.Allowed (.new onePva)
      [.next (timed .Enable 1), .process aPv, .push, .next (timed .L1Accept 5), .worker] s ∧
    s.bufferFreelist = [] ∧ s.pvQueue = [] ∧ s.filling = none := by
  obtain ⟨s, run, test⟩ := Run.of_replay_any (PvaDetector.step onePva) PvaDetector.Allowed (.new onePva)
    [.next (timed .Enable 1), .process aPv, .push, .next (timed .L1Accept 5), .worker]
    (fun s => s.bufferFreelist = [] ∧ s.pvQueue = [] ∧ s.filling = none) (by decide +kernel)
  exact ⟨s, run, of_decide_eq_true test⟩

/-- An L1Accept is sent with its PV. -/
theorem pv_matched_one : ∃ t,
    Run (PvaDetector.step onePva) PvaDetector.Allowed (.new onePva)
      ([.next (timed .Enable 1), .process aPv, .push, .next (timed .L1Accept 5)] ++ [.worker, .worker]) t ∧
    ∃ d ∈ t.sent, d.header = timed .L1Accept 5 ∧ d.attached = [aPv] := by
  obtain ⟨s, run, test⟩ := Run.of_replay_any (PvaDetector.step onePva) PvaDetector.Allowed (.new onePva)
    [.next (timed .Enable 1), .process aPv, .push, .next (timed .L1Accept 5)]
    (fun s => s.pgpQueue = [.new (timed .L1Accept 5)] ∧ s.pvQueue = [0] ∧ s.buffers 0 = aPv ∧ s.Matching)
    (by decide +kernel)
  obtain ⟨t, run', test'⟩ := Run.of_replay_any (PvaDetector.step onePva) PvaDetector.Allowed (.new onePva)
    ([.next (timed .Enable 1), .process aPv, .push, .next (timed .L1Accept 5)] ++ [.worker, .worker])
    (fun t => t.pgpQueue = [] ∧ t.inHand = []) (by decide +kernel)
  obtain ⟨pgp, pv, buffer, matching⟩ := of_decide_eq_true test
  obtain ⟨empty, none_⟩ := of_decide_eq_true test'
  obtain ⟨-, -, due, -⟩ := pv_matched (p := onePva) rfl run
  refine ⟨t, run', ?_⟩
  cases due _ t run' matching (.new (timed .L1Accept 5)) (pgp ▸ List.mem_singleton_self _) rfl 0
    (pv ▸ List.mem_singleton_self _) (buffer ▸ rfl) with
  | inl queued =>
    have mem := queued.2.1
    rw [empty] at mem
    cases mem
  | inr done =>
    rw [none_, List.append_nil, buffer] at done
    exact done

end Lcls2.Drp
