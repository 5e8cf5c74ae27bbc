import Lcls2.Psana.BdServer
import Lcls2.Psana.StepsOnce

/-!
# Every L1Accept is served once

As long as no build mixes the destination 0 with others, every L1Accept of a build is sent once, to the
rank its destination names.
-/

namespace Lcls2.Psana
open Lib

/-- The L1Accepts among some events. -/
def accepts (events : List (List Bytes)) : List (List Bytes) :=
  events.filter fun e => e.any fun d => d ≠ [] ∧ headerService d = l1Accept

/-- The L1Accepts that a rank has been sent. -/
def EventBuilderNode.sentL1 (s : EventBuilderNode) (rank : Nat) :
    Except PacketFault (List (List Bytes)) := do
  let events ← s.events rank
  .ok (accepts events)

/-- The builds that have come in. -/
def ServeOp.builds : ServeOp → List (List SmdEvent)
  | .build evts => [evts]
  | _ => []

/-- The transitions that have come in. -/
def stepCount (as : List ServeOp) : Nat := (as.flatMap ServeOp.builds).flatten.countP isStep

/-- The requests that have come in. -/
def ServeOp.isReady : ServeOp → Bool
  | .ready _ => true
  | _ => false

/-- An event of a build: it has a dgram, a transition has destination 0, and the destination of an
    L1Accept is a rank, or 0 without a callback. -/
def SmdEvent.Addressed (nBdNodes n : Nat) (e : SmdEvent) : Prop :=
  e.WellBuilt n ∧ e.pydgrams.any Option.isSome ∧
    if isStep e then e.destination = 0 else 0 ≤ e.destination ∧ e.destination ≤ nBdNodes

/-- Whether the loop waits for the next build. -/
def Serving.isIdle : Serving → Bool
  | .idle => true
  | _ => false

/-- Whether the loop waits for a rank. -/
def Serving.asks : Serving → Bool
  | .any _ => true
  | .named _ _ => true
  | _ => false

/-- What comes in while the loop waits for it. A rank that waits does not ask again. -/
def BdServer.Allowed (n : Nat) (as : List ServeOp) (s : BdServer) : ServeOp → Prop
  | .chunk => s.serving.asks = false
  | .build evts => s.serving.isIdle ∧ evts.length ≤ maxBatchSize ∧
      (∀ e ∈ evts, e.Addressed s.nBdNodes n) ∧
      fits (maxBatchSize + stepCount (as ++ [.build evts]))
  | .ready rank => s.serving.asks ∧ (0 < rank ∧ rank ≤ s.nBdNodes) ∧ rank ∉ s.waitingBds

instance SmdEvent.decidableAddressed (nBdNodes n : Nat) (e : SmdEvent) :
    Decidable (e.Addressed nBdNodes n) :=
  inferInstanceAs (Decidable (e.WellBuilt n ∧ _ ∧ if isStep e then _ else _))

instance BdServer.decidableAllowed (n : Nat) (as : List ServeOp) (s : BdServer) (op : ServeOp) :
    Decidable (BdServer.Allowed n as s op) :=
  match op with
  | .chunk => inferInstanceAs (Decidable (_ = _))
  | .build evts => inferInstanceAs (Decidable (_ ∧ _ ∧ (∀ e ∈ evts, _) ∧ fits _))
  | .ready rank => inferInstanceAs (Decidable (_ ∧ _ ∧ rank ∉ s.waitingBds))

/-- No build mixes the destination 0 with others. -/
def Unmixed (evts : List SmdEvent) : Prop :=
  (∃ e ∈ evts, e.destination = 0) → ∀ e ∈ evts, e.destination = 0

instance decidableUnmixed (evts : List SmdEvent) : Decidable (Unmixed evts) :=
  inferInstanceAs (Decidable ((∃ e ∈ evts, _) → ∀ e ∈ evts, _))

/-- The L1Accepts of a build for a rank; those of destination 0 go to the rank that took them. -/
def share (rank : Nat) (build : List SmdEvent × Nat) : List (List Bytes) :=
  (build.1.filter fun e => ¬ isStep e ∧
    (if e.destination = 0 then (build.2 : Int) else e.destination) = rank).map SmdEvent.streams

variable {nBdNodes n rank : Nat} {e : SmdEvent} {evts steps : List SmdEvent} {key : Int}
  {keys : List Int} {pos : Nat → Nat} {s : BdServer} {as : List ServeOp}
  {handled : List (List SmdEvent × Nat)}

/-- What tells an L1Accept by its dgrams. -/
lemma any_l1Accept (built : e.WellBuilt n) :
    (e.streams.any fun d => d ≠ [] ∧ headerService d = l1Accept) =
      (!isStep e && e.pydgrams.any Option.isSome) := by
  obtain ⟨-, services, -, -⟩ := built
  rw [SmdEvent.streams, List.any_map]
  generalize hsome : e.pydgrams = pydgrams at services
  clear hsome
  induction pydgrams with
  | nil => exact (Bool.and_false _).symm
  | cons pydg pydgrams ih =>
    rw [List.any_cons, List.any_cons, ih fun p hp => services p (List.mem_cons_of_mem pydg hp)]
    cases pydg with
    | none => rfl
    | some d =>
      have service : headerService d.bytes = e.service :=
        of_decide_eq_true (services _ List.mem_cons_self)
      have some_ : d.bytes ≠ [] := by
        intro none_
        have header := d.header
        rw [none_] at header
        cases header
      have here : decide (d.bytes ≠ [] ∧ headerService d.bytes = l1Accept) = !isStep e := by
        rw [service, isStep, ← decide_not, decide_eq_decide, not_not]
        exact and_iff_right some_
      show (decide (d.bytes ≠ [] ∧ headerService d.bytes = l1Accept) || _) = _
      rw [here, Option.isSome_some, Bool.true_or, Bool.and_true]
      cases isStep e <;> rfl

lemma accepts_streams (built : ∀ e ∈ evts, e.WellBuilt n ∧ (isStep e ∨ e.pydgrams.any Option.isSome)) :
    accepts (evts.map SmdEvent.streams) = (evts.filter fun e => ¬ isStep e).map SmdEvent.streams := by
  rw [accepts, List.filter_map]
  congr 1
  apply List.filter_congr
  intro e he
  obtain ⟨built, some_⟩ := built e he
  show (e.streams.any _) = _
  rw [any_l1Accept built]
  cases some_ with
  | inl step => simp [step]
  | inr some_ => simp [some_]

/-- What the node remembers: the transitions it has sent, which are among those of the builds. -/
structure Remembers (nBdNodes n total : Nat) (node : EventBuilderNode) (steps : List SmdEvent)
    (pos : Nat → Nat) : Prop where
  tracks : Tracks n (nBdNodes + 1) node.stepHist (steps.map SmdEvent.streams) pos
  built : ∀ e ∈ steps, e.WellBuilt n ∧ isStep e
  few : steps.length ≤ total

/-- A build whose destinations are ranks. -/
def ServableBuild (nBdNodes n : Nat) (evts : List SmdEvent) : Prop :=
  evts.length ≤ maxBatchSize ∧ ∀ e ∈ evts, e.Addressed nBdNodes n

/-- Sending the batch of a key: its L1Accepts are sent, and its transitions are remembered. -/
lemma Remembers.send {total : Nat} (mem : Remembers s.nBdNodes n total s.node steps pos)
    (known : 0 < rank ∧ rank ≤ s.nBdNodes) (servable : ServableBuild s.nBdNodes n evts)
    (hkey : key ∈ destinations evts) (room : fits (maxBatchSize + total)) :
    ∃ node pos', s.send rank evts key = .ok { s with node } ∧
      Remembers s.nBdNodes n (total + (evts.filter fun e => e.destination = key ∧ isStep e).length)
        node (steps ++ evts.filter fun e => e.destination = key ∧ isStep e) pos' ∧
      node.messages.length = s.node.messages.length + 1 ∧
      ∀ r sent, s.node.sentL1 r = .ok sent → node.sentL1 r =
        .ok (sent ++ if rank = r then
          (evts.filter fun e => e.destination = key ∧ ¬ isStep e).map SmdEvent.streams else []) := by
  obtain ⟨short, built⟩ := servable
  have few := mem.few
  rw [fits] at room
  have wellBuilt : (NodeOp.batch rank evts key).WellBuilt n :=
    ⟨short, hkey, fun e he => (built e he).1⟩
  have few' : fits (maxBatchSize + steps.length) := by
    rw [fits]
    omega
  obtain ⟨⟨stepHist, messages⟩, sent, tracks, message⟩ := sendBatch_spec mem.tracks
    ⟨known.1, Nat.lt_succ_of_le known.2⟩ mem.built wellBuilt few'
  have message : messages = _ := message
  subst message
  refine ⟨_, _, ?_, ⟨tracks, ?_, ?_⟩, ?_, ?_⟩
  · rw [BdServer.send, sent]
  · intro e he
    cases List.mem_append.mp he with
    | inl he => exact mem.built e he
    | inr he => exact wellBuilt.of_mem e he
  · rw [List.length_append]
    exact Nat.add_le_add_right few _
  · rw [List.length_append]
    rfl
  · intro r before h
    obtain ⟨events, received, e⟩ := bind_ok h
    cases e
    have hit : ∀ e ∈ missed n steps (pos rank) ++ evts.filter (fun e => e.destination = key),
        e.WellBuilt n ∧ (isStep e ∨ e.pydgrams.any Option.isSome) := by
      intro e he
      cases List.mem_append.mp he with
      | inl he =>
        have := mem.built e (mem_missed he)
        exact ⟨this.1, .inl this.2⟩
      | inr he =>
        have := built e (List.mem_of_mem_filter he)
        exact ⟨this.1, .inr this.2.1⟩
    have size : fits (missed n steps (pos rank) ++
        evts.filter fun e => e.destination = key).length := by
      have h1 := missed_length n steps (pos rank)
      have h2 := List.length_filter_le (fun e => decide (e.destination = key)) evts
      rw [fits, List.length_append]
      omega
    -- What was missed has steps only, so that the L1Accepts are those of the batch.
    have none_ : (missed n steps (pos rank)).filter (fun e => ¬ isStep e) = [] := by
      apply List.filter_eq_nil_iff.mpr
      intro e he
      have step := (mem.built e (mem_missed he)).2
      simp [step]
    rw [EventBuilderNode.sentL1, events_send stepHist received (fun e he => (hit e he).1.2.2.2) size, ok_bind]
    congr 1
    rw [accepts, List.filter_append]
    congr 1
    split
    · have l1 := accepts_streams hit
      rw [List.filter_append, none_, List.nil_append, List.filter_filter] at l1
      refine l1.trans ?_
      congr 1
      apply List.filter_congr
      intro e _
      rw [Bool.and_comm, Bool.decide_and]
    · rfl

/-- The transitions of the builds. -/
def handledSteps (handled : List (List SmdEvent × Nat)) : Nat :=
  (handled.flatMap (·.1)).countP isStep

/-- What holds between two messages: the builds that are handled are sent, each with the rank that
    took its events of destination 0, and of the build in hand the part `extra`. -/
structure Served (nBdNodes n readies : Nat) (handled : List (List SmdEvent × Nat))
    (extra : Nat → List (List Bytes)) (node : EventBuilderNode) (waitingBds : List Nat) : Prop where
  mem : ∃ steps pos, Remembers nBdNodes n (handledSteps handled) node steps pos
  nodup : waitingBds.Nodup
  ranks : ∀ r ∈ waitingBds, 0 < r ∧ r ≤ nBdNodes
  answered : node.messages.length + waitingBds.length = readies
  takers : ∀ b ∈ handled, (∃ e ∈ b.1, e.destination = 0) → 0 < b.2 ∧ b.2 ≤ nBdNodes
  sent : (∀ b ∈ handled, Unmixed b.1) → ∀ r, node.sentL1 r = .ok (handled.flatMap (share r) ++ extra r)

lemma handledSteps_concat (b : List SmdEvent × Nat) :
    handledSteps (handled ++ [b]) = handledSteps handled + b.1.countP isStep := by
  rw [handledSteps, List.flatMap_append, List.countP_append, List.flatMap_singleton]
  rfl

/-- A transition has destination 0. -/
lemma zero_of_isStep (servable : ServableBuild nBdNodes n evts) (he : e ∈ evts) (step : isStep e) :
    e.destination = 0 := by
  have address := (servable.2 e he).2.2
  rwa [if_pos step] at address

/-- The batch of destination 0 goes to a rank: the build is handled. -/
lemma Served.any {readies : Nat} {waitingBds left : List Nat}
    (served : Served s.nBdNodes n readies handled (fun _ => []) s.node waitingBds)
    (known : 0 < rank ∧ rank ≤ s.nBdNodes) (servable : ServableBuild s.nBdNodes n evts)
    (zero : 0 ∈ destinations evts) (room : fits (maxBatchSize + handledSteps handled))
    (sub : left.Sublist waitingBds) :
    ∃ node, s.send rank evts 0 = .ok { s with node } ∧
      node.messages.length = s.node.messages.length + 1 ∧
      Served s.nBdNodes n (s.node.messages.length + 1 + left.length) (handled ++ [(evts, rank)])
        (fun _ => []) node left := by
  obtain ⟨steps, pos, mem⟩ := served.mem
  obtain ⟨node, pos', h, mem, more, sent⟩ := mem.send known servable zero room
  refine ⟨node, h, more, ⟨_, pos', mem.tracks, mem.built, ?_⟩, served.nodup.sublist sub,
    fun r hr => served.ranks r (sub.subset hr), by rw [more], ?_, ?_⟩
  · have few := mem.few
    rw [← List.countP_eq_length_filter] at few
    rw [handledSteps_concat]
    refine Nat.le_trans few (Nat.add_le_add_left (List.countP_mono_left ?_) _)
    intro e _ h
    exact (of_decide_eq_true h).2
  · intro b hb
    cases List.mem_append.mp hb with
    | inl hb => exact served.takers b hb
    | inr hb =>
      cases List.mem_singleton.mp hb
      exact fun _ => known
  · intro unmixed r
    have before := served.sent (fun b hb => unmixed b (List.mem_append_left _ hb)) r
    rw [List.append_nil] at before
    have all := unmixed (evts, rank) (List.mem_append_right _ (List.mem_singleton.mpr rfl))
      (mem_destinations.mp zero)
    rw [sent r _ before, List.append_nil, List.flatMap_append, List.flatMap_singleton, share]
    congr 2
    split
    · rename_i same
      subst same
      congr 1
      apply List.filter_congr
      intro e he
      simp [all e he]
    · rename_i other
      have none_ : (evts.filter fun e => ¬ isStep e ∧
          (if e.destination = 0 then (rank : Int) else e.destination) = r) = [] := by
        apply List.filter_eq_nil_iff.mpr
        intro e he
        simp [all e he, other]
      rw [none_]
      rfl

/-- A named batch goes to its rank. -/
lemma Served.named {readies : Nat} {waitingBds left : List Nat}
    (served : Served s.nBdNodes n readies handled
      (fun r => if (r : Int) ∈ keys then [] else share r (evts, 0)) s.node waitingBds)
    (known : 0 < rank ∧ rank ≤ s.nBdNodes) (servable : ServableBuild s.nBdNodes n evts)
    (zero : 0 ∉ destinations evts) (room : fits (maxBatchSize + handledSteps handled))
    (nodup : keys.Nodup) (hkeys : ∀ key ∈ keys, key ∈ destinations evts) (hrank : (rank : Int) ∈ keys)
    (sub : left.Sublist waitingBds) :
    ∃ node, s.send rank evts rank = .ok { s with node } ∧
      node.messages.length = s.node.messages.length + 1 ∧
      Served s.nBdNodes n (s.node.messages.length + 1 + left.length) handled
        (fun r => if (r : Int) ∈ keys.erase rank then [] else share r (evts, 0)) node left := by
  obtain ⟨steps, pos, mem⟩ := served.mem
  obtain ⟨node, pos', h, mem, more, sent⟩ := mem.send known servable (hkeys _ hrank) room
  have named : ∀ e ∈ evts, e.destination ≠ 0 := fun e he h =>
    zero (mem_destinations.mpr ⟨e, he, h⟩)
  have none_ : (evts.filter fun e => e.destination = (rank : Int) ∧ isStep e) = [] := by
    apply List.filter_eq_nil_iff.mpr
    intro e he step
    exact named e he (zero_of_isStep servable he (of_decide_eq_true step).2)
  rw [none_, List.append_nil] at mem
  refine ⟨node, h, more, ⟨_, pos', mem⟩, served.nodup.sublist sub,
    fun r hr => served.ranks r (sub.subset hr), by rw [more], served.takers, ?_⟩
  intro unmixed r
  have l1 : share rank (evts, 0) =
      (evts.filter fun e => e.destination = (rank : Int) ∧ ¬ isStep e).map SmdEvent.streams := by
    rw [share]
    congr 1
    apply List.filter_congr
    intro e he
    simp [named e he, and_comm]
  rw [sent r _ (served.sent unmixed r), List.append_assoc, ← l1]
  congr 2
  by_cases same : rank = r
  · subst same
    rw [if_pos rfl, if_pos hrank, if_neg nodup.not_mem_erase, List.nil_append]
  · have other : (r : Int) ∈ keys.erase rank ↔ (r : Int) ∈ keys :=
      List.mem_erase_of_ne fun e => same (Int.ofNat_inj.mp e).symm
    rw [if_neg same, List.append_nil]
    simp only [other]

/-- The build in hand. -/
def Serving.inHand : Serving → List (List SmdEvent)
  | .any evts => [evts]
  | .named evts _ => [evts]
  | _ => []

/-- What is sent to a rank of the build in hand. -/
def Serving.extra : Serving → Nat → List (List Bytes)
  | .named evts keys, r => if (r : Int) ∈ keys then [] else share r (evts, 0)
  | _, _ => []

/-- A batch for any rank waits only while no rank does, and no rank waits for a batch that is there. -/
def Serving.Proper (nBdNodes n : Nat) (waitingBds : List Nat) : Serving → Prop
  | .idle => True
  | .any evts => waitingBds = [] ∧ 0 ∈ destinations evts ∧ ServableBuild nBdNodes n evts
  | .named evts keys => keys ≠ [] ∧ keys.Nodup ∧ (∀ key ∈ keys, key ∈ destinations evts) ∧
      0 ∉ destinations evts ∧ (∀ r ∈ waitingBds, (r : Int) ∉ keys) ∧ ServableBuild nBdNodes n evts
  | .left => False

section round
variable {readies : Nat} (servable : ServableBuild s.nBdNodes n evts) (zero : 0 ∉ destinations evts)
  (room : fits (maxBatchSize + handledSteps handled))
include servable zero room

/-- The waiting ranks whose batches are there get them. -/
lemma sendWaiting_spec (copied : List Nat) {node : EventBuilderNode} {waitingBds : List Nat}
    (served : Served s.nBdNodes n readies handled (Serving.named evts keys).extra node waitingBds)
    (nodup : keys.Nodup) (hkeys : ∀ key ∈ keys, key ∈ destinations evts) (apart : copied.Nodup)
    (sub : ∀ r ∈ copied, r ∈ waitingBds) :
    ∃ keys' node' left,
      BdServer.sendWaiting evts copied keys { s with node, waitingBds } =
        .ok (keys', { s with node := node', waitingBds := left }) ∧
      Served s.nBdNodes n readies handled (Serving.named evts keys').extra node' left ∧
      keys'.Sublist keys ∧ left.Sublist waitingBds ∧ ∀ r ∈ copied, r ∈ left → (r : Int) ∉ keys' := by
  induction copied generalizing keys node waitingBds with
  | nil => exact ⟨keys, node, waitingBds, rfl, served, .refl _, .refl _, nofun⟩
  | cons destRank copied ih =>
    have waits := sub destRank List.mem_cons_self
    obtain ⟨absent, apart⟩ := List.nodup_cons.mp apart
    by_cases there : (destRank : Int) ∈ keys
    · have erased : (waitingBds.erase destRank).Sublist waitingBds := List.erase_sublist
      obtain ⟨node1, h, -, served1⟩ := Served.named (s := { s with node, waitingBds }) served
        (served.ranks destRank waits) servable zero room nodup hkeys there erased
      have count : node.messages.length + 1 + (waitingBds.erase destRank).length = readies := by
        have pos := List.length_pos_of_mem waits
        rw [← served.answered, List.length_erase_of_mem waits]
        omega
      rw [show (({ s with node, waitingBds } : BdServer).node) = node from rfl, count] at served1
      obtain ⟨keys', node', left, loop, served', subKeys, subLeft, done⟩ := ih served1
        (nodup.erase _) (fun key hkey => hkeys key (List.mem_of_mem_erase hkey)) apart fun r hr =>
          (List.mem_erase_of_ne fun e : r = destRank => absent (e ▸ hr)).mpr (sub r (List.mem_cons_of_mem _ hr))
      refine ⟨keys', node', left, ?_, served', subKeys.trans List.erase_sublist,
        subLeft.trans erased, ?_⟩
      · rw [BdServer.sendWaiting, if_pos there, h]
        exact loop
      · intro r hr hleft
        cases List.mem_cons.mp hr with
        | inl e =>
          subst e
          exact absurd (subLeft.subset hleft) served.nodup.not_mem_erase
        | inr hr => exact done r hr hleft
    · obtain ⟨keys', node', left, loop, served', subKeys, subLeft, done⟩ := ih served nodup hkeys
        apart fun r hr => sub r (List.mem_cons_of_mem _ hr)
      refine ⟨keys', node', left, ?_, served', subKeys, subLeft, ?_⟩
      · rw [BdServer.sendWaiting, if_neg there]
        exact loop
      · intro r hr hleft
        cases List.mem_cons.mp hr with
        | inl e =>
          subst e
          exact fun h => there (subKeys.subset h)
        | inr hr => exact done r hr hleft

/-- Up to the next request, or to the end of the build. -/
lemma serve_spec {node : EventBuilderNode} {waitingBds : List Nat}
    (served : Served s.nBdNodes n readies handled (Serving.named evts keys).extra node waitingBds)
    (nodup : keys.Nodup) (hkeys : ∀ key ∈ keys, key ∈ destinations evts) :
    ∃ t handled', BdServer.serve { s with node, waitingBds } evts keys = .ok t ∧
      t.nBdNodes = s.nBdNodes ∧
      Served s.nBdNodes n readies handled' t.serving.extra t.node t.waitingBds ∧
      handled'.map (·.1) ++ t.serving.inHand = handled.map (·.1) ++ [evts] ∧
      t.serving.Proper s.nBdNodes n t.waitingBds := by
  obtain ⟨keys', node', left, loop, served', subKeys, subLeft, done⟩ := sendWaiting_spec servable zero
    room waitingBds served nodup hkeys served.nodup fun r hr => hr
  have h : BdServer.serve { s with node, waitingBds } evts keys =
      .ok { s with
        node := node', waitingBds := left,
        serving := if keys' = [] then .idle else .named evts keys' } := by
    rw [BdServer.serve, loop]
    rfl
  rw [h]
  by_cases none_ : keys' = []
  · subst none_
    refine ⟨_, handled ++ [(evts, 0)], rfl, rfl, ?_, ?_, trivial⟩
    · refine ⟨?_, served'.nodup, served'.ranks, served'.answered, ?_, ?_⟩
      · obtain ⟨steps, pos, mem⟩ := served'.mem
        refine ⟨steps, pos, mem.tracks, mem.built, ?_⟩
        rw [handledSteps_concat]
        exact Nat.le_trans mem.few (Nat.le_add_right _ _)
      · intro b hb
        cases List.mem_append.mp hb with
        | inl hb => exact served'.takers b hb
        | inr hb =>
          cases List.mem_singleton.mp hb
          exact fun h => absurd (mem_destinations.mpr h) zero
      · intro unmixed r
        rw [served'.sent (fun b hb => unmixed b (List.mem_append_left _ hb)) r, List.flatMap_append,
          List.flatMap_singleton]
        show Except.ok (_ ++ if (r : Int) ∈ [] then [] else share r (evts, 0)) = _
        rw [if_neg List.not_mem_nil]
        exact congrArg Except.ok (List.append_nil _).symm
    · rw [List.map_append]
      exact List.append_nil _
  · simp only [if_neg none_]
    refine ⟨_, handled, rfl, rfl, served', rfl, none_, nodup.sublist subKeys,
      fun key hkey => hkeys key (subKeys.subset hkey), zero, ?_, servable⟩
    exact fun r hr => done r (subLeft.subset hr) hr

end round

/-- The invariant of the loop. -/
structure BdServer.Inv (nBdNodes n : Nat) (as : List ServeOp) (s : BdServer)
    (handled : List (List SmdEvent × Nat)) : Prop where
  size : s.nBdNodes = nBdNodes
  served : Served s.nBdNodes n (as.countP ServeOp.isReady) handled s.serving.extra s.node s.waitingBds
  room : fits (maxBatchSize + stepCount as)
  builds : handled.map (·.1) ++ s.serving.inHand = as.flatMap ServeOp.builds
  proper : s.serving.Proper s.nBdNodes n s.waitingBds

namespace BdServer.Inv

lemma handled_room (inv : BdServer.Inv nBdNodes n as s handled) :
    fits (maxBatchSize + handledSteps handled) := by
  have h := inv.room
  rw [stepCount, ← inv.builds, List.flatten_append, List.countP_append] at h
  rw [handledSteps, List.flatMap_def]
  rw [fits] at h ⊢
  omega

lemma new (nBdNodes n : Nat) : BdServer.Inv nBdNodes n [] (.new nBdNodes n) [] where
  size := rfl
  served := {
    mem := ⟨[], fun _ => 0, .new (nBdNodes + 1) n, nofun, Nat.zero_le _⟩
    nodup := List.nodup_nil
    ranks := nofun
    answered := rfl
    takers := nofun
    sent := fun _ _ => rfl }
  room := by decide
  builds := rfl
  proper := trivial

/-- A chunk comes in. -/
lemma chunk (inv : BdServer.Inv nBdNodes n as s handled) (ok : BdServer.Allowed n as s .chunk) :
    ∃ t, s.step .chunk = .ok t ∧ BdServer.Inv nBdNodes n (as ++ [.chunk]) t handled := by
  obtain ⟨size, served, room, builds, proper⟩ := inv
  have idle : s.serving = .idle := by
    cases hs : s.serving with
    | idle => rfl
    | any evts =>
      rw [BdServer.Allowed, hs] at ok
      cases ok
    | named evts keys =>
      rw [BdServer.Allowed, hs] at ok
      cases ok
    | left =>
      rw [hs] at proper
      cases proper
  refine ⟨{ s with serving := .idle }, ?_, size, ?_, ?_, ?_, trivial⟩
  · rw [step, idle]
  · rw [idle] at served
    rw [List.countP_append]
    exact served
  · rw [stepCount, List.flatMap_append] at *
    simpa [ServeOp.builds] using room
  · rw [idle] at builds
    rw [List.flatMap_append]
    simpa [ServeOp.builds] using builds

/-- A build comes in. -/
lemma build (inv : BdServer.Inv nBdNodes n as s handled) (ok : BdServer.Allowed n as s (.build evts)) :
    ∃ t handled', s.step (.build evts) = .ok t ∧
      BdServer.Inv nBdNodes n (as ++ [.build evts]) t handled' := by
  have room' := inv.handled_room
  obtain ⟨size, served, room, builds, proper⟩ := inv
  obtain ⟨idle, short, addressed, fitting⟩ := ok
  have servable : ServableBuild s.nBdNodes n evts := ⟨short, addressed⟩
  have idle : s.serving = .idle := by
    cases hs : s.serving with
    | idle => rfl
    | any evts =>
      rw [hs] at idle
      cases idle
    | named evts keys =>
      rw [hs] at idle
      cases idle
    | left =>
      rw [hs] at idle
      cases idle
  rw [idle] at served builds
  have builds : handled.map (·.1) = as.flatMap ServeOp.builds := (List.append_nil _).symm.trans builds
  have all : (as ++ [ServeOp.build evts]).flatMap ServeOp.builds = handled.map (·.1) ++ [evts] := by
    rw [builds, List.flatMap_append, List.flatMap_singleton]
    rfl
  have count : (as ++ [ServeOp.build evts]).countP ServeOp.isReady = as.countP ServeOp.isReady := by
    rw [List.countP_append]
    rfl
  -- The batches of a build are its events by destination.
  have start : s.step (.build evts) = s.serveBuild evts (destinations evts) := by
    rw [step, idle, genBatches_spec evts short fun e he => (addressed e he).1.2.2.2]
    simp only [List.map_map]
    congr 1
    exact List.map_id _
  rw [start, serveBuild]
  split
  · rename_i zero
    cases hlast : s.waitingBds.getLast? with
    | none =>
      have none_ := List.getLast?_eq_none_iff.mp hlast
      refine ⟨_, handled, rfl, size, ?_, fitting, all.symm, none_, zero, servable⟩
      rw [count]
      exact served
    | some rank =>
      have waits := List.mem_of_getLast? hlast
      obtain ⟨node, h, more, served'⟩ := Served.any (s := { s with waitingBds := s.waitingBds.dropLast })
        served (served.ranks rank waits) servable zero room' (List.dropLast_sublist _)
      have popped : s.node.messages.length + 1 + s.waitingBds.dropLast.length =
          as.countP ServeOp.isReady := by
        have pos := List.length_pos_of_mem waits
        rw [← served.answered, List.length_dropLast]
        omega
      rw [show ({ s with waitingBds := s.waitingBds.dropLast } : BdServer).node = s.node from rfl,
        popped] at served'
      refine ⟨_, handled ++ [(evts, rank)], h, size, ?_, fitting, ?_, ?_⟩
      · rw [count]
        show Served _ _ _ _ s.serving.extra _ _
        rw [idle]
        exact served'
      · show _ ++ s.serving.inHand = _
        rw [idle, all, List.map_append]
        exact List.append_nil _
      · show s.serving.Proper _ _ _
        rw [idle]
        trivial
  · rename_i zero
    -- No destination is beyond the ranks.
    have valid : ¬ ∃ key ∈ destinations evts, (s.nBdNodes : Int) < key := by
      rintro ⟨key, hkey, beyond⟩
      obtain ⟨e, he, rfl⟩ := mem_destinations.mp hkey
      have address := (addressed e he).2.2
      split at address
      · rw [address] at beyond
        exact absurd beyond (Int.not_lt.mpr (Int.natCast_nonneg _))
      · exact absurd beyond (Int.not_lt.mpr address.2)
    -- Nothing of the build has been sent yet.
    have opened : Served s.nBdNodes n (as.countP ServeOp.isReady) handled
        (Serving.named evts (destinations evts)).extra s.node s.waitingBds := by
      have nothing : ∀ r : Nat, (Serving.named evts (destinations evts)).extra r = [] := by
        intro r
        show (if (r : Int) ∈ destinations evts then [] else share r (evts, 0)) = []
        split
        · rfl
        · rename_i other
          rw [share, List.map_eq_nil_iff, List.filter_eq_nil_iff]
          intro e he h
          have h := (of_decide_eq_true h).2
          split at h
          · rename_i none_
            exact zero (mem_destinations.mpr ⟨e, he, none_⟩)
          · exact other (mem_destinations.mpr ⟨e, he, h⟩)
      refine ⟨served.mem, served.nodup, served.ranks, served.answered, served.takers, ?_⟩
      intro unmixed r
      rw [nothing r]
      exact served.sent unmixed r
    obtain ⟨t, handled', h, same, served', builds', proper'⟩ := serve_spec servable zero room' opened
      destinations_nodup fun key hkey => hkey
    refine ⟨t, handled', ?_, same.trans size, ?_, fitting, builds'.trans all.symm, ?_⟩
    · rw [if_neg valid]
      exact h
    · rw [count, same]
      exact served'
    · rw [same]
      exact proper'

/-- A rank is ready. -/
lemma ready (inv : BdServer.Inv nBdNodes n as s handled)
    (ok : BdServer.Allowed n as s (.ready rank)) :
    ∃ t handled', s.step (.ready rank) = .ok t ∧
      BdServer.Inv nBdNodes n (as ++ [.ready rank]) t handled' := by
  have room' := inv.handled_room
  obtain ⟨size, served, room, builds, proper⟩ := inv
  obtain ⟨asks, known, absent⟩ := ok
  have all : (as ++ [ServeOp.ready rank]).flatMap ServeOp.builds = as.flatMap ServeOp.builds := by
    rw [List.flatMap_append]
    exact List.append_nil _
  have count : (as ++ [ServeOp.ready rank]).countP ServeOp.isReady =
      as.countP ServeOp.isReady + 1 := by
    rw [List.countP_append]
    rfl
  have fitting : fits (maxBatchSize + stepCount (as ++ [.ready rank])) := by
    rwa [stepCount, all]
  cases hs : s.serving with
  | idle =>
    rw [hs] at asks
    cases asks
  | left =>
    rw [hs] at asks
    cases asks
  | any evts =>
    rw [hs] at served builds proper
    obtain ⟨none_, zero, servable⟩ := proper
    obtain ⟨node, h, more, served'⟩ := Served.any (s := { s with serving := .idle })
      served known servable zero room' (List.Sublist.refl _)
    refine ⟨{ s with node, serving := .idle }, handled ++ [(evts, rank)], ?_, size, ?_, fitting, ?_,
      trivial⟩
    · rw [step, hs]
      exact h
    · have answered := served.answered
      rw [count, ← answered, Nat.add_right_comm]
      exact served'
    · rw [all, ← builds, List.map_append]
      exact List.append_nil _
  | named evts keys =>
    rw [hs] at served builds proper
    obtain ⟨some_, nodup, hkeys, zero, waits, servable⟩ := proper
    -- The rank is served if a batch is for it, and waits otherwise.
    by_cases there : (rank : Int) ∈ keys
    · obtain ⟨node, h, more, served'⟩ := Served.named served known servable zero room' nodup hkeys
        there (List.Sublist.refl _)
      have answered := served.answered
      rw [Nat.add_right_comm, answered, ← count] at served'
      obtain ⟨t, handled', h', same, served', builds', proper'⟩ := serve_spec servable zero room'
        served' (nodup.erase _) fun key hkey => hkeys key (List.mem_of_mem_erase hkey)
      refine ⟨t, handled', ?_, same.trans size, ?_, fitting, ?_, ?_⟩
      · rw [step, hs]
        show s.serveRank evts keys rank = _
        rw [serveRank, if_pos there, h]
        exact h'
      · rw [same]
        exact served'
      · rw [builds', all, ← builds]
        rfl
      · rw [same]
        exact proper'
    · have queued : Served s.nBdNodes n ((as ++ [ServeOp.ready rank]).countP ServeOp.isReady) handled
          (Serving.named evts keys).extra s.node (s.waitingBds ++ [rank]) := by
        refine ⟨served.mem, ?_, ?_, ?_, served.takers, served.sent⟩
        · refine List.nodup_append.mpr ⟨served.nodup, List.nodup_singleton _, ?_⟩
          intro r hr r' hr' e
          rw [List.mem_singleton.mp hr'] at e
          exact absent (e ▸ hr)
        · intro r hr
          cases List.mem_append.mp hr with
          | inl hr => exact served.ranks r hr
          | inr hr => exact List.mem_singleton.mp hr ▸ known
        · rw [count, ← served.answered, List.length_append]
          rfl
      obtain ⟨t, handled', h', same, served', builds', proper'⟩ := serve_spec servable zero room'
        queued nodup hkeys
      refine ⟨t, handled', ?_, same.trans size, ?_, fitting, ?_, ?_⟩
      · rw [step, hs]
        show s.serveRank evts keys rank = _
        rw [serveRank, if_neg there]
        exact h'
      · rw [same]
        exact served'
      · rw [builds', all, ← builds]
        rfl
      · rw [same]
        exact proper'

end BdServer.Inv

/-- The invariant over whole runs, and that the loop goes on. -/
lemma BdServer.inv_step (inv : BdServer.Inv nBdNodes n as s handled) {op : ServeOp}
    (ok : BdServer.Allowed n as s op) :
    ∃ t handled', s.step op = .ok t ∧ BdServer.Inv nBdNodes n (as ++ [op]) t handled' := by
  cases op with
  | chunk =>
    obtain ⟨t, h, inv⟩ := inv.chunk ok
    exact ⟨t, handled, h, inv⟩
  | build evts => exact inv.build ok
  | ready rank => exact inv.ready ok

lemma BdServer.inv_of_run (run : Run BdServer.step (BdServer.Allowed n) (.new nBdNodes n) as s) :
    ∃ handled, BdServer.Inv nBdNodes n as s handled := by
  apply run.invariant (P := fun as s => ∃ handled, BdServer.Inv nBdNodes n as s handled)
  · exact ⟨[], .new nBdNodes n⟩
  · intro as s op t ⟨handled, inv⟩ ok h
    obtain ⟨t', handled', h', inv'⟩ := BdServer.inv_step inv ok
    rw [h] at h'
    cases h'
    exact ⟨handled', inv'⟩

/-- Without a batch for them, the waiting ranks go on waiting. -/
lemma sendWaiting_none {copied : List Nat} (apart : ∀ r ∈ copied, (r : Int) ∉ keys) :
    BdServer.sendWaiting evts copied keys s = .ok (keys, s) := by
  induction copied with
  | nil => rfl
  | cons destRank copied ih =>
    rw [BdServer.sendWaiting, if_neg (apart destRank List.mem_cons_self)]
    exact ih fun r hr => apart r (List.mem_cons_of_mem _ hr)

/-- A rank that the loop asks for is one that does not wait, and its request is answered. -/
lemma BdServer.Inv.wanted (inv : BdServer.Inv nBdNodes n as s handled) (asks : s.serving.asks)
    (some_ : 0 < nBdNodes) :
    ∃ rank t, BdServer.Allowed n as s (.ready rank) ∧ s.step (.ready rank) = .ok t ∧
      t.node.messages.length = s.node.messages.length + 1 := by
  have room := inv.handled_room
  obtain ⟨size, served, -, -, proper⟩ := inv
  subst size
  cases hs : s.serving with
  | idle =>
    rw [hs] at asks
    cases asks
  | left =>
    rw [hs] at asks
    cases asks
  | any evts =>
    rw [hs] at served proper
    obtain ⟨none_, zero, servable⟩ := proper
    obtain ⟨node, h, more, -⟩ := Served.any (s := { s with serving := .idle }) served
      ⟨Nat.zero_lt_one, some_⟩ servable zero room (List.Sublist.refl _)
    refine ⟨1, { s with node, serving := .idle }, ⟨asks, ⟨Nat.zero_lt_one, some_⟩, ?_⟩, ?_, more⟩
    · rw [none_]
      exact List.not_mem_nil
    · rw [step, hs]
      exact h
  | named evts keys =>
    rw [hs] at served proper
    obtain ⟨more, nodup, hkeys, zero, waits, servable⟩ := proper
    obtain ⟨key, hkey⟩ := List.exists_mem_of_ne_nil _ more
    obtain ⟨e, he, rfl⟩ := mem_destinations.mp (hkeys key hkey)
    have named : e.destination ≠ 0 := fun h => zero (mem_destinations.mpr ⟨e, he, h⟩)
    have address := (servable.2 e he).2.2
    split at address
    · exact absurd address named
    · obtain ⟨rank, hrank⟩ := Int.eq_ofNat_of_zero_le address.1
      rw [hrank] at hkey address named
      have known : 0 < rank ∧ rank ≤ s.nBdNodes := by omega
      obtain ⟨node, h, sent, served'⟩ := Served.named served known servable zero room nodup hkeys
        hkey (List.Sublist.refl _)
      have idle := @sendWaiting_none evts (keys.erase rank) { s with node } s.waitingBds fun r hr h =>
        waits r hr (List.mem_of_mem_erase h)
      refine ⟨rank, { s with
        node, serving := if keys.erase (rank : Int) = [] then .idle else .named evts (keys.erase rank) },
        ⟨asks, known, fun h => waits rank h hkey⟩, ?_, sent⟩
      rw [step, hs]
      show s.serveRank evts keys rank = _
      rw [serveRank, if_pos hkey, h]
      show BdServer.serve { s with node } evts (keys.erase rank) = _
      rw [serve, idle]
      rfl

/-- The timestamp of an event, of its first dgram. -/
def timestampOf (event : List Bytes) : Nat :=
  (event.find? fun d => d ≠ []).elim 0 headerTimestamp

/-- The L1Accepts of the builds, in their order. -/
def builtL1 (as : List ServeOp) : List (List Bytes) :=
  ((as.flatMap ServeOp.builds).flatten.filter fun e => ¬ isStep e).map SmdEvent.streams

lemma share_sublist (r : Nat) (b : List SmdEvent × Nat) :
    (share r b).Sublist ((b.1.filter fun e => ¬ isStep e).map SmdEvent.streams) := by
  apply List.Sublist.map
  apply List.monotone_filter_right
  intro e h
  simp only [decide_eq_true_eq] at h ⊢
  exact h.1

/-- What a rank is sent is a part of what is built, in its order. -/
lemma sent_sublist (builds : handled.map (·.1) ++ s.serving.inHand = as.flatMap ServeOp.builds)
    (r : Nat) : (handled.flatMap (share r) ++ s.serving.extra r).Sublist (builtL1 as) := by
  have each : (handled.flatMap (share r)).Sublist
      (((handled.map (·.1)).flatten.filter fun e => ¬ isStep e).map SmdEvent.streams) := by
    clear builds
    induction handled with
    | nil => exact .refl _
    | cons b handled ih =>
      rw [List.flatMap_cons, List.map_cons, List.flatten_cons, List.filter_append, List.map_append]
      exact (share_sublist r b).append ih
  have extra : (s.serving.extra r).Sublist
      ((s.serving.inHand.flatten.filter fun e => ¬ isStep e).map SmdEvent.streams) := by
    cases s.serving with
    | named evts keys =>
      show (if (r : Int) ∈ keys then [] else share r (evts, 0)).Sublist _
      split
      · exact List.nil_sublist _
      · rw [Serving.inHand, List.flatten_singleton]
        exact share_sublist r (evts, 0)
    | idle => exact List.nil_sublist _
    | any evts => exact List.nil_sublist _
    | left => exact List.nil_sublist _
  rw [builtL1, ← builds, List.flatten_append, List.filter_append, List.map_append]
  exact each.append extra

/-- In every run the loop goes on: it takes whatever it waits for, it never leaves a chunk, every
    request is answered or waits, and while it waits for a rank there is one whose request it answers.
    If no build mixes the destination 0 with others, every L1Accept of the builds that are handled is
    sent once, to the rank of its destination or, for destination 0, to the one rank that took those of
    the build; of the build in hand, the batches that are sent are. What a rank is sent is in the order
    of the timestamps. -/
theorem l1_served_once (nBdNodes n : Nat) (as : List ServeOp) (s : BdServer)
    (run : Run BdServer.step (BdServer.Allowed n) (.new nBdNodes n) as s) :
    (∀ op, BdServer.Allowed n as s op → ∃ t, s.step op = .ok t) ∧
    (s.serving.isIdle ∨ s.serving.asks) ∧
    as.countP ServeOp.isReady = s.node.messages.length + s.waitingBds.length ∧
    s.waitingBds.length ≤ nBdNodes ∧
    (s.serving.asks → 0 < nBdNodes → ∃ rank t, BdServer.Allowed n as s (.ready rank) ∧
      s.step (.ready rank) = .ok t ∧ t.node.messages.length = s.node.messages.length + 1) ∧
    ((∀ evts ∈ as.flatMap ServeOp.builds, Unmixed evts) →
      ∃ handled : List (List SmdEvent × Nat),
        handled.map (·.1) ++ s.serving.inHand = as.flatMap ServeOp.builds ∧
        (∀ b ∈ handled, (∃ e ∈ b.1, e.destination = 0) → 0 < b.2 ∧ b.2 ≤ nBdNodes) ∧
        ∀ r, s.node.sentL1 r = .ok (handled.flatMap (share r) ++ s.serving.extra r) ∧
          (((builtL1 as).map timestampOf).Pairwise (· < ·) →
            ((handled.flatMap (share r) ++ s.serving.extra r).map timestampOf).Pairwise (· < ·))) := by
  obtain ⟨handled, inv⟩ := BdServer.inv_of_run run
  have served := inv.served
  refine ⟨?_, ?_, served.answered.symm, ?_, inv.wanted, ?_⟩
  · intro op ok
    obtain ⟨t, -, h, -⟩ := BdServer.inv_step inv ok
    exact ⟨t, h⟩
  · have proper := inv.proper
    cases hs : s.serving with
    | idle => exact .inl rfl
    | any evts => exact .inr rfl
    | named evts keys => exact .inr rfl
    | left =>
      rw [hs] at proper
      cases proper
  · have sub : s.waitingBds.map (· - 1) ⊆ List.range nBdNodes := by
      intro r hr
      obtain ⟨r, hr', rfl⟩ := List.mem_map.mp hr
      have known := served.ranks r hr'
      rw [inv.size] at known
      exact List.mem_range.mpr (by omega)
    have apart : (s.waitingBds.map (· - 1)).Nodup := by
      apply List.Nodup.map_on _ served.nodup
      intro r hr r' hr' e
      have h := served.ranks r hr
      have h' := served.ranks r' hr'
      omega
    have few := (List.subperm_of_subset apart sub).length_le
    rwa [List.length_map, List.length_range] at few
  · intro unmixed
    refine ⟨handled, inv.builds, ?_, ?_⟩
    · rw [← inv.size]
      exact served.takers
    · intro r
      constructor
      · apply served.sent
        intro b hb
        apply unmixed
        rw [← inv.builds]
        exact List.mem_append_left _ (List.mem_map_of_mem hb)
      · exact fun sorted => sorted.sublist ((sent_sublist inv.builds r).map _)

/-- Two L1Accepts for two ranks. -/
def namedBuild : List SmdEvent :=
  [⟨[some (serviceDgram 1 12)], 2, l1Accept⟩, ⟨[some (serviceDgram 2 12)], 1, l1Accept⟩]

/-- A transition, which any rank takes, and an L1Accept for rank 2. -/
def mixedBuild : List SmdEvent :=
  [⟨[some (serviceDgram 1 2)], 0, 2⟩, ⟨[some (serviceDgram 2 12)], 2, l1Accept⟩]

/-- The build for two ranks is served while rank 2 is ready first. -/
theorem l1_served_once_named :
    ∃ s, Run BdServer.step (BdServer.Allowed 1) (.new 2 1) [.build namedBuild, .ready 2] s ∧
      ∃ handled : List (List SmdEvent × Nat), handled.map (·.1) ++ s.serving.inHand = [namedBuild] ∧
        ∀ r, s.node.sentL1 r = .ok (handled.flatMap (share r) ++ s.serving.extra r) := by
  obtain ⟨s, run, -⟩ := Run.of_replay_any BdServer.step (BdServer.Allowed 1) (.new 2 1)
    [.build namedBuild, .ready 2] (fun _ => true) (by decide +kernel)
  obtain ⟨-, -, -, -, -, once⟩ := l1_served_once 2 1 _ s run
  obtain ⟨handled, builds, -, sent⟩ := once (by decide)
  exact ⟨s, run, handled, builds, fun r => (sent r).1⟩

/-- The mixed build is over once rank 1 has taken its transition: the L1Accept for rank 2 is sent to
    no rank. -/
theorem mixedBuild_loses :
    ∃ s, Run BdServer.step (BdServer.Allowed 1) (.new 2 1) [.build mixedBuild, .ready 1] s ∧
      s.serving.isIdle ∧ builtL1 [.build mixedBuild] = [[(serviceDgram 2 12).bytes]] ∧
      ∀ r, s.node.sentL1 r = .ok [] := by
  obtain ⟨s, run, test⟩ := Run.of_replay_any BdServer.step (BdServer.Allowed 1) (.new 2 1)
    [.build mixedBuild, .ready 1]
    (fun s => s.serving.isIdle && s.node.messages.all (fun m => m.1 = 1) &&
      passes (fun sent => sent = []) (s.node.sentL1 1)) (by decide +kernel)
  obtain ⟨test, one⟩ := Bool.and_eq_true_iff.mp test
  obtain ⟨idle, all⟩ := Bool.and_eq_true_iff.mp test
  refine ⟨s, run, idle, by decide, ?_⟩
  intro r
  by_cases same : r = 1
  · subst same
    obtain ⟨sent, h, none_⟩ := passes_iff.mp one
    rw [h, of_decide_eq_true none_]
  · have none_ : s.node.messages.filter (fun m => m.1 = r) = [] := by
      apply List.filter_eq_nil_iff.mpr
      intro m hm
      have first := of_decide_eq_true (List.all_eq_true.mp all m hm)
      rw [first]
      simpa using fun e => same e.symm
    rw [EventBuilderNode.sentL1, EventBuilderNode.events, none_]
    rfl

end Lcls2.Psana
