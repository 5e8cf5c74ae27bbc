import Lcls2.Shmem.EventBuffers

/-!
# What keeps the event buffers together

A thread that has an index at hand always finds room for it in the input, the request and the shuffle queue, so that
only four things lose or double an index: in serial mode a client that returns it to the full queue of the next client
and an event for which all output queues are full, and in either mode a retirement that sends an index to the input
queue that is not the client's and one after which the client is left with an index.
-/

namespace Lcls2.Shmem
open Lib

/-- Nothing is at hand, and no destination is about to be cleared. -/
def EventsAt.quiet : EventsAt → Bool
  | .idle | .stealing _ | .moving _ => true
  | _ => false

/-- An index is at hand. -/
def EventsAt.holds : EventsAt → Bool
  | .clearing | .shuffling | .moved _ => true
  | _ => false

/-- Nothing is at hand, and no client is retired. -/
def RoutineAt.plain : RoutineAt → Bool
  | .polling | .accepting => true
  | _ => false

/-- What a step of the thread that calls `events` does where every index is in one place. -/
inductive EventsMove (s : EventServer) : EventServer → Prop
  | look {n at_} :
    s.events.quiet = true →
    at_.quiet = true →
    EventsMove s { s with nsteals := n, events := at_ }
  | receive {p j n at_} :
    s.events.quiet = true →
    at_.holds = true →
    p ≠ .routine →
    j ∈ s.stock p →
    EventsMove s { s with stock := s.stock.pass p .events j, nsteals := n, events := at_ }
  | clear {j} :
    s.events = .clearing →
    j ∈ s.stock .events →
    EventsMove s { s with msgDest := Function.update s.msgDest j none, events := .shuffling }
  | shuffle {j} :
    s.events = .shuffling →
    j ∈ s.stock .events →
    EventsMove s { s with stock := s.stock.pass .events .shuffle j, events := .idle }
  | move {q j} :
    s.events = .moved q →
    j ∈ s.stock .events →
    EventsMove s { s with stock := s.stock.pass .events .input j, events := .unassigning q j }
  | unassign {q j} :
    s.events = .unassigning q j →
    EventsMove s { s with msgDest := Function.update s.msgDest j none, events := .moving q }

/-- What a step of `routine` does where every index is in one place and it is careful. -/
inductive RoutineMove (prms : ServerParams) (s : EventServer) : EventServer → Prop
  | wait {at_} :
    s.routine.plain = true →
    at_.plain = true →
    RoutineMove prms s { s with routine := at_ }
  | accept {j} :
    s.routine = .accepting →
    j ∈ s.stock .input →
    RoutineMove prms s { s with stock := s.stock.pass .input .routine j, routine := .requesting }
  | request {j} :
    s.routine = .requesting →
    j ∈ s.stock .routine →
    RoutineMove prms s { s with stock := s.stock.pass .routine .request j, routine := .accepting }
  | retry {i n} :
    s.routine = .dispatching i →
    RoutineMove prms s { s with ievt := n, routine := .dispatching (i + 1) }
  | dispatch {i j q n} :
    s.routine = .dispatching i →
    j ∈ s.stock .routine →
    RoutineMove prms s { s with stock := s.stock.pass .routine (.output q) j, ievt := n, routine := .sent j q }
  | giveUp {i j} :
    s.routine = .dispatching i →
    j ∈ s.stock .routine →
    RoutineMove prms s { s with stock := s.stock.pass .routine .input j, routine := .polling }
  | assign {j q} :
    s.routine = .sent j q →
    RoutineMove prms s { s with msgDest := Function.update s.msgDest j (some q), routine := .polling }
  | drain {q input j} :
    s.routine = .draining q input →
    j ∈ s.stock (cleared input) →
    RoutineMove prms s { s with stock := s.stock.pass (cleared input) .routine j, routine := .draining q input }
  | drained {q input} :
    s.routine = .draining q input →
    s.stock (cleared input) = [] →
    RoutineMove prms s { s with routine := .restoring q input }
  | clear {q input j rest} :
    s.routine = .restoring q input →
    s.stock .routine = j :: rest →
    RoutineMove prms s { s with msgDest := Function.update s.msgDest j none, routine := .resending q input }
  | resend {q input j rest} :
    s.routine = .resending q input →
    s.stock .routine = j :: rest →
    RoutineMove prms s { s with stock := s.stock.pass .routine (cleared input) j, routine := .restoring q input }
  | restored {q input} :
    s.routine = .restoring q input →
    s.stock .routine = [] →
    RoutineMove prms s { s with routine := if input then .draining q false else .reclaiming q }
  | reclaim {q j} :
    s.routine = .reclaiming q →
    j ∈ s.stock (.output q) →
    RoutineMove prms s { s with stock := s.stock.pass (.output q) .routine j, routine := .reclaimed q }
  | reclaimed {q j} :
    s.routine = .reclaimed q →
    j ∈ s.stock .routine →
    RoutineMove prms s { s with stock := s.stock.pass .routine .input j, routine := .unassigning q j }
  | unassign {q j} :
    s.routine = .unassigning q j →
    RoutineMove prms s { s with msgDest := Function.update s.msgDest j none, routine := .reclaiming q }
  | emptied {q} :
    s.routine = .reclaiming q →
    s.stock (.output q) = [] →
    RoutineMove prms s { s with routine := .recovering q 0 }
  | find {q j} :
    s.routine = .recovering q j →
    j < prms.numberOfEvBuffers →
    s.msgDest j = some q →
    RoutineMove prms s { s with routine := .returning q j }
  | skip {q j} :
    s.routine = .recovering q j →
    s.msgDest j ≠ some q →
    RoutineMove prms s { s with routine := .recovering q (j + 1) }
  | recover {q j} :
    s.routine = .returning q j →
    j ∈ s.stock (.client q) →
    RoutineMove prms s { s with stock := s.stock.pass (.client q) .input j, routine := .recovered q j }
  | leave {q j} :
    s.routine = .returning q j →
    s.hasRoom prms .input = false →
    RoutineMove prms s { s with routine := .recovering q (j + 1) }
  | recovered {q j} :
    s.routine = .recovered q j →
    RoutineMove prms s { s with msgDest := Function.update s.msgDest j none, routine := .recovering q (j + 1) }
  | retired {q j} :
    s.routine = .recovering q j →
    prms.numberOfEvBuffers ≤ j →
    s.stock (.client q) = [] →
    RoutineMove prms s { s with slots := Function.update s.slots q .free, routine := .polling }

section moves
variable {prms : ServerParams} {s t : EventServer} {a : ServerAction} {p q : Place} {j : Nat}

/-- What a step of `routine` needs to keep every index in one place: an output queue is left for the event, an index
    that is sent to the input queue is the client's, and the client is left with none. -/
structure EventServer.RoutineCareful (prms : ServerParams) (s : EventServer) : Prop where
  queueLeft : ∀ i, s.routine = .dispatching i → prms.serial = true → i < prms.numberOfEvQueues
  clients : ∀ q j, s.routine = .returning q j → s.hasRoom prms .input = true → j ∈ s.stock (.client q)
  noneLeft : ∀ q j, s.routine = .recovering q j → prms.numberOfEvBuffers ≤ j → s.stock (.client q) = []

/-- What a step needs to keep every index in one place. -/
def EventServer.Careful (prms : ServerParams) (s : EventServer) : ServerAction → Prop
  | .free q _ => s.hasRoom prms (prms.returnQueue q) = true
  | .routine => s.RoutineCareful prms
  | _ => True

/-- An index that is elsewhere finds room in a queue for all of them. -/
lemma hasRoom_of (kept : s.Conserved prms) (here : j ∈ s.stock p) (other : p ≠ q)
    (all : prms.maxmsg q = some prms.numberOfEvBuffers) : s.hasRoom prms q = true := by
  rw [EventServer.hasRoom, all]
  have room := kept.room other here
  rw [Finset.card_range] at room
  exact decide_eq_true room

/-- It is sent there. -/
lemma send_of (kept : s.Conserved prms) (here : j ∈ s.stock p) (other : p ≠ q)
    (all : prms.maxmsg q = some prms.numberOfEvBuffers) :
    s.send prms p q j = { s with stock := s.stock.pass p q j } := by
  rw [EventServer.send, if_pos (hasRoom_of kept here other all)]

/-- The first index of a place is there. -/
lemma mem_of_head {rest : List Nat} (head : s.stock p = j :: rest) : j ∈ s.stock p := by
  rw [head]
  exact List.mem_cons_self

/-- The steps of the thread that calls `events`. -/
lemma eventsStep_move (kept : s.Conserved prms) (h : s.eventsStep prms = .ok t) : EventsMove s t := by
  cases at_ : s.events with
  | idle =>
    rw [EventServer.eventsStep, at_] at h
    cases h
  | stealing i =>
    have quiet : s.events.quiet = true := by rw [at_, EventsAt.quiet]
    rw [EventServer.eventsStep, at_] at h
    dsimp only at h
    split at h
    · split at h
      · cases h
        exact .look quiet rfl
      · rename_i head
        cases h
        exact .receive quiet rfl nofun (mem_of_head head)
    · cases h
      exact .look quiet rfl
  | clearing =>
    rw [EventServer.eventsStep, at_] at h
    dsimp only at h
    split at h
    · cases h
    · rename_i head
      cases h
      exact .clear at_ (mem_of_head head)
  | shuffling =>
    rw [EventServer.eventsStep, at_] at h
    dsimp only at h
    split at h
    · cases h
    · rename_i head
      have mem := mem_of_head head
      cases h
      rw [send_of (q := .shuffle) kept mem nofun rfl]
      exact .shuffle at_ mem
  | moving q =>
    have quiet : s.events.quiet = true := by rw [at_, EventsAt.quiet]
    rw [EventServer.eventsStep, at_] at h
    dsimp only at h
    split at h
    · split at h
      · cases h
        exact .look quiet rfl
      · rename_i head
        cases h
        exact .receive quiet rfl nofun (mem_of_head head)
    · cases h
      exact .look quiet rfl
  | moved q =>
    rw [EventServer.eventsStep, at_] at h
    dsimp only at h
    split at h
    · cases h
    · rename_i head
      have mem := mem_of_head head
      cases h
      rw [send_of (q := .input) kept mem nofun rfl, hasRoom_of (q := .input) kept mem nofun rfl]
      exact .move at_ mem
  | unassigning q j =>
    rw [EventServer.eventsStep, at_] at h
    cases h
    exact .unassign at_

/-- They keep every index in one place. -/
lemma EventsMove.conserved (kept : s.Conserved prms) (move : EventsMove s t) : t.Conserved prms := by
  cases move with
  | receive _ _ _ mem => exact kept.pass mem
  | shuffle _ mem => exact kept.pass mem
  | move _ mem => exact kept.pass mem
  | _ => exact kept

/-- The queues that `_clearDest` is called with have room for all indices. -/
lemma maxmsg_cleared (input : Bool) : prms.maxmsg (cleared input) = some prms.numberOfEvBuffers := by
  cases input with
  | true => rfl
  | false => rfl

/-- The steps of `routine`. -/
lemma routineStep_move (kept : s.Conserved prms) (careful : s.Careful prms .routine) (h : s.routineStep prms = .ok t) :
    RoutineMove prms s t := by
  have back : Place.routine ≠ .input := by
    intro same
    cases same
  cases at_ : s.routine with
  | polling =>
    rw [EventServer.routineStep, at_] at h
    cases h
  | accepting =>
    rw [EventServer.routineStep, at_] at h
    dsimp only at h
    split at h
    · cases h
      refine .wait ?_ rfl
      rw [at_, RoutineAt.plain]
    · rename_i head
      cases h
      exact .accept at_ (mem_of_head head)
  | requesting =>
    rw [EventServer.routineStep, at_] at h
    dsimp only at h
    split at h
    · cases h
    · rename_i head
      have mem := mem_of_head head
      cases h
      rw [send_of (q := .request) kept mem (by intro same; cases same) rfl]
      exact .request at_ mem
  | dispatching i =>
    rw [EventServer.routineStep, at_] at h
    dsimp only at h
    split at h
    · cases h
    · rename_i head
      have mem := mem_of_head head
      split at h
      · rename_i serial
        rw [if_pos (careful.queueLeft i at_ serial)] at h
        split at h
        · cases h
          exact .dispatch (n := s.ievt) at_ mem
        · cases h
          exact .retry (n := s.ievt) at_
      · split at h
        · split at h
          · cases h
            exact .dispatch at_ mem
          · cases h
            exact .retry at_
        · cases h
          rw [send_of kept mem back rfl]
          exact .giveUp at_ mem
  | sent j q =>
    rw [EventServer.routineStep, at_] at h
    cases h
    exact .assign at_
  | draining q input =>
    rw [EventServer.routineStep, at_] at h
    dsimp only at h
    split at h
    · rename_i none_
      cases h
      exact .drained at_ none_
    · rename_i head
      cases h
      exact .drain at_ (mem_of_head head)
  | restoring q input =>
    rw [EventServer.routineStep, at_] at h
    dsimp only at h
    split at h
    · rename_i none_
      cases h
      exact .restored at_ none_
    · rename_i head
      cases h
      exact .clear at_ head
  | resending q input =>
    rw [EventServer.routineStep, at_] at h
    dsimp only at h
    split at h
    · cases h
    · rename_i head
      have other : Place.routine ≠ cleared input := by
        cases input with
        | true =>
          intro same
          cases same
        | false =>
          intro same
          cases same
      cases h
      rw [send_of kept (mem_of_head head) other (maxmsg_cleared input)]
      exact .resend at_ head
  | reclaiming q =>
    rw [EventServer.routineStep, at_] at h
    dsimp only at h
    split at h
    · rename_i none_
      cases h
      exact .emptied at_ none_
    · rename_i head
      cases h
      exact .reclaim at_ (mem_of_head head)
  | reclaimed q =>
    rw [EventServer.routineStep, at_] at h
    dsimp only at h
    split at h
    · cases h
    · rename_i head
      have mem := mem_of_head head
      cases h
      rw [send_of kept mem back rfl, hasRoom_of kept mem back rfl]
      exact .reclaimed at_ mem
  | unassigning q j =>
    rw [EventServer.routineStep, at_] at h
    cases h
    exact .unassign at_
  | recovering q j =>
    rw [EventServer.routineStep, at_] at h
    dsimp only at h
    split at h
    · rename_i item
      cases h
      split
      · rename_i dest
        exact .find at_ item dest
      · rename_i other
        exact .skip at_ other
    · rename_i last
      have none_ := careful.noneLeft q j at_ (Nat.le_of_not_lt last)
      cases h
      rw [← none_, Function.update_eq_self]
      exact .retired at_ (Nat.le_of_not_lt last) none_
  | returning q j =>
    rw [EventServer.routineStep, at_] at h
    dsimp only at h
    split at h
    · rename_i room
      cases h
      exact .recover at_ (careful.clients q j at_ room)
    · rename_i full
      cases h
      exact .leave at_ (Bool.eq_false_iff.mpr full)
  | recovered q j =>
    rw [EventServer.routineStep, at_] at h
    cases h
    exact .recovered at_

/-- They keep every index in one place. -/
lemma RoutineMove.conserved (kept : s.Conserved prms) (move : RoutineMove prms s t) : t.Conserved prms := by
  cases move with
  | accept _ mem => exact kept.pass mem
  | request _ mem => exact kept.pass mem
  | dispatch _ mem => exact kept.pass mem
  | giveUp _ mem => exact kept.pass mem
  | drain _ mem => exact kept.pass mem
  | resend _ head => exact kept.pass (mem_of_head head)
  | reclaim _ mem => exact kept.pass mem
  | reclaimed _ mem => exact kept.pass mem
  | recover _ mem => exact kept.pass mem
  | _ => exact kept

/-- An index that is sent back stays in one place where it is the client's. -/
lemma recover_conserved {slot : Nat} (kept : s.Conserved prms)
    (after : (s.stock.pass (.client slot) .input j).Spread (Finset.range prms.numberOfEvBuffers)) :
    j ∈ s.stock (.client slot) := by
  -- Otherwise the index would be in the input queue besides where it was.
  by_contra absent
  have none_ : s.stock.take (.client slot) j = s.stock := by
    rw [Stock.take, List.erase_of_not_mem absent, Function.update_eq_self]
  rw [Stock.pass, none_] at after
  have item := after.item (p := .input) (Stock.mem_put.mpr (.inl ⟨rfl, rfl⟩))
  exact kept.not_put item after

/-- A place is emptied without a loss where it was empty. -/
lemma empty_conserved (kept : s.Conserved prms)
    (after : Stock.Spread (Finset.range prms.numberOfEvBuffers) (Function.update s.stock p [])) : s.stock p = [] := by
  by_contra some_
  obtain ⟨j, here⟩ := List.exists_mem_of_ne_nil _ some_
  -- What was there has to be somewhere after it, but only this place has changed.
  obtain ⟨r, there⟩ := after.somewhere (kept.item here)
  rw [Function.update_apply] at there
  split at there
  · cases there
  · rename_i other
    exact other (kept.onePlace there here)

/-- `routine` keeps every index in one place only where it is careful. -/
lemma routineStep_careful (kept : s.Conserved prms) (h : s.routineStep prms = .ok t) (after : t.Conserved prms) :
    s.RoutineCareful prms := by
  constructor
  · intro i at_ serial
    by_contra last
    rw [EventServer.routineStep, at_] at h
    dsimp only at h
    split at h
    · cases h
    · rename_i head
      rw [if_pos serial, if_neg last] at h
      cases h
      exact kept.not_take (mem_of_head head) after
  · intro q j at_ room
    rw [EventServer.routineStep, at_] at h
    dsimp only at h
    rw [if_pos room] at h
    cases h
    exact recover_conserved kept after
  · intro q j at_ last
    rw [EventServer.routineStep, at_] at h
    dsimp only at h
    rw [if_neg (Nat.not_lt.mpr last)] at h
    cases h
    exact empty_conserved kept after

/-- A buffer is returned, and is in one place where the queue has room for it. -/
lemma free_conserved {slot : Nat} (kept : s.Conserved prms) (here : j ∈ s.stock (.client slot)) :
    (s.send prms (.client slot) (prms.returnQueue slot) j).Conserved prms ↔
      s.hasRoom prms (prms.returnQueue slot) = true := by
  rw [EventServer.send]
  split
  · rename_i room
    exact iff_of_true (kept.pass here) room
  · rename_i full
    exact iff_of_false (kept.not_take here) full

/-- A step keeps every index in one place exactly where it is careful. -/
lemma step_conserved (kept : s.Conserved prms) (h : s.step prms a = .ok t) : t.Conserved prms ↔ s.Careful prms a := by
  cases a with
  | send =>
    refine iff_of_true ?_ trivial
    rw [EventServer.step] at h
    split at h
    · cases h
      rw [EventServer.sendEvent]
      split
      · exact kept
      · rename_i head
        exact kept.pass (mem_of_head head)
    · cases h
  | enable =>
    refine iff_of_true ?_ trivial
    rw [EventServer.step] at h
    split at h
    · cases h
      exact kept
    · cases h
  | events => exact iff_of_true ((eventsStep_move kept h).conserved kept) trivial
  | initializeClient =>
    refine iff_of_true ?_ trivial
    rw [EventServer.step] at h
    split at h
    · cases h
      rw [EventServer.initializeClient]
      split
      · exact kept
      · exact kept
    · cases h
  | accept =>
    refine iff_of_true ?_ trivial
    rw [EventServer.step] at h
    split at h
    · cases h
      exact kept
    · cases h
  | dispatch =>
    refine iff_of_true ?_ trivial
    rw [EventServer.step] at h
    split at h
    · split at h
      · cases h
      · rename_i head
        cases h
        exact kept.pass (mem_of_head head)
    · cases h
  | retire q =>
    refine iff_of_true ?_ trivial
    rw [EventServer.step] at h
    split at h
    · cases h
      exact kept
    · cases h
  | routine =>
    refine ⟨routineStep_careful kept h, fun careful => ?_⟩
    exact (routineStep_move kept careful h).conserved kept
  | get q =>
    refine iff_of_true ?_ trivial
    rw [EventServer.step] at h
    split at h
    · split at h
      · cases h
      · rename_i head
        cases h
        exact kept.pass (mem_of_head head)
    · cases h
  | free q j =>
    rw [EventServer.step] at h
    split at h
    · rename_i both
      cases h
      exact free_conserved kept both.2
    · cases h
  | close q =>
    refine iff_of_true ?_ trivial
    rw [EventServer.step] at h
    split at h
    · cases h
      exact kept
    · cases h

/-- A server starts with every index in its input queue. -/
lemma init_conserved : (EventServer.init prms).Conserved prms := by
  have only : ∀ {j p}, j ∈ (EventServer.init prms).stock p → p = .input ∧ j ∈ List.range prms.numberOfEvBuffers := by
    intro j p mem
    rw [EventServer.init] at mem
    dsimp only at mem
    split at mem
    · rename_i input
      exact ⟨input, mem⟩
    · cases mem
  refine ⟨fun p => ?_, fun first second => (only first).1.trans (only second).1.symm, ?_, ?_⟩
  · rw [EventServer.init]
    dsimp only
    split
    · exact List.nodup_range
    · exact List.nodup_nil
  · intro j p mem
    exact Finset.mem_range.mpr (List.mem_range.mp (only mem).2)
  · intro j mem
    exact ⟨.input, List.mem_range.mpr (Finset.mem_range.mp mem)⟩

end moves

end Lcls2.Shmem
