import Lcls2.Shmem.BufferMoves

/-!
# Where the event buffers are

What holds, in distributed mode, of an index at each place, with its destination and with what `routine` and the other
thread are about to do. A retirement clears the destinations in the input queue, then those in the request queue, and
empties the client's output queue, so that what is left with the client as its destination is the client's, or is with
the thread that calls `events`.
-/

namespace Lcls2.Shmem
open Lib

/-- The client that is retired. -/
@[simp]
def RoutineAt.slot : RoutineAt → Option Nat
  | .draining q _ | .restoring q _ | .resending q _ | .reclaiming q | .reclaimed q | .unassigning q _ | .recovering q _
  | .returning q _ | .recovered q _ => some q
  | _ => none

/-- How far the retirement is: the destinations in the input queue are clear, then those in the request queue, and then
    the client's output queue is empty. -/
@[simp]
def RoutineAt.phase : RoutineAt → Nat
  | .restoring _ true | .resending _ true | .draining _ false => 1
  | .restoring _ false | .resending _ false | .reclaiming _ | .reclaimed _ | .unassigning _ _ => 2
  | .recovering _ _ | .returning _ _ | .recovered _ _ => 3
  | _ => 0

/-- One index is at hand. -/
@[simp]
def RoutineAt.holdsOne : RoutineAt → Bool
  | .requesting | .dispatching _ | .reclaimed _ => true
  | _ => false

/-- The indices of a queue are at hand. -/
@[simp]
def RoutineAt.holdsMany : RoutineAt → Bool
  | .draining _ _ | .restoring _ _ | .resending _ _ => true
  | _ => false

/-- `routine` has sent an index to the input queue and is about to clear its destination. -/
def RoutineAt.SentBack (at_ : RoutineAt) (j : Nat) : Prop := ∃ q, at_ = .unassigning q j ∨ at_ = .recovered q j

/-- The destination of an index is a client, or is about to be, and no other client is thought to have it. -/
structure RoutineAt.Assigned (at_ : RoutineAt) (dest : Option Nat) (q j : Nat) : Prop where
  sent : ∀ r, at_ = .sent j r → r = q
  returning : ∀ r, at_ = .returning r j → r = q
  dest : dest = some q ∨ at_ = .sent j q

/-- A retirement has not come to an index yet. -/
structure RoutineAt.Ahead (at_ : RoutineAt) (q j : Nat) : Prop where
  recovering : ∀ k, at_ = .recovering q k → k ≤ j
  returning : ∀ k, at_ = .returning q k → k ≤ j
  recovered : ∀ k, at_ = .recovered q k → k < j

/-- What holds of an index at a place, with its destination, and with whether the thread that calls `events` has it at
    hand or has sent it to the input queue and is about to clear its destination. -/
def RoutineAt.Fits (at_ : RoutineAt) (dest : Option Nat) (holds returned : Prop) : Place → Nat → Prop
  | .input, j => ∀ q, at_.slot = some q → 1 ≤ at_.phase → dest = some q → returned ∨ at_.SentBack j
  | .request, j => (∀ q, at_.slot = some q → 2 ≤ at_.phase → dest ≠ some q) ∧ ∀ q, at_ ≠ .returning q j
  | .shuffle, _ => ¬ returned
  | .output q, j => ¬ returned ∧ ¬ at_.SentBack j ∧ at_.Assigned dest q j ∧ (at_.slot = some q → at_.phase < 3)
  | .client q, j => ¬ returned ∧ ¬ at_.SentBack j ∧ at_.Assigned dest q j ∧ at_.Ahead q j
  | .events, _ => holds
  | .routine, _ => (at_.holdsOne = true ∨ at_.holdsMany = true) ∧ ∀ i, at_ = .dispatching i → ¬ returned

section places
variable (s : EventServer)

/-- The thread that calls `events` has sent an index to the input queue and is about to clear its destination. -/
def EventServer.Returned (j : Nat) : Prop := ∃ q, s.events = .unassigning q j

/-- What holds of an index at a place. -/
def EventServer.Fits (p : Place) (j : Nat) : Prop :=
  s.routine.Fits (s.msgDest j) (s.events.holds = true) (s.Returned j) p j

/-- What holds in distributed mode while every index is in one place. -/
structure EventServer.Placed (prms : ServerParams) : Prop where
  conserved : s.Conserved prms
  gone : ∀ q, s.routine.slot = some q → s.slots q = .closed
  oneEvent : ∀ i ∈ s.stock .events, ∀ j ∈ s.stock .events, i = j
  oneRoutine : s.routine.holdsOne = true → ∀ i ∈ s.stock .routine, ∀ j ∈ s.stock .routine, i = j
  unassigned : ∀ q input j rest, s.routine = .resending q input → s.stock .routine = j :: rest → s.msgDest j = none
  item : ∀ q j, s.routine = .returning q j → j < prms.numberOfEvBuffers
  fits : ∀ p, ∀ j ∈ s.stock p, s.Fits p j

end places

section moves
variable {prms : ServerParams} {s t : EventServer}

/-- Nothing is returned while an index is at hand. -/
lemma not_returned_of_holds (holds : s.events.holds = true) (j : Nat) : ¬ s.Returned j := by
  intro returned
  obtain ⟨q, at_⟩ := returned
  rw [at_] at holds
  cases holds

/-- Nothing is returned, and nothing is at hand, while the thread that calls `events` is quiet. -/
lemma not_returned_of_quiet (quiet : s.events.quiet = true) (j : Nat) : ¬ s.Returned j := by
  intro returned
  obtain ⟨q, at_⟩ := returned
  rw [at_] at quiet
  cases quiet

/-- Nothing is at hand while the thread that calls `events` is quiet. -/
lemma not_mem_of_quiet (placed : s.Placed prms) (quiet : s.events.quiet = true) (j : Nat) : j ∉ s.stock .events := by
  intro mem
  have holds : s.events.holds = true := placed.fits .events j mem
  cases at_ : s.events with
  | _ =>
    rw [at_] at holds quiet
    first
      | cases holds
        done
      | cases quiet

/-- What holds of an index depends on its destination, on `routine` and on whether its destination is about to be
    cleared. -/
lemma fits_congr {p : Place} {j : Nat} (old : s.Fits p j) (routine : t.routine = s.routine)
    (dest : t.msgDest j = s.msgDest j) (returned : t.Returned j ↔ s.Returned j)
    (events : p = .events → t.events.holds = true) : t.Fits p j := by
  unfold EventServer.Fits at *
  rw [routine, dest, propext returned]
  cases p with
  | events => exact events rfl
  | _ => exact old

/-- The thread that calls `events` sends the index that it has at hand to a queue. -/
lemma EventServer.Placed.sentOn {p : Place} {x : Nat} {at_ : EventsAt} (placed : s.Placed prms)
    (here : x ∈ s.stock .events) (off : p ≠ .events) (other : p ≠ .routine)
    (waits : ∀ j ≠ x, ¬ ∃ q, at_ = .unassigning q j)
    (fits : s.routine.Fits (s.msgDest x) (at_.holds = true) (∃ q, at_ = .unassigning q x) p x) :
    EventServer.Placed { s with stock := s.stock.pass .events p x, events := at_ } prms := by
  have holds : s.events.holds = true := placed.fits .events x here
  have where_ := fun r j => @Stock.Spread.mem_pass _ _ _ _ _ s.stock .events p r x j placed.conserved here
  have kept := @Stock.pass_of_ne _ _ _ _ s.stock .events p .routine x (by intro same; cases same) other.symm
  refine ⟨placed.conserved.pass here, placed.gone, ?_, ?_, ?_, placed.item, ?_⟩
  · intro i first
    cases (where_ .events i).mp first with
    | inl new => exact absurd new.2.symm off
    | inr old => exact absurd (placed.oneEvent i old.2 x here) old.1
  · simp only [kept]
    exact placed.oneRoutine
  · simp only [kept]
    exact placed.unassigned
  · intro r j mem
    cases (where_ r j).mp mem with
    | inl new =>
      rw [new.1, new.2]
      exact fits
    | inr old =>
      refine fits_congr (placed.fits r j old.2) rfl rfl ?_ fun events => ?_
      · exact iff_of_false (waits j old.1) (not_returned_of_holds holds j)
      · subst events
        exact absurd (placed.oneEvent j old.2 x here) old.1

/-- It clears a destination, of an index at hand or of one that it has sent to the input queue. -/
lemma EventServer.Placed.cleared {x : Nat} {at_ : EventsAt} (placed : s.Placed prms)
    (fits : ∀ r, ∀ j ∈ s.stock r,
      EventServer.Fits { s with msgDest := Function.update s.msgDest x none, events := at_ } r j) :
    EventServer.Placed { s with msgDest := Function.update s.msgDest x none, events := at_ } prms := by
  refine ⟨placed.conserved, placed.gone, placed.oneEvent, placed.oneRoutine, ?_, placed.item, fits⟩
  intro q input j rest at' head
  have none_ := placed.unassigned q input j rest at' head
  simp only [Function.update_apply]
  split
  · rfl
  · exact none_

/-- The steps of the thread that calls `events`. -/
lemma EventsMove.placed (placed : s.Placed prms) (move : EventsMove s t) : t.Placed prms := by
  have conserved := move.conserved placed.conserved
  cases move with
  | @look n at_ quiet still =>
    have absent := not_mem_of_quiet placed quiet
    refine ⟨conserved, placed.gone, placed.oneEvent, placed.oneRoutine, placed.unassigned, placed.item, ?_⟩
    intro p j mem
    refine fits_congr (placed.fits p j mem) rfl rfl ?_ fun events => ?_
    · exact iff_of_false (not_returned_of_quiet still j) (not_returned_of_quiet quiet j)
    · subst events
      exact absurd mem (absent j)
  | @receive p x n at_ quiet holds other here =>
    have absent := not_mem_of_quiet placed quiet
    have where_ := fun r j => @Stock.Spread.mem_pass _ _ _ _ _ s.stock p .events r x j placed.conserved here
    have kept := @Stock.pass_of_ne _ _ _ _ s.stock p .events .routine x other.symm (by intro same; cases same)
    refine ⟨conserved, placed.gone, ?_, ?_, ?_, placed.item, ?_⟩
    · intro i first j second
      cases (where_ .events i).mp first with
      | inr old => exact absurd old.2 (absent i)
      | inl new =>
        cases (where_ .events j).mp second with
        | inr old => exact absurd old.2 (absent j)
        | inl new' => exact new.1.trans new'.1.symm
    · simp only [kept]
      exact placed.oneRoutine
    · simp only [kept]
      exact placed.unassigned
    · intro r j mem
      cases (where_ r j).mp mem with
      | inl new =>
        rw [new.2]
        exact holds
      | inr old =>
        refine fits_congr (placed.fits r j old.2) rfl rfl ?_ fun _ => holds
        exact iff_of_false (not_returned_of_holds holds j) (not_returned_of_quiet quiet j)
  | @clear x at_ here =>
    have holds : s.events.holds = true := placed.fits .events x here
    refine placed.cleared fun r j mem => ?_
    -- Only the index at hand loses its destination, and it is at no other place.
    cases eq_or_ne r .events with
    | inl same =>
      subst same
      exact rfl
    | inr other =>
      refine fits_congr (placed.fits r j mem) rfl ?_ ?_ fun events => absurd events other
      · refine Function.update_of_ne (fun same => ?_) _ _
        subst same
        exact other (placed.conserved.onePlace mem here)
      · refine iff_of_false (fun returned => ?_) (not_returned_of_holds holds j)
        obtain ⟨_, same⟩ := returned
        cases same
  | @shuffle x at_ here =>
    have idle : ∀ j, ¬ ∃ q, EventsAt.idle = .unassigning q j := by
      intro j returned
      obtain ⟨_, same⟩ := returned
      cases same
    exact placed.sentOn here (by intro same; cases same) (by intro same; cases same) (fun j _ => idle j) (idle x)
  | @move q x at_ here =>
    refine placed.sentOn here (by intro same; cases same) (by intro same; cases same) ?_ fun _ _ _ _ => .inl ⟨q, rfl⟩
    intro j other returned
    obtain ⟨_, same⟩ := returned
    cases same
    exact other rfl
  | @unassign q x at_ =>
    have returned : s.Returned x := ⟨q, at_⟩
    refine placed.cleared fun r j mem => ?_
    have old := placed.fits r j mem
    cases eq_or_ne j x with
    | inr other =>
      refine fits_congr old rfl (Function.update_of_ne other _ _) ?_ fun events => ?_
      · refine iff_of_false (fun returned' => ?_) fun returned' => ?_
        · obtain ⟨_, same⟩ := returned'
          cases same
        · obtain ⟨q', at'⟩ := returned'
          cases at_.symm.trans at'
          exact other rfl
      · subst events
        exact absurd (not_returned_of_holds old x) (not_not_intro returned)
    | inl same =>
      subst same
      -- An index that has been returned is in the input or the request queue, or `routine` has it.
      cases r with
      | input =>
        intro q' _ _ dest
        simp at dest
      | request =>
        refine ⟨fun q' _ _ dest => ?_, old.2⟩
        simp at dest
      | shuffle => exact absurd returned old
      | output q' => exact absurd returned old.1
      | client q' => exact absurd returned old.1
      | events => exact absurd (not_returned_of_holds old j) (not_not_intro returned)
      | routine =>
        refine ⟨old.1, fun _ _ returned' => ?_⟩
        obtain ⟨_, at'⟩ := returned'
        cases at'

/-- `routine` goes on, with the other thread as it was. -/
lemma EventServer.Placed.goesOn (placed : s.Placed prms) (conserved : t.Conserved prms) (events : t.events = s.events)
    (hand : t.stock .events = s.stock .events) (gone : ∀ q, t.routine.slot = some q → t.slots q = .closed)
    (oneRoutine : t.routine.holdsOne = true → ∀ i ∈ t.stock .routine, ∀ j ∈ t.stock .routine, i = j)
    (unassigned : ∀ q input j rest, t.routine = .resending q input → t.stock .routine = j :: rest → t.msgDest j = none)
    (item : ∀ q j, t.routine = .returning q j → j < prms.numberOfEvBuffers)
    (fits : ∀ r j, r ≠ .events → j ∈ t.stock r →
      t.routine.Fits (t.msgDest j) (s.events.holds = true) (s.Returned j) r j) : t.Placed prms := by
  refine ⟨conserved, gone, ?_, oneRoutine, unassigned, item, fun r j mem => ?_⟩
  · rw [hand]
    exact placed.oneEvent
  · unfold EventServer.Fits EventServer.Returned
    rw [events]
    cases eq_or_ne r .events with
    | inl same =>
      subst same
      rw [hand] at mem
      exact placed.fits .events j mem
    | inr other => exact fits r j other mem

/-- Nothing is at hand where `routine` holds nothing. -/
lemma EventServer.Placed.handEmpty (placed : s.Placed prms) (one : s.routine.holdsOne = false)
    (many : s.routine.holdsMany = false) (j : Nat) : j ∉ s.stock .routine := by
  intro mem
  cases (placed.fits .routine j mem).1 with
  | inl holds => exact Bool.false_ne_true (one.symm.trans holds)
  | inr holds => exact Bool.false_ne_true (many.symm.trans holds)

/-- What comes to an empty hand is alone there. -/
lemma alone_of_pass {x : Nat} {p : Place} (kept : s.Conserved prms) (here : x ∈ s.stock p)
    (absent : ∀ j, j ∉ s.stock .routine) {j : Nat} (mem : j ∈ s.stock.pass p .routine x .routine) : j = x := by
  cases (kept.mem_pass here).mp mem with
  | inl new => exact new.1
  | inr old => exact absurd old.2 (absent j)

/-- What holds of an index at a place while no client is retired, or a retirement has just begun. -/
def Calm (dest : Option Nat) (holds returned : Prop) : Place → Prop
  | .shuffle => ¬ returned
  | .output q | .client q => ¬ returned ∧ dest = some q
  | .events => holds
  | _ => True

section fits
variable {at_ at' : RoutineAt} {dest : Option Nat} {holds returned : Prop} {p : Place} {j : Nat}

/-- Where an index has been sent back, its destination is looked after. -/
lemma phase_of_sentBack (back : at_.SentBack j) : 2 ≤ at_.phase := by
  obtain ⟨q, back⟩ := back
  cases back with
  | inl back =>
    rw [back]
    exact Nat.le_refl _
  | inr back =>
    rw [back]
    exact Nat.le_succ _

/-- An early retirement has come to no index. -/
lemma ahead_of_early (early : at_.phase = 0) (q : Nat) : at_.Ahead q j := by
  constructor
  · intro k at'
    rw [at'] at early
    cases early
  · intro k at'
    rw [at'] at early
    cases early
  · intro k at'
    rw [at'] at early
    cases early

/-- At other places than in the hands of `routine`. -/
lemma fits_calm (early : at_.phase = 0) (sent : ∀ q, at_ ≠ .sent j q) (off : p ≠ .routine) :
    at_.Fits dest holds returned p j ↔ Calm dest holds returned p := by
  have back : ¬ at_.SentBack j := by
    intro back
    have late := phase_of_sentBack back
    omega
  have still : ∀ r, at_ ≠ .returning r j := by
    intro r at'
    rw [at'] at early
    cases early
  have assigned : ∀ q, at_.Assigned dest q j ↔ dest = some q := by
    intro q
    refine ⟨fun all => all.dest.resolve_right (sent q), fun same => ⟨?_, ?_, .inl same⟩⟩
    · exact fun r at' => absurd at' (sent r)
    · exact fun r at' => absurd at' (still r)
  cases p with
  | input => exact iff_of_true (fun q _ late => absurd late (by omega)) trivial
  | request => exact iff_of_true ⟨fun q _ late => absurd late (by omega), still⟩ trivial
  | shuffle => exact Iff.rfl
  | events => exact Iff.rfl
  | routine => exact absurd rfl off
  | output q =>
    refine ⟨fun fits => ⟨fits.1, (assigned q).mp fits.2.2.1⟩, fun calm => ⟨calm.1, back, (assigned q).mpr calm.2, ?_⟩⟩
    exact fun _ => by omega
  | client q =>
    refine ⟨fun fits => ⟨fits.1, (assigned q).mp fits.2.2.1⟩, fun calm => ⟨calm.1, back, (assigned q).mpr calm.2, ?_⟩⟩
    exact ahead_of_early early q

/-- A step that no retirement comes to. -/
lemma RoutineAt.Fits.calm (old : at_.Fits dest holds returned p j) (early : at_.phase = 0)
    (sent : ∀ q, at_ ≠ .sent j q) (early' : at'.phase = 0) (sent' : ∀ q, at' ≠ .sent j q) (off : p ≠ .routine) :
    at'.Fits dest holds returned p j := (fits_calm early' sent' off).mpr ((fits_calm early sent off).mp old)

/-- A step of a retirement that comes no further. -/
lemma RoutineAt.Fits.same (old : at_.Fits dest holds returned p j) (busy : at_.slot ≠ none) (slot : at'.slot = at_.slot)
    (phase : at'.phase = at_.phase) (back : at'.SentBack j ↔ at_.SentBack j) (off : p ≠ .routine)
    (found : ∀ r, at' = .returning r j → dest = some r) (ahead : ∀ q, p = .client q → at'.Ahead q j) :
    at'.Fits dest holds returned p j := by
  have sent : ∀ {b : RoutineAt} q, b.slot ≠ none → b ≠ .sent j q := by
    intro b q some_ same
    subst same
    exact some_ rfl
  have busy' : at'.slot ≠ none := by rwa [slot]
  have assigned : ∀ q, at_.Assigned dest q j → at'.Assigned dest q j := by
    intro q all
    have same := all.dest.resolve_right (sent q busy)
    refine ⟨fun r at_ => absurd at_ (sent r busy'), fun r at_ => ?_, .inl same⟩
    exact Option.some.inj ((found r at_).symm.trans same)
  cases p with
  | input =>
    intro q slot' late dest'
    rw [slot] at slot'
    rw [phase] at late
    exact (old q slot' late dest').imp_right back.mpr
  | request =>
    constructor
    · intro q slot' late
      rw [slot] at slot'
      rw [phase] at late
      exact old.1 q slot' late
    · intro q same
      have dest' := found q same
      rw [same] at slot phase
      refine old.1 q slot.symm ?_ dest'
      rw [← phase]
      exact Nat.le_succ 2
  | shuffle => exact old
  | events => exact old
  | routine => exact absurd rfl off
  | output q =>
    refine ⟨old.1, fun sentBack => old.2.1 (back.mp sentBack), assigned q old.2.2.1, ?_⟩
    rw [slot, phase]
    exact old.2.2.2
  | client q =>
    exact ⟨old.1, fun sentBack => old.2.1 (back.mp sentBack), assigned q old.2.2.1, ahead q rfl⟩

/-- The destination of an index that has been sent back is cleared. -/
lemma RoutineAt.Fits.unassigned (old : at_.Fits dest holds returned p j) (back : at_.SentBack j) (off : p ≠ .routine)
    (still : ∀ q, at' ≠ .returning q j) : at'.Fits none holds returned p j := by
  cases p with
  | input => exact nofun
  | request => exact ⟨nofun, still⟩
  | shuffle => exact old
  | events => exact old
  | routine => exact absurd rfl off
  | output q => exact absurd back old.2.1
  | client q => exact absurd back old.2.1

/-- Only the index that has just been sent back is waiting for this. -/
lemma not_sentBack_unassigning {q x : Nat} (other : j ≠ x) : ¬ (RoutineAt.unassigning q x).SentBack j := by
  intro back
  obtain ⟨q', back⟩ := back
  cases back with
  | inl back =>
    cases back
    exact other rfl
  | inr back => cases back

/-- Only the index that has just been recovered is. -/
lemma not_sentBack_recovered {q x : Nat} (other : j ≠ x) : ¬ (RoutineAt.recovered q x).SentBack j := by
  intro back
  obtain ⟨q', back⟩ := back
  cases back with
  | inl back => cases back
  | inr back =>
    cases back
    exact other rfl

end fits

end moves

end Lcls2.Shmem
