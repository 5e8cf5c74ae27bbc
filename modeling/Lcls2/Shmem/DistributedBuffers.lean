import Lcls2.Shmem.BufferPlaces

/-!
# Event buffers in distributed mode

In distributed mode the clients return their buffers to the server, and `_msgDest` follows them well enough that a
retirement goes wrong in one way only. The thread that calls `events` is at work on an index or has sent it on, with a
destination that it clears, or that `routine` has set, too late, and the retirement sends the index to the input queue
as if it were the client's.
-/

namespace Lcls2.Shmem
open Lib

section moves
variable {prms : ServerParams} {s t : EventServer}

/-- `routine` looks what there is to do. -/
lemma placed_wait {at' : RoutineAt} (placed : s.Placed prms)
    (plain : s.routine.plain = true) (plain' : at'.plain = true) :
    ({ s with routine := at' } : EventServer).Placed prms := by
  have conserved := (RoutineMove.wait plain plain').conserved placed.conserved
  have before := placed.fits
  unfold EventServer.Fits at before
  have absent : ∀ j, j ∉ s.stock .routine := by
    refine placed.handEmpty ?_ ?_
    · cases at_ : s.routine with
      | _ => simp_all [RoutineAt.plain]
    · cases at_ : s.routine with
      | _ => simp_all [RoutineAt.plain]
  refine placed.goesOn conserved rfl rfl ?_ ?_ ?_ ?_ fun r j _ mem => ?_
  · cases at' with
    | _ => simp_all [RoutineAt.plain]
  · exact fun _ i first => absurd first (absent i)
  · exact fun q input j rest _ head => absurd (mem_of_head head) (absent j)
  · cases at' with
    | _ => simp_all [RoutineAt.plain]
  · refine (before r j mem).calm ?_ ?_ ?_ ?_ fun hand => ?_
    · cases at_ : s.routine with
      | _ => simp_all [RoutineAt.plain]
    · cases at_ : s.routine with
      | _ => simp_all [RoutineAt.plain]
    · cases at' with
      | _ => simp_all [RoutineAt.plain]
    · cases at' with
      | _ => simp_all [RoutineAt.plain]
    · subst hand
      exact absent j mem

/-- It receives a buffer that has been returned. -/
lemma placed_accept {x : Nat} (placed : s.Placed prms) (at_ : s.routine = .accepting) (here : x ∈ s.stock .input) :
    ({ s with stock := s.stock.pass .input .routine x, routine := .requesting } : EventServer).Placed prms := by
  have conserved := (RoutineMove.accept at_ here).conserved placed.conserved
  have before := placed.fits
  unfold EventServer.Fits at before
  have where_ := fun r j => @Stock.Spread.mem_pass _ _ _ _ _ s.stock .input .routine r x j placed.conserved here
  have absent := placed.handEmpty (by rw [at_]; rfl) (by rw [at_]; rfl)
  have alone := fun j => @alone_of_pass prms s x .input placed.conserved here absent j
  rw [at_] at before
  refine placed.goesOn conserved rfl ?_ nofun ?_ nofun nofun fun r j _ mem => ?_
  · exact @Stock.pass_of_ne _ _ _ _ s.stock .input .routine .events x nofun nofun
  · exact fun _ i first j second => (alone i first).trans (alone j second).symm
  · cases (where_ r j).mp mem with
    | inl new =>
      rw [new.2]
      exact ⟨.inl rfl, nofun⟩
    | inr old =>
      refine (before r j old.2).calm rfl nofun rfl nofun fun hand => ?_
      subst hand
      exact absent j old.2

/-- It sends it on to the request queue. -/
lemma placed_request {x : Nat} (placed : s.Placed prms)
    (at_ : s.routine = .requesting) (here : x ∈ s.stock .routine) :
    ({ s with stock := s.stock.pass .routine .request x, routine := .accepting } : EventServer).Placed prms := by
  have conserved := (RoutineMove.request at_ here).conserved placed.conserved
  have before := placed.fits
  unfold EventServer.Fits at before
  have where_ := fun r j => @Stock.Spread.mem_pass _ _ _ _ _ s.stock .routine .request r x j placed.conserved here
  have alone := placed.oneRoutine (by rw [at_]; rfl) x here
  rw [at_] at before
  refine placed.goesOn conserved rfl ?_ nofun nofun nofun nofun fun r j _ mem => ?_
  · exact @Stock.pass_of_ne _ _ _ _ s.stock .routine .request .events x nofun nofun
  · cases (where_ r j).mp mem with
    | inl new =>
      rw [new.2]
      exact ⟨nofun, nofun⟩
    | inr old =>
      refine (before r j old.2).calm rfl nofun rfl nofun fun hand => ?_
      subst hand
      exact old.1 (alone j old.2).symm

/-- It looks for another queue for an event. -/
lemma placed_retry {i n : Nat} (placed : s.Placed prms) (at_ : s.routine = .dispatching i) :
    ({ s with ievt := n, routine := .dispatching (i + 1) } : EventServer).Placed prms := by
  have conserved := (RoutineMove.retry (n := n) at_).conserved placed.conserved
  have before := placed.fits
  unfold EventServer.Fits at before
  have alone := placed.oneRoutine (by rw [at_]; rfl)
  rw [at_] at before
  refine placed.goesOn conserved rfl rfl nofun (fun _ => alone) nofun nofun fun r j _ mem => ?_
  cases eq_or_ne r .routine with
  | inl hand =>
    subst hand
    exact ⟨.inl rfl, fun _ _ => (before .routine j mem).2 i rfl⟩
  | inr off => exact (before r j mem).calm rfl nofun rfl nofun off

/-- It sends an event to a client. -/
lemma placed_dispatch {i x : Nat} {q n : Nat} (placed : s.Placed prms)
    (at_ : s.routine = .dispatching i) (here : x ∈ s.stock .routine) :
    ({ s with stock := s.stock.pass .routine (.output q) x, ievt := n, routine := .sent x q } : EventServer).Placed
      prms := by
  have conserved := (RoutineMove.dispatch (q := q) (n := n) at_ here).conserved placed.conserved
  have before := placed.fits
  unfold EventServer.Fits at before
  have where_ := fun r j => @Stock.Spread.mem_pass _ _ _ _ _ s.stock .routine (.output q) r x j placed.conserved here
  have alone := placed.oneRoutine (by rw [at_]; rfl) x here
  rw [at_] at before
  refine placed.goesOn conserved rfl ?_ nofun nofun nofun nofun fun r j _ mem => ?_
  · exact @Stock.pass_of_ne _ _ _ _ s.stock .routine (.output q) .events x nofun nofun
  · cases (where_ r j).mp mem with
    | inl new =>
      obtain ⟨rfl, rfl⟩ := new
      refine ⟨(before .routine j here).2 i rfl, nofun, ⟨fun r same => ?_, nofun, .inr rfl⟩, nofun⟩
      cases same
      rfl
    | inr old =>
      refine (before r j old.2).calm rfl nofun rfl (fun q' same => ?_) fun hand => ?_
      · cases same
        exact old.1 rfl
      · subst hand
        exact old.1 (alone j old.2).symm

/-- It takes an event back that no client has room for. -/
lemma placed_giveUp {i x : Nat} (placed : s.Placed prms)
    (at_ : s.routine = .dispatching i) (here : x ∈ s.stock .routine) :
    ({ s with stock := s.stock.pass .routine .input x, routine := .polling } : EventServer).Placed prms := by
  have conserved := (RoutineMove.giveUp at_ here).conserved placed.conserved
  have before := placed.fits
  unfold EventServer.Fits at before
  have where_ := fun r j => @Stock.Spread.mem_pass _ _ _ _ _ s.stock .routine .input r x j placed.conserved here
  have alone := placed.oneRoutine (by rw [at_]; rfl) x here
  rw [at_] at before
  refine placed.goesOn conserved rfl ?_ nofun nofun nofun nofun fun r j _ mem => ?_
  · exact @Stock.pass_of_ne _ _ _ _ s.stock .routine .input .events x nofun nofun
  · cases (where_ r j).mp mem with
    | inl new =>
      rw [new.2]
      exact nofun
    | inr old =>
      refine (before r j old.2).calm rfl nofun rfl nofun fun hand => ?_
      subst hand
      exact old.1 (alone j old.2).symm

/-- It notes the client as the destination. -/
lemma placed_assign {x q : Nat} (placed : s.Placed prms) (at_ : s.routine = .sent x q) :
    ({ s with msgDest := Function.update s.msgDest x (some q), routine := .polling } : EventServer).Placed prms := by
  have conserved := (RoutineMove.assign at_).conserved placed.conserved
  have before := placed.fits
  unfold EventServer.Fits at before
  have absent := placed.handEmpty (by rw [at_]; rfl) (by rw [at_]; rfl)
  rw [at_] at before
  refine placed.goesOn conserved rfl rfl nofun nofun nofun nofun fun r j _ mem => ?_
  have off : r ≠ .routine := by
    intro hand
    subst hand
    exact absent j mem
  have old := before r j mem
  cases eq_or_ne j x with
  | inr other =>
    simp only [Function.update_of_ne other]
    refine old.calm rfl (fun q' same => ?_) rfl nofun off
    cases same
    exact other rfl
  | inl same =>
    subst same
    have sent : ∀ q', RoutineAt.polling ≠ .sent j q' := nofun
    refine (fits_calm rfl sent off).mpr ?_
    simp only [Function.update_self]
    cases r with
    | output q' => exact ⟨old.1, congrArg some (old.2.2.1.sent q rfl)⟩
    | client q' => exact ⟨old.1, congrArg some (old.2.2.1.sent q rfl)⟩
    | shuffle => exact old
    | events => exact old
    | _ => trivial

/-- `_clearDest` receives an index. -/
lemma placed_drain {q : Nat} {input : Bool} {x : Nat} (placed : s.Placed prms)
    (at_ : s.routine = .draining q input) (here : x ∈ s.stock (cleared input)) :
    ({ s with stock := s.stock.pass (cleared input) .routine x, routine := .draining q input } : EventServer).Placed
      prms := by
  have conserved := (RoutineMove.drain at_ here).conserved placed.conserved
  have before := placed.fits
  unfold EventServer.Fits at before
  have where_ := fun r j =>
    @Stock.Spread.mem_pass _ _ _ _ _ s.stock (cleared input) .routine r x j placed.conserved here
  have gone := placed.gone q (by rw [at_]; rfl)
  rw [at_] at before
  refine placed.goesOn conserved rfl ?_ ?_ nofun nofun nofun fun r j _ mem => ?_
  · cases input with
    | true => exact @Stock.pass_of_ne _ _ _ _ s.stock .input .routine .events x nofun nofun
    | false => exact @Stock.pass_of_ne _ _ _ _ s.stock .request .routine .events x nofun nofun
  · intro q' same
    cases same
    exact gone
  · cases (where_ r j).mp mem with
    | inl new =>
      rw [new.2]
      exact ⟨.inr rfl, nofun⟩
    | inr old => exact before r j old.2

/-- `_clearDest` has received all of them. -/
lemma placed_drained {q : Nat} {input : Bool} (placed : s.Placed prms)
    (at_ : s.routine = .draining q input) (none_ : s.stock (cleared input) = []) :
    ({ s with routine := .restoring q input } : EventServer).Placed prms := by
  have conserved := (RoutineMove.drained at_ none_).conserved placed.conserved
  have before := placed.fits
  unfold EventServer.Fits at before
  have gone := placed.gone q (by rw [at_]; rfl)
  rw [at_] at before
  refine placed.goesOn conserved rfl rfl ?_ nofun nofun nofun fun r j _ mem => ?_
  · intro q' same
    cases same
    exact gone
  · have old := before r j mem
    cases r with
    | routine => exact ⟨.inr rfl, nofun⟩
    | shuffle => exact old
    | events => exact old
    | output q' =>
      refine ⟨old.1, nofun, ⟨nofun, nofun, .inl (old.2.2.1.dest.resolve_right nofun)⟩, fun _ => ?_⟩
      cases input with
      | true => exact Nat.succ_lt_succ (Nat.succ_pos _)
      | false => exact Nat.lt_succ_self _
    | client q' =>
      exact ⟨old.1, nofun, ⟨nofun, nofun, .inl (old.2.2.1.dest.resolve_right nofun)⟩, nofun, nofun, nofun⟩
    | input =>
      cases input with
      | true =>
        have none_ : s.stock .input = [] := none_
        rw [none_] at mem
        cases mem
      | false =>
        intro q' same _ dest
        exact .inl ((old q' same (Nat.le_refl _) dest).resolve_right nofun)
    | request =>
      cases input with
      | true => exact ⟨fun _ _ late => absurd late (Nat.not_succ_le_self 1), nofun⟩
      | false =>
        have none_ : s.stock .request = [] := none_
        rw [none_] at mem
        cases mem

/-- `_clearDest` clears a destination. -/
lemma placed_clear {q : Nat} {input : Bool} {x : Nat} {rest : List Nat} (placed : s.Placed prms)
    (at_ : s.routine = .restoring q input) (head : s.stock .routine = x :: rest) :
    ({ s with msgDest := Function.update s.msgDest x none, routine := .resending q input } : EventServer).Placed
      prms := by
  have conserved := (RoutineMove.clear at_ head).conserved placed.conserved
  have before := placed.fits
  unfold EventServer.Fits at before
  have here := mem_of_head head
  have gone := placed.gone q (by rw [at_]; rfl)
  rw [at_] at before
  refine placed.goesOn conserved rfl rfl ?_ nofun ?_ nofun fun r j _ mem => ?_
  · intro q' same
    cases same
    exact gone
  · intro q' input' j rest' _ head'
    cases head.symm.trans head'
    exact Function.update_self _ _ _
  · cases eq_or_ne r .routine with
    | inl hand =>
      subst hand
      exact ⟨.inr rfl, nofun⟩
    | inr off =>
      have other : j ≠ x := by
        intro same
        subst same
        exact off (placed.conserved.onePlace mem here)
      simp only [Function.update_of_ne other]
      refine (before r j mem).same nofun rfl ?_ (iff_of_false nofun nofun) off nofun fun _ _ => ⟨nofun, nofun, nofun⟩
      cases input with
      | true => rfl
      | false => rfl

/-- `_clearDest` sends an index back. -/
lemma placed_resend {q : Nat} {input : Bool} {x : Nat} {rest : List Nat} (placed : s.Placed prms)
    (at_ : s.routine = .resending q input) (head : s.stock .routine = x :: rest) :
    ({ s with stock := s.stock.pass .routine (cleared input) x, routine := .restoring q input } : EventServer).Placed
      prms := by
  have conserved := (RoutineMove.resend at_ head).conserved placed.conserved
  have before := placed.fits
  unfold EventServer.Fits at before
  have here := mem_of_head head
  have none_ := placed.unassigned q input x rest at_ head
  have where_ := fun r j =>
    @Stock.Spread.mem_pass _ _ _ _ _ s.stock .routine (cleared input) r x j placed.conserved here
  have gone := placed.gone q (by rw [at_]; rfl)
  rw [at_] at before
  refine placed.goesOn conserved rfl ?_ ?_ nofun nofun nofun fun r j _ mem => ?_
  · cases input with
    | true => exact @Stock.pass_of_ne _ _ _ _ s.stock .routine .input .events x nofun nofun
    | false => exact @Stock.pass_of_ne _ _ _ _ s.stock .routine .request .events x nofun nofun
  · intro q' same
    cases same
    exact gone
  · cases (where_ r j).mp mem with
    | inl new =>
      obtain ⟨rfl, rfl⟩ := new
      cases input with
      | true => exact fun _ _ _ dest => nomatch none_.symm.trans dest
      | false => exact ⟨fun _ _ _ dest => (nomatch none_.symm.trans dest), nofun⟩
    | inr old =>
      cases eq_or_ne r .routine with
      | inl hand =>
        subst hand
        exact ⟨.inr rfl, nofun⟩
      | inr off =>
        refine (before r j old.2).same nofun rfl ?_ (iff_of_false nofun nofun) off nofun
          fun _ _ => ⟨nofun, nofun, nofun⟩
        cases input with
        | true => rfl
        | false => rfl

/-- `_clearDest` has sent all of them back. -/
lemma placed_restored {q : Nat} {input : Bool} (placed : s.Placed prms)
    (at_ : s.routine = .restoring q input) (none_ : s.stock .routine = []) :
    ({ s with routine := if input then .draining q false else .reclaiming q } : EventServer).Placed prms := by
  have conserved := (RoutineMove.restored at_ none_).conserved placed.conserved
  have before := placed.fits
  unfold EventServer.Fits at before
  have gone := placed.gone q (by rw [at_]; rfl)
  rw [at_] at before
  have off : ∀ r, ∀ j ∈ s.stock r, r ≠ .routine := by
    intro r j mem hand
    subst hand
    rw [none_] at mem
    cases mem
  cases input with
  | true =>
    refine placed.goesOn conserved rfl rfl ?_ nofun nofun nofun fun r j _ mem => ?_
    · intro q' same
      cases same
      exact gone
    · exact (before r j mem).same nofun rfl rfl (iff_of_false nofun nofun) (off r j mem) nofun
        fun _ _ => ⟨nofun, nofun, nofun⟩
  | false =>
    refine placed.goesOn conserved rfl rfl ?_ nofun nofun nofun fun r j _ mem => ?_
    · intro q' same
      cases same
      exact gone
    · exact (before r j mem).same nofun rfl rfl (iff_of_false nofun nofun) (off r j mem) nofun
        fun _ _ => ⟨nofun, nofun, nofun⟩

/-- `_moveQueue` receives an index. -/
lemma placed_reclaim {q x : Nat} (placed : s.Placed prms)
    (at_ : s.routine = .reclaiming q) (here : x ∈ s.stock (.output q)) :
    ({ s with stock := s.stock.pass (.output q) .routine x, routine := .reclaimed q } : EventServer).Placed prms := by
  have conserved := (RoutineMove.reclaim at_ here).conserved placed.conserved
  have before := placed.fits
  unfold EventServer.Fits at before
  have where_ := fun r j => @Stock.Spread.mem_pass _ _ _ _ _ s.stock (.output q) .routine r x j placed.conserved here
  have absent := placed.handEmpty (by rw [at_]; rfl) (by rw [at_]; rfl)
  have alone := fun j => @alone_of_pass prms s x (.output q) placed.conserved here absent j
  have gone := placed.gone q (by rw [at_]; rfl)
  rw [at_] at before
  refine placed.goesOn conserved rfl ?_ ?_ ?_ nofun nofun fun r j _ mem => ?_
  · exact @Stock.pass_of_ne _ _ _ _ s.stock (.output q) .routine .events x nofun nofun
  · intro q' same
    cases same
    exact gone
  · exact fun _ i first j second => (alone i first).trans (alone j second).symm
  · cases (where_ r j).mp mem with
    | inl new =>
      rw [new.2]
      exact ⟨.inl rfl, nofun⟩
    | inr old =>
      refine (before r j old.2).same nofun rfl rfl (iff_of_false nofun nofun) (fun hand => ?_) nofun
        fun _ _ => ⟨nofun, nofun, nofun⟩
      subst hand
      exact absent j old.2

/-- `_moveQueue` sends it to the input queue. -/
lemma placed_reclaimed {q x : Nat} (placed : s.Placed prms)
    (at_ : s.routine = .reclaimed q) (here : x ∈ s.stock .routine) :
    ({ s with stock := s.stock.pass .routine .input x, routine := .unassigning q x } : EventServer).Placed prms := by
  have conserved := (RoutineMove.reclaimed at_ here).conserved placed.conserved
  have before := placed.fits
  unfold EventServer.Fits at before
  have where_ := fun r j => @Stock.Spread.mem_pass _ _ _ _ _ s.stock .routine .input r x j placed.conserved here
  have alone := placed.oneRoutine (by rw [at_]; rfl) x here
  have gone := placed.gone q (by rw [at_]; rfl)
  rw [at_] at before
  refine placed.goesOn conserved rfl ?_ ?_ nofun nofun nofun fun r j _ mem => ?_
  · exact @Stock.pass_of_ne _ _ _ _ s.stock .routine .input .events x nofun nofun
  · intro q' same
    cases same
    exact gone
  · cases (where_ r j).mp mem with
    | inl new =>
      obtain ⟨rfl, rfl⟩ := new
      exact fun _ _ _ _ => .inr ⟨q, .inl rfl⟩
    | inr old =>
      have back : (RoutineAt.unassigning q x).SentBack j ↔ (RoutineAt.reclaimed q).SentBack j :=
        iff_of_false (not_sentBack_unassigning old.1) nofun
      refine (before r j old.2).same nofun rfl rfl back (fun hand => ?_) nofun fun _ _ => ⟨nofun, nofun, nofun⟩
      subst hand
      exact old.1 (alone j old.2).symm

/-- `_moveQueue` clears its destination. -/
lemma placed_unassign {q x : Nat} (placed : s.Placed prms) (at_ : s.routine = .unassigning q x) :
    ({ s with msgDest := Function.update s.msgDest x none, routine := .reclaiming q } : EventServer).Placed prms := by
  have conserved := (RoutineMove.unassign at_).conserved placed.conserved
  have before := placed.fits
  unfold EventServer.Fits at before
  have absent := placed.handEmpty (by rw [at_]; rfl) (by rw [at_]; rfl)
  have gone := placed.gone q (by rw [at_]; rfl)
  rw [at_] at before
  refine placed.goesOn conserved rfl rfl ?_ nofun nofun nofun fun r j _ mem => ?_
  · intro q' same
    cases same
    exact gone
  · have off : r ≠ .routine := by
      intro hand
      subst hand
      exact absent j mem
    cases eq_or_ne j x with
    | inl same =>
      subst same
      simp only [Function.update_self]
      exact (before r j mem).unassigned ⟨q, .inl rfl⟩ off nofun
    | inr other =>
      simp only [Function.update_of_ne other]
      have back : (RoutineAt.reclaiming q).SentBack j ↔ (RoutineAt.unassigning q x).SentBack j :=
        iff_of_false nofun (not_sentBack_unassigning other)
      exact (before r j mem).same nofun rfl rfl back off nofun fun _ _ => ⟨nofun, nofun, nofun⟩

/-- `_moveQueue` has emptied the client's output queue. -/
lemma placed_emptied {q : Nat} (placed : s.Placed prms)
    (at_ : s.routine = .reclaiming q) (none_ : s.stock (.output q) = []) :
    ({ s with routine := .recovering q 0 } : EventServer).Placed prms := by
  have conserved := (RoutineMove.emptied at_ none_).conserved placed.conserved
  have before := placed.fits
  unfold EventServer.Fits at before
  have absent := placed.handEmpty (by rw [at_]; rfl) (by rw [at_]; rfl)
  have gone := placed.gone q (by rw [at_]; rfl)
  rw [at_] at before
  refine placed.goesOn conserved rfl rfl ?_ nofun nofun nofun fun r j _ mem => ?_
  · intro q' same
    cases same
    exact gone
  · have old := before r j mem
    cases r with
    | routine => exact absurd mem (absent j)
    | shuffle => exact old
    | events => exact old
    | input => exact fun q' same _ dest => .inl ((old q' same (Nat.le_succ 1) dest).resolve_right nofun)
    | request => exact ⟨fun q' same _ => old.1 q' same (Nat.le_refl _), nofun⟩
    | output q' =>
      refine ⟨old.1, nofun, ⟨nofun, nofun, .inl (old.2.2.1.dest.resolve_right nofun)⟩, fun same => ?_⟩
      cases same
      rw [none_] at mem
      cases mem
    | client q' =>
      refine ⟨old.1, nofun, ⟨nofun, nofun, .inl (old.2.2.1.dest.resolve_right nofun)⟩, fun k same => ?_, nofun, nofun⟩
      cases same
      exact Nat.zero_le j

/-- An index has the client as its destination. -/
lemma placed_find {q x : Nat} (placed : s.Placed prms) (at_ : s.routine = .recovering q x)
    (item : x < prms.numberOfEvBuffers) (dest : s.msgDest x = some q) :
    ({ s with routine := .returning q x } : EventServer).Placed prms := by
  have conserved := (RoutineMove.find at_ item dest).conserved placed.conserved
  have before := placed.fits
  unfold EventServer.Fits at before
  have absent := placed.handEmpty (by rw [at_]; rfl) (by rw [at_]; rfl)
  have gone := placed.gone q (by rw [at_]; rfl)
  rw [at_] at before
  refine placed.goesOn conserved rfl rfl ?_ nofun nofun ?_ fun r j _ mem => ?_
  · intro q' same
    cases same
    exact gone
  · intro q' j same
    cases same
    exact item
  · have old := before r j mem
    refine old.same nofun rfl rfl (iff_of_false nofun nofun) (fun hand => ?_) (fun r' same => ?_) fun q' client => ?_
    · subst hand
      exact absent j mem
    · cases same
      exact dest
    · subst client
      refine ⟨nofun, fun k same => ?_, nofun⟩
      cases same
      exact old.2.2.2.recovering x rfl

/-- An index that has another destination is left where it is. -/
lemma placed_skip {q k : Nat} (placed : s.Placed prms)
    (at_ : s.routine = .recovering q k) (other : s.msgDest k ≠ some q) :
    ({ s with routine := .recovering q (k + 1) } : EventServer).Placed prms := by
  have conserved := (RoutineMove.skip at_ other).conserved placed.conserved
  have before := placed.fits
  unfold EventServer.Fits at before
  have absent := placed.handEmpty (by rw [at_]; rfl) (by rw [at_]; rfl)
  have gone := placed.gone q (by rw [at_]; rfl)
  rw [at_] at before
  refine placed.goesOn conserved rfl rfl ?_ nofun nofun nofun fun r j _ mem => ?_
  · intro q' same
    cases same
    exact gone
  · have old := before r j mem
    refine old.same nofun rfl rfl (iff_of_false nofun nofun) (fun hand => ?_) nofun fun q' client => ?_
    · subst hand
      exact absent j mem
    · subst client
      refine ⟨fun k' same => ?_, nofun, nofun⟩
      cases same
      refine Nat.lt_of_le_of_ne (old.2.2.2.recovering k rfl) fun this => ?_
      subst this
      exact other (old.2.2.1.dest.resolve_right nofun)

/-- An index that the client holds is sent to the input queue. -/
lemma placed_recover {q x : Nat} (placed : s.Placed prms)
    (at_ : s.routine = .returning q x) (here : x ∈ s.stock (.client q)) :
    ({ s with stock := s.stock.pass (.client q) .input x, routine := .recovered q x } : EventServer).Placed prms := by
  have conserved := (RoutineMove.recover at_ here).conserved placed.conserved
  have before := placed.fits
  unfold EventServer.Fits at before
  have where_ := fun r j => @Stock.Spread.mem_pass _ _ _ _ _ s.stock (.client q) .input r x j placed.conserved here
  have absent := placed.handEmpty (by rw [at_]; rfl) (by rw [at_]; rfl)
  have gone := placed.gone q (by rw [at_]; rfl)
  rw [at_] at before
  refine placed.goesOn conserved rfl ?_ ?_ nofun nofun nofun fun r j _ mem => ?_
  · exact @Stock.pass_of_ne _ _ _ _ s.stock (.client q) .input .events x nofun nofun
  · intro q' same
    cases same
    exact gone
  · cases (where_ r j).mp mem with
    | inl new =>
      obtain ⟨rfl, rfl⟩ := new
      exact fun _ _ _ _ => .inr ⟨q, .inr rfl⟩
    | inr old =>
      have old' := before r j old.2
      have back : (RoutineAt.recovered q x).SentBack j ↔ (RoutineAt.returning q x).SentBack j :=
        iff_of_false (not_sentBack_recovered old.1) nofun
      refine old'.same nofun rfl rfl back (fun hand => ?_) nofun fun q' client => ⟨nofun, nofun, fun k same => ?_⟩
      · subst hand
        exact absent j old.2
      · subst client
        cases same
        exact Nat.lt_of_le_of_ne (old'.2.2.2.returning x rfl) old.1.symm

/-- An index for which there is no room is not the client's. -/
lemma placed_leave {q k : Nat} (placed : s.Placed prms)
    (at_ : s.routine = .returning q k) (full : s.hasRoom prms .input = false) :
    ({ s with routine := .recovering q (k + 1) } : EventServer).Placed prms := by
  have conserved := (RoutineMove.leave at_ full).conserved placed.conserved
  have before := placed.fits
  unfold EventServer.Fits at before
  have absent := placed.handEmpty (by rw [at_]; rfl) (by rw [at_]; rfl)
  have gone := placed.gone q (by rw [at_]; rfl)
  rw [at_] at before
  refine placed.goesOn conserved rfl rfl ?_ nofun nofun nofun fun r j _ mem => ?_
  · intro q' same
    cases same
    exact gone
  · have old := before r j mem
    refine old.same nofun rfl rfl (iff_of_false nofun nofun) (fun hand => ?_) nofun fun q' client => ?_
    · subst hand
      exact absent j mem
    · subst client
      refine ⟨fun k' same => ?_, nofun, nofun⟩
      cases same
      refine Nat.lt_of_le_of_ne (old.2.2.2.returning k rfl) fun this => ?_
      subst this
      have room := hasRoom_of (q := .input) placed.conserved mem nofun rfl
      exact Bool.false_ne_true (full.symm.trans room)

/-- The destination of a recovered index is cleared. -/
lemma placed_recovered {q x : Nat} (placed : s.Placed prms) (at_ : s.routine = .recovered q x) :
    ({ s with msgDest := Function.update s.msgDest x none, routine := .recovering q (x + 1) } : EventServer).Placed
      prms := by
  have conserved := (RoutineMove.recovered at_).conserved placed.conserved
  have before := placed.fits
  unfold EventServer.Fits at before
  have absent := placed.handEmpty (by rw [at_]; rfl) (by rw [at_]; rfl)
  have gone := placed.gone q (by rw [at_]; rfl)
  rw [at_] at before
  refine placed.goesOn conserved rfl rfl ?_ nofun nofun nofun fun r j _ mem => ?_
  · intro q' same
    cases same
    exact gone
  · have off : r ≠ .routine := by
      intro hand
      subst hand
      exact absent j mem
    have old := before r j mem
    cases eq_or_ne j x with
    | inl same =>
      subst same
      simp only [Function.update_self]
      exact old.unassigned ⟨q, .inr rfl⟩ off nofun
    | inr other =>
      simp only [Function.update_of_ne other]
      have back : (RoutineAt.recovering q (x + 1)).SentBack j ↔ (RoutineAt.recovered q x).SentBack j :=
        iff_of_false nofun (not_sentBack_recovered other)
      refine old.same nofun rfl rfl back off nofun fun q' client => ⟨fun k same => ?_, nofun, nofun⟩
      subst client
      cases same
      exact old.2.2.2.recovered x rfl

/-- The client has nothing left. -/
lemma placed_retired {q k : Nat} (placed : s.Placed prms)
    (at_ : s.routine = .recovering q k) (last : prms.numberOfEvBuffers ≤ k) (none_ : s.stock (.client q) = []) :
    ({ s with slots := Function.update s.slots q .free, routine := .polling } : EventServer).Placed prms := by
  have conserved := (RoutineMove.retired at_ last none_).conserved placed.conserved
  have before := placed.fits
  unfold EventServer.Fits at before
  have absent := placed.handEmpty (by rw [at_]; rfl) (by rw [at_]; rfl)
  rw [at_] at before
  refine placed.goesOn conserved rfl rfl nofun nofun nofun nofun fun r j _ mem => ?_
  have old := before r j mem
  cases r with
  | routine => exact absurd mem (absent j)
  | shuffle => exact old
  | events => exact old
  | input => exact nofun
  | request => exact ⟨nofun, nofun⟩
  | output q' => exact ⟨old.1, nofun, ⟨nofun, nofun, .inl (old.2.2.1.dest.resolve_right nofun)⟩, nofun⟩
  | client q' => exact ⟨old.1, nofun, ⟨nofun, nofun, .inl (old.2.2.1.dest.resolve_right nofun)⟩, nofun, nofun, nofun⟩

/-- The steps of `routine`. -/
lemma RoutineMove.placed (placed : s.Placed prms) (move : RoutineMove prms s t) : t.Placed prms := by
  cases move with
  | wait plain plain' => exact placed_wait placed plain plain'
  | accept at_ here => exact placed_accept placed at_ here
  | request at_ here => exact placed_request placed at_ here
  | retry at_ => exact placed_retry placed at_
  | dispatch at_ here => exact placed_dispatch placed at_ here
  | giveUp at_ here => exact placed_giveUp placed at_ here
  | assign at_ => exact placed_assign placed at_
  | drain at_ here => exact placed_drain placed at_ here
  | drained at_ none_ => exact placed_drained placed at_ none_
  | clear at_ head => exact placed_clear placed at_ head
  | resend at_ head => exact placed_resend placed at_ head
  | restored at_ none_ => exact placed_restored placed at_ none_
  | reclaim at_ here => exact placed_reclaim placed at_ here
  | reclaimed at_ here => exact placed_reclaimed placed at_ here
  | unassign at_ => exact placed_unassign placed at_
  | emptied at_ none_ => exact placed_emptied placed at_ none_
  | find at_ item dest => exact placed_find placed at_ item dest
  | skip at_ other => exact placed_skip placed at_ other
  | recover at_ here => exact placed_recover placed at_ here
  | leave at_ full => exact placed_leave placed at_ full
  | recovered at_ => exact placed_recovered placed at_
  | retired at_ last none_ => exact placed_retired placed at_ last none_

/-- `routine` receives an event from the shuffle queue. -/
lemma placed_distribute {x : Nat} (placed : s.Placed prms) (at_ : s.routine = .polling) (here : x ∈ s.stock .shuffle) :
    ({ s with stock := s.stock.pass .shuffle .routine x, routine := .dispatching 0 } : EventServer).Placed prms := by
  have before := placed.fits
  unfold EventServer.Fits at before
  have where_ := fun r j => @Stock.Spread.mem_pass _ _ _ _ _ s.stock .shuffle .routine r x j placed.conserved here
  have absent := placed.handEmpty (by rw [at_]; rfl) (by rw [at_]; rfl)
  have alone := fun j => @alone_of_pass prms s x .shuffle placed.conserved here absent j
  rw [at_] at before
  refine placed.goesOn (placed.conserved.pass here) rfl ?_ nofun ?_ nofun nofun fun r j _ mem => ?_
  · exact @Stock.pass_of_ne _ _ _ _ s.stock .shuffle .routine .events x nofun nofun
  · exact fun _ i first j second => (alone i first).trans (alone j second).symm
  · cases (where_ r j).mp mem with
    | inl new =>
      obtain ⟨rfl, rfl⟩ := new
      exact ⟨.inl rfl, fun _ _ => before .shuffle j here⟩
    | inr old =>
      refine (before r j old.2).calm rfl nofun rfl nofun fun hand => ?_
      subst hand
      exact absent j old.2

/-- `routine` begins to retire a client. -/
lemma placed_retire {q : Nat} (placed : s.Placed prms) (at_ : s.routine = .polling) (closed : s.slots q = .closed) :
    ({ s with routine := .draining q true } : EventServer).Placed prms := by
  have before := placed.fits
  unfold EventServer.Fits at before
  have absent := placed.handEmpty (by rw [at_]; rfl) (by rw [at_]; rfl)
  rw [at_] at before
  refine placed.goesOn placed.conserved rfl rfl ?_ nofun nofun nofun fun r j _ mem => ?_
  · intro q' same
    cases same
    exact closed
  · refine (before r j mem).calm rfl nofun rfl nofun fun hand => ?_
    subst hand
    exact absent j mem

/-- What happens to the places for clients matters to the one that is retired only. -/
lemma placed_slots {slots : Nat → Slot} (placed : s.Placed prms)
    (gone : ∀ q, s.routine.slot = some q → slots q = .closed) : ({ s with slots := slots } : EventServer).Placed prms :=
  ⟨placed.conserved, gone, placed.oneEvent, placed.oneRoutine, placed.unassigned, placed.item, placed.fits⟩

/-- A client that is connected is not retired. -/
lemma slot_of_connected {q : Nat} (placed : s.Placed prms) (connected : s.slots q = .connected) :
    s.routine.slot ≠ some q := by
  intro same
  cases connected.symm.trans (placed.gone q same)

/-- The retirement of another client does not come to an index. -/
lemma ahead_of_other {q j : Nat} (other : s.routine.slot ≠ some q) : s.routine.Ahead q j := by
  constructor
  · intro k at_
    rw [at_] at other
    exact absurd rfl other
  · intro k at_
    rw [at_] at other
    exact absurd rfl other
  · intro k at_
    rw [at_] at other
    exact absurd rfl other

/-- A client gets an event. -/
lemma placed_get {q x : Nat} (placed : s.Placed prms) (connected : s.slots q = .connected)
    (here : x ∈ s.stock (.output q)) :
    ({ s with stock := s.stock.pass (.output q) (.client q) x } : EventServer).Placed prms := by
  have where_ := fun r j =>
    @Stock.Spread.mem_pass _ _ _ _ _ s.stock (.output q) (.client q) r x j placed.conserved here
  have events := @Stock.pass_of_ne _ _ _ _ s.stock (.output q) (.client q) .events x nofun nofun
  have hand := @Stock.pass_of_ne _ _ _ _ s.stock (.output q) (.client q) .routine x nofun nofun
  have other := slot_of_connected placed connected
  refine ⟨placed.conserved.pass here, placed.gone, ?_, ?_, ?_, placed.item, fun r j mem => ?_⟩
  · simp only [events]
    exact placed.oneEvent
  · simp only [hand]
    exact placed.oneRoutine
  · simp only [hand]
    exact placed.unassigned
  · cases (where_ r j).mp mem with
    | inr old => exact placed.fits r j old.2
    | inl new =>
      obtain ⟨rfl, rfl⟩ := new
      have fits : s.routine.Fits _ _ _ (.output q) j := placed.fits (.output q) j here
      exact ⟨fits.1, fits.2.1, fits.2.2.1, ahead_of_other other⟩

/-- A client returns a buffer. -/
lemma placed_free {q x : Nat} (placed : s.Placed prms) (connected : s.slots q = .connected)
    (here : x ∈ s.stock (.client q)) :
    ({ s with stock := s.stock.pass (.client q) .input x } : EventServer).Placed prms := by
  have where_ := fun r j => @Stock.Spread.mem_pass _ _ _ _ _ s.stock (.client q) .input r x j placed.conserved here
  have events := @Stock.pass_of_ne _ _ _ _ s.stock (.client q) .input .events x nofun nofun
  have hand := @Stock.pass_of_ne _ _ _ _ s.stock (.client q) .input .routine x nofun nofun
  have other := slot_of_connected placed connected
  refine ⟨placed.conserved.pass here, placed.gone, ?_, ?_, ?_, placed.item, fun r j mem => ?_⟩
  · simp only [events]
    exact placed.oneEvent
  · simp only [hand]
    exact placed.oneRoutine
  · simp only [hand]
    exact placed.unassigned
  · cases (where_ r j).mp mem with
    | inr old => exact placed.fits r j old.2
    | inl new =>
      obtain ⟨rfl, rfl⟩ := new
      have fits : s.routine.Fits _ _ _ (.client q) j := placed.fits (.client q) j here
      intro q' slot _ dest
      cases fits.2.2.1.dest with
      | inl same =>
        cases same.symm.trans dest
        exact absurd slot other
      | inr sent =>
        have slot : s.routine.slot = some q' := slot
        rw [sent] at slot
        cases slot

/-- What a step needs in distributed mode to keep every index in one place: an index that a retirement sends to the
    input queue is not there already, nor in the shuffle queue, nor with the thread that calls `events`. -/
def EventServer.Undisturbed (prms : ServerParams) (s : EventServer) : ServerAction → Prop
  | .routine =>
    ∀ q j, s.routine = .returning q j → s.hasRoom prms .input = true →
      ¬ (j ∈ s.stock .input ∨ j ∈ s.stock .shuffle ∨ j ∈ s.stock .events)
  | _ => True

/-- An index that is sent to the input queue is the client's, or the other thread has had it since the destination was
    read or has it still. -/
lemma returning_place {q j : Nat} (placed : s.Placed prms) (at_ : s.routine = .returning q j) :
    j ∈ s.stock (.client q) ∨ j ∈ s.stock .input ∨ j ∈ s.stock .shuffle ∨ j ∈ s.stock .events := by
  have slot : s.routine.slot = some q := by rw [at_, RoutineAt.slot]
  have phase : s.routine.phase = 3 := by rw [at_, RoutineAt.phase]
  obtain ⟨p, here⟩ := placed.conserved.somewhere (Finset.mem_range.mpr (placed.item q j at_))
  have fits : s.routine.Fits _ _ _ p j := placed.fits p j here
  cases p with
  | input => exact .inr (.inl here)
  | request => exact absurd at_ (fits.2 q)
  | shuffle => exact .inr (.inr (.inl here))
  | events => exact .inr (.inr (.inr here))
  | routine => exact absurd here (placed.handEmpty (by rw [at_]; rfl) (by rw [at_]; rfl) j)
  | output r =>
    cases fits.2.2.1.returning q at_
    have early := fits.2.2.2 slot
    omega
  | client r =>
    cases fits.2.2.1.returning q at_
    exact .inl here

/-- In distributed mode a step is careful exactly where it is undisturbed. -/
lemma careful_iff {a : ServerAction} (distributed : prms.serial = false) (placed : s.Placed prms)
    (h : s.step prms a = .ok t) : s.Careful prms a ↔ s.Undisturbed prms a := by
  cases a with
  | free q j =>
    refine iff_of_true ?_ trivial
    rw [EventServer.step] at h
    split at h
    · rename_i both
      have back : prms.returnQueue q = .input := by rw [ServerParams.returnQueue, distributed, Bool.false_and]; rfl
      rw [EventServer.Careful, back]
      exact hasRoom_of placed.conserved both.2 (by intro same; cases same) rfl
    · cases h
  | routine =>
    constructor
    · intro careful q j at_ room either
      have client := careful.clients q j at_ room
      cases either with
      | inl there => cases placed.conserved.onePlace client there
      | inr either =>
        cases either with
        | inl there => cases placed.conserved.onePlace client there
        | inr there => cases placed.conserved.onePlace client there
    · intro calm
      refine ⟨fun i _ serial => ?_, fun q j at_ room => ?_, fun q j at_ last => ?_⟩
      · exact absurd (distributed.symm.trans serial) Bool.false_ne_true
      · exact (returning_place placed at_).resolve_right (calm q j at_ room)
      · refine List.eq_nil_iff_forall_not_mem.mpr fun i mem => Nat.not_lt.mpr last ?_
        have fits : s.routine.Fits _ _ _ (.client q) i := placed.fits (.client q) i mem
        exact Nat.lt_of_le_of_lt (fits.2.2.2.recovering j at_) (Finset.mem_range.mp (placed.conserved.item mem))
  | _ => exact Iff.rfl

/-- An undisturbed step in distributed mode. -/
lemma step_placed {a : ServerAction} (distributed : prms.serial = false) (placed : s.Placed prms)
    (calm : s.Undisturbed prms a) (h : s.step prms a = .ok t) : t.Placed prms := by
  have careful := (careful_iff distributed placed h).mpr calm
  cases a with
  | send =>
    rw [EventServer.step] at h
    split at h
    · rename_i idle
      have quiet : s.events.quiet = true := by rw [idle, EventsAt.quiet]
      cases h
      rw [EventServer.sendEvent]
      split
      · exact (EventsMove.look (n := s.nsteals) quiet rfl).placed placed
      · rename_i head
        exact EventsMove.placed placed (.receive quiet rfl (by intro same; cases same) (mem_of_head head))
    · cases h
  | enable =>
    rw [EventServer.step] at h
    split at h
    · rename_i idle
      have quiet : s.events.quiet = true := by rw [idle, EventsAt.quiet]
      cases h
      exact (EventsMove.look (n := s.nsteals) quiet rfl).placed placed
    · cases h
  | events => exact (eventsStep_move placed.conserved h).placed placed
  | initializeClient =>
    rw [EventServer.step] at h
    split at h
    · rename_i at_
      cases h
      rw [EventServer.initializeClient]
      split
      · exact placed
      · refine placed_slots placed fun q slot => ?_
        rw [at_] at slot
        cases slot
    · cases h
  | accept =>
    rw [EventServer.step] at h
    split at h
    · rename_i at_
      cases h
      refine (RoutineMove.wait ?_ rfl).placed placed
      rw [at_, RoutineAt.plain]
    · cases h
  | dispatch =>
    rw [EventServer.step] at h
    split at h
    · rename_i at_
      split at h
      · cases h
      · rename_i head
        cases h
        exact placed_distribute placed at_ (mem_of_head head)
    · cases h
  | retire q =>
    rw [EventServer.step] at h
    split at h
    · rename_i both
      cases h
      exact placed_retire placed both.1 both.2
    · cases h
  | routine => exact (routineStep_move placed.conserved careful h).placed placed
  | get q =>
    rw [EventServer.step] at h
    split at h
    · rename_i connected
      split at h
      · cases h
      · rename_i head
        cases h
        exact placed_get placed connected (mem_of_head head)
    · cases h
  | free q j =>
    rw [EventServer.step] at h
    split at h
    · rename_i both
      -- In distributed mode a client returns to the input queue, which has room for all.
      have back : prms.returnQueue q = .input := by rw [ServerParams.returnQueue, distributed, Bool.false_and]; rfl
      cases h
      rw [back, send_of (q := .input) placed.conserved both.2 (by intro same; cases same) rfl]
      exact placed_free placed both.1 both.2
    · cases h
  | close q =>
    rw [EventServer.step] at h
    split at h
    · rename_i connected
      cases h
      refine placed_slots placed fun q' slot => ?_
      cases eq_or_ne q' q with
      | inl same =>
        subst same
        exact Function.update_self _ _ _
      | inr other =>
        rw [Function.update_of_ne other]
        exact placed.gone q' slot
    · cases h

/-- A server starts so. -/
lemma init_placed : (EventServer.init prms).Placed prms := by
  refine ⟨init_conserved, nofun, ?_, ?_, nofun, nofun, fun p j mem => ?_⟩
  · intro i mem
    cases mem
  · exact nofun
  · cases p with
    | input => exact nofun
    | _ => cases mem

end moves

end Lcls2.Shmem
