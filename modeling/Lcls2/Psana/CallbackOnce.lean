import Lcls2.Psana.Build
import Lcls2.Psana.SmdCallback

/-!
# Transitions pass the smalldata callback

What is appended in the loops of the iterators is told from what happened: the transitions that were passed
and what the callback yielded where it saw something. `Walk` is one call of the callback over the events of
a batch; both ways to go through the events are walks, and differ in the transitions that they pass.
-/

namespace Lcls2.Psana
open Lcls2.Lib

section log
variable (cb : SmdCallback)

/-- The transitions that were passed. -/
def passedOf : List Happens → List ProxyEvent
  | [] => []
  | .pass evt :: log => passedOf log ++ [evt]
  | .see _ :: log => passedOf log

/-- The events that the callback yielded. -/
def yielded : List Happens → List ProxyEvent
  | [] => []
  | .pass _ :: log => yielded log
  | .see what :: log => yielded log ++ cb.yields (what :: seenOf log)

/-- The events that were appended. -/
def appended : List Happens → List ProxyEvent
  | [] => []
  | .pass evt :: log => appended log ++ [evt]
  | .see what :: log => appended log ++ cb.yields (what :: seenOf log)

/-- The callback yields events in the order of their timestamps, and each of them before a later one is
    appended. -/
def InOrder : List Happens → Prop
  | [] => True
  | .pass _ :: log => InOrder log
  | .see what :: log =>
    InOrder log ∧ (cb.yields (what :: seenOf log)).Pairwise (·.timestamp < ·.timestamp) ∧
      ∀ evt ∈ cb.yields (what :: seenOf log), ∀ p ∈ appended cb log, p.timestamp < evt.timestamp

/-- Transitions are passed and L1Accept events are seen. -/
structure Sound (log : List Happens) : Prop where
  passed : ∀ evt, .pass evt ∈ log → evt.service ≠ l1Accept
  seen : ∀ evt, .see (.event evt) ∈ log → evt.service = l1Accept

/-- A transition is passed when nothing later has been appended. -/
def Timely : List Happens → Prop
  | [] => True
  | .pass evt :: log => Timely log ∧ ∀ p ∈ appended cb log, p.timestamp < evt.timestamp
  | .see _ :: log => Timely log

/-- Events that are later than all that has happened. -/
def Ahead (rest : List ProxyEvent) (log : List Happens) : Prop :=
  ∀ x ∈ rest, ∀ evt, (.pass evt ∈ log ∨ .see (.event evt) ∈ log) → evt.timestamp < x.timestamp

variable {cb} {log : List Happens}

/-- What was seen happened. -/
lemma mem_seenOf {what : Seen} : what ∈ seenOf log ↔ .see what ∈ log := by
  induction log with
  | nil => exact iff_of_false (List.not_mem_nil) (List.not_mem_nil)
  | cons h log ih =>
    cases h with
    | pass evt => simp [seenOf, ih]
    | see w => simp [seenOf, ih]

/-- What is yielded was seen before. -/
lemma mem_yields {what : Seen} {evt : ProxyEvent} (h : evt ∈ cb.yields (what :: seenOf log)) :
    .see (.event evt) ∈ Happens.see what :: log := by
  cases List.mem_cons.mp (cb.seen _ evt h) with
  | inl e => exact e ▸ List.mem_cons_self
  | inr old => exact List.mem_cons_of_mem _ (mem_seenOf.mp old)

/-- What is appended was passed or seen. -/
lemma mem_appended {evt : ProxyEvent} (h : evt ∈ appended cb log) :
    .pass evt ∈ log ∨ .see (.event evt) ∈ log := by
  induction log with
  | nil => cases h
  | cons what log ih =>
    have old : evt ∈ appended cb log → .pass evt ∈ what :: log ∨ .see (.event evt) ∈ what :: log :=
      fun h => (ih h).imp (List.mem_cons_of_mem _) (List.mem_cons_of_mem _)
    cases what with
    | pass p =>
      cases List.mem_append.mp h with
      | inl h => exact old h
      | inr h => exact .inl (List.mem_singleton.mp h ▸ List.mem_cons_self)
    | see w =>
      cases List.mem_append.mp h with
      | inl h => exact old h
      | inr h => exact .inr (mem_yields h)

/-- What is sound stays sound before. -/
lemma Sound.tail {h : Happens} (sound : Sound (h :: log)) : Sound log :=
  ⟨fun evt he => sound.passed evt (List.mem_cons_of_mem h he),
    fun evt he => sound.seen evt (List.mem_cons_of_mem h he)⟩

variable (cb) in
/-- The transitions among what is appended are those that were passed, the others were yielded. -/
lemma filter_appended (sound : Sound log) :
    (appended cb log).filter (·.service ≠ l1Accept) = passedOf log ∧
      (appended cb log).filter (·.service = l1Accept) = yielded cb log := by
  induction log with
  | nil => exact ⟨rfl, rfl⟩
  | cons h log ih =>
    obtain ⟨ih, ih'⟩ := ih sound.tail
    cases h with
    | pass evt =>
      have transition := sound.passed evt List.mem_cons_self
      simp only [appended, passedOf, yielded, List.filter_append, ih, ih']
      constructor
      · rw [List.filter_cons_of_pos (by simpa using transition), List.filter_nil]
      · rw [List.filter_cons_of_neg (by simpa using transition), List.filter_nil, List.append_nil]
    | see what =>
      have l1 : ∀ evt ∈ cb.yields (what :: seenOf log), evt.service = l1Accept :=
        fun evt he => sound.seen evt (mem_yields he)
      simp only [appended, passedOf, yielded, List.filter_append, ih, ih']
      constructor
      · rw [List.filter_eq_nil_iff.mpr (fun evt he => by simpa using l1 evt he), List.append_nil]
      · rw [List.filter_eq_self.mpr (fun evt he => by simpa using l1 evt he)]

/-- What is appended is in the order of the timestamps if and only if the callback yields in order. -/
lemma sorted_iff (timely : Timely cb log) :
    (appended cb log).Pairwise (·.timestamp < ·.timestamp) ↔ InOrder cb log := by
  induction log with
  | nil => exact iff_of_true .nil trivial
  | cons h log ih =>
    cases h with
    | pass evt =>
      rw [appended, InOrder, List.pairwise_append, ih timely.1]
      refine and_iff_left ⟨List.pairwise_singleton _ _, ?_⟩
      intro p hp q hq
      exact List.mem_singleton.mp hq ▸ timely.2 p hp
    | see what =>
      rw [appended, InOrder, List.pairwise_append, ih timely]
      refine and_congr_right fun _ => and_congr_right fun _ => ?_
      exact ⟨fun all evt he p hp => all p hp evt he, fun all p hp evt he => all evt he p hp⟩

end log

section walk
variable {cb : SmdCallback}

/-- What the callback sees is an event. -/
def Seen.isEvent : Seen → Bool
  | .event _ => true
  | _ => false

/-- One call of the callback over some events; any of them may be skipped. -/
inductive Walk (cb : SmdCallback) : BatchIterator → List ProxyEvent → BatchIterator → Prop where
  | nil {s} : Walk cb s [] s
  | pass {s evt rest s'} :
    evt.service ≠ l1Accept →
    Walk cb (s.append evt) rest s' →
    Walk cb s (evt :: rest) s'
  | event {s evt rest s'} :
    evt.service = l1Accept →
    Walk cb (s.see cb (.event evt)) rest s' →
    Walk cb s (evt :: rest) s'
  | skip {s evt rest s'} :
    Walk cb s rest s' →
    Walk cb s (evt :: rest) s'
  | look {s what rest s'} :
    what.isEvent = false →
    Walk cb (s.see cb what) rest s' →
    Walk cb s rest s'
  | iter {s rest s'} (evtIter) :
    Walk cb { s with evtIter } rest s' →
    Walk cb s rest s'
  | bufs {s rest s'} (mypybufs) :
    Walk cb { s with mypybufs } rest s' →
    Walk cb s rest s'

/-- Skipping events. -/
lemma Walk.skips (s : BatchIterator) (rest : List ProxyEvent) : Walk cb s rest s := by
  induction rest with
  | nil => exact .nil
  | cons evt rest ih => exact .skip ih

/-- Looking at something once more, and skipping the rest. -/
lemma Walk.last {s : BatchIterator} {what : Seen} (other : what.isEvent = false)
    (rest : List ProxyEvent) : Walk cb s rest (s.see cb what) :=
  .look other (.skips _ rest)

/-- Going through the events of the run is a walk. -/
lemma walk_events (evts : List ProxyEvent) (s : BatchIterator) :
    Walk cb s evts (BatchIterator.events cb evts s) := by
  induction evts generalizing s with
  | nil => exact .last rfl []
  | cons evt rest ih =>
    rw [BatchIterator.events]
    split
    next transition =>
      apply Walk.pass transition
      split
      · exact .last rfl rest
      · exact ih _
    next l1 => exact .event (not_not.mp l1) (ih _)

/-- So is going through its steps and their events. -/
lemma walk_steps (inside : Bool) (evts : List ProxyEvent) (s : BatchIterator) :
    Walk cb s evts (BatchIterator.steps cb inside evts s) := by
  induction evts generalizing inside s with
  | nil =>
    cases inside with
    | false => exact .iter _ (.last rfl [])
    | true => exact .iter _ (.look rfl (.last rfl []))
  | cons evt rest ih =>
    cases inside with
    | false =>
      rw [BatchIterator.steps]
      split
      next transition =>
        apply Walk.pass transition
        split
        · exact .iter _ (.last rfl rest)
        · split
          · exact .look rfl (ih _ _)
          · exact ih _ _
      next l1 => exact .skip (ih _ _)
    | true =>
      rw [BatchIterator.steps]
      split
      next transition =>
        split
        · exact .skip (.look rfl (ih _ _))
        · exact .pass transition (ih _ _)
      next l1 => exact .event (not_not.mp l1) (ih _ _)

/-- What holds while the events that come are still these, and the events handed over so far are those. -/
structure Inv (cb : SmdCallback) (handed rest : List ProxyEvent) (s : BatchIterator) : Prop where
  out : appended cb s.log = handed ++ s.proxyEvents
  sound : Sound s.log
  timely : Timely cb s.log
  ahead : Ahead rest s.log

variable {handed evts rest : List ProxyEvent} {s s' : BatchIterator}

/-- A transition is passed. -/
lemma Inv.append {evt : ProxyEvent} (inv : Inv cb handed (evt :: rest) s) (transition : evt.service ≠ l1Accept)
    (later : ∀ x ∈ rest, evt.timestamp < x.timestamp) : Inv cb handed rest (s.append evt) where
  out := by
    rw [BatchIterator.append, appended, inv.out, List.append_assoc]
  sound := by
    refine ⟨fun e he => ?_, fun e he => ?_⟩
    · cases he with
      | head => exact transition
      | tail _ he => exact inv.sound.passed e he
    · cases he with
      | tail _ he => exact inv.sound.seen e he
  timely := ⟨inv.timely, fun p hp => inv.ahead evt List.mem_cons_self p (mem_appended hp)⟩
  ahead := by
    intro x hx e he
    cases he with
    | inl he =>
      cases he with
      | head => exact later x hx
      | tail _ he => exact inv.ahead x (List.mem_cons_of_mem _ hx) e (.inl he)
    | inr he =>
      cases he with
      | tail _ he => exact inv.ahead x (List.mem_cons_of_mem _ hx) e (.inr he)

/-- The callback sees something; if it is an event, an earlier one than those that come. -/
lemma Inv.see {what : Seen} (inv : Inv cb handed rest s)
    (l1 : ∀ evt, what = .event evt → evt.service = l1Accept ∧ ∀ x ∈ rest, evt.timestamp < x.timestamp) :
    Inv cb handed rest (s.see cb what) where
  out := by
    rw [BatchIterator.see, appended, inv.out, List.append_assoc]
  sound := by
    refine ⟨fun e he => ?_, fun e he => ?_⟩
    · cases he with
      | tail _ he => exact inv.sound.passed e he
    · cases he with
      | head => exact (l1 e rfl).1
      | tail _ he => exact inv.sound.seen e he
  timely := inv.timely
  ahead := by
    intro x hx e he
    cases he with
    | inl he =>
      cases he with
      | tail _ he => exact inv.ahead x hx e (.inl he)
    | inr he =>
      cases he with
      | head => exact (l1 e rfl).2 x hx
      | tail _ he => exact inv.ahead x hx e (.inr he)

/-- A walk over the events that come first. -/
lemma Walk.inv (walk : Walk cb s evts s') (inv : Inv cb handed (evts ++ rest) s)
    (sorted : (evts ++ rest).Pairwise (·.timestamp < ·.timestamp)) :
    Inv cb handed rest s' := by
  induction walk with
  | nil => exact inv
  | pass transition _ ih =>
    rw [List.cons_append, List.pairwise_cons] at sorted
    exact ih (inv.append transition sorted.1) sorted.2
  | event l1 _ ih =>
    rw [List.cons_append, List.pairwise_cons] at sorted
    have inv' : Inv cb handed _ _ :=
      ⟨inv.out, inv.sound, inv.timely, fun x hx => inv.ahead x (List.mem_cons_of_mem _ hx)⟩
    refine ih (inv'.see ?_) sorted.2
    rintro e ⟨⟩
    exact ⟨l1, sorted.1⟩
  | skip _ ih =>
    rw [List.cons_append, List.pairwise_cons] at sorted
    exact ih ⟨inv.out, inv.sound, inv.timely, fun x hx => inv.ahead x (List.mem_cons_of_mem _ hx)⟩ sorted.2
  | look other _ ih =>
    refine ih (inv.see ?_) sorted
    rintro e rfl
    cases other
  | iter _ _ ih => exact ih ⟨inv.out, inv.sound, inv.timely, inv.ahead⟩ sorted
  | bufs _ _ ih => exact ih ⟨inv.out, inv.sound, inv.timely, inv.ahead⟩ sorted

/-- One walk after another. -/
lemma Walk.trans {s'' : BatchIterator} (walk : Walk cb s evts s') (walk' : Walk cb s' rest s'') :
    Walk cb s (evts ++ rest) s'' := by
  induction walk with
  | nil => exact walk'
  | pass transition _ ih => exact .pass transition (ih walk')
  | event l1 _ ih => exact .event l1 (ih walk')
  | skip _ ih => exact .skip (ih walk')
  | look other _ ih => exact .look other (ih walk')
  | iter evtIter _ ih => exact .iter evtIter (ih walk')
  | bufs mypybufs _ ih => exact .bufs mypybufs (ih walk')

/-- The views are not read in the loops. -/
lemma events_bufs (evts : List ProxyEvent) (s : BatchIterator) :
    (BatchIterator.events cb evts s).mypybufs = s.mypybufs := by
  induction evts generalizing s with
  | nil => rfl
  | cons evt rest ih =>
    rw [BatchIterator.events]
    split
    · split
      · rfl
      · exact ih _
    · exact ih _

lemma steps_bufs (inside : Bool) (evts : List ProxyEvent) (s : BatchIterator) :
    (BatchIterator.steps cb inside evts s).mypybufs = s.mypybufs := by
  induction evts generalizing inside s with
  | nil => cases inside <;> rfl
  | cons evt rest ih =>
    cases inside with
    | false =>
      rw [BatchIterator.steps]
      split
      · split
        · rfl
        · split
          · exact ih _ _
          · exact ih _ _
      · exact ih _ _
    | true =>
      rw [BatchIterator.steps]
      split
      · split
        · exact ih _ _
        · exact ih _ _
      · exact ih _ _

end walk

section kept

/-- The transitions that `RunSmallData.events` passes. -/
def runKept : List ProxyEvent → List ProxyEvent
  | [] => []
  | evt :: rest =>
    if evt.service ≠ l1Accept then evt :: if evt.service = endRun then [] else runKept rest
    else runKept rest

/-- No transition comes after an EndRun. -/
def RunWhole : List ProxyEvent → Prop
  | [] => True
  | evt :: rest => if evt.service = endRun then ∀ x ∈ rest, x.service = l1Accept else RunWhole rest

/-- The transitions that `RunSmallData.steps` and `Step.events` pass. -/
def stepsKept : Bool → List ProxyEvent → List ProxyEvent
  | _, [] => []
  | false, evt :: rest =>
    if evt.service ≠ l1Accept then
      evt :: if evt.service = endRun then [] else stepsKept (evt.service = beginStep) rest
    else stepsKept false rest
  | true, evt :: rest =>
    if evt.service ≠ l1Accept then
      if evt.service = endStep then stepsKept false rest else evt :: stepsKept true rest
    else stepsKept true rest

/-- No EndStep comes after a BeginStep, and no transition after an EndRun that comes before it. -/
def StepsWhole : Bool → List ProxyEvent → Prop
  | _, [] => True
  | false, evt :: rest =>
    if evt.service = endRun then ∀ x ∈ rest, x.service = l1Accept
    else StepsWhole (evt.service = beginStep) rest
  | true, evt :: rest => evt.service ≠ endStep ∧ StepsWhole true rest

/-- What passes is part of the transitions. -/
lemma runKept_sublist (evts : List ProxyEvent) :
    (runKept evts).Sublist (evts.filter (·.service ≠ l1Accept)) := by
  induction evts with
  | nil => exact .slnil
  | cons evt rest ih =>
    rw [runKept]
    split
    next transition =>
      rw [List.filter_cons_of_pos (by simpa using transition)]
      apply List.Sublist.cons_cons
      split
      · exact List.nil_sublist _
      · exact ih
    next l1 =>
      rw [List.filter_cons_of_neg (by simpa using l1)]
      exact ih

/-- Events none of which is a transition. -/
lemma filter_transitions_nil {evts : List ProxyEvent} :
    [] = evts.filter (·.service ≠ l1Accept) ↔ ∀ x ∈ evts, x.service = l1Accept := by
  rw [eq_comm, List.filter_eq_nil_iff]
  exact forall₂_congr fun x _ => by simp

/-- All transitions pass if none comes after an EndRun. -/
lemma runKept_eq (evts : List ProxyEvent) :
    runKept evts = evts.filter (·.service ≠ l1Accept) ↔ RunWhole evts := by
  induction evts with
  | nil => exact iff_of_true rfl trivial
  | cons evt rest ih =>
    rw [runKept, RunWhole]
    split
    next transition =>
      rw [List.filter_cons_of_pos (by simpa using transition), List.cons_inj_right]
      split
      · exact filter_transitions_nil
      · exact ih
    next l1 =>
      have other : evt.service ≠ endRun := by
        rw [not_not.mp l1]
        decide
      rw [List.filter_cons_of_neg (by simpa using l1), if_neg other]
      exact ih

/-- What passes in steps is part of the transitions. -/
lemma stepsKept_sublist (inside : Bool) (evts : List ProxyEvent) :
    (stepsKept inside evts).Sublist (evts.filter (·.service ≠ l1Accept)) := by
  induction evts generalizing inside with
  | nil => exact List.nil_sublist _
  | cons evt rest ih =>
    cases inside with
    | false =>
      rw [stepsKept]
      split
      next transition =>
        rw [List.filter_cons_of_pos (by simpa using transition)]
        apply List.Sublist.cons_cons
        split
        · exact List.nil_sublist _
        · exact ih _
      next l1 =>
        rw [List.filter_cons_of_neg (by simpa using l1)]
        exact ih _
    | true =>
      rw [stepsKept]
      split
      next transition =>
        rw [List.filter_cons_of_pos (by simpa using transition)]
        split
        · exact (ih _).cons _
        · exact (ih _).cons_cons _
      next l1 =>
        rw [List.filter_cons_of_neg (by simpa using l1)]
        exact ih _

/-- All transitions pass if there is no EndStep in a step, and none after an EndRun. -/
lemma stepsKept_eq (inside : Bool) (evts : List ProxyEvent) :
    stepsKept inside evts = evts.filter (·.service ≠ l1Accept) ↔ StepsWhole inside evts := by
  induction evts generalizing inside with
  | nil => exact iff_of_true rfl trivial
  | cons evt rest ih =>
    cases inside with
    | false =>
      rw [stepsKept, StepsWhole]
      split
      next transition =>
        rw [List.filter_cons_of_pos (by simpa using transition), List.cons_inj_right]
        split
        · exact filter_transitions_nil
        · exact ih _
      next l1 =>
        have l1 := not_not.mp l1
        have notEnd : evt.service ≠ endRun := by
          rw [l1]
          decide
        have notBegin : decide (evt.service = beginStep) = false := by
          rw [l1]
          decide
        rw [List.filter_cons_of_neg (by simpa using l1), if_neg notEnd, notBegin]
        exact ih _
    | true =>
      rw [stepsKept, StepsWhole]
      split
      next transition =>
        rw [List.filter_cons_of_pos (by simpa using transition)]
        split
        next ends =>
          -- one transition fewer than there are
          refine iff_of_false ?_ fun all => all.1 ends
          intro eq
          have le := (stepsKept_sublist false rest).length_le
          rw [eq, List.length_cons] at le
          omega
        next goes =>
          rw [List.cons_inj_right, ih]
          exact (and_iff_right goes).symm
      next l1 =>
        have l1 := not_not.mp l1
        have notEnd : evt.service ≠ endStep := by
          rw [l1]
          decide
        rw [List.filter_cons_of_neg (by simpa using l1), ih]
        exact (and_iff_right notEnd).symm

/-- Parts of the batches make up the whole if each makes up its batch. -/
lemma flatMap_eq_iff {f g : List ProxyEvent → List ProxyEvent} (part : ∀ batch, (f batch).Sublist (g batch))
    (batches : List (List ProxyEvent)) :
    batches.flatMap f = batches.flatMap g ↔ ∀ batch ∈ batches, f batch = g batch := by
  induction batches with
  | nil => exact iff_of_true rfl nofun
  | cons batch batches ih =>
    rw [List.flatMap_cons, List.flatMap_cons, List.forall_mem_cons, ← ih]
    constructor
    · intro eq
      have whole : (batches.flatMap f).length ≤ (batches.flatMap g).length := by
        have sub : (batches.flatMap f).Sublist (batches.flatMap g) := by
          clear ih eq
          induction batches with
          | nil => exact .slnil
          | cons b batches ih => exact (part b).append ih
        exact sub.length_le
      have first := (part batch).length_le
      have total := congrArg List.length eq
      rw [List.length_append, List.length_append] at total
      exact List.append_inj eq (by omega)
    · rintro ⟨first, others⟩
      rw [first, others]

/-- What happens where `RunSmallData.events` goes through some events. -/
def runHappens : List ProxyEvent → List Happens
  | [] => [.see .done]
  | evt :: rest =>
    if evt.service ≠ l1Accept then
      .pass evt :: if evt.service = endRun then [.see .done] else runHappens rest
    else .see (.event evt) :: runHappens rest

/-- What happens where `RunSmallData.steps` and `Step.events` go through some events. -/
def stepsHappen : Bool → List ProxyEvent → List Happens
  | false, [] => [.see .done]
  | true, [] => [.see .stepEnd, .see .done]
  | false, evt :: rest =>
    if evt.service ≠ l1Accept then
      .pass evt ::
        if evt.service = endRun then [.see .done]
        else if evt.service = beginStep then .see (.step evt) :: stepsHappen true rest
        else stepsHappen false rest
    else stepsHappen false rest
  | true, evt :: rest =>
    if evt.service ≠ l1Accept then
      if evt.service = endStep then .see .stepEnd :: stepsHappen false rest
      else .pass evt :: stepsHappen true rest
    else .see (.event evt) :: stepsHappen true rest

/-- The transitions that were passed, the first one first. -/
lemma passedOf_reverse (happens log : List Happens) :
    passedOf (happens.reverse ++ log) = passedOf log ++ passedOf happens.reverse := by
  induction happens generalizing log with
  | nil => exact (List.append_nil _).symm
  | cons h happens ih =>
    rw [List.reverse_cons, List.append_assoc, ih, ih [h]]
    cases h with
    | pass evt =>
      show passedOf log ++ [evt] ++ _ = passedOf log ++ ([] ++ [evt] ++ _)
      rw [List.append_assoc, List.nil_append]
    | see what => rfl

lemma passedOf_flatMap (f : List ProxyEvent → List Happens) (batches : List (List ProxyEvent)) :
    passedOf (batches.flatMap f).reverse = batches.flatMap fun batch => passedOf (f batch).reverse := by
  induction batches with
  | nil => rfl
  | cons batch batches ih =>
    rw [List.flatMap_cons, List.reverse_append, passedOf_reverse, ih, List.flatMap_cons]

lemma passedOf_cons (h : Happens) (happens : List Happens) :
    passedOf (h :: happens).reverse = passedOf [h] ++ passedOf happens.reverse := by
  rw [List.reverse_cons, passedOf_reverse]

/-- The transitions that going through the events passes. -/
lemma passedOf_runHappens (evts : List ProxyEvent) : passedOf (runHappens evts).reverse = runKept evts := by
  induction evts with
  | nil => rfl
  | cons evt rest ih =>
    rw [runHappens, runKept]
    split
    · rw [passedOf_cons]
      split
      · rfl
      · rw [ih]
        rfl
    · rw [passedOf_cons, ih]
      rfl

/-- The transitions that going through the steps passes. -/
lemma passedOf_stepsHappen (inside : Bool) (evts : List ProxyEvent) :
    passedOf (stepsHappen inside evts).reverse = stepsKept inside evts := by
  induction evts generalizing inside with
  | nil =>
    cases inside with
    | false => rfl
    | true => rfl
  | cons evt rest ih =>
    cases inside with
    | false =>
      rw [stepsHappen, stepsKept]
      split
      · rw [passedOf_cons]
        split
        · rfl
        · split
          next begins =>
            rw [passedOf_cons, ih, decide_eq_true begins]
            rfl
          next other =>
            rw [ih, decide_eq_false other]
            rfl
      · exact ih _
    | true =>
      rw [stepsHappen, stepsKept]
      split
      · split
        · rw [passedOf_cons, ih]
          rfl
        · rw [passedOf_cons, ih]
          rfl
      · rw [passedOf_cons, ih]
        rfl

variable {cb : SmdCallback}

/-- What has happened after going through the events. -/
lemma events_log (evts : List ProxyEvent) (s : BatchIterator) :
    (BatchIterator.events cb evts s).log = (runHappens evts).reverse ++ s.log := by
  induction evts generalizing s with
  | nil => rfl
  | cons evt rest ih =>
    rw [BatchIterator.events, runHappens]
    split
    · rw [List.reverse_cons, List.append_assoc]
      split
      · rfl
      · rw [ih]
        rfl
    · rw [ih, List.reverse_cons, List.append_assoc]
      rfl

/-- What has happened after going through the steps. -/
lemma steps_log (inside : Bool) (evts : List ProxyEvent) (s : BatchIterator) :
    (BatchIterator.steps cb inside evts s).log = (stepsHappen inside evts).reverse ++ s.log := by
  induction evts generalizing inside s with
  | nil =>
    cases inside with
    | false => rfl
    | true => rfl
  | cons evt rest ih =>
    cases inside with
    | false =>
      rw [BatchIterator.steps, stepsHappen]
      split
      · rw [List.reverse_cons, List.append_assoc]
        split
        · rfl
        · split
          · rw [ih, List.reverse_cons, List.append_assoc]
            rfl
          · rw [ih]
            rfl
      · exact ih _ _
    | true =>
      rw [BatchIterator.steps, stepsHappen]
      split
      · split
        · rw [ih, List.reverse_cons, List.append_assoc]
          rfl
        · rw [ih, List.reverse_cons, List.append_assoc]
          rfl
      · rw [ih, List.reverse_cons, List.append_assoc]
        rfl

/-- After going through the steps, their iterator has been made. -/
lemma steps_made (inside : Bool) (evts : List ProxyEvent) (s : BatchIterator) :
    (BatchIterator.steps cb inside evts s).evtIter.isSome = true := by
  induction evts generalizing inside s with
  | nil =>
    cases inside with
    | false => rfl
    | true => rfl
  | cons evt rest ih =>
    cases inside with
    | false =>
      rw [BatchIterator.steps]
      split
      · split
        · rfl
        · split
          · exact ih _ _
          · exact ih _ _
      · exact ih _ _
    | true =>
      rw [BatchIterator.steps]
      split
      · split
        · exact ih _ _
        · exact ih _ _
      · exact ih _ _

end kept

section runs
variable {dsparms : DsParms} {fuel : Nat} {cb : SmdCallback}

/-- The batches that calls of `build` cut from the views. -/
inductive Builds (dsparms : DsParms) (fuel : Nat) :
    List MyPyBuffer → List (List ProxyEvent) → List MyPyBuffer → Prop where
  | nil {bufs} : Builds dsparms fuel bufs [] bufs
  | cons {bufs batch bufs' batches bufs''} :
    hasMore bufs = true →
    build dsparms fuel bufs = .ok (batch, bufs') →
    Builds dsparms fuel bufs' batches bufs'' →
    Builds dsparms fuel bufs (batch :: batches) bufs''

/-- More batches after some. -/
lemma Builds.trans {bufs bufs' bufs'' : List MyPyBuffer} {batches batches' : List (List ProxyEvent)}
    (first : Builds dsparms fuel bufs batches bufs') (then_ : Builds dsparms fuel bufs' batches' bufs'') :
    Builds dsparms fuel bufs (batches ++ batches') bufs'' := by
  induction first with
  | nil => exact then_
  | cons more built _ ih => exact .cons more built (ih then_)

/-- The views are cut into batches in one way. -/
lemma Builds.unique {bufs bufs₁ bufs₂ : List MyPyBuffer} {batches₁ batches₂ : List (List ProxyEvent)}
    (builds : Builds dsparms fuel bufs batches₁ bufs₁) (builds' : Builds dsparms fuel bufs batches₂ bufs₂)
    (used : hasMore bufs₁ = false) (used' : hasMore bufs₂ = false) : batches₁ = batches₂ := by
  induction builds generalizing batches₂ with
  | nil =>
    cases builds' with
    | nil => rfl
    | cons more _ _ =>
      rw [used] at more
      cases more
  | cons more built _ ih =>
    cases builds' with
    | nil =>
      rw [used'] at more
      cases more
    | cons _ built' builds' =>
      rw [built] at built'
      cases built'
      rw [ih builds' used]

/-- The batches are cut from the merge of the views, in its order, without what the filter rejects. -/
lemma Builds.rows {bufs bufs' : List MyPyBuffer} {batches : List (List ProxyEvent)}
    {lists : List (List PyDgram)} {rows : List (Row Nat PyDgram)} (builds : Builds dsparms fuel bufs batches bufs')
    (index : ∀ i, dsparms.intgStreamId = some i → i < lists.length)
    (rest : List.Forall₂ MyPyBuffer.Rest bufs lists) (views : Views lists) (merge : Rows dsparms lists rows)
    (hfuel : total lists < fuel) :
    hasMore bufs' = false →
      batches.flatten = (rows.filter (passesFilter dsparms)).map (eventOf dsparms.destination) := by
  induction builds generalizing lists rows with
  | nil =>
    intro used
    have none := mt (hasMore_iff rest).mpr (by rw [used]; exact Bool.false_ne_true)
    have le := merge.length_le
    have empty : rows = [] := List.eq_nil_of_length_eq_zero (by omega)
    rw [empty]
    rfl
  | @cons bufs batch bufs' batches bufs'' more built _ ih =>
    obtain ⟨n, bufs₁, lists', hloop, b⟩ := buildLoop_spec 0 index rest views merge hfuel
    rw [build, hloop] at built
    simp only at built
    split at built
    · cases built
      have all := ih (fun i hi => by rw [b.length]; exact index i hi) b.rest b.views b.merge
        (by have := b.total; omega)
      intro used
      rw [List.flatten_cons, all used, ← List.map_append, ← List.filter_append, List.take_append_drop]
    · cases built

/-- A loop that ends needs no more rounds than it had. -/
lemma loop_mono {n m : Nat} {s s' : BatchIterator} (h : s.loop dsparms fuel cb n = .ok s') (le : n ≤ m) :
    s.loop dsparms fuel cb m = .ok s' := by
  induction n generalizing m s with
  | zero => cases h
  | succ n ih =>
    obtain ⟨m, rfl⟩ := Nat.exists_eq_add_of_le' (Nat.one_le_of_lt le)
    rw [BatchIterator.loop] at h ⊢
    split
    next go =>
      rw [if_pos go] at h
      cases e : s.callback dsparms fuel cb with
      | error f =>
        rw [e] at h
        cases h
      | ok t =>
        rw [e] at h
        exact ih h (Nat.le_of_succ_le_succ le)
    next stop =>
      rw [if_neg stop] at h
      exact h

/-- Calls that end need no more rounds or calls than they had. -/
lemma nextAll_mono {n n' m m' : Nat} {s : BatchIterator} {r} (h : s.nextAll dsparms fuel cb n m = .ok r)
    (le : n ≤ n') (le' : m ≤ m') : s.nextAll dsparms fuel cb n' m' = .ok r := by
  induction m generalizing m' s r with
  | zero => cases h
  | succ m ih =>
    obtain ⟨m', rfl⟩ := Nat.exists_eq_add_of_le' (Nat.one_le_of_lt le')
    rw [BatchIterator.nextAll] at h ⊢
    cases e : s.loop dsparms fuel cb n with
    | error f =>
      rw [e] at h
      cases h
    | ok t =>
      rw [e] at h
      rw [loop_mono e le]
      simp only at h ⊢
      split
      next stop =>
        rw [if_pos stop] at h
        exact h
      next go =>
        rw [if_neg go] at h
        cases e' : BatchIterator.nextAll dsparms fuel cb n m { t with proxyEvents := [] } with
        | error f =>
          rw [e'] at h
          cases h
        | ok r' =>
          rw [e'] at h
          rw [ih e' (Nat.le_of_succ_le_succ le')]
          exact h

/-- A call of a callback that goes through the events of the run. -/
lemma callback_events (mode : cb.steps = false) {s t : BatchIterator} (h : s.callback dsparms fuel cb = .ok t) :
    ∃ batch, build dsparms fuel s.mypybufs = .ok (batch, t.mypybufs) ∧ Walk cb s batch t ∧
      t.log = (runHappens batch).reverse ++ s.log := by
  rw [BatchIterator.callback, mode, if_neg Bool.false_ne_true] at h
  cases e : build dsparms fuel s.mypybufs with
  | error f =>
    rw [e] at h
    cases h
  | ok built =>
    rw [e] at h
    cases h
    refine ⟨built.1, ?_, .bufs built.2 (walk_events _ _), events_log _ _⟩
    rw [events_bufs]

/-- The loop of `__next__` with such a callback. -/
lemma loop_events (mode : cb.steps = false) {n : Nat} {s s' : BatchIterator}
    (h : s.loop dsparms fuel cb n = .ok s') :
    ∃ batches, Builds dsparms fuel s.mypybufs batches s'.mypybufs ∧ Walk cb s batches.flatten s' ∧
      s'.log = (batches.flatMap runHappens).reverse ++ s.log ∧
      (s'.proxyEvents = [] → hasMore s'.mypybufs = false) := by
  induction n generalizing s with
  | zero => cases h
  | succ n ih =>
    rw [BatchIterator.loop] at h
    split at h
    next go =>
      cases e : s.callback dsparms fuel cb with
      | error f =>
        rw [e] at h
        cases h
      | ok t =>
        rw [e] at h
        obtain ⟨batch, built, walk, log⟩ := callback_events mode e
        obtain ⟨batches, builds, walks, log', used⟩ := ih h
        refine ⟨batch :: batches, .cons go.2 built builds, walk.trans walks, ?_, used⟩
        rw [log', log, List.flatMap_cons, List.reverse_append, List.append_assoc]
    next stop =>
      cases h
      refine ⟨[], .nil, .nil, rfl, ?_⟩
      intro none
      cases more : hasMore s'.mypybufs with
      | false => rfl
      | true => exact absurd ⟨none, more⟩ stop

/-- All calls of `__next__` with such a callback, if they end. -/
lemma nextAll_events (mode : cb.steps = false) {n m : Nat} {s : BatchIterator} {lists log}
    (h : s.nextAll dsparms fuel cb n m = .ok (lists, log)) :
    ∃ batches bufs', Builds dsparms fuel s.mypybufs batches bufs' ∧ hasMore bufs' = false ∧
      log = (batches.flatMap runHappens).reverse ++ s.log ∧
      ∀ handed, Inv cb handed batches.flatten s → s.proxyEvents = [] →
        batches.flatten.Pairwise (·.timestamp < ·.timestamp) →
        appended cb log = handed ++ lists.flatten ∧ Sound log ∧ Timely cb log := by
  induction m generalizing s lists with
  | zero => cases h
  | succ m ih =>
    rw [BatchIterator.nextAll] at h
    cases e : s.loop dsparms fuel cb n with
    | error f =>
      rw [e] at h
      cases h
    | ok t =>
      rw [e] at h
      -- One call goes through some batches, and the induction through those of the calls after it.
      obtain ⟨batches, builds, walk, log_, used⟩ := loop_events mode e
      simp only at h
      split at h
      next none =>
        cases h
        refine ⟨batches, t.mypybufs, builds, used none, log_, ?_⟩
        intro handed inv empty sorted
        have inv' : Inv cb handed [] t := walk.inv (by rwa [List.append_nil]) (by rwa [List.append_nil])
        have out := inv'.out
        rw [none] at out
        exact ⟨out, inv'.sound, inv'.timely⟩
      next some =>
        cases e' : BatchIterator.nextAll dsparms fuel cb n m { t with proxyEvents := [] } with
        | error f =>
          rw [e'] at h
          cases h
        | ok r =>
          rw [e'] at h
          cases h
          obtain ⟨batches', bufs', builds', used', log', rest⟩ := ih e'
          refine ⟨batches ++ batches', bufs', builds.trans builds', used', ?_, ?_⟩
          · rw [log']
            show _ ++ t.log = _
            rw [log_, List.flatMap_append, List.reverse_append, List.append_assoc]
          · intro handed inv empty sorted
            rw [List.flatten_append] at inv sorted
            have inv' : Inv cb handed batches'.flatten t := walk.inv inv sorted
            have out : appended cb t.log = handed ++ t.proxyEvents ++ [] := by
              rw [List.append_nil]
              exact inv'.out
            have ends := rest (handed ++ t.proxyEvents) ⟨out, inv'.sound, inv'.timely, inv'.ahead⟩ rfl
              (List.pairwise_append.mp sorted).2.1
            refine ⟨?_, ends.2⟩
            rw [ends.1, List.flatten_cons, List.append_assoc]

/-- A round of the loop before the others. -/
lemma nextAll_round {n m : Nat} {s t : BatchIterator} {r} (go : s.proxyEvents = [] ∧ hasMore s.mypybufs = true)
    (h : s.callback dsparms fuel cb = .ok t) (all : t.nextAll dsparms fuel cb n m = .ok r) :
    s.nextAll dsparms fuel cb (n + 1) m = .ok r := by
  cases m with
  | zero => cases all
  | succ m =>
    rw [BatchIterator.nextAll] at all ⊢
    rw [BatchIterator.loop, if_pos go, h]
    cases e : t.loop dsparms fuel cb n with
    | error f =>
      rw [e] at all
      cases all
    | ok u =>
      rw [e] at all
      simp only at all ⊢
      rw [e]
      simp only
      split
      next none =>
        rw [if_pos none] at all
        exact all
      next some =>
        rw [if_neg some] at all
        cases e' : BatchIterator.nextAll dsparms fuel cb n m { u with proxyEvents := [] } with
        | error f =>
          rw [e'] at all
          cases all
        | ok r' =>
          rw [e'] at all
          rw [nextAll_mono e' (Nat.le_succ n) le_rfl]
          exact all

/-- The other rounds after one of the loop. -/
lemma nextAll_after {n m : Nat} {s t : BatchIterator} {r} (go : s.proxyEvents = [] ∧ hasMore s.mypybufs = true)
    (h : s.callback dsparms fuel cb = .ok t) (all : s.nextAll dsparms fuel cb n m = .ok r) :
    t.nextAll dsparms fuel cb n m = .ok r := by
  cases m with
  | zero => cases all
  | succ m =>
    rw [BatchIterator.nextAll] at all ⊢
    cases n with
    | zero => cases all
    | succ n =>
      rw [BatchIterator.loop, if_pos go, h] at all
      cases e : t.loop dsparms fuel cb n with
      | error f =>
        simp only [e] at all
        cases all
      | ok u =>
        rw [loop_mono e (Nat.le_succ n)]
        simp only [e] at all
        exact all

/-- Handing over what has been appended. -/
lemma nextAll_hand {n m : Nat} {t : BatchIterator} {lists log} (some : t.proxyEvents ≠ [])
    (all : BatchIterator.nextAll dsparms fuel cb (n + 1) m { t with proxyEvents := [] } = .ok (lists, log)) :
    t.nextAll dsparms fuel cb (n + 1) (m + 1) = .ok (t.proxyEvents :: lists, log) := by
  rw [BatchIterator.nextAll, BatchIterator.loop, if_neg fun go => some go.1]
  simp only
  rw [if_neg some, all]

/-- Nothing is left. -/
lemma nextAll_end {n m : Nat} {t : BatchIterator} (none : t.proxyEvents = []) (used : hasMore t.mypybufs = false) :
    t.nextAll dsparms fuel cb (n + 1) (m + 1) = .ok ([], t.log) := by
  have stop : ¬(t.proxyEvents = [] ∧ hasMore t.mypybufs = true) := by
    rw [used]
    exact fun go => Bool.false_ne_true go.2
  rw [BatchIterator.nextAll, BatchIterator.loop, if_neg stop]
  simp only
  rw [if_pos none]

/-- The calls end where the views can be cut into batches. -/
lemma nextAll_events_ends (mode : cb.steps = false) {s : BatchIterator} {batches bufs'}
    (builds : Builds dsparms fuel s.mypybufs batches bufs') (used : hasMore bufs' = false)
    (empty : s.proxyEvents = []) : ∃ n r, s.nextAll dsparms fuel cb n n = .ok r := by
  generalize e : s.mypybufs = bufs at builds
  induction builds generalizing s with
  | nil => exact ⟨1, _, nextAll_end empty (e ▸ used)⟩
  | @cons bufs batch bufs₁ batches bufs' more built _ ih =>
    have called : s.callback dsparms fuel cb =
        .ok (BatchIterator.events cb batch { s with mypybufs := bufs₁ }) := by
      rw [BatchIterator.callback, mode, if_neg Bool.false_ne_true, e, built]
    generalize t_eq : BatchIterator.events cb batch { s with mypybufs := bufs₁ } = t at called
    have bufs_t : t.mypybufs = bufs₁ := by
      rw [← t_eq, events_bufs]
    obtain ⟨n, r, all⟩ := ih used rfl (s := { t with proxyEvents := [] }) bufs_t
    have all := nextAll_mono all (Nat.le_succ n) le_rfl
    have go : s.proxyEvents = [] ∧ hasMore s.mypybufs = true := ⟨empty, e ▸ more⟩
    by_cases none : t.proxyEvents = []
    · have same : { t with proxyEvents := [] } = t := by
        rw [← none]
      rw [same] at all
      exact ⟨n + 2, r, nextAll_mono (nextAll_round go called all) le_rfl (Nat.le_add_right n 2)⟩
    · exact ⟨n + 2, _, nextAll_mono (nextAll_round go called (nextAll_hand none all)) le_rfl (Nat.le_succ _)⟩

/-- A callback that goes through steps reads no view once its iterator has been made. -/
lemma loop_stuck (mode : cb.steps = true) {n : Nat} {s u : BatchIterator} (made : s.evtIter.isSome = true)
    (h : s.loop dsparms fuel cb n = .ok u) :
    u.evtIter.isSome = true ∧ u.mypybufs = s.mypybufs ∧ (u.proxyEvents = [] → hasMore u.mypybufs = false) := by
  induction n generalizing s with
  | zero => cases h
  | succ n ih =>
    rw [BatchIterator.loop] at h
    split at h
    next go =>
      obtain ⟨rest, iter⟩ := Option.isSome_iff_exists.mp made
      rw [BatchIterator.callback, mode, if_pos rfl, iter] at h
      obtain ⟨made', bufs, used⟩ := ih (steps_made false rest s) h
      exact ⟨made', bufs.trans (steps_bufs _ _ _), used⟩
    next stop =>
      cases h
      refine ⟨made, rfl, ?_⟩
      intro none
      cases more : hasMore u.mypybufs with
      | false => rfl
      | true => exact absurd ⟨none, more⟩ stop

/-- So the calls do not end if there is more in the views by then. -/
lemma nextAll_stuck (mode : cb.steps = true) {n m : Nat} {s : BatchIterator} {r}
    (made : s.evtIter.isSome = true) (more : hasMore s.mypybufs = true) :
    s.nextAll dsparms fuel cb n m ≠ .ok r := by
  induction m generalizing s r with
  | zero => nofun
  | succ m ih =>
    intro h
    rw [BatchIterator.nextAll] at h
    cases e : s.loop dsparms fuel cb n with
    | error f =>
      rw [e] at h
      cases h
    | ok u =>
      obtain ⟨made', bufs, used⟩ := loop_stuck mode made e
      have more' : hasMore u.mypybufs = true := bufs ▸ more
      have some : u.proxyEvents ≠ [] := fun none => by
        rw [used none] at more'
        exact Bool.false_ne_true more'
      rw [e] at h
      simp only [if_neg some] at h
      cases e' : BatchIterator.nextAll dsparms fuel cb n m { u with proxyEvents := [] } with
      | error f =>
        rw [e'] at h
        cases h
      | ok r' => exact ih (s := { u with proxyEvents := [] }) made' more' e'

variable (dsparms fuel) in
/-- The first call of a callback that goes through steps. -/
lemma callback_steps (mode : cb.steps = true) {s : BatchIterator} (fresh : s.evtIter = none) :
    s.callback dsparms fuel cb =
      match build dsparms fuel s.mypybufs with
      | .error e => .error e
      | .ok built => .ok (BatchIterator.steps cb false built.1 { s with mypybufs := built.2 }) := by
  rw [BatchIterator.callback, mode, if_pos rfl, fresh]
  cases build dsparms fuel s.mypybufs with
  | error e => rfl
  | ok built => rfl

variable (dsparms fuel cb) in
/-- After a batch that uses up the views, the calls end with what the callback has appended. -/
lemma nextAll_last (n m : Nat) {t : BatchIterator} (used : hasMore t.mypybufs = false) :
    ∃ lists, t.nextAll dsparms fuel cb (n + 1) (m + 2) = .ok (lists, t.log) ∧ lists.flatten = t.proxyEvents := by
  by_cases none : t.proxyEvents = []
  · exact ⟨[], nextAll_end none used, none.symm⟩
  · exact ⟨_, nextAll_hand none (nextAll_end rfl used), by rw [List.flatten_singleton]⟩

/-- All calls of `__next__` with such a callback end exactly if the first batch uses up the views. -/
lemma nextAll_steps (mode : cb.steps = true) {s : BatchIterator} (fresh : s.evtIter = none)
    (empty : s.proxyEvents = []) (more : hasMore s.mypybufs = true) {lists log} :
    (∃ n, s.nextAll dsparms fuel cb n n = .ok (lists, log)) →
      ∃ batch bufs', build dsparms fuel s.mypybufs = .ok (batch, bufs') ∧ hasMore bufs' = false ∧
        log = (BatchIterator.steps cb false batch { s with mypybufs := bufs' }).log ∧
        lists.flatten = (BatchIterator.steps cb false batch { s with mypybufs := bufs' }).proxyEvents := by
  rintro ⟨n, h⟩
  have called := callback_steps dsparms fuel mode fresh
  cases e : build dsparms fuel s.mypybufs with
  | error f =>
    cases n with
    | zero => cases h
    | succ n =>
      rw [e] at called
      rw [BatchIterator.nextAll, BatchIterator.loop, if_pos ⟨empty, more⟩, called] at h
      cases h
  | ok built =>
    rw [e] at called
    simp only at called
    generalize t_eq : BatchIterator.steps cb false built.1 { s with mypybufs := built.2 } = t at called
    have made : t.evtIter.isSome = true := t_eq ▸ steps_made false built.1 _
    have bufs : t.mypybufs = built.2 := by
      rw [← t_eq, steps_bufs]
    cases used : hasMore built.2 with
    | true =>
      -- the iterator stays used up
      exact absurd (nextAll_after ⟨empty, more⟩ called h) (nextAll_stuck mode made (bufs ▸ used))
    | false =>
      obtain ⟨lists', all, flat⟩ := nextAll_last dsparms fuel cb n n (t := t) (bufs ▸ used)
      have all := nextAll_round ⟨empty, more⟩ called all
      have h := nextAll_mono h (Nat.le_add_right n 2) (Nat.le_add_right n 2)
      rw [h] at all
      cases all
      refine ⟨built.1, built.2, rfl, used, ?_, ?_⟩
      · rw [t_eq]
      · rw [t_eq, flat]

/-- Batches through which the callback's way lets all transitions pass. -/
def SmdCallback.Fits (cb : SmdCallback) (batches : List (List ProxyEvent)) : Prop :=
  if cb.steps then batches.length ≤ 1 ∧ ∀ batch ∈ batches, StepsWhole false batch
  else ∀ batch ∈ batches, RunWhole batch

/-- The calls of `__next__` end, and the events they hand over are in the order of their timestamps, each
    transition of the views once and of the L1Accept events those that the callback yielded. -/
def Delivers (dsparms : DsParms) (fuel : Nat) (cb : SmdCallback) (lists : List (List PyDgram))
    (events : List ProxyEvent) : Prop :=
  ∃ n handed log, nextAll dsparms fuel cb n lists = .ok (handed, log) ∧
    handed.flatten.Pairwise (·.timestamp < ·.timestamp) ∧
    handed.flatten.filter (·.service ≠ l1Accept) = events.filter (·.service ≠ l1Accept) ∧
    handed.flatten.filter (·.service = l1Accept) = yielded cb log

/-- There is an iterator exactly if there is something in the views. -/
lemma new_cases (lists : List (List PyDgram)) :
    (BatchIterator.new lists = none ∧ hasMore (lists.map MyPyBuffer.new) = false) ∨
    (BatchIterator.new lists = some ⟨lists.map MyPyBuffer.new, none, [], []⟩ ∧
      hasMore (lists.map MyPyBuffer.new) = true) := by
  have more := hasMore_iff (rest_new lists)
  cases e : lists.all List.isEmpty with
  | true =>
    left
    refine ⟨by rw [BatchIterator.new, if_pos e], ?_⟩
    have zero : total lists = 0 := by
      apply List.sum_eq_zero
      intro k hk
      obtain ⟨l, hl, rfl⟩ := List.mem_map.mp hk
      rw [List.isEmpty_iff.mp (List.all_eq_true.mp e l hl)]
      rfl
    rw [zero] at more
    exact Bool.eq_false_iff.mpr fun h => absurd (more.mp h) (Nat.lt_irrefl 0)
  | false =>
    right
    refine ⟨by rw [BatchIterator.new, e, if_neg Bool.false_ne_true], more.mpr ?_⟩
    obtain ⟨l, hl, some⟩ := List.all_eq_false.mp e
    have pos : 0 < l.length := List.length_pos_iff.mpr (by simpa using some)
    exact pos.trans_le (List.single_le_sum (by simp) _ (List.mem_map_of_mem hl))

variable (cb) in
/-- Before the first call. -/
lemma Inv.start (evts : List ProxyEvent) (mypybufs : List MyPyBuffer) :
    Inv cb [] evts ⟨mypybufs, none, [], []⟩ where
  out := rfl
  sound := ⟨fun _ h => absurd h List.not_mem_nil, fun _ h => absurd h List.not_mem_nil⟩
  timely := trivial
  ahead := fun _ _ _ h => absurd h (not_or.mpr ⟨List.not_mem_nil, List.not_mem_nil⟩)

/-- What happens while the callback goes through some batches, a call for each, the last thing first. -/
def SmdCallback.through (cb : SmdCallback) (batches : List (List ProxyEvent)) : List Happens :=
  (batches.flatMap fun batch => if cb.steps then stepsHappen false batch else runHappens batch).reverse

/-- The transitions that pass in some batches. -/
lemma passedOf_through (batches : List (List ProxyEvent)) :
    passedOf (cb.through batches) =
      batches.flatMap fun batch => if cb.steps then stepsKept false batch else runKept batch := by
  rw [SmdCallback.through, passedOf_flatMap]
  congr 1
  funext batch
  split
  · exact passedOf_stepsHappen false batch
  · exact passedOf_runHappens batch

/-- What the calls hand over, if they end. -/
lemma nextAll_spec {lists : List (List PyDgram)} {n handed log}
    (h : nextAll dsparms fuel cb n lists = .ok (handed, log)) :
    ∃ batches bufs', Builds dsparms fuel (lists.map MyPyBuffer.new) batches bufs' ∧ hasMore bufs' = false ∧
      (batches.flatten.Pairwise (·.timestamp < ·.timestamp) →
        appended cb log = handed.flatten ∧ Sound log ∧ Timely cb log) ∧
      (cb.steps = true → batches.length ≤ 1) ∧ log = cb.through batches := by
  rw [nextAll] at h
  obtain ⟨e, used⟩ | ⟨e, more⟩ := new_cases lists
  · rw [e] at h
    cases h
    have start := Inv.start cb [] []
    exact ⟨[], _, .nil, used, fun _ => ⟨rfl, start.sound, trivial⟩, fun _ => Nat.zero_le 1, rfl⟩
  · rw [e] at h
    simp only at h
    cases mode : cb.steps with
    | false =>
      obtain ⟨batches, bufs', builds, used, log_, ends⟩ := nextAll_events mode h
      refine ⟨batches, bufs', builds, used, ?_, fun h => absurd h Bool.false_ne_true, ?_⟩
      · intro sorted
        have ends := ends [] (.start cb _ _) rfl sorted
        exact ends
      · rw [log_, SmdCallback.through, mode]
        exact List.append_nil _
    | true =>
      obtain ⟨batch, bufs', built, used, rfl, flat⟩ := nextAll_steps mode rfl rfl more ⟨n, h⟩
      refine ⟨[batch], bufs', .cons more built .nil, used, ?_, fun _ => le_rfl, ?_⟩
      · intro sorted
        rw [List.flatten_singleton] at sorted
        have start : Inv cb [] (batch ++ []) ⟨bufs', none, [], []⟩ := .start cb _ _
        have inv := (walk_steps false batch _).inv start (by rwa [List.append_nil])
        refine ⟨?_, inv.sound, inv.timely⟩
        rw [inv.out, flat]
        rfl
      · rw [steps_log, SmdCallback.through, mode, List.flatMap_singleton]
        exact List.append_nil _

/-- The calls end where the views can be cut into batches, for steps into one. -/
lemma nextAll_ends {lists : List (List PyDgram)} {batches bufs'}
    (builds : Builds dsparms fuel (lists.map MyPyBuffer.new) batches bufs') (used : hasMore bufs' = false)
    (one : cb.steps = true → batches.length ≤ 1) :
    ∃ n handed log, nextAll dsparms fuel cb n lists = .ok (handed, log) := by
  simp only [nextAll]
  obtain ⟨e, -⟩ | ⟨e, more⟩ := new_cases lists
  · rw [e]
    exact ⟨0, _, _, rfl⟩
  · rw [e]
    simp only
    cases mode : cb.steps with
    | false =>
      obtain ⟨n, r, all⟩ := nextAll_events_ends (s := ⟨_, none, [], []⟩) mode builds used rfl
      exact ⟨n, r.1, r.2, all⟩
    | true =>
      cases builds with
      | nil =>
        rw [more] at used
        cases used
      | @cons _ batch _ batches _ _ built rest =>
        have length := one mode
        cases rest with
        | cons _ _ _ =>
          rw [List.length_cons, List.length_cons] at length
          omega
        | nil =>
          have called := callback_steps dsparms fuel mode
            (s := ⟨lists.map MyPyBuffer.new, none, [], []⟩) rfl
          rw [built] at called
          simp only at called
          obtain ⟨handed, all, -⟩ := nextAll_last dsparms fuel cb 0 0
            (t := BatchIterator.steps cb false batch ⟨bufs', none, [], []⟩) (by rwa [steps_bufs])
          exact ⟨2, handed, _, nextAll_round ⟨rfl, more⟩ called all⟩

/-- A selection and a filter take out no transition. -/
lemma filter_rows {lists : List (List PyDgram)} (views : Views lists) {rows rows' : List (Row Nat PyDgram)}
    (merge : IsMerge PyDgram.timestamp lists rows) (merge' : Rows dsparms lists rows') :
    ((rows'.filter (passesFilter dsparms)).map (eventOf dsparms.destination)).filter (·.service ≠ l1Accept) =
      (rows.map (eventOf dsparms.destination)).filter (·.service ≠ l1Accept) := by
  have passed : ((rows'.filter (passesFilter dsparms)).map (eventOf dsparms.destination)).filter
        (·.service ≠ l1Accept) =
      (rows'.map (eventOf dsparms.destination)).filter (·.service ≠ l1Accept) := by
    rw [List.filter_map, List.filter_map, List.filter_filter]
    congr 1
    apply List.filter_congr
    intro row _
    simp only [Function.comp, Bool.and_eq_left_iff_imp, decide_eq_true_eq]
    intro transition
    have transition : (eventOf none row).service ≠ l1Accept := transition
    rw [passesFilter, decide_eq_true transition]
    rfl
  rw [passed]
  by_cases none : dsparms.timestamps = []
  · have merge'' : Rows dsparms lists rows := by
      rw [Rows, none, filter_keep_nil]
      exact merge
    rw [merge'.unique merge'']
  · have merge'' : Rows dsparms lists _ := merge.filter views.sorted (views.keep_byKey dsparms.timestamps)
    rw [merge'.unique merge'', List.filter_map, List.filter_map, List.filter_filter]
    congr 1
    apply List.filter_congr
    intro row hrow
    have kept : _ = decide ((eventOf dsparms.destination row).service ≠ l1Accept ∨ _) :=
      row_kept views merge none hrow
    rw [kept]
    simp only [Function.comp, Bool.and_eq_left_iff_imp, decide_eq_true_eq]
    exact .inl

/-- Whatever the views, the batch size, the selection, the filter and the callback: the calls end and hand over
    what they should if and only if the views can be cut into batches, these let the transitions pass that the
    callback's way needs, and the callback, going through these, yields in order. -/
theorem callback_delivers {lists : List (List PyDgram)} (views : Views lists) {rows : List (Row Nat PyDgram)}
    (merge : IsMerge PyDgram.timestamp lists rows) (cb : SmdCallback)
    (index : ∀ i, dsparms.intgStreamId = some i → i < lists.length) (hfuel : total lists < fuel) :
    Delivers dsparms fuel cb lists (rows.map (eventOf dsparms.destination)) ↔
      ∃ batches bufs', Builds dsparms fuel (lists.map MyPyBuffer.new) batches bufs' ∧ hasMore bufs' = false ∧
        cb.Fits batches ∧ InOrder cb (cb.through batches) := by
  obtain ⟨rows', merge'⟩ := exists_isMerge _ (views.sorted_filter dsparms.timestamps)
  have transitions := filter_rows views merge merge'
  have whole : ∀ batches bufs', Builds dsparms fuel (lists.map MyPyBuffer.new) batches bufs' →
      hasMore bufs' = false →
        batches.flatten = (rows'.filter (passesFilter dsparms)).map (eventOf dsparms.destination) := by
    intro batches bufs' builds used
    exact builds.rows index (rest_new lists) views merge' hfuel used
  have sorted : ((rows'.filter (passesFilter dsparms)).map (eventOf dsparms.destination)).Pairwise
      (·.timestamp < ·.timestamp) :=
    List.pairwise_map.mpr (merge'.increasing.filter _)
  -- what passes is all of the transitions exactly if the batches fit
  have fits : ∀ batches : List (List ProxyEvent),
      batches.flatten = (rows'.filter (passesFilter dsparms)).map (eventOf dsparms.destination) →
      (cb.steps = true → batches.length ≤ 1) →
      (passedOf (cb.through batches) =
        (rows.map (eventOf dsparms.destination)).filter (·.service ≠ l1Accept) ↔ cb.Fits batches) := by
    intro batches flat one
    rw [passedOf_through, ← transitions, ← flat, List.filter_flatten, ← List.flatMap_def]
    cases mode : cb.steps with
    | true =>
      simp only [SmdCallback.Fits, mode, if_true]
      rw [flatMap_eq_iff fun batch => stepsKept_sublist false batch, and_iff_right (one mode)]
      exact forall₂_congr fun batch _ => stepsKept_eq false batch
    | false =>
      simp only [SmdCallback.Fits, mode, Bool.false_eq_true, if_false]
      rw [flatMap_eq_iff fun batch => runKept_sublist batch]
      exact forall₂_congr fun batch _ => runKept_eq batch
  constructor
  · rintro ⟨n, handed, log, h, ordered, transitions', -⟩
    obtain ⟨batches, bufs', builds, used, ends, one, rfl⟩ := nextAll_spec h
    have flat := whole batches bufs' builds used
    obtain ⟨out, sound, timely⟩ := ends (flat ▸ sorted)
    refine ⟨batches, bufs', builds, used, ?_, ?_⟩
    · rw [← fits batches flat one, ← (filter_appended cb sound).1, out]
      exact transitions'
    · rw [← sorted_iff timely, out]
      exact ordered
  · rintro ⟨batches, bufs', builds, used, fit, inOrder⟩
    have one : cb.steps = true → batches.length ≤ 1 := by
      intro mode
      rw [SmdCallback.Fits, if_pos mode] at fit
      exact fit.1
    obtain ⟨n, handed, log, h⟩ := nextAll_ends builds used one
    obtain ⟨batches', bufs'', builds', used', ends, one', rfl⟩ := nextAll_spec h
    have flat := whole batches' bufs'' builds' used'
    obtain ⟨out, sound, timely⟩ := ends (flat ▸ sorted)
    have parts := filter_appended cb sound
    rw [out] at parts
    obtain rfl := builds.unique builds' used used'
    refine ⟨n, handed, _, h, ?_, ?_, parts.2⟩
    · rw [← out]
      exact (sorted_iff timely).mpr inOrder
    · rw [parts.1]
      exact (fits batches flat one).mpr fit

end runs

/-- What was yielded in order can be looked up. -/
instance decidableInOrder (cb : SmdCallback) : (log : List Happens) → Decidable (InOrder cb log)
  | [] => .isTrue trivial
  | .pass _ :: log => decidableInOrder cb log
  | .see what :: log =>
    have := decidableInOrder cb log
    inferInstanceAs (Decidable (InOrder cb log ∧
      (cb.yields (what :: seenOf log)).Pairwise (·.timestamp < ·.timestamp) ∧
      ∀ evt ∈ cb.yields (what :: seenOf log), ∀ p ∈ appended cb log, p.timestamp < evt.timestamp))

/-- A callback that yields every event when it sees it. -/
def yieldAll (steps : Bool) : SmdCallback where
  steps
  yields
    | .event evt :: _ => [evt]
    | _ => []
  seen trace evt h := by
    cases trace with
    | nil => cases h
    | cons what trace =>
      cases what with
      | event e => exact List.mem_singleton.mp h ▸ List.mem_cons_self
      | _ => cases h

/-- A step with one event. -/
def oneStep : List (List PyDgram) := [[⟨1, beginStep, []⟩, ⟨2, l1Accept, []⟩, ⟨3, endStep, []⟩]]

/-- Some events a batch. -/
def aBatch (batchSize : Nat) : DsParms where
  timestamps := []
  filter := none
  destination := none
  batchSize
  intgStreamId := none

lemma oneStep_views : Views oneStep where
  sorted := by decide
  nonzero := by decide
  transitions := by decide

/-- With a callback that goes through the steps and yields all it sees, the end of the step is lost if the
    batch holds all events, and the calls do not end if it does not. -/
theorem end_step_lost :
    Views oneStep ∧
    (∃ handed log, nextAll (aBatch 5) 4 (yieldAll true) 3 oneStep = .ok (handed, log) ∧
      handed.flatten.map (·.service) = [beginStep, l1Accept]) ∧
    ∀ n handed log, nextAll (aBatch 1) 4 (yieldAll true) n oneStep ≠ .ok (handed, log) := by
  refine ⟨oneStep_views, ?_, ?_⟩
  · have ended : ∃ r, nextAll (aBatch 5) 4 (yieldAll true) 3 oneStep = .ok r ∧
        r.1.flatten.map (·.service) = [beginStep, l1Accept] := ⟨_, rfl, by decide +kernel⟩
    obtain ⟨⟨handed, log⟩, all, lost⟩ := ended
    exact ⟨handed, log, all, lost⟩
  · intro n handed log h
    have more : hasMore (oneStep.map MyPyBuffer.new) = true := by decide +kernel
    obtain ⟨batch, bufs', built, used, -⟩ := nextAll_steps rfl rfl rfl more ⟨n, h⟩
    have left : (build (aBatch 1) 4 (oneStep.map MyPyBuffer.new)).toOption.map (hasMore ·.2) = some true := by
      decide +kernel
    rw [built] at left
    simp only [Except.toOption, Option.map_some, used] at left
    cases left

lemma runWhole_singleton (evt : ProxyEvent) : RunWhole [evt] := by
  rw [RunWhole]
  split
  · exact List.forall_mem_nil _
  · exact trivial

/-- A callback that goes through the events is handed them one by one. -/
theorem callback_delivers_one :
    ∃ rows, IsMerge PyDgram.timestamp oneStep rows ∧
      Delivers (aBatch 1) 4 (yieldAll false) oneStep (rows.map (eventOf none)) := by
  obtain ⟨rows, merge⟩ := exists_isMerge oneStep oneStep_views.sorted
  refine ⟨rows, merge, ?_⟩
  apply (callback_delivers oneStep_views merge (yieldAll false) (by intro i h; cases h) (by decide)).mpr
  refine ⟨_, _, .cons (by decide +kernel) rfl (.cons (by decide +kernel) rfl (.cons (by decide +kernel) rfl .nil)),
    by decide +kernel, ?_, by decide +kernel⟩
  apply List.forall_mem_cons.mpr ⟨runWhole_singleton _, _⟩
  apply List.forall_mem_cons.mpr ⟨runWhole_singleton _, _⟩
  exact List.forall_mem_singleton.mpr (runWhole_singleton _)

end Lcls2.Psana
