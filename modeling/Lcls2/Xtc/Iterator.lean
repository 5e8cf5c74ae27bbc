import Lcls2.Xtc.Header

/-!
# Bounded iteration

Model of `XtcIterator::iterate` (`xtc/src/XtcIterator.cc`) with the end of the buffer given, and of the `process`
of `XtcUpdateIter` (`xtc/src/XtcUpdateIter.cc`) and the other iterators as far as it steers the iteration: a
`Parent` is iterated in its turn, and what is done with any other `Xtc` is a parameter.

* `mem` is the memory, which may go on after `bufEnd`.
* The accesses are kept in order: the headers that are read, and the children that are processed.
* A child is stopped when it starts at the end of the buffer or after it, and when its extent is shorter than a
  header. Neither its header nor its extent is compared with what is left.
-/

namespace Lcls2.Xtc
open Lib

/-- What `process` does with an `Xtc` that is no `Parent`: it returns `Continue` or `Stop`, or it throws. -/
inductive Visit where
  | next | stop | throws
  deriving DecidableEq, Repr

/-- An access of the iteration. -/
inductive Access where
  | header (xtc : Nat)
  | process (parent xtc : Nat)
  deriving DecidableEq, Repr

/-- How `iterate` or `process` ends; `broke` is a `process` that returns zero. -/
inductive Ending where
  | returned | broke | aborted | threw
  deriving DecidableEq, Repr

/-- What `iterate` or `process` has accessed, how it ended, and how many `Xtc`s have been visited by then. -/
structure Walked where
  accesses : List Access
  ending : Ending
  visits : Nat
  deriving DecidableEq, Repr

variable (mem : Bytes) (bufEnd : Nat) (visit : Nat → Visit)

/-- `contains.id() == TypeId::Parent`. -/
def isParent (xtc : Nat) : Bool := contains mem xtc % 0x1000 = 0

/-- `damage.value() & (1 << Damage::Corrupted)`. -/
def corrupted (xtc : Nat) : Bool := (damage mem xtc).testBit 3

/-- The `n`th visit. -/
def visited (n : Nat) : Walked where
  accesses := []
  ending :=
    match visit n with
    | .next => .returned
    | .stop => .broke
    | .throws => .threw
  visits := n + 1

/-- `XtcIterator::iterate`, where `loop` is its loop over the children. -/
def iterateBy (loop : Nat → Nat → Int → Nat → Option Walked) (root visits : Nat) : Option Walked :=
  if corrupted mem root then some ⟨[], .returned, visits⟩
  else loop root (root + sizeofXtc) (sizeofPayload (extent mem root)) visits

/-- `XtcUpdateIter::process`. -/
def processBy (loop : Nat → Nat → Int → Nat → Option Walked) (xtc visits : Nat) : Option Walked :=
  if isParent mem xtc then iterateBy mem loop xtc visits else some (visited visit visits)

/-- What a child adds to the accesses. -/
def Walked.child (parent xtc : Nat) (w : Walked) : Walked :=
  { w with accesses := .header xtc :: .process parent xtc :: w.accesses }

/-- `remaining -= xtc->sizeofPayload() + sizeof(Xtc)`. -/
def remainingAfter (remaining : Int) (extent : Nat) : Int := (remaining - extent).bmod (2 ^ 32)

/-- The loop of `XtcIterator::iterate`; `n` bounds its rounds and those of the loops inside. -/
def loop : Nat → Nat → Nat → Int → Nat → Option Walked
  | 0, _, _, _, _ => none
  | n + 1, parent, xtc, remaining, visits =>
    if remaining ≤ 0 then some ⟨[], .returned, visits⟩
    else if bufEnd ≤ xtc then some ⟨[], .aborted, visits⟩
    else if extent mem xtc < sizeofXtc then some ⟨[.header xtc], .aborted, visits⟩
    else
      match processBy mem visit (loop n) xtc visits with
      | none => none
      | some w =>
        match w.ending with
        | .returned =>
          (loop n parent (xtc + extent mem xtc) (remainingAfter remaining (extent mem xtc)) w.visits).map fun later =>
            { later with accesses := (w.child parent xtc).accesses ++ later.accesses }
        | .broke => some { w.child parent xtc with ending := .returned }
        | .aborted => some (w.child parent xtc)
        | .threw => some (w.child parent xtc)

/-- `XtcIterator::iterate`. -/
def iterate (n root : Nat) : Option Walked := iterateBy mem (loop mem bufEnd visit n) root 0

/-! ## Bounds -/

/-- A header is read below the end of the buffer, and a child that is processed lies in the payload of its parent
    and in the buffer. -/
def Access.InBounds : Access → Prop
  | .header xtc => xtc + sizeofXtc ≤ bufEnd
  | .process parent xtc =>
    parent + sizeofXtc ≤ xtc ∧ xtc + extent mem xtc ≤ parent + extent mem parent ∧ xtc + extent mem xtc ≤ bufEnd

/-- The child at `xtc` lies in what is left of the payload, up to `stop`, and of the buffer. -/
structure Fits (xtc stop : Nat) : Prop where
  header : xtc + sizeofXtc ≤ bufEnd
  long : sizeofXtc ≤ extent mem xtc
  inParent : xtc + extent mem xtc ≤ stop
  inBuffer : xtc + extent mem xtc ≤ bufEnd

/-- The iteration goes over the children from `xtc` up to `stop` and returns, with `visits` before and `visits'`
    after it. -/
inductive Returns : Nat → Nat → Nat → Nat → Prop where
  | done {visits stop} :
    Returns visits stop stop visits
  | next {visits xtc stop visits'} :
    Fits mem bufEnd xtc stop →
    isParent mem xtc = false →
    visit visits = .next →
    Returns (visits + 1) (xtc + extent mem xtc) stop visits' →
    Returns visits xtc stop visits'
  | stop {visits xtc stop} :
    Fits mem bufEnd xtc stop →
    isParent mem xtc = false →
    visit visits = .stop →
    Returns visits xtc stop (visits + 1)
  | corrupted {visits xtc stop visits'} :
    Fits mem bufEnd xtc stop →
    isParent mem xtc = true →
    corrupted mem xtc = true →
    Returns visits (xtc + extent mem xtc) stop visits' →
    Returns visits xtc stop visits'
  | parent {visits xtc stop visits₁ visits'} :
    Fits mem bufEnd xtc stop →
    isParent mem xtc = true →
    corrupted mem xtc = false →
    Returns visits (xtc + sizeofXtc) (xtc + extent mem xtc) visits₁ →
    Returns visits₁ (xtc + extent mem xtc) stop visits' →
    Returns visits xtc stop visits'

/-- The children from `xtc` up to `stop` are well nested, as far as the iteration gets: up to a header after the
    end of the buffer, an extent that is too small, or a visit that does not return `Continue`. -/
inductive WellNested : Nat → Nat → Nat → Prop where
  | done {visits stop} :
    WellNested visits stop stop
  | past {visits xtc stop} :
    bufEnd ≤ xtc →
    WellNested visits xtc stop
  | small {visits xtc stop} :
    xtc + sizeofXtc ≤ bufEnd →
    extent mem xtc < sizeofXtc →
    WellNested visits xtc stop
  | visit {visits xtc stop} :
    Fits mem bufEnd xtc stop →
    isParent mem xtc = false →
    (visit visits = .next → WellNested (visits + 1) (xtc + extent mem xtc) stop) →
    WellNested visits xtc stop
  | corrupted {visits xtc stop} :
    Fits mem bufEnd xtc stop →
    isParent mem xtc = true →
    corrupted mem xtc = true →
    WellNested visits (xtc + extent mem xtc) stop →
    WellNested visits xtc stop
  | parent {visits xtc stop} :
    Fits mem bufEnd xtc stop →
    isParent mem xtc = true →
    corrupted mem xtc = false →
    WellNested visits (xtc + sizeofXtc) (xtc + extent mem xtc) →
    (∀ visits', Returns mem bufEnd visit visits (xtc + sizeofXtc) (xtc + extent mem xtc) visits' →
      WellNested visits' (xtc + extent mem xtc) stop) →
    WellNested visits xtc stop

/-- Nothing is iterated, or what is iterated is well nested. -/
def RootNested (root : Nat) : Prop :=
  corrupted mem root = true ∨ sizeofPayload (extent mem root) ≤ 0 ∨
    WellNested mem bufEnd visit 0 (root + sizeofXtc) (root + extent mem root)

/-! ## The loop -/

variable {mem bufEnd visit} {n parent xtc visits : Nat} {remaining : Int} {w : Walked}

/-- A round that processes a child, and what follows it. -/
inductive Round (mem : Bytes) (bufEnd : Nat) (visit : Nat → Visit) (n parent xtc : Nat) (remaining : Int)
    (inner : Walked) : Walked → Prop where
  | next {later} :
    inner.ending = .returned →
    loop mem bufEnd visit n parent (xtc + extent mem xtc) (remainingAfter remaining (extent mem xtc)) inner.visits
      = some later →
    Round mem bufEnd visit n parent xtc remaining inner
      { later with accesses := (inner.child parent xtc).accesses ++ later.accesses }
  | broke :
    inner.ending = .broke →
    Round mem bufEnd visit n parent xtc remaining inner { inner.child parent xtc with ending := .returned }
  | ended :
    inner.ending = .aborted ∨ inner.ending = .threw →
    Round mem bufEnd visit n parent xtc remaining inner (inner.child parent xtc)

namespace Round

variable {inner : Walked}

/-- After a child that returns, the loop goes on. -/
lemma of_returned (h : Round mem bufEnd visit n parent xtc remaining inner w) (returned : inner.ending = .returned) :
    ∃ later, loop mem bufEnd visit n parent (xtc + extent mem xtc) (remainingAfter remaining (extent mem xtc))
        inner.visits = some later ∧
      w.ending = later.ending ∧ w.visits = later.visits ∧
      w.accesses = (inner.child parent xtc).accesses ++ later.accesses := by
  cases h with
  | next _ later => exact ⟨_, later, rfl, rfl, rfl⟩
  | broke broke => exact Ending.noConfusion (returned.symm.trans broke)
  | ended ended =>
    rw [returned] at ended
    cases ended with
    | inl aborted => exact Ending.noConfusion aborted
    | inr threw => exact Ending.noConfusion threw

/-- After one that does not, it does not. -/
lemma of_not_returned (h : Round mem bufEnd visit n parent xtc remaining inner w) (other : inner.ending ≠ .returned) :
    w.visits = inner.visits ∧ w.accesses = (inner.child parent xtc).accesses ∧
      w.ending = if inner.ending = .broke then .returned else inner.ending := by
  cases h with
  | next returned _ => exact absurd returned other
  | broke broke =>
    refine ⟨rfl, rfl, ?_⟩
    rw [if_pos broke]
  | ended ended =>
    refine ⟨rfl, rfl, (if_neg ?_).symm⟩
    intro broke
    rw [broke] at ended
    cases ended with
    | inl aborted => exact Ending.noConfusion aborted
    | inr threw => exact Ending.noConfusion threw

/-- The child is accessed, and then what it contains. -/
lemma mem_accesses (h : Round mem bufEnd visit n parent xtc remaining inner w) {a : Access}
    (mem : a ∈ (inner.child parent xtc).accesses) : a ∈ w.accesses := by
  cases h with
  | next _ _ => exact List.mem_append_left _ mem
  | broke _ => exact mem
  | ended _ => exact mem

end Round

/-- What one round of the loop can do. -/
lemma loop_cases (h : loop mem bufEnd visit (n + 1) parent xtc remaining visits = some w) :
    (remaining ≤ 0 ∧ w = ⟨[], .returned, visits⟩) ∨
    (0 < remaining ∧ bufEnd ≤ xtc ∧ w = ⟨[], .aborted, visits⟩) ∨
    (0 < remaining ∧ xtc < bufEnd ∧ extent mem xtc < sizeofXtc ∧ w = ⟨[.header xtc], .aborted, visits⟩) ∨
    (0 < remaining ∧ xtc < bufEnd ∧ sizeofXtc ≤ extent mem xtc ∧
      ∃ inner, processBy mem visit (loop mem bufEnd visit n) xtc visits = some inner ∧
        Round mem bufEnd visit n parent xtc remaining inner w) := by
  rw [loop] at h
  split at h
  · rename_i none
    cases h
    exact .inl ⟨none, rfl⟩
  · rename_i left
    split at h
    · rename_i past
      cases h
      exact .inr (.inl ⟨by omega, past, rfl⟩)
    · rename_i below
      split at h
      · rename_i small
        cases h
        exact .inr (.inr (.inl ⟨by omega, by omega, small, rfl⟩))
      · rename_i long
        refine .inr (.inr (.inr ⟨by omega, by omega, by omega, ?_⟩))
        split at h
        · cases h
        · rename_i inner process
          refine ⟨inner, process, ?_⟩
          split at h
          · rename_i ending
            obtain ⟨later, e, rfl⟩ := Option.map_eq_some_iff.mp h
            exact .next ending e
          · rename_i ending
            cases h
            exact .broke ending
          · rename_i ending
            cases h
            exact .ended (.inl ending)
          · rename_i ending
            cases h
            exact .ended (.inr ending)

/-- Every round goes on in the buffer, so that the loop ends whatever the extents are. -/
lemma loop_ends (pos : 0 < n) (enough : bufEnd < xtc + n) :
    ∃ w, loop mem bufEnd visit n parent xtc remaining visits = some w := by
  induction n generalizing parent xtc remaining visits with
  | zero => cases pos
  | succ n ih =>
    rw [loop]
    split
    · exact ⟨_, rfl⟩
    · split
      · exact ⟨_, rfl⟩
      · rename_i below
        split
        · exact ⟨_, rfl⟩
        · rename_i long
          have sizes : sizeofXtc = 12 := rfl
          have room : 0 < n := by omega
          have inner : ∃ w, processBy mem visit (loop mem bufEnd visit n) xtc visits = some w := by
            unfold processBy iterateBy
            split
            · split
              · exact ⟨_, rfl⟩
              · exact ih room (by omega)
            · exact ⟨_, rfl⟩
          obtain ⟨inner, process⟩ := inner
          rw [process]
          have next : ∃ w, loop mem bufEnd visit n parent (xtc + extent mem xtc)
              (remainingAfter remaining (extent mem xtc)) inner.visits = some w := ih room (by omega)
          obtain ⟨later, e⟩ := next
          simp only [e, Option.map_some]
          split
          · exact ⟨_, rfl⟩
          · exact ⟨_, rfl⟩
          · exact ⟨_, rfl⟩
          · exact ⟨_, rfl⟩

/-! ## The bounds of the loop -/

/-- The loop has got to `xtc` in the payload of `parent` and knows how much of it is left. -/
structure InStep (mem : Bytes) (parent xtc : Nat) (remaining : Int) : Prop where
  after : parent + sizeofXtc ≤ xtc
  left : remaining = ((parent + extent mem parent : Nat) : Int) - xtc
  nonneg : 0 ≤ remaining
  fits : remaining < 2 ^ 31

/-- After a child that fits, the next one. -/
lemma InStep.next (h : InStep mem parent xtc remaining) (fits : Fits mem bufEnd xtc (parent + extent mem parent)) :
    InStep mem parent (xtc + extent mem xtc) (remainingAfter remaining (extent mem xtc)) := by
  have left := h.left
  have bound := h.fits
  have inParent := fits.inParent
  have exact : remainingAfter remaining (extent mem xtc) = remaining - extent mem xtc := by
    unfold remainingAfter
    apply Int.bmod_eq_of_le
    · omega
    · omega
  refine ⟨h.after.trans (Nat.le_add_right _ _), ?_, ?_, ?_⟩
  · rw [exact]
    omega
  · rw [exact]
    omega
  · rw [exact]
    omega

/-- In a child that fits, the first one. -/
lemma InStep.inside (h : InStep mem parent xtc remaining) (fits : Fits mem bufEnd xtc (parent + extent mem parent)) :
    InStep mem xtc (xtc + sizeofXtc) (sizeofPayload (extent mem xtc)) := by
  have left := h.left
  have bound := h.fits
  have inParent := fits.inParent
  have long := fits.long
  have sizes : sizeofXtc = 12 := rfl
  have payload : sizeofPayload (extent mem xtc) = (extent mem xtc : Int) - 12 := sizeofPayload_of_le (by omega)
  refine ⟨le_rfl, ?_, ?_, ?_⟩
  · rw [payload]
    omega
  · rw [payload]
    omega
  · rw [payload]
    omega

/-- A child that is in bounds fits. -/
lemma fits_of_inBounds (long : sizeofXtc ≤ extent mem xtc) (header : Access.InBounds mem bufEnd (.header xtc))
    (process : Access.InBounds mem bufEnd (.process parent xtc)) : Fits mem bufEnd xtc (parent + extent mem parent) :=
  ⟨header, long, process.2.1, process.2.2⟩

/-- The loop breaks off for itself only. -/
lemma loop_ne_broke (h : loop mem bufEnd visit n parent xtc remaining visits = some w) : w.ending ≠ .broke := by
  induction n generalizing parent xtc remaining visits w with
  | zero => cases h
  | succ n ih =>
    rcases loop_cases h with ⟨-, rfl⟩ | ⟨-, -, rfl⟩ | ⟨-, -, -, rfl⟩ | ⟨-, -, -, inner, -, round⟩
    · exact Ending.noConfusion
    · exact Ending.noConfusion
    · exact Ending.noConfusion
    · cases ending : decide (inner.ending = .returned) with
      | true =>
        obtain ⟨later, e, same, -⟩ := round.of_returned (of_decide_eq_true ending)
        rw [same]
        exact ih e
      | false =>
        obtain ⟨-, -, same⟩ := round.of_not_returned (of_decide_eq_false ending)
        rw [same]
        split
        · exact Ending.noConfusion
        · assumption

/-- A round over a child that fits, as `process` ends. -/
lemma round_of_fits (h : loop mem bufEnd visit n parent xtc remaining visits = some w)
    (step : InStep mem parent xtc remaining) (fits : Fits mem bufEnd xtc (parent + extent mem parent)) :
    ∃ m inner, n = m + 1 ∧ processBy mem visit (loop mem bufEnd visit m) xtc visits = some inner ∧
      Round mem bufEnd visit m parent xtc remaining inner w := by
  cases n with
  | zero => cases h
  | succ n =>
    have left := step.left
    have header := fits.header
    have long := fits.long
    have inParent := fits.inParent
    have sizes : sizeofXtc = 12 := rfl
    rcases loop_cases h with ⟨none, -⟩ | ⟨-, past, -⟩ | ⟨-, -, small, -⟩ | ⟨-, -, -, inner, process, round⟩
    · omega
    · omega
    · omega
    · exact ⟨n, inner, rfl, process, round⟩

/-- A visit that returns `Continue`. -/
lemma processBy_next {loop : Nat → Nat → Int → Nat → Option Walked} {inner : Walked}
    (kind : isParent mem xtc = false) (answer : visit visits = .next)
    (process : processBy mem visit loop xtc visits = some inner) :
    inner.ending = .returned ∧ inner.visits = visits + 1 := by
  rw [processBy, kind, if_neg Bool.false_ne_true, visited, answer] at process
  cases process
  exact ⟨rfl, rfl⟩

/-- Where the iteration goes over the children and returns, the loop does. -/
lemma loop_of_returns {visits' stop : Nat} (returns : Returns mem bufEnd visit visits xtc stop visits')
    (step : InStep mem parent xtc remaining) (whole : stop = parent + extent mem parent)
    (h : loop mem bufEnd visit n parent xtc remaining visits = some w) :
    w.ending = .returned ∧ w.visits = visits' := by
  induction returns generalizing n parent remaining w with
  | @done visits stop =>
    have left := step.left
    have nothing : remaining ≤ 0 := by omega
    cases n with
    | zero => cases h
    | succ n =>
      rw [loop, if_pos nothing] at h
      cases h
      exact ⟨rfl, rfl⟩
  | next fits kind answer _ ih =>
    obtain ⟨m, inner, rfl, process, round⟩ := round_of_fits h step (whole ▸ fits)
    obtain ⟨returned, same⟩ := processBy_next kind answer process
    obtain ⟨later, e, ending, visits, -⟩ := round.of_returned returned
    rw [ending, visits]
    exact ih (step.next (whole ▸ fits)) whole (same ▸ e)
  | stop fits kind answer =>
    obtain ⟨m, inner, rfl, process, round⟩ := round_of_fits h step (whole ▸ fits)
    rw [processBy, kind, if_neg Bool.false_ne_true, visited, answer] at process
    cases process
    obtain ⟨visits, -, ending⟩ := round.of_not_returned Ending.noConfusion
    exact ⟨ending, visits⟩
  | corrupted fits kind damaged _ ih =>
    obtain ⟨m, inner, rfl, process, round⟩ := round_of_fits h step (whole ▸ fits)
    rw [processBy, kind, if_pos rfl, iterateBy, damaged, if_pos rfl] at process
    cases process
    obtain ⟨later, e, ending, visits, -⟩ := round.of_returned rfl
    rw [ending, visits]
    exact ih (step.next (whole ▸ fits)) whole e
  | parent fits kind damaged _ _ inside ih =>
    obtain ⟨m, inner, rfl, process, round⟩ := round_of_fits h step (whole ▸ fits)
    rw [processBy, kind, if_pos rfl, iterateBy, damaged, if_neg Bool.false_ne_true] at process
    obtain ⟨returned, same⟩ := inside (step.inside (whole ▸ fits)) rfl process
    obtain ⟨later, e, ending, visits, -⟩ := round.of_returned returned
    rw [ending, visits]
    exact ih (step.next (whole ▸ fits)) whole (same ▸ e)

/-- A walk that stays in bounds goes over what is well nested. -/
lemma wellNested_of_loop (h : loop mem bufEnd visit n parent xtc remaining visits = some w)
    (step : InStep mem parent xtc remaining) (inBounds : ∀ a ∈ w.accesses, a.InBounds mem bufEnd) :
    WellNested mem bufEnd visit visits xtc (parent + extent mem parent) ∧
      (w.ending = .returned → Returns mem bufEnd visit visits xtc (parent + extent mem parent) w.visits) := by
  induction n generalizing parent xtc remaining visits w with
  | zero => cases h
  | succ n ih =>
    have left := step.left
    have nonneg := step.nonneg
    rcases loop_cases h with ⟨none, rfl⟩ | ⟨some, past, rfl⟩ | ⟨some, below, small, rfl⟩ |
      ⟨some, below, long, inner, process, round⟩
    · have whole : xtc = parent + extent mem parent := by omega
      rw [← whole]
      exact ⟨.done, fun _ => .done⟩
    · exact ⟨.past past, fun returned => Ending.noConfusion returned⟩
    · exact ⟨.small (inBounds _ (List.mem_singleton.mpr rfl)) small, fun returned => Ending.noConfusion returned⟩
    · have accesses : ∀ a ∈ (inner.child parent xtc).accesses, a.InBounds mem bufEnd := fun a mem =>
        inBounds a (round.mem_accesses mem)
      have fits := fits_of_inBounds long (accesses _ List.mem_cons_self)
        (accesses _ (List.mem_cons_of_mem _ List.mem_cons_self))
      have inside : ∀ a ∈ inner.accesses, a.InBounds mem bufEnd := fun a mem =>
        accesses a (List.mem_cons_of_mem _ (List.mem_cons_of_mem _ mem))
      -- the children that follow this one, when it has returned
      have follow : inner.ending = .returned →
          WellNested mem bufEnd visit inner.visits (xtc + extent mem xtc) (parent + extent mem parent) ∧
            (w.ending = .returned →
              Returns mem bufEnd visit inner.visits (xtc + extent mem xtc) (parent + extent mem parent) w.visits) := by
        intro returned
        obtain ⟨later, e, ending, visits, all⟩ := round.of_returned returned
        rw [all] at inBounds
        rw [ending, visits]
        exact ih e (step.next fits) fun a mem => inBounds a (List.mem_append_right _ mem)
      cases kind : isParent mem xtc with
      | false =>
        refine ⟨.visit fits kind fun next => ?_, fun returned => ?_⟩
        · obtain ⟨returned, same⟩ := processBy_next kind next process
          exact same ▸ (follow returned).1
        · cases answer : visit visits with
          | next =>
            obtain ⟨returned', same⟩ := processBy_next kind answer process
            exact .next fits kind answer (same ▸ (follow returned').2 returned)
          | stop =>
            rw [processBy, kind, if_neg Bool.false_ne_true, visited, answer] at process
            cases process
            obtain ⟨same, -⟩ := round.of_not_returned Ending.noConfusion
            rw [same]
            exact .stop fits kind answer
          | throws =>
            rw [processBy, kind, if_neg Bool.false_ne_true, visited, answer] at process
            cases process
            obtain ⟨-, -, ending⟩ := round.of_not_returned Ending.noConfusion
            exact Ending.noConfusion (returned.symm.trans ending)
      | true =>
        rw [processBy, kind, if_pos rfl, iterateBy] at process
        cases damaged : corrupted mem xtc with
        | true =>
          rw [damaged, if_pos rfl] at process
          cases process
          have later := follow rfl
          exact ⟨.corrupted fits kind damaged later.1, fun returned => .corrupted fits kind damaged (later.2 returned)⟩
        | false =>
          rw [damaged, if_neg Bool.false_ne_true] at process
          have nested := ih process (step.inside fits) inside
          refine ⟨.parent fits kind damaged nested.1 fun visits' returns => ?_, fun returned => ?_⟩
          · obtain ⟨returned, rfl⟩ := loop_of_returns returns (step.inside fits) rfl process
            exact (follow returned).1
          · cases ending : decide (inner.ending = .returned) with
            | true =>
              have returned' := of_decide_eq_true ending
              exact .parent fits kind damaged (nested.2 returned') ((follow returned').2 returned)
            | false =>
              have other := of_decide_eq_false ending
              obtain ⟨-, -, same⟩ := round.of_not_returned other
              rw [if_neg (loop_ne_broke process)] at same
              exact absurd (same.symm.trans returned) other

/-- The accesses of a round whose child fits, from those of what the child contains and of what follows it. -/
lemma Round.inBounds {inner : Walked} (round : Round mem bufEnd visit n parent xtc remaining inner w)
    (step : InStep mem parent xtc remaining) (fits : Fits mem bufEnd xtc (parent + extent mem parent))
    (inside : ∀ a ∈ inner.accesses, a.InBounds mem bufEnd)
    (follow : inner.ending = .returned → ∀ later, loop mem bufEnd visit n parent (xtc + extent mem xtc)
        (remainingAfter remaining (extent mem xtc)) inner.visits = some later →
      ∀ a ∈ later.accesses, a.InBounds mem bufEnd) :
    ∀ a ∈ w.accesses, a.InBounds mem bufEnd := by
  have child : ∀ a ∈ (inner.child parent xtc).accesses, a.InBounds mem bufEnd := by
    intro a mem
    cases List.mem_cons.mp mem with
    | inl header => exact header ▸ fits.header
    | inr mem =>
      cases List.mem_cons.mp mem with
      | inl process => exact process ▸ ⟨step.after, fits.inParent, fits.inBuffer⟩
      | inr mem => exact inside a mem
  intro a mem
  cases ending : decide (inner.ending = .returned) with
  | true =>
    obtain ⟨later, e, -, -, all⟩ := round.of_returned (of_decide_eq_true ending)
    rw [all] at mem
    cases List.mem_append.mp mem with
    | inl mem => exact child a mem
    | inr mem => exact follow (of_decide_eq_true ending) later e a mem
  | false =>
    obtain ⟨-, all, -⟩ := round.of_not_returned (of_decide_eq_false ending)
    exact child a (all ▸ mem)

/-- Over what is well nested, a walk stays in bounds. -/
lemma inBounds_of_wellNested {stop : Nat} (nested : WellNested mem bufEnd visit visits xtc stop)
    (step : InStep mem parent xtc remaining) (whole : stop = parent + extent mem parent)
    (h : loop mem bufEnd visit n parent xtc remaining visits = some w) :
    ∀ a ∈ w.accesses, a.InBounds mem bufEnd := by
  induction nested generalizing n parent remaining w with
  | @done visits stop =>
    have left := step.left
    have nothing : remaining ≤ 0 := by omega
    cases n with
    | zero => cases h
    | succ n =>
      rw [loop, if_pos nothing] at h
      cases h
      exact fun a mem => absurd mem List.not_mem_nil
  | past past =>
    cases n with
    | zero => cases h
    | succ n =>
      rcases loop_cases h with ⟨-, rfl⟩ | ⟨-, -, rfl⟩ | ⟨-, below, -⟩ | ⟨-, below, -⟩
      · exact fun a mem => absurd mem List.not_mem_nil
      · exact fun a mem => absurd mem List.not_mem_nil
      · exact absurd past (Nat.not_le.mpr below)
      · exact absurd past (Nat.not_le.mpr below)
  | small header small =>
    cases n with
    | zero => cases h
    | succ n =>
      rcases loop_cases h with ⟨-, rfl⟩ | ⟨-, -, rfl⟩ | ⟨-, -, -, rfl⟩ | ⟨-, -, long, -⟩
      · exact fun a mem => absurd mem List.not_mem_nil
      · exact fun a mem => absurd mem List.not_mem_nil
      · exact fun a mem => List.mem_singleton.mp mem ▸ header
      · exact absurd small (Nat.not_lt.mpr long)
  | visit fits kind _ ih =>
    have fits := whole ▸ fits
    obtain ⟨m, inner, rfl, process, round⟩ := round_of_fits h step fits
    rw [processBy, kind, if_neg Bool.false_ne_true] at process
    cases process
    refine round.inBounds step fits (fun a mem => absurd mem List.not_mem_nil) fun returned later e => ?_
    refine ih ?_ (step.next fits) whole e
    -- only a visit that returns `Continue` is gone on after
    unfold visited at returned
    split at returned
    · assumption
    · cases returned
    · cases returned
  | corrupted fits kind damaged _ ih =>
    have fits := whole ▸ fits
    obtain ⟨m, inner, rfl, process, round⟩ := round_of_fits h step fits
    rw [processBy, kind, if_pos rfl, iterateBy, damaged, if_pos rfl] at process
    cases process
    exact round.inBounds step fits (fun a mem => absurd mem List.not_mem_nil) fun _ later e =>
      ih (step.next fits) whole e
  | parent fits kind damaged _ _ inside ih =>
    have fits := whole ▸ fits
    obtain ⟨m, inner, rfl, process, round⟩ := round_of_fits h step fits
    rw [processBy, kind, if_pos rfl, iterateBy, damaged, if_neg Bool.false_ne_true] at process
    have within := inside (step.inside fits) rfl process
    refine round.inBounds step fits within fun returned later e => ?_
    have nested := wellNested_of_loop process (step.inside fits) within
    exact ih inner.visits (nested.2 returned) (step.next fits) whole e

/-! ## The iteration -/

variable (mem bufEnd visit) in
/-- With as many rounds as the buffer has bytes, and one more, the iteration ends; and it reads headers below the
    end of the buffer only and processes only children that lie in their parent and in the buffer, just when the
    root is well nested. -/
theorem iterate_iff (root : Nat) :
    (∀ n, bufEnd < n → ∃ w, iterate mem bufEnd visit n root = some w ∧ ∀ a ∈ w.accesses, a.InBounds mem bufEnd) ↔
      RootNested mem bufEnd visit root := by
  have sizes : sizeofXtc = 12 := rfl
  unfold iterate iterateBy RootNested
  cases damaged : corrupted mem root with
  | true =>
    refine ⟨fun _ => .inl rfl, fun _ n _ => ⟨_, if_pos rfl, ?_⟩⟩
    exact fun a mem => absurd mem List.not_mem_nil
  | false =>
    simp only [Bool.false_eq_true, if_false, false_or]
    cases Int.lt_or_le 0 (sizeofPayload (extent mem root)) with
    | inl left =>
      have small : extent mem root < 2 ^ 31 + 12 := by
        have lt := extent_lt mem root
        cases Nat.lt_or_ge (extent mem root) (2 ^ 31 + 12) with
        | inl small => exact small
        | inr large =>
          rw [sizeofPayload_of_ge lt large] at left
          omega
      have payload := sizeofPayload_of_le small
      have step : InStep mem root (root + sizeofXtc) (sizeofPayload (extent mem root)) := by
        refine ⟨le_rfl, ?_, ?_, ?_⟩
        · omega
        · omega
        · omega
      constructor
      · intro h
        obtain ⟨w, e, inBounds⟩ := h (bufEnd + 1) (by omega)
        exact .inr (wellNested_of_loop e step inBounds).1
      · rintro (none | nested)
        · omega
        · intro n enough
          have ends : ∃ w, loop mem bufEnd visit n root (root + sizeofXtc) (sizeofPayload (extent mem root)) 0
              = some w := loop_ends (by omega) (Nat.lt_of_lt_of_le enough (Nat.le_add_left _ _))
          obtain ⟨w, e⟩ := ends
          exact ⟨w, e, inBounds_of_wellNested nested step rfl e⟩
    | inr none =>
      refine ⟨fun _ => .inl none, fun _ n enough => ?_⟩
      obtain ⟨n, rfl⟩ : ∃ m, n = m + 1 := ⟨n - 1, by omega⟩
      refine ⟨_, by rw [loop, if_pos none], ?_⟩
      exact fun a mem => absurd mem List.not_mem_nil

/-- The header of an `Xtc` without source. -/
def headerOf (contains extent : Nat) : Bytes := toLe 4 0 ++ toLe 2 0 ++ toLe 2 contains ++ toLe 4 extent

/-- A child of 100 bytes in a root of 24 is processed, and the header of a child that starts four bytes before the
    end of the buffer is read. -/
theorem child_out_of_bounds :
    (∃ w, iterate (headerOf 0 24 ++ headerOf 3 100) 24 (fun _ => .next) 25 0 = some w ∧
      ¬ ∀ a ∈ w.accesses, a.InBounds (headerOf 0 24 ++ headerOf 3 100) 24) ∧
    ∃ w, iterate (headerOf 0 16 ++ headerOf 3 12) 16 (fun _ => .next) 17 0 = some w ∧
      ¬ ∀ a ∈ w.accesses, a.InBounds (headerOf 0 16 ++ headerOf 3 12) 16 := by
  constructor
  · refine ⟨⟨[.header 12, .process 0 12], .returned, 1⟩, by decide +kernel, fun inBounds => ?_⟩
    have child := (inBounds (.process 0 12) (by decide)).2.2
    exact absurd child (by decide +kernel)
  · refine ⟨⟨[.header 12, .process 0 12], .returned, 1⟩, by decide +kernel, fun inBounds => ?_⟩
    have header : 12 + sizeofXtc ≤ 16 := inBounds (.header 12) (by decide)
    exact absurd header (by decide)

end Lcls2.Xtc
