import Lcls2.Control.Replies

/-!
# What completes a transition

The waiting of `confirm_response` ends without missing clients at the message that brings the last answer that is
missing, or at an answer with an error (`confirm_done_iff`). In phase 1 an answer has the id of the message that was
sent, and an error in one is found afterwards (`condition_replies_iff`). In phase 2 an answer has the id of the first
message since the last pause that is no report, an answer with an error completes the phase, and a report that
`process_reports` does not get through keeps it from being completed (`phase2_replies_iff`).
-/

namespace Lcls2.Control
open Lib

section windows
variable {M C : Type} [DecidableEq M] [DecidableEq C]

/-- A message that is no report and has the id that is looked for. -/
def Accepts (current : Option M) (m : Message M C) : Prop :=
  m.key.isReport = false ∧ m.msgId = current.getD m.msgId

instance (current : Option M) (m : Message M C) : Decidable (Accepts current m) := inferInstanceAs (Decidable (_ ∧ _))

/-- The messages of some arrivals that are no reports and have the id that is looked for. -/
def accepted (given : Option M) : Option M → List (Arrival M C) → List (Message M C)
  | _, [] => []
  | current, .garbled :: as => accepted given current as
  | _, .idle _ :: as => accepted given given as
  | current, .message m :: as =>
    if Accepts current m then m :: accepted given (some m.msgId) as
    else accepted given current as

/-- The id that is looked for after some arrivals. -/
def adopted (given : Option M) : Option M → List (Arrival M C) → Option M
  | current, [] => current
  | current, .garbled :: as => adopted given current as
  | _, .idle _ :: as => adopted given given as
  | current, .message m :: as =>
    if Accepts current m then adopted given (some m.msgId) as
    else adopted given current as

/-- The reports among some arrivals. -/
def reportsOf : List (Arrival M C) → List (Message M C)
  | [] => []
  | .message m :: as => if m.key.isReport then m :: reportsOf as else reportsOf as
  | _ :: as => reportsOf as

/-- The clients that sent some messages. -/
def senders (ms : List (Message M C)) : Finset C := (ms.map Message.sender).toFinset

/-- The first message of each of some clients. -/
def counted : Finset C → List (Message M C) → List (Message M C)
  | _, [] => []
  | ids, m :: ms => if m.sender ∈ ids then m :: counted (ids.erase m.sender) ms else counted ids ms

/-- Arrivals with which the waiting goes on: the time is not over, and no message ends it with an error. -/
structure Quiet (given current : Option M) (as : List (Arrival M C)) : Prop where
  inTime : Arrival.idle true ∉ as
  answers : ∀ m ∈ accepted given current as, m.fails = false
  reports : ∀ m ∈ reportsOf as, m.fails = false

/-- The waiting after arrivals with which it goes on. -/
def Waiting.advance (given : Option M) (w : Waiting M C) (as : List (Arrival M C)) : Waiting M C where
  current := adopted given w.current as
  ids := w.ids \ senders (accepted given w.current as)
  msgs := w.msgs ++ counted w.ids (accepted given w.current as)
  reports := w.reports ++ reportsOf as

variable {given current : Option M} {as bs : List (Arrival M C)} {w : Waiting M C} {ids : Finset C}

omit [DecidableEq C] in
/-- The messages that are accepted in two parts. -/
lemma accepted_append :
    accepted given current (as ++ bs) = accepted given current as ++ accepted given (adopted given current as) bs := by
  induction as generalizing current with
  | nil => rfl
  | cons a as ih =>
    cases a with
    | garbled => exact ih
    | idle expired => exact ih
    | message m =>
      rw [List.cons_append, accepted, accepted, adopted]
      split
      · rw [ih, List.cons_append]
      · exact ih

omit [DecidableEq C] in
/-- The id that is looked for after two parts. -/
lemma adopted_append :
    adopted given current (as ++ bs) = adopted given (adopted given current as) bs := by
  induction as generalizing current with
  | nil => rfl
  | cons a as ih =>
    cases a with
    | garbled => exact ih
    | idle expired => exact ih
    | message m =>
      rw [List.cons_append, adopted, adopted]
      split
      · exact ih
      · exact ih

omit [DecidableEq M] [DecidableEq C] in
/-- The reports of two parts. -/
lemma reportsOf_append : reportsOf (as ++ bs) = reportsOf as ++ reportsOf bs := by
  induction as with
  | nil => rfl
  | cons a as ih =>
    cases a with
    | garbled => exact ih
    | idle expired => exact ih
    | message m =>
      rw [List.cons_append, reportsOf, reportsOf]
      split
      · rw [ih, List.cons_append]
      · exact ih

omit [DecidableEq M] in
/-- The senders of two parts. -/
lemma senders_append (ms ns : List (Message M C)) : senders (ms ++ ns) = senders ms ∪ senders ns := by
  rw [senders, List.map_append, List.toFinset_append]
  rfl

omit [DecidableEq M] in
/-- The first messages in two parts. -/
lemma counted_append (ms ns : List (Message M C)) :
    counted ids (ms ++ ns) = counted ids ms ++ counted (ids \ senders ms) ns := by
  induction ms generalizing ids with
  | nil =>
    rw [List.nil_append, counted, List.nil_append, senders, List.map_nil, List.toFinset_nil, Finset.sdiff_empty]
  | cons m ms ih =>
    have less : senders (m :: ms) = insert m.sender (senders ms) := List.toFinset_cons
    rw [List.cons_append, counted, counted, less]
    split
    · rw [ih, List.cons_append, Finset.erase_sdiff_comm, Finset.sdiff_insert]
    · rename_i absent
      rw [ih, Finset.sdiff_insert, Finset.erase_eq_of_notMem]
      intro mem
      exact absent (Finset.mem_sdiff.mp mem).1

omit [DecidableEq C] in
/-- Two parts that the waiting goes on with. -/
lemma quiet_append :
    Quiet given current (as ++ bs) ↔ Quiet given current as ∧ Quiet given (adopted given current as) bs := by
  constructor
  · intro quiet
    refine ⟨⟨?_, ?_, ?_⟩, ⟨?_, ?_, ?_⟩⟩
    · exact fun mem => quiet.inTime (List.mem_append_left _ mem)
    · intro m mem
      exact quiet.answers m (by rw [accepted_append]; exact List.mem_append_left _ mem)
    · intro m mem
      exact quiet.reports m (by rw [reportsOf_append]; exact List.mem_append_left _ mem)
    · exact fun mem => quiet.inTime (List.mem_append_right _ mem)
    · intro m mem
      exact quiet.answers m (by rw [accepted_append]; exact List.mem_append_right _ mem)
    · intro m mem
      exact quiet.reports m (by rw [reportsOf_append]; exact List.mem_append_right _ mem)
  · intro both
    obtain ⟨first, second⟩ := both
    refine ⟨?_, ?_, ?_⟩
    · intro mem
      exact (List.mem_append.mp mem).elim first.inTime second.inTime
    · intro m mem
      rw [accepted_append] at mem
      exact (List.mem_append.mp mem).elim (first.answers m) (second.answers m)
    · intro m mem
      rw [reportsOf_append] at mem
      exact (List.mem_append.mp mem).elim (first.reports m) (second.reports m)

/-- The waiting goes on in two parts. -/
lemma advance_append : w.advance given (as ++ bs) = (w.advance given as).advance given bs := by
  simp only [Waiting.advance, accepted_append, adopted_append, reportsOf_append, senders_append, counted_append,
    List.append_assoc, sdiff_sdiff_left, Finset.sup_eq_union]

/-- An arrival with which the waiting goes on. -/
lemma receive_quiet {a : Arrival M C} (quiet : Quiet given w.current [a]) :
    receive given w a = (w.advance given [a], false) := by
  cases a with
  | garbled => simp [receive, Waiting.advance, accepted, adopted, reportsOf, counted, senders]
  | idle expired =>
    cases expired with
    | true => exact absurd List.mem_cons_self quiet.inTime
    | false => simp [receive, Waiting.advance, accepted, adopted, reportsOf, counted, senders]
  | message m =>
    have answers := quiet.answers
    have reports := quiet.reports
    cases report : m.key.isReport with
    | true =>
      have fine : m.fails = false := reports m (by simp [reportsOf, report])
      simp [receive, Waiting.advance, Accepts, accepted, adopted, reportsOf, counted, senders, report, fine]
    | false =>
      cases Decidable.em (m.msgId = w.current.getD m.msgId) with
      | inl same =>
        have fine : m.fails = false := answers m (by simp [accepted, Accepts, report, ← same])
        cases Decidable.em (m.sender ∈ w.ids) with
        | inl waited =>
          simp [receive, Waiting.advance, Accepts, accepted, adopted, reportsOf, counted, senders, report, ← same, fine,
            waited, Finset.sdiff_singleton_eq_erase]
        | inr other =>
          simp [receive, Waiting.advance, Accepts, accepted, adopted, reportsOf, counted, senders, report, ← same, fine,
            other, Finset.sdiff_singleton_eq_erase, Finset.erase_eq_of_notMem]
      | inr other =>
        simp [receive, Waiting.advance, Accepts, accepted, adopted, reportsOf, counted, senders, report, other]

/-- An arrival that ends the waiting, of which only an answer with an error leaves nobody who is missing. -/
lemma receive_loud {a : Arrival M C} (loud : ¬ Quiet given w.current [a]) :
    (receive given w a).2 = true ∧
      ((receive given w a).1.ids = ∅ → w.ids ≠ ∅ → ∃ m, a = .message m ∧ Accepts w.current m ∧ m.fails = true ∧
        (receive given w a).1 = { w with current := some m.msgId, ids := ∅, msgs := w.msgs ++ [m] }) := by
  cases a with
  | garbled => exact absurd ⟨nofun, nofun, nofun⟩ loud
  | idle expired =>
    cases expired with
    | false => exact absurd ⟨nofun, nofun, nofun⟩ loud
    | true => exact ⟨rfl, fun none_ some_ => absurd none_ some_⟩
  | message m =>
    have fails : m.fails = true := by
      by_contra fine
      rw [Bool.not_eq_true] at fine
      refine loud ⟨nofun, ?_, ?_⟩
      · intro r mem
        rw [accepted] at mem
        split at mem
        · cases List.mem_singleton.mp mem
          exact fine
        · cases mem
      · intro r mem
        rw [reportsOf] at mem
        split at mem
        · cases List.mem_singleton.mp mem
          exact fine
        · cases mem
    rw [receive]
    split
    · rename_i report
      rw [fails]
      exact ⟨rfl, fun none_ _ => absurd none_ (Finset.singleton_ne_empty _)⟩
    · rename_i answer
      rw [Bool.not_eq_true] at answer
      split
      · rename_i same
        exact ⟨rfl, fun _ _ => ⟨m, rfl, ⟨answer, same⟩, fails, rfl⟩⟩
      · rename_i other
        refine absurd ⟨nofun, ?_, ?_⟩ loud
        · intro r mem
          rw [accepted, if_neg fun both => other both.2] at mem
          cases mem
        · intro r mem
          rw [reportsOf, if_neg (by rw [answer]; exact Bool.false_ne_true)] at mem
          cases mem

/-- No arrivals change nothing. -/
lemma advance_nil : w.advance given [] = w := by
  simp [Waiting.advance, accepted, adopted, reportsOf, counted, senders]

/-- Who is missing after some arrivals was missing before. -/
lemma advance_ids_subset : (w.advance given (as ++ bs)).ids ⊆ (w.advance given as).ids := by
  rw [advance_append]
  exact Finset.sdiff_subset

/-- The waiting goes on with arrivals that do not end it, while somebody is missing. -/
lemma confirm_quiet (quiet : Quiet given w.current as) (waits : ∀ bs a, bs ++ [a] <+: as → (w.advance given bs).ids ≠ ∅)
    (rest : List (Arrival M C)) :
    confirmResponse given w (as ++ rest) = confirmResponse given (w.advance given as) rest := by
  induction as generalizing w with
  | nil => rw [List.nil_append, advance_nil]
  | cons a as ih =>
    have some_ := waits [] a (List.prefix_append [a] as)
    rw [advance_nil] at some_
    obtain ⟨first, later⟩ := quiet_append.mp (show Quiet given w.current ([a] ++ as) from quiet)
    rw [List.cons_append, confirmResponse, if_neg some_, receive_quiet first]
    have whole : w.advance given (a :: as) = (w.advance given [a]).advance given as :=
      @advance_append M C _ _ given [a] as w
    rw [whole]
    refine ih later ?_
    intro bs b part
    rw [← advance_append]
    exact waits (a :: bs) b (List.cons_prefix_cons.mpr ⟨rfl, part⟩)

/-- Arrivals after which somebody is missing, and a message that is accepted then. -/
structure Done (given : Option M) (w : Waiting M C) (as : List (Arrival M C)) (m : Message M C) : Prop where
  quiet : Quiet given w.current as
  waits : (w.advance given as).ids ≠ ∅
  accepts : Accepts (w.advance given as).current m

/-- An answer with an error. -/
def Waiting.fail (w : Waiting M C) (m : Message M C) : Waiting M C :=
  { w with current := some m.msgId, ids := ∅, msgs := w.msgs ++ [m] }

omit [DecidableEq C] in
/-- A message that is accepted and has no error does not end the waiting at once. -/
lemma quiet_message {m : Message M C} (accepts : Accepts current m) (fine : m.fails = false) :
    Quiet given current [.message m] := by
  refine ⟨nofun, ?_, ?_⟩
  · intro r mem
    rw [accepted, if_pos accepts] at mem
    cases List.mem_singleton.mp mem
    exact fine
  · intro r mem
    rw [reportsOf, if_neg (by rw [accepts.1]; exact Bool.false_ne_true)] at mem
    cases mem

/-- The waiting ends with nobody missing at the last answer, or at an answer with an error. -/
theorem confirm_done_iff (some_ : w.ids ≠ ∅) {v : Waiting M C} {rest : List (Arrival M C)} :
    (confirmResponse given w as = some (v, rest) ∧ v.ids = ∅) ↔
      ∃ bs m, as = bs ++ .message m :: rest ∧ Done given w bs m ∧
        ((m.fails = true ∧ v = (w.advance given bs).fail m) ∨
          (m.fails = false ∧ v = w.advance given (bs ++ [.message m]) ∧ v.ids = ∅)) := by
  constructor
  · intro ends
    obtain ⟨ends, none_⟩ := ends
    induction as generalizing w with
    | nil =>
      rw [confirmResponse, if_neg some_] at ends
      cases ends
    | cons a as ih =>
      rw [confirmResponse, if_neg some_] at ends
      -- An arrival that is not quiet ends the waiting.
      cases Classical.em (Quiet given w.current [a]) with
      | inr loud =>
        obtain ⟨stop, error⟩ := receive_loud loud
        simp only [stop, if_true] at ends
        cases ends
        obtain ⟨m, rfl, accepts, fails, made⟩ := error none_ some_
        refine ⟨[], m, rfl, ⟨⟨nofun, nofun, nofun⟩, ?_, ?_⟩, .inl ⟨fails, ?_⟩⟩
        · rw [advance_nil]
          exact some_
        · rw [advance_nil]
          exact accepts
        · rw [advance_nil]
          exact made
      | inl quiet =>
        rw [receive_quiet quiet] at ends
        simp only [Bool.false_eq_true, if_false] at ends
        cases Decidable.em ((w.advance given [a]).ids = ∅) with
        | inl all =>
          -- With nobody missing the rest is left as it is.
          have stopped : confirmResponse given (w.advance given [a]) as = some (w.advance given [a], as) := by
            cases as with
            | nil => rw [confirmResponse, if_pos all]
            | cons b as => rw [confirmResponse, if_pos all]
          cases stopped.symm.trans ends
          have answer : ∃ m, a = .message m ∧ Accepts w.current m := by
            by_contra no
            refine some_ ?_
            have same : (w.advance given [a]).ids = w.ids := by
              have none_ : accepted given w.current [a] = [] := by
                cases a with
                | garbled => rfl
                | idle expired => rfl
                | message m => exact if_neg fun accepts => no ⟨m, rfl, accepts⟩
              rw [Waiting.advance, none_]
              exact Finset.sdiff_empty
            exact same.symm.trans all
          obtain ⟨m, rfl, accepts⟩ := answer
          have fine : m.fails = false := by
            refine quiet.answers m ?_
            rw [accepted, if_pos accepts]
            exact List.mem_cons_self
          refine ⟨[], m, rfl, ⟨⟨nofun, nofun, nofun⟩, ?_, ?_⟩, .inr ⟨fine, rfl, all⟩⟩
          · rw [advance_nil]
            exact some_
          · rw [advance_nil]
            exact accepts
        | inr missing =>
          obtain ⟨bs, m, rfl, done, result⟩ := ih missing ends
          refine ⟨a :: bs, m, rfl, ⟨?_, ?_, ?_⟩, ?_⟩
          · exact quiet_append.mpr ⟨quiet, done.quiet⟩
          · have waits := done.waits
            rw [← advance_append] at waits
            exact waits
          · have accepts := done.accepts
            rw [← advance_append] at accepts
            exact accepts
          · rw [← advance_append, ← advance_append] at result
            exact result
  · intro window
    obtain ⟨bs, m, rfl, done, result⟩ := window
    have waits : ∀ cs a, cs ++ [a] <+: bs → (w.advance given cs).ids ≠ ∅ := by
      intro cs a part all
      obtain ⟨ds, rfl⟩ := part
      refine done.waits (Finset.subset_empty.mp ?_)
      rw [← all, List.append_assoc]
      exact advance_ids_subset
    rw [confirm_quiet done.quiet waits, confirmResponse, if_neg done.waits]
    cases result with
    | inl error =>
      obtain ⟨fails, rfl⟩ := error
      have result : receive given (w.advance given bs) (.message m) = ((w.advance given bs).fail m, true) := by
        rw [receive, done.accepts.1, if_neg Bool.false_ne_true, if_pos done.accepts.2, if_pos fails]
        rfl
      rw [result]
      exact ⟨rfl, rfl⟩
    | inr last =>
      obtain ⟨fine, rfl, none_⟩ := last
      rw [receive_quiet (quiet_message done.accepts fine), ← advance_append]
      refine ⟨?_, none_⟩
      simp only [Bool.false_eq_true, if_false]
      cases rest with
      | nil => rw [confirmResponse, if_pos none_]
      | cons b rest => rw [confirmResponse, if_pos none_]

/-- The messages with an id that are no reports. -/
def answersTo (msgId : M) : List (Arrival M C) → List (Message M C)
  | [] => []
  | .message m :: as => if m.key.isReport = false ∧ m.msgId = msgId then m :: answersTo msgId as else answersTo msgId as
  | _ :: as => answersTo msgId as

omit [DecidableEq C] in
/-- With a given id, the messages with it are accepted. -/
lemma accepted_given (msgId : M) (as : List (Arrival M C)) :
    accepted (some msgId) (some msgId) as = answersTo msgId as ∧ adopted (some msgId) (some msgId) as = some msgId := by
  induction as with
  | nil => exact ⟨rfl, rfl⟩
  | cons a as ih =>
    cases a with
    | garbled => exact ih
    | idle expired => exact ih
    | message m =>
      have same : Accepts (some msgId) m ↔ m.key.isReport = false ∧ m.msgId = msgId := Iff.rfl
      rw [accepted, adopted, answersTo]
      split
      · rename_i accepts
        rw [if_pos (same.mp accepts), (same.mp accepts).2]
        exact ⟨congrArg (m :: ·) ih.1, ih.2⟩
      · rename_i other
        rw [if_neg fun accepts => other (same.mpr accepts)]
        exact ih

variable (s : Clients C) (register : Message M C → Except ReplyFault Unit)

omit [DecidableEq M] in
/-- No error is counted where every answer has a body without one. -/
lemma checkAnswers_zero {msgs : List (Message M C)} :
    checkAnswers s msgs = .ok 0 ↔ ∀ m ∈ msgs, m.body = some none := by
  induction msgs with
  | nil => exact iff_of_true rfl nofun
  | cons m msgs ih =>
    rw [checkAnswers, List.forall_mem_cons]
    cases body : m.body with
    | none => exact iff_of_false nofun fun all => nomatch all.1
    | some error =>
      cases error with
      | none => exact ih.trans (and_iff_right rfl).symm
      | some text =>
        refine iff_of_false ?_ fun all => nomatch all.1
        simp only
        split
        · cases checkAnswers s msgs with
          | error e => exact nofun
          | ok count => exact nofun
        · exact nofun

omit [DecidableEq M] [DecidableEq C] in
/-- An answer without an error. -/
lemma fails_of_body {m : Message M C} (body : m.body = some none) : m.fails = false := by
  rw [Message.fails, body]
  rfl

/-- The answers to a message are complete with a last one. -/
structure Completed (msgId : M) (ids : Finset C) (as : List (Arrival M C)) (m : Message M C) : Prop where
  inTime : Arrival.idle true ∉ as
  waits : ¬ ids ⊆ senders (answersTo msgId as)
  last : m.key.isReport = false ∧ m.msgId = msgId
  all : ids ⊆ senders (answersTo msgId (as ++ [.message m]))
  answers : ∀ r ∈ answersTo msgId (as ++ [.message m]), r.fails = false
  reports : ∀ r ∈ reportsOf as, r.fails = false
  bodies : ∀ r ∈ counted ids (answersTo msgId (as ++ [.message m])), r.body = some none

omit [DecidableEq M] [DecidableEq C] in
/-- An answer is no report. -/
lemma reportsOf_message {m : Message M C} (accepts : Accepts current m) :
    reportsOf (as ++ [.message m]) = reportsOf as := by
  rw [reportsOf_append, reportsOf, accepts.1, if_neg Bool.false_ne_true]
  exact List.append_nil _

omit [DecidableEq C] in
/-- The answers with one more. -/
lemma answersTo_concat {msgId : M} {m : Message M C} (last : m.key.isReport = false ∧ m.msgId = msgId) :
    answersTo msgId (as ++ [.message m]) = answersTo msgId as ++ [m] := by
  have both := @accepted_append M C _ (some msgId) (some msgId) as [.message m]
  have one := (accepted_given msgId [Arrival.message m]).1
  rw [(accepted_given msgId as).2, (accepted_given msgId as).1, (accepted_given msgId (as ++ [Arrival.message m])).1,
    one, answersTo, if_pos last] at both
  exact both

/-- The waiting ends well with the last answer to the message, where none has an error. -/
lemma completed_iff {msgId : M} {ids : Finset C} {m : Message M C} :
    Completed msgId ids as m ↔
      Done (some msgId) ⟨some msgId, ids, [], []⟩ as m ∧ m.fails = false ∧
        (Waiting.advance (some msgId) ⟨some msgId, ids, [], []⟩ (as ++ [.message m])).ids = ∅ ∧
        ∀ r ∈ (Waiting.advance (some msgId) ⟨some msgId, ids, [], []⟩ (as ++ [.message m])).msgs,
          r.body = some none := by
  have before := accepted_given msgId as
  have after := accepted_given msgId (as ++ [.message m])
  simp only [Waiting.advance, after.1, List.nil_append]
  constructor
  · intro completed
    have answers := completed.answers
    rw [answersTo_concat completed.last] at answers
    refine ⟨⟨⟨completed.inTime, ?_, completed.reports⟩, ?_, ?_⟩, ?_, ?_, completed.bodies⟩
    · intro r mem
      rw [before.1] at mem
      exact answers r (List.mem_append_left _ mem)
    · simp only [Waiting.advance, before.1]
      exact fun all => completed.waits (Finset.sdiff_eq_empty_iff_subset.mp all)
    · simp only [Waiting.advance, before.2]
      exact completed.last
    · exact answers m (List.mem_append_right _ List.mem_cons_self)
    · exact Finset.sdiff_eq_empty_iff_subset.mpr completed.all
  · intro result
    obtain ⟨done, fine, all, bodies⟩ := result
    have waits := done.waits
    have accepts := done.accepts
    simp only [Waiting.advance, before.1] at waits
    simp only [Waiting.advance, before.2] at accepts
    have last : m.key.isReport = false ∧ m.msgId = msgId := accepts
    refine ⟨done.quiet.inTime, ?_, last, ?_, ?_, done.quiet.reports, bodies⟩
    · exact fun all => waits (Finset.sdiff_eq_empty_iff_subset.mpr all)
    · exact Finset.sdiff_eq_empty_iff_subset.mp all
    · intro r mem
      rw [answersTo_concat last] at mem
      cases List.mem_append.mp mem with
      | inl earlier => exact done.quiet.answers r (by rw [before.1]; exact earlier)
      | inr here =>
        cases List.mem_singleton.mp here
        exact fine

/-- Phase 1 of a transition is completed exactly where nobody has to answer, or every active client of the levels
    `drp`, `teb` and `meb` has answered the message that was sent for it before the time is over, the first answer of
    each has a body without an error, and no other answer to the message or report until then has one either. What
    comes after the last answer is left for the next call. -/
theorem condition_replies_iff (msgId : M) (as rest : List (Arrival M C)) :
    conditionReplies s register msgId as = some (.ok true, rest) ↔
      (s.phase1Ids = ∅ ∧ rest = as) ∨
        (s.phase1Ids ≠ ∅ ∧ ∃ bs m, as = bs ++ .message m :: rest ∧ Completed msgId s.phase1Ids bs m ∧
          processReports register (reportsOf bs) = .ok ()) := by
  rw [conditionReplies]
  split
  · rename_i none_
    constructor
    · intro result
      cases result
      exact .inl ⟨none_, rfl⟩
    · intro either
      cases either with
      | inl done => rw [done.2]
      | inr waits => exact absurd none_ waits.1
  · rename_i some_
    have ends := @confirm_done_iff M C _ _ (some msgId) as ⟨some msgId, s.phase1Ids, [], []⟩ some_
    constructor
    · intro result
      obtain ⟨r, confirmed, result⟩ := Option.map_eq_some_iff.mp result
      obtain ⟨v, rest'⟩ := r
      obtain ⟨returned, rfl⟩ := Prod.mk.inj result
      obtain ⟨_, reported, returned⟩ := bind_ok (x := processReports register v.reports) returned
      obtain ⟨errors, checked, good⟩ : ∃ n, checkAnswers s v.msgs = .ok n ∧
          (decide (v.ids = ∅) && decide (n = 0)) = true := by
        cases checked : checkAnswers s v.msgs with
        | error e =>
          rw [checked] at returned
          cases returned
        | ok n =>
          rw [checked] at returned
          exact ⟨n, rfl, Except.ok.inj returned⟩
      rw [Bool.and_eq_true, decide_eq_true_eq, decide_eq_true_eq] at good
      obtain ⟨none_, rfl⟩ := good
      -- An answer with an error would have no good body.
      have bodies := (checkAnswers_zero s).mp checked
      obtain ⟨bs, m, rfl, done, last⟩ := ends.mp ⟨confirmed, none_⟩
      cases last with
      | inl error =>
        obtain ⟨fails, rfl⟩ := error
        have body := bodies m (List.mem_append_right _ List.mem_cons_self)
        cases (fails_of_body body).symm.trans fails
      | inr last =>
        obtain ⟨fine, rfl, -⟩ := last
        have reported : processReports register (reportsOf (bs ++ [.message m])) = .ok () := reported
        rw [reportsOf_message done.accepts] at reported
        exact .inr ⟨some_, bs, m, rfl, completed_iff.mpr ⟨done, fine, none_, bodies⟩, reported⟩
    · intro either
      cases either with
      | inl done => exact absurd done.1 some_
      | inr completed =>
        obtain ⟨-, bs, m, rfl, completed, reported⟩ := completed
        obtain ⟨done, fine, none_, bodies⟩ := completed_iff.mp completed
        obtain ⟨confirmed, -⟩ := ends.mpr ⟨bs, m, rfl, done, .inr ⟨fine, rfl, none_⟩⟩
        have reported : processReports register (Waiting.advance (some msgId) ⟨some msgId, s.phase1Ids, [], []⟩
            (bs ++ [.message m])).reports = .ok () := by
          simp only [Waiting.advance, reportsOf_message done.accepts, List.nil_append]
          exact reported
        rw [confirmed, Option.map_some, reported, (checkAnswers_zero s).mpr bodies, none_]
        rfl

/-- Phase 2 is completed exactly where nobody has to answer, or somebody was missing before a last answer with which
    everybody has answered or which has an error, and before it the time was not over and nothing else had an error. An
    answer is here any message that is no report and has the id of the first such message since the last pause of a
    second. And the reports that came before are processed without an exception: a file that cannot be registered fails
    the phase. -/
theorem phase2_replies_iff (as rest : List (Arrival M C)) :
    getPhase2Replies s register as = some (.ok true, rest) ↔
      (s.phase2Ids = ∅ ∧ rest = as) ∨
        (s.phase2Ids ≠ ∅ ∧ ∃ bs m, as = bs ++ .message m :: rest ∧ Quiet none none bs ∧
          ¬ s.phase2Ids ⊆ senders (accepted none none bs) ∧ Accepts (adopted none none bs) m ∧
          (m.fails = true ∨ s.phase2Ids ⊆ senders (accepted none none (bs ++ [.message m]))) ∧
          processReports register (reportsOf bs) = .ok ()) := by
  rw [getPhase2Replies]
  cases Decidable.em (s.phase2Ids = ∅) with
  | inl none_ =>
    have confirmed : confirmResponse none ⟨none, s.phase2Ids, [], []⟩ as = some (⟨none, s.phase2Ids, [], []⟩, as) := by
      cases as with
      | nil => rw [confirmResponse, if_pos none_]
      | cons a as => rw [confirmResponse, if_pos none_]
    rw [confirmed, Option.map_some, processReports]
    constructor
    · intro result
      obtain ⟨-, left⟩ := Prod.mk.inj (Option.some.inj result)
      exact .inl ⟨none_, left.symm⟩
    · intro either
      cases either with
      | inl done =>
        rw [done.2]
        simp only [none_, decide_true]
      | inr waits => exact absurd none_ waits.1
  | inr some_ =>
    have ends := @confirm_done_iff M C _ _ none as ⟨none, s.phase2Ids, [], []⟩ some_
    constructor
    · intro result
      obtain ⟨r, confirmed, result⟩ := Option.map_eq_some_iff.mp result
      obtain ⟨v, rest'⟩ := r
      obtain ⟨returned, rfl⟩ := Prod.mk.inj result
      have good : processReports register v.reports = .ok () ∧ v.ids = ∅ := by
        split at returned
        · cases returned
        · cases returned
        · rename_i reported
          exact ⟨reported, of_decide_eq_true (Except.ok.inj returned)⟩
      obtain ⟨reported, none_⟩ := good
      obtain ⟨bs, m, rfl, done, last⟩ := ends.mp ⟨confirmed, none_⟩
      have waits : ¬ s.phase2Ids ⊆ senders (accepted none none bs) :=
        fun all => done.waits (Finset.sdiff_eq_empty_iff_subset.mpr all)
      refine .inr ⟨some_, bs, m, rfl, done.quiet, waits, done.accepts, ?_⟩
      cases last with
      | inl error =>
        obtain ⟨fails, rfl⟩ := error
        exact ⟨.inl fails, reported⟩
      | inr last =>
        obtain ⟨-, rfl, -⟩ := last
        refine ⟨.inr (Finset.sdiff_eq_empty_iff_subset.mp none_), ?_⟩
        have reported : processReports register (reportsOf (bs ++ [.message m])) = .ok () := reported
        rw [reportsOf_message done.accepts] at reported
        exact reported
    · intro either
      cases either with
      | inl done => exact absurd done.1 some_
      | inr window =>
        obtain ⟨-, bs, m, rfl, quiet, waits, accepts, last, reported⟩ := window
        have done : Done none ⟨none, s.phase2Ids, [], []⟩ bs m :=
          ⟨quiet, fun all => waits (Finset.sdiff_eq_empty_iff_subset.mp all), accepts⟩
        cases fails : m.fails with
        | true =>
          obtain ⟨confirmed, none_⟩ := ends.mpr ⟨bs, m, rfl, done, .inl ⟨fails, rfl⟩⟩
          have reported : processReports register
              ((Waiting.advance none ⟨none, s.phase2Ids, [], []⟩ bs).fail m).reports = .ok () := reported
          rw [confirmed, Option.map_some, reported]
          simp only [none_, decide_true]
        | false =>
          have all : s.phase2Ids ⊆ senders (accepted none none (bs ++ [.message m])) := by
            cases last with
            | inl error => cases fails.symm.trans error
            | inr all => exact all
          obtain ⟨confirmed, none_⟩ := ends.mpr
            ⟨bs, m, rfl, done, .inr ⟨fails, rfl, Finset.sdiff_eq_empty_iff_subset.mpr all⟩⟩
          have reported : processReports register (Waiting.advance none ⟨none, s.phase2Ids, [], []⟩
              (bs ++ [.message m])).reports = .ok () := by
            simp only [Waiting.advance, reportsOf_message accepts, List.nil_append]
            exact reported
          rw [confirmed, Option.map_some, reported]
          simp only [none_, decide_true]

end windows

end Lcls2.Control
