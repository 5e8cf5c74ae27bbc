import Lcls2.Lib.Run

/-!
# Replies to the control process

Model of how `CollectionManager` (`control/control.py`) waits for its clients: `wait_for_answers`, `confirm_response`,
`check_answers`, `process_reports`, the end of `condition_common` and `get_phase2_replies`.

What comes on `back_pull` is a list of arrivals, of which a call takes those up to where it stops waiting. A poll of
`wait_for_answers` that ends without a message is an arrival too, with whether the time of `confirm_response` is over;
so is a message that is no JSON. `wait_for_answers` takes the id of the first message that is no report where it is
given none, and it is called anew after each such poll.
-/

namespace Lcls2.Control
open Lib

/-- The keys of messages; the first three are `report_keys`. -/
inductive Key where
  | error
  | warning
  | fileReport
  | other (name : String)
  deriving DecidableEq

/-- `msg['header']['key'] in report_keys`. -/
def Key.isReport : Key → Bool
  | .other _ => false
  | _ => true

/-- A message, with ids of messages in `M` and of clients in `C`. The body is null, or has an `err_info` or none. -/
structure Message (M C : Type) where
  key : Key
  msgId : M
  sender : C
  body : Option (Option String)

/-- What comes on the socket. -/
inductive Arrival (M C : Type) where
  | message (m : Message M C)
  | garbled
  | idle (expired : Bool)

/-- A message that ends the waiting with an error. -/
def Message.fails {M C : Type} (m : Message M C) : Bool := m.body.any Option.isSome && m.key ≠ .warning

/-- The state of `confirm_response`: the id that `wait_for_answers` looks for, the clients that it waits for, and the
    answers and reports so far. -/
structure Waiting (M C : Type) where
  current : Option M
  ids : Finset C
  msgs : List (Message M C)
  reports : List (Message M C)

/-- The exceptions. -/
inductive ReplyFault where
  | typeError
  | indexError
  | keyError
  | configDBError
  deriving DecidableEq

/-- A client of `cmstate_levels`: whether it is active, and whether it has a `proc_info`. -/
structure Client (C : Type) where
  id : C
  active : Bool
  known : Bool

/-- `cmstate_levels` and `self.ids`. -/
structure Clients (C : Type) where
  levels : List (String × List (Client C))
  ids : Finset C

section replies
variable {M C : Type} [DecidableEq M] [DecidableEq C]

/-- What an arrival does, with whether the loops end: the message with an error takes the place of all that is waited
    for, and is then an answer itself, or a report. -/
def receive (given : Option M) (w : Waiting M C) : Arrival M C → Waiting M C × Bool
  | .garbled => (w, false)
  | .idle expired => ({ w with current := given }, expired)
  | .message m =>
    if m.key.isReport then
      ({ w with reports := w.reports ++ [m], ids := if m.fails then {m.sender} else w.ids }, m.fails)
    else if m.msgId = w.current.getD m.msgId then
      if m.fails then ({ w with current := some m.msgId, ids := ∅, msgs := w.msgs ++ [m] }, true)
      else if m.sender ∈ w.ids then
        ({ w with current := some m.msgId, ids := w.ids.erase m.sender, msgs := w.msgs ++ [m] }, false)
      else ({ w with current := some m.msgId }, false)
    else (w, false)

/-- The loops of `confirm_response`. It goes on waiting where the arrivals do not decide. -/
def confirmResponse (given : Option M) (w : Waiting M C) :
    List (Arrival M C) → Option (Waiting M C × List (Arrival M C))
  | [] => if w.ids = ∅ then some (w, []) else none
  | a :: as =>
    if w.ids = ∅ then some (w, a :: as)
    else
      let (w, ends) := receive given w a
      if ends then some (w, as) else confirmResponse given w as

/-- `filter_active_set`. -/
def Clients.activeSet (s : Clients C) : Finset C :=
  s.ids.filter fun c => s.levels.any fun level => level.2.any fun x => x.id = c && x.active

/-- `filter_level`. -/
def Clients.filterLevel (s : Clients C) (pre : String) (ids : Finset C) : Finset C :=
  ids.filter fun c => s.levels.any fun level => level.1.startsWith pre && level.2.any fun x => x.id = c

/-- Whether `get_aliases` has an alias for a client. -/
def Clients.known (s : Clients C) (c : C) : Bool := s.levels.any fun level => level.2.any fun x => x.id = c && x.known

variable (s : Clients C) (register : Message M C → Except ReplyFault Unit)

/-- `check_answers`: the number of answers with an error. -/
def checkAnswers : List (Message M C) → Except ReplyFault Nat
  | [] => .ok 0
  | m :: msgs =>
    match m.body with
    | none => .error .typeError
    | some none => checkAnswers msgs
    | some (some _) => if s.known m.sender then (· + 1) <$> checkAnswers msgs else .error .indexError

/-- What `process_reports` does for a report, where `register` is `register_file`. -/
def processReport (m : Message M C) : Except ReplyFault Unit :=
  match m.key with
  | .fileReport => register m
  | .error | .warning =>
    match m.body with
    | none => .error .typeError
    | some none => .error .keyError
    | some (some _) => .ok ()
  | .other _ => .ok ()

/-- `process_reports`, which goes on after a `KeyError`. -/
def processReports : List (Message M C) → Except ReplyFault Unit
  | [] => .ok ()
  | m :: reports =>
    match processReport register m with
    | .ok () | .error .keyError => processReports reports
    | .error e => .error e

/-- The clients that answer a transition: those of the levels `drp`, `teb` and `meb`. -/
def Clients.phase1Ids : Finset C :=
  s.filterLevel "drp" s.activeSet ∪ s.filterLevel "teb" s.activeSet ∪ s.filterLevel "meb" s.activeSet

/-- Those that answer its second phase. -/
def Clients.phase2Ids : Finset C := s.filterLevel "drp" s.activeSet ∪ s.filterLevel "meb" s.activeSet

/-- What a condition returns, with the arrivals that it has not taken. -/
abbrev Replied (M C : Type) := Option (Except ReplyFault Bool × List (Arrival M C))

/-- The end of `condition_common`, after a message with an id has been sent. -/
def conditionReplies (msgId : M) (as : List (Arrival M C)) : Replied M C :=
  if s.phase1Ids = ∅ then some (.ok true, as)
  else
    (confirmResponse (some msgId) ⟨some msgId, s.phase1Ids, [], []⟩ as).map fun r =>
      ((processReports register r.1.reports).bind fun _ =>
        (checkAnswers s r.1.msgs).map fun errors => decide (r.1.ids = ∅) && decide (errors = 0), r.2)

/-- `get_phase2_replies`, which does not look at the answers. -/
def getPhase2Replies (as : List (Arrival M C)) : Replied M C :=
  (confirmResponse none ⟨none, s.phase2Ids, [], []⟩ as).map fun r =>
    (match processReports register r.1.reports with
      | .error .configDBError => .ok false
      | .error e => .error e
      | .ok () => .ok (decide (r.1.ids = ∅)), r.2)

end replies

end Lcls2.Control
