import Mathlib
import Lcls2.Lib.Run

/-!
# The control process

Model of the front requests of `CollectionManager` (`control/control.py`) and of the phase-1 information that they
leave with it: `service_requests`, `handle_setstate`, `handle_chunkrequest`, `handle_trigger`, the conditions of the
transitions and `condition_common`.

* What the clients, the timing system and the run database answer is the outcome of a condition: it gives up before
  it sends phase 1, after that, or not at all. An exception that `service_requests` catches ends the request as
  a failure does.
* `phase1Info` has what is kept for each transition; a key that names no transition is never looked up. A piece
  carries where it is from: the body of a request, or `condition_beginrun` during one. Requests are numbered.
* `sent` has the messages of `condition_common`, each with its request.
-/

namespace Lcls2.Control

/-- `ControlDef.states`. -/
inductive ControlState where
  | reset | unallocated | allocated | connected | configured | starting | paused | running
  deriving DecidableEq

/-- `ControlDef.transitions`. -/
inductive Transition where
  | rollcall | alloc | dealloc | connect | disconnect | configure | unconfigure | beginrun | endrun
  | beginstep | endstep | enable | disable | slowupdate | reset
  deriving DecidableEq

/-- `next_dict`. -/
def nextDict : ControlState → ControlState → Option Transition
  | .reset, .reset => none
  | .reset, _ => some .rollcall
  | .unallocated, .reset => some .reset
  | .unallocated, .unallocated => none
  | .unallocated, _ => some .alloc
  | .allocated, .reset => some .reset
  | .allocated, .unallocated => some .dealloc
  | .allocated, .allocated => none
  | .allocated, _ => some .connect
  | .connected, .reset => some .reset
  | .connected, .unallocated | .connected, .allocated => some .disconnect
  | .connected, .connected => none
  | .connected, _ => some .configure
  | .configured, .reset => some .reset
  | .configured, .unallocated | .configured, .allocated | .configured, .connected => some .unconfigure
  | .configured, .configured => none
  | .configured, _ => some .beginrun
  | .starting, .reset => some .reset
  | .starting, .starting => none
  | .starting, .paused | .starting, .running => some .beginstep
  | .starting, _ => some .endrun
  | .paused, .reset => some .reset
  | .paused, .paused => none
  | .paused, .running => some .enable
  | .paused, _ => some .endstep
  | .running, .reset => some .reset
  | .running, .running => none
  | .running, _ => some .disable

/-- `collectMachine`: where a transition leads from a state, if it may be taken there. -/
def machine : Transition → ControlState → Option ControlState
  | .reset, _ => some .reset
  | .rollcall, .reset | .rollcall, .unallocated => some .unallocated
  | .alloc, .unallocated => some .allocated
  | .dealloc, .allocated => some .unallocated
  | .connect, .allocated => some .connected
  | .disconnect, .connected => some .allocated
  | .configure, .connected => some .configured
  | .unconfigure, .configured => some .connected
  | .beginrun, .configured => some .starting
  | .endrun, .starting => some .configured
  | .beginstep, .starting => some .paused
  | .endstep, .paused => some .starting
  | .enable, .paused => some .running
  | .disable, .running => some .paused
  | .slowupdate, .running => some .running
  | _, _ => none

/-- How a condition ends. -/
inductive Result where
  | early | late | ok
  deriving DecidableEq

/-- What a condition finds: how it ends, and the experiment and run number that `condition_beginrun` gets. -/
structure Outcome (V : Type) where
  result : Result
  runInfo : V

/-- Where a piece of phase-1 information is from. -/
inductive Source where
  | body (request : Nat)
  | beginrun (request : Nat)
  deriving DecidableEq

/-- A piece of phase-1 information. -/
structure Piece (V : Type) where
  source : Source
  value : V

/-- A message of `condition_common`. -/
structure Sent (V : Type) where
  request : Nat
  transition : Transition
  phase1Info : Option (Piece V)

/-- The front requests. A body of `setstate` has information for some transitions; of a single transition it is the
    information for that. -/
inductive Request (V : Type) where
  | setstate (body : Transition → Option V) (newstate : Option ControlState) (outcomes : List (Outcome V))
  | transition (key : Transition) (body : Option V) (outcome : Outcome V)
  | chunkRequest (disable enable : Outcome V)
  | other

/-- Why a request does not end: it waits for an outcome, or an exception is not caught. -/
inductive ControlFault where
  | waits
  | raised
  deriving DecidableEq

/-- `CollectionManager`. -/
structure CollectionManager (V : Type) where
  state : ControlState
  phase1Info : Transition → Option (Piece V)
  requests : Nat
  sent : List (Sent V)

namespace CollectionManager
variable {V : Type}

/-- `__init__`. -/
def init : CollectionManager V := ⟨.reset, fun _ => none, 0, []⟩

variable (s : CollectionManager V)

/-- `condition_common`, up to the answers. -/
def conditionCommon (transition : Transition) : CollectionManager V :=
  { s with
    sent := s.sent ++ [⟨s.requests, transition, s.phase1Info transition⟩]
    phase1Info := Function.update s.phase1Info transition none }

/-- `self.phase1Info = {}`. -/
def clearInfo : CollectionManager V := { s with phase1Info := fun _ => none }

/-- The run info is set. -/
def setRunInfo (runInfo : V) : CollectionManager V :=
  { s with phase1Info := Function.update s.phase1Info .beginrun (some ⟨.beginrun s.requests, runInfo⟩) }

/-- Phase 1, where the condition comes to it. -/
def phase1 (transition : Transition) (result : Result) : CollectionManager V :=
  if result = .early then s else s.conditionCommon transition

/-- The conditions of the transitions. -/
def condition (o : Outcome V) : Transition → CollectionManager V × Bool
  | .reset => (s.clearInfo, true)
  | .unconfigure => (s.clearInfo.phase1 .unconfigure o.result, o.result = .ok)
  | .beginrun =>
    (if o.result = .early then s else (s.setRunInfo o.runInfo).conditionCommon .beginrun, o.result = .ok)
  | .rollcall | .alloc | .dealloc | .connect | .disconnect | .slowupdate => (s, o.result = .ok)
  | t => (s.phase1 t o.result, o.result = .ok)

/-- `handle_trigger`, with whether the answer has an error. -/
def handleTrigger (key : Transition) (o : Outcome V) (stateChange : Bool) : CollectionManager V × Bool :=
  match machine key s.state with
  | none => (s, true)
  | some dest =>
    let (t, ok) := s.condition o key
    let t := if ok then { t with state := dest } else t
    (t, stateChange && decide (t.state = s.state))

/-- The loop of `handle_setstate`. -/
def setstateLoop (newstate : ControlState) :
    List (Outcome V) → CollectionManager V → Except ControlFault (CollectionManager V)
  | [], s => if s.state = newstate ∨ nextDict s.state newstate = none then .ok s else .error .waits
  | o :: outcomes, s =>
    if s.state = newstate then .ok s
    else
      match nextDict s.state newstate with
      | none => .ok s
      | some nextT =>
        let (t, err) := s.handleTrigger nextT o true
        if err then .ok t else setstateLoop newstate outcomes t

/-- `self.phase1Info.update(body)`. -/
def update (body : Transition → Option V) : CollectionManager V :=
  { s with
    phase1Info := fun t => ((body t).map fun v => ⟨.body s.requests, v⟩).or (s.phase1Info t) }

/-- `handle_chunkrequest`. -/
def handleChunkrequest (disable enable : Outcome V) : CollectionManager V :=
  if s.state = .running then
    let (t, err) := s.handleTrigger .disable disable true
    if err then t else (t.handleTrigger .enable enable true).1
  else s

/-- A request. The body of a single transition is stored under a part of the key that `DaqControl` does not send, and
    then logged under a name that is not defined. -/
def handle : Request V → Except ControlFault (CollectionManager V)
  | .setstate body newstate outcomes =>
    let s := s.update body
    match newstate with
    | none => .ok s
    | some newstate => setstateLoop newstate outcomes s
  | .transition key body o =>
    match body with
    | some _ => .error .raised
    | none => .ok (s.handleTrigger key o false).1
  | .chunkRequest disable enable => .ok (s.handleChunkrequest disable enable)
  | .other => .ok s

/-- `service_requests`. -/
def serviceRequests (request : Request V) : Except ControlFault (CollectionManager V) :=
  (s.handle request).map fun t => { t with requests := t.requests + 1 }

end CollectionManager

end Lcls2.Control
