import Lcls2.Psana.EventBuilder
import Lcls2.Psana.SmdReader

/-!
# The smalldata callback

Model of `BatchIterator` (`psana/psexp/smdreader_manager.py`), of `RunSmallData` (`psana/psexp/run.py`) and
of `Step.events` (`psana/psexp/step.py`).

* A callback goes through `run.events()`, or through `run.steps()` and the events of each step, to the end.
  It may yield whenever it has control: what it yields then is a function of what it has seen so far, the
  last thing first, in this call and in the ones before it.
* The generator of `eb.events()` calls `build` when it is first asked for an event. `_evt_iter` is such a
  generator, which is made once: `none` before it is first asked, then the events it still has.
* An event is its proxy event.
-/

namespace Lcls2.Psana

/-- `TransitionId.BeginStep`. -/
def beginStep : Nat := 6

/-- `TransitionId.EndStep`. -/
def endStep : Nat := 7

/-- What a callback sees: an L1Accept event, a `Step`, the end of the events of a step, the end of the run
    that it was given. -/
inductive Seen where
  | event (evt : ProxyEvent)
  | step (evt : ProxyEvent)
  | stepEnd
  | done
  deriving DecidableEq

/-- `smd_callback`: whether it goes through `run.steps()`, and the events it yields after what it saw last,
    each an L1Accept event that it has seen. -/
structure SmdCallback where
  steps : Bool
  yields : List Seen → List ProxyEvent
  seen : ∀ trace, ∀ evt ∈ yields trace, Seen.event evt ∈ trace

/-- What happens in the loops: a transition is appended, or the callback sees something. -/
inductive Happens where
  | pass (evt : ProxyEvent)
  | see (what : Seen)
  deriving DecidableEq

/-- What the callback has seen, of all that happened, the last thing first. -/
def seenOf : List Happens → List Seen
  | [] => []
  | .pass _ :: log => seenOf log
  | .see what :: log => what :: seenOf log

/-- `BatchIterator` and its `RunSmallData`, with what has happened so far, the last thing first. -/
structure BatchIterator where
  mypybufs : List MyPyBuffer
  evtIter : Option (List ProxyEvent)
  proxyEvents : List ProxyEvent
  log : List Happens

namespace BatchIterator

/-- `BatchIterator.__init__`; there is no event builder where all views are empty. -/
def new (views : List (List PyDgram)) : Option BatchIterator :=
  if views.all List.isEmpty then none
  else some { mypybufs := views.map MyPyBuffer.new, evtIter := none, proxyEvents := [], log := [] }

/-- The callback sees something, and what it yields is appended. -/
def see (cb : SmdCallback) (s : BatchIterator) (what : Seen) : BatchIterator :=
  { s with
    log := .see what :: s.log
    proxyEvents := s.proxyEvents ++ cb.yields (what :: seenOf s.log) }

/-- A transition is appended. -/
def append (s : BatchIterator) (evt : ProxyEvent) : BatchIterator :=
  { s with log := .pass evt :: s.log, proxyEvents := s.proxyEvents ++ [evt] }

/-- The loop of `RunSmallData.events`. -/
def events (cb : SmdCallback) : List ProxyEvent → BatchIterator → BatchIterator
  | [], s => s.see cb .done
  | evt :: rest, s =>
    if evt.service ≠ l1Accept then
      let s := s.append evt
      if evt.service = endRun then s.see cb .done else events cb rest s
    else events cb rest (s.see cb (.event evt))

/-- The loop of `RunSmallData.steps`, and inside of a step that of `Step.events`. -/
def steps (cb : SmdCallback) : Bool → List ProxyEvent → BatchIterator → BatchIterator
  | false, [], s => { s with evtIter := some [] }.see cb .done
  | true, [], s => ({ s with evtIter := some [] }.see cb .stepEnd).see cb .done
  | false, evt :: rest, s =>
    if evt.service ≠ l1Accept then
      let s := s.append evt
      if evt.service = endRun then { s with evtIter := some rest }.see cb .done
      else if evt.service = beginStep then steps cb true rest (s.see cb (.step evt))
      else steps cb false rest s
    else steps cb false rest s
  | true, evt :: rest, s =>
    if evt.service ≠ l1Accept then
      if evt.service = endStep then steps cb false rest (s.see cb .stepEnd)
      else steps cb true rest (s.append evt)
    else steps cb true rest (s.see cb (.event evt))

/-- `smd_callback(self.run_smd)` with the loop over what it yields. -/
def callback (dsparms : DsParms) (fuel : Nat) (cb : SmdCallback) (s : BatchIterator) :
    Except BuildFault BatchIterator :=
  if cb.steps then
    match s.evtIter with
    | some rest => .ok (steps cb false rest s)
    | none =>
      match build dsparms fuel s.mypybufs with
      | .error e => .error e
      | .ok (proxyEvents, mypybufs) => .ok (steps cb false proxyEvents { s with mypybufs })
  else
    match build dsparms fuel s.mypybufs with
    | .error e => .error e
    | .ok (proxyEvents, mypybufs) => .ok (events cb proxyEvents { s with mypybufs })

/-- The loop of `__next__`. -/
def loop (dsparms : DsParms) (fuel : Nat) (cb : SmdCallback) :
    Nat → BatchIterator → Except BuildFault BatchIterator
  | 0, _ => .error .fuel
  | n + 1, s =>
    if s.proxyEvents = [] ∧ hasMore s.mypybufs then
      match callback dsparms fuel cb s with
      | .error e => .error e
      | .ok s => loop dsparms fuel cb n s
    else .ok s

/-- Calling `__next__` until it raises `StopIteration`: the lists that are handed to `gen_batches`, and what
    has happened. -/
def nextAll (dsparms : DsParms) (fuel : Nat) (cb : SmdCallback) (n : Nat) :
    Nat → BatchIterator → Except BuildFault (List (List ProxyEvent) × List Happens)
  | 0, _ => .error .fuel
  | calls + 1, s =>
    match loop dsparms fuel cb n s with
    | .error e => .error e
    | .ok s =>
      if s.proxyEvents = [] then .ok ([], s.log)
      else
        match nextAll dsparms fuel cb n calls { s with proxyEvents := [] } with
        | .error e => .error e
        | .ok (lists, log) => .ok (s.proxyEvents :: lists, log)

end BatchIterator

/-- All calls of `__next__` on the iterator for some views. -/
def nextAll (dsparms : DsParms) (fuel : Nat) (cb : SmdCallback) (n : Nat) (views : List (List PyDgram)) :
    Except BuildFault (List (List ProxyEvent) × List Happens) :=
  match BatchIterator.new views with
  | none => .ok ([], [])
  | some s => s.nextAll dsparms fuel cb n n

end Lcls2.Psana
