import Lcls2.Eb.EventBuilder

/-!
# The life of an event builder

Model of `EventBuilder::clear` and `EventBuilder::resetCounters` (`eb/EventBuilder.cc`), and of the
calls that an event builder gets over several connections: `initialize` at a connect, `process` and
`expired` while it runs, `clear` at an unconfigure. A call of `initialize` that is refused changes
nothing. The history of calls begins anew with `clear`.
-/

namespace Lcls2.Eb
open Lcls2.Lib

/-- `Pool::clearCounters`. -/
def GenericPool.clearCounters (p : GenericPool) : GenericPool :=
  { p with numberofAllocs := 0, numberofFrees := 0 }

namespace EbTables

/-- `EventBuilder::resetCounters`. -/
def resetCounters (t : EbTables) : EbTables :=
  { t with
    eventFreelist := t.eventFreelist.map GenericPool.clearCounters
    epochFreelist := t.epochFreelist.map GenericPool.clearCounters
    tmoEvtCnt := 0
    fixupCnt := 0
    missing := 0#64
    age := 0
    ebTime := 0
    arrTime := fun _ => 0 }

/-- What `EventBuilder::clear` does with an event; its table entry goes whatever it leads to. -/
def deleteEvent (t : EbTables) (event : EbEvent) : EbTables :=
  { t with
    eventLut := Function.update t.eventLut (t.evIndex event.sequence) none
    eventFreelist := t.eventFreelist.map fun p : GenericPool => p.free event.addr }

end EbTables

/-- The two nested loops of `EventBuilder::clear`. -/
def deleteEvents : List EbEpoch → EbTables → List EbEpoch × EbTables
  | [], t => ([], t)
  | epoch :: rest, t =>
    let (rest, t) := deleteEvents rest (epoch.pending.foldl EbTables.deleteEvent t)
    ({ epoch with pending := [] } :: rest, t)

namespace EventBuilder

/-- `EventBuilder::clear`. -/
def clear (s : EventBuilder) : EventBuilder :=
  let (pending, t) := deleteEvents s.pending s.tables
  let (pending, t) := discardEmpty pending.reverse t
  { pending := pending.reverse
    tables := { t.resetCounters with
      epochLut := fun _ => none
      eventLut := fun _ => none
      calls := [] } }

/-- The calls over the life of a builder. -/
inductive Action where
  | init (epochs entries sources : Nat) (duration : BitVec 64)
  | call (op : Op)
  | clear

/-- One such call. -/
def act (app : EbApp) (s : EventBuilder) : Action → Except Thrown EventBuilder
  | .init epochs entries sources duration =>
    .ok ((s.initialized epochs entries sources duration).getD s)
  | .call op => s.step app op
  | .clear => .ok s.clear

end EventBuilder

end Lcls2.Eb
