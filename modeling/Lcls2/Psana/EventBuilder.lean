import Lcls2.Lib.Merge

/-!
# The event builder of psana

Model of `psana/eventbuilder.pyx` and of the `MyPyBuffer` it reads its views with
(`psana/mypybuffer.pyx`).

* A view is a concatenation of dgrams; the datagram at an offset is the one that starts there.
* `timestamps`, `dgram_sizes`, `services` and `pydgrams`, the arrays that `build_proxy_event` fills
  for each view, are one `Slot` per view; a `0` in `pydgrams` is `none`, and so is `smd_id = -1`.
* The user callbacks `filter` and `destination` are parameters of `DsParms`.
* The loops take fuel; running out of it is the fault `fuel`, which no well-formed view causes.
-/

namespace Lcls2.Psana

/-- `TransitionId.L1Accept`. -/
def l1Accept : Nat := 12

/-- `sizeof(Dgram)` in `dgramlite.pxd`. -/
def sizeofDgram : Nat := 24

/-- `PyDgram` of `psana/dgramedit.pyx`. -/
structure PyDgram where
  timestamp : Nat
  service : Nat
  payload : List UInt8
  deriving DecidableEq

/-- `PyDgram.size`. -/
def PyDgram.size (d : PyDgram) : Nat := sizeofDgram + d.payload.length

/-- What stops a build: an exception of the source, a null pointer, or the end of the fuel. -/
inductive BuildFault where
  | stopIteration | nullDgram | misaligned | missingTransition | indexError | tooManyEvents | fuel
  deriving DecidableEq

/-- `MyPyBuffer`; `dg` points to the dgram that was read last. -/
structure MyPyBuffer where
  view : List PyDgram
  offset : Nat
  dg : Option PyDgram

/-- The datagram that starts at an offset. -/
def dgramAt : List PyDgram → Nat → Option PyDgram
  | [], _ => none
  | d :: view, offset =>
    if offset = 0 then some d
    else if offset < d.size then none
    else dgramAt view (offset - d.size)

namespace MyPyBuffer

/-- `MyPyBuffer.__init__`. -/
def new (view : List PyDgram) : MyPyBuffer := { view, offset := 0, dg := none }

/-- `MyPyBuffer.size`. -/
def size (b : MyPyBuffer) : Nat := (b.view.map PyDgram.size).sum

/-- `next(mypybuf.dgrams())`. -/
def next (b : MyPyBuffer) : Except BuildFault (PyDgram × MyPyBuffer) :=
  if b.offset < b.size then
    match dgramAt b.view b.offset with
    | none => .error .misaligned
    | some d => .ok (d, { b with dg := some d, offset := b.offset + d.size })
  else .error .stopIteration

/-- `MyPyBuffer.rewind`. -/
def rewind (b : MyPyBuffer) (dgram : PyDgram) : MyPyBuffer :=
  { b with offset := b.offset - dgram.size }

end MyPyBuffer

/-- `ProxyEvent`. -/
structure ProxyEvent where
  pydgrams : List (Option PyDgram)
  destination : Int
  service : Nat
  timestamp : Nat
  deriving DecidableEq

/-- What the event builder reads of `DsParms`. -/
structure DsParms where
  timestamps : List Nat
  filter : Option (ProxyEvent → Bool)
  destination : Option (ProxyEvent → Int)
  batchSize : Nat
  intgStreamId : Option Nat

/-- `MAX_BATCH_SIZE`. -/
def maxBatchSize : Nat := 10000

/-- What `build_proxy_event` keeps of a view between its two loops. -/
structure Slot where
  timestamp : Nat := 0
  dgramSize : Nat := 0
  service : Nat := 0
  pydgram : Option PyDgram := none

/-- The selection test of the first loop: the datagram is skipped. -/
def skipped (filterTimestamps : List Nat) (d : PyDgram) : Bool :=
  !filterTimestamps.contains d.timestamp && d.service == l1Accept

/-- The loop that skips what the user did not select. The flag is `accept_filter_ts`. -/
def skipLoop (filterTimestamps : List Nat) :
    Nat → PyDgram → MyPyBuffer → Except BuildFault (Bool × PyDgram × MyPyBuffer)
  | 0, _, _ => .error .fuel
  | fuel + 1, pydg, b =>
    if skipped filterTimestamps pydg then
      if b.offset = b.size then .ok (false, pydg, b)
      else
        match b.next with
        | .error e => .error e
        | .ok (pydg, b) => skipLoop filterTimestamps fuel pydg b
    else .ok (true, pydg, b)

/-- The first loop for one view: the next datagram that is not skipped. -/
def advance (filterTimestamps : List Nat) (b : MyPyBuffer) :
    Except BuildFault (Slot × MyPyBuffer) :=
  if b.offset < b.size then
    match b.next with
    | .error e => .error e
    | .ok (pydg, b) =>
      match if filterTimestamps.length > 0 then skipLoop filterTimestamps (b.view.length + 1) pydg b
        else .ok (true, pydg, b) with
      | .error e => .error e
      | .ok (acceptFilterTs, pydg, b) =>
        if acceptFilterTs then
          .ok ({ timestamp := pydg.timestamp, dgramSize := pydg.size, service := pydg.service,
                 pydgram := some pydg }, b)
        else .ok ({}, b)
  else .ok ({}, b)

/-- The first loop over all views. -/
def advanceAll (filterTimestamps : List Nat) :
    List MyPyBuffer → Except BuildFault (List (Slot × MyPyBuffer))
  | [] => .ok []
  | b :: mypybufs =>
    match advance filterTimestamps b with
    | .error e => .error e
    | .ok slot =>
      match advanceAll filterTimestamps mypybufs with
      | .error e => .error e
      | .ok slots => .ok (slot :: slots)

/-- The search for the smallest timestamp in the first loop: `min_ts` and `smd_id`. A view without a
    datagram was left out by `continue`. -/
def smallest : Nat → List Slot → Nat → Option Nat → Nat × Option Nat
  | _, [], minTs, smdId => (minTs, smdId)
  | viewIdx, slot :: slots, minTs, smdId =>
    if slot.pydgram.isNone then smallest (viewIdx + 1) slots minTs smdId
    else if minTs = 0 then smallest (viewIdx + 1) slots slot.timestamp (some viewIdx)
    else if slot.timestamp < minTs then smallest (viewIdx + 1) slots slot.timestamp (some viewIdx)
    else smallest (viewIdx + 1) slots minTs smdId

/-- The second loop for one view: keep the datagram of the event's timestamp, or rewind. -/
def matchView (timestamp : Nat) (slot : Slot) (b : MyPyBuffer) :
    Except BuildFault (Option PyDgram × MyPyBuffer) :=
  if b.offset - slot.dgramSize ≥ b.size then .ok (none, b)
  else
    match b.dg with
    | none => .error .nullDgram
    | some pydg => if pydg.timestamp = timestamp then .ok (some pydg, b) else .ok (none, b.rewind pydg)

/-- The second loop over all views. -/
def matchViews (smdId timestamp : Nat) :
    Nat → List (Slot × MyPyBuffer) → Except BuildFault (List (Option PyDgram × MyPyBuffer))
  | _, [] => .ok []
  | viewIdx, (slot, b) :: slots =>
    match if viewIdx = smdId then .ok (slot.pydgram, b) else matchView timestamp slot b with
    | .error e => .error e
    | .ok cell =>
      match matchViews smdId timestamp (viewIdx + 1) slots with
      | .error e => .error e
      | .ok cells => .ok (cell :: cells)

/-- The end of `build_proxy_event`: the callbacks of an L1 event, and the check that a transition has
    all its datagrams. -/
def finishEvent (dsparms : DsParms) (proxyEvt : ProxyEvent) :
    Except BuildFault (Option ProxyEvent) :=
  let callback := proxyEvt.service = l1Accept
  let accept := if callback then dsparms.filter.all (· proxyEvt) else true
  let destRank := if callback then (dsparms.destination.map (· proxyEvt)).getD 0 else 0
  if accept then
    if proxyEvt.service ≠ l1Accept ∧ proxyEvt.pydgrams.any Option.isNone then
      .error .missingTransition
    else .ok (some { proxyEvt with destination := destRank })
  else .ok none

/-- `EventBuilder.build_proxy_event`. -/
def buildProxyEvent (dsparms : DsParms) (mypybufs : List MyPyBuffer) :
    Except BuildFault (Option ProxyEvent × List MyPyBuffer) :=
  match advanceAll dsparms.timestamps mypybufs with
  | .error e => .error e
  | .ok slots =>
    match smallest 0 (slots.map (·.1)) 0 none with
    | (_, none) => .ok (none, slots.map (·.2))
    | (timestamp, some smdId) =>
      match matchViews smdId timestamp 0 slots with
      | .error e => .error e
      | .ok cells =>
        let proxyEvt : ProxyEvent :=
          { pydgrams := cells.map (·.1), destination := 0,
            service := ((slots[smdId]?).map (·.1.service)).getD 0, timestamp }
        match finishEvent dsparms proxyEvt with
        | .error e => .error e
        | .ok proxyEvt => .ok (proxyEvt, cells.map (·.2))

/-- `EventBuilder.has_more`. -/
def hasMore (mypybufs : List MyPyBuffer) : Bool := mypybufs.any fun b => b.offset < b.size

/-- What `build` adds to `cn_intg_events` for an event. -/
def intgEvents (dsparms : DsParms) (proxyEvt : ProxyEvent) : Except BuildFault Nat :=
  match dsparms.intgStreamId with
  | none => .ok 1
  | some stream =>
    match proxyEvt.pydgrams[stream]? with
    | none => .error .indexError
    | some pydg => .ok (if pydg.isSome then 1 else 0)

/-- The loop of `EventBuilder.build`. -/
def buildLoop (dsparms : DsParms) :
    Nat → Nat → List MyPyBuffer → Except BuildFault (List ProxyEvent × List MyPyBuffer)
  | 0, _, _ => .error .fuel
  | fuel + 1, cnIntgEvents, mypybufs =>
    if cnIntgEvents < dsparms.batchSize ∧ hasMore mypybufs then
      match buildProxyEvent dsparms mypybufs with
      | .error e => .error e
      | .ok (none, mypybufs) => buildLoop dsparms fuel cnIntgEvents mypybufs
      | .ok (some proxyEvt, mypybufs) =>
        match intgEvents dsparms proxyEvt with
        | .error e => .error e
        | .ok n =>
          match buildLoop dsparms fuel (cnIntgEvents + n) mypybufs with
          | .error e => .error e
          | .ok (proxyEvents, mypybufs) => .ok (proxyEvt :: proxyEvents, mypybufs)
    else .ok ([], mypybufs)

/-- `EventBuilder.build(as_proxy_events=True)`. -/
def build (dsparms : DsParms) (fuel : Nat) (mypybufs : List MyPyBuffer) :
    Except BuildFault (List ProxyEvent × List MyPyBuffer) :=
  match buildLoop dsparms fuel 0 mypybufs with
  | .error e => .error e
  | .ok (proxyEvents, mypybufs) =>
    if proxyEvents.length ≤ maxBatchSize then .ok (proxyEvents, mypybufs)
    else .error .tooManyEvents

/-- Calling `build` until `has_more` is false. -/
def buildAll (dsparms : DsParms) (fuel : Nat) :
    Nat → List MyPyBuffer → Except BuildFault (List (List ProxyEvent))
  | 0, _ => .error .fuel
  | calls + 1, mypybufs =>
    if hasMore mypybufs then
      match build dsparms fuel mypybufs with
      | .error e => .error e
      | .ok (batch, mypybufs) =>
        match buildAll dsparms fuel calls mypybufs with
        | .error e => .error e
        | .ok batches => .ok (batch :: batches)
    else .ok []

end Lcls2.Psana
