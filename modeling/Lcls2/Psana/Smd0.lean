import Lcls2.Psana.SmdRepack
import Lcls2.Psana.StepHistory

/-!
# Smd0

Model of `Smd0.start` (`psana/psexp/node.py`) with the chunks of `SmdReaderManager` (`smdreader_manager.py`):
every chunk is a view of the reader, whose steps go to the history and which is packed and sent with the
steps that its client has missed. What has been sent is kept as it is, in bytes.
-/

namespace Lcls2.Psana
open Lib

/-- What `Smd0.start` does: the manager reads more, the next view goes to a client, or, when there are no
    more chunks, a client asks for what it has missed. `left` is what is in the send buffer of the client
    before. -/
inductive Smd0Op where
  | get (wants : List Nat) (retries : List (List Nat))
  | chunk (client batchSize : Nat) (intgStreamId : Option Nat) (left : Bytes)
  | missing (client : Nat) (left : Bytes)

/-- What stops `Smd0`. -/
inductive Smd0Fault where
  | read (fault : ReadFault)
  | packet (fault : PacketFault)
  deriving DecidableEq

/-- `Smd0` with the messages it has sent; `given` keeps what each view that was sent has of each stream,
    the fake steps included. -/
structure Smd0 where
  reader : SmdReader
  stepHist : StepHistory
  messages : List (Nat × Bytes)
  given : List (List Bytes)

/-- `show` of the steps of the first streams. -/
def SmdReader.showSteps (r : SmdReader) : Nat → Except ReadFault (List Bytes × SmdReader)
  | 0 => .ok ([], r)
  | n + 1 => do
    let (views, r) ← r.showSteps n
    let (view, r) ← r.show_ n true
    .ok (views ++ [view], r)

namespace Smd0

/-- `Smd0.__init__`, with a reader of some files. -/
def new (smdSize chunksize : Nat) (fakestepFlag : Bool) (files : List (List SmdDgram)) : Smd0 where
  reader := .new chunksize fakestepFlag (files.map flat)
  stepHist := .new smdSize files.length
  messages := []
  given := []

/-- `get_buffer`, for a client. -/
def getBuffer (s : Smd0) (client : Nat) : Except Smd0Fault (List Bytes × StepHistory) :=
  (s.stepHist.getBuffer client).mapError .packet

/-- What is done with a view: its steps go to the history, and it is sent with the missing steps. -/
def sendChunk (s : Smd0) (client : Nat) (left : Bytes) : Except Smd0Fault Smd0 := do
  let (missing, stepHist) ← s.getBuffer client
  let (stepViews, reader) ← (s.reader.showSteps s.reader.streams.length).mapError .read
  let stepHist ← (stepHist.extendBuffers stepViews client).mapError .packet
  let repacked ← (reader.repackParallel left missing false).mapError .read
  .ok {
    reader
    stepHist
    messages := s.messages ++ [(client, repacked)]
    given := s.given ++ [reader.segments (missing.map fun _ => []) false] }

/-- `Smd0.start`. A view without events is not sent. -/
def step (s : Smd0) : Smd0Op → Except Smd0Fault Smd0
  | .get wants retries => .ok { s with reader := s.reader.get wants retries }
  | .chunk client batchSize intgStreamId left => do
    let reader ← (s.reader.view batchSize intgStreamId).mapError .read
    let viewed : Smd0 := { s with reader := reader }
    if reader.nViewEvents = 0 then .ok viewed else viewed.sendChunk client left
  | .missing client left => do
    let (missing, stepHist) ← s.getBuffer client
    let repacked ← (s.reader.repackParallel left missing true).mapError .read
    .ok { s with stepHist, messages := s.messages ++ [(client, repacked)] }

end Smd0

/-- The dgrams of a packet, one after the other. -/
def dgramsIn : Nat → Bytes → List Bytes
  | 0, _ => []
  | fuel + 1, bytes =>
    if bytes.length < sizeofDgram then []
    else bytes.take (dgramSizeAt bytes 0) :: dgramsIn fuel (bytes.drop (dgramSizeAt bytes 0))

/-- The dgrams of a packet that are not L1Accepts. -/
def stepsIn (bytes : Bytes) : List Bytes :=
  (dgramsIn bytes.length bytes).filter fun d => headerService d ≠ l1Accept

/-- The transitions of a stream in what a client has been sent: the client takes each message apart by its
    footer. -/
def Smd0.received (s : Smd0) (client i : Nat) : Except PacketFault (List Bytes) := do
  let chunks ← (s.messages.filter (·.1 = client)).mapM fun m =>
    PacketFooter.ofView m.2 >>= PacketFooter.splitPackets
  .ok (chunks.flatMap fun packets => stepsIn (packets.getD i []))

/-- The transitions of a stream in some views. -/
def transitionsOver (given : List (List Bytes)) (i : Nat) : List Bytes :=
  given.flatMap fun view => stepsIn (view.getD i [])

end Lcls2.Psana
