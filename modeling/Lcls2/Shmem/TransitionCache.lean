import Lcls2.Eb.EbDgram

/-!
# The transition cache of the shared-memory server

Model of `psalg::shmem::TransitionCache` (`shmem/TransitionCache.cc`) and of the thread of
`XtcMonitorServer::events` that fills the buffers it allocates. The datagrams of the transition
buffers are in shared memory; the cache reads their services only. A stack or a list of buffer
indices is a list, the top or the front first.
-/

namespace Lcls2.Shmem
open Eb (TransitionId)

/-- `MAX_SLOW_UPDATES`. -/
def maxSlowUpdates : Int := 3

/-- `TransitionCache` with the services of the datagrams behind `_pShm`. -/
structure TransitionCache where
  numberofTrBuffers : Nat
  notReady : BitVec 32
  allocated : Nat → BitVec 32
  cachedTr : List Nat
  freeTr : List Nat
  nSlowUpdates : Int
  service : Nat → TransitionId

/-- The ways `allocate` ends the process: `top()` of an empty stack, and `abort()`. -/
inductive CacheFault where
  | topOfEmpty
  | aborted
  deriving DecidableEq, Repr

namespace TransitionCache

/-- `TransitionCache::TransitionCache`. -/
def new (nbuff : Nat) : TransitionCache where
  numberofTrBuffers := nbuff
  notReady := 0#32
  allocated _ := 0#32
  cachedTr := []
  freeTr := List.range nbuff
  nSlowUpdates := 0
  service _ := .Reset

/-- `_freeTr.remove(ibuffer)` and `_cachedTr.push(ibuffer)`. -/
def push (s : TransitionCache) (ibuffer : Nat) : TransitionCache :=
  { s with freeTr := s.freeTr.filter (· ≠ ibuffer), cachedTr := ibuffer :: s.cachedTr }

/-- The loop of `allocate` on `Disable` that frees the `SlowUpdate`s and the matching `Enable`. -/
def freeEnable (service : Nat → TransitionId) (allocated : Nat → BitVec 32) :
    TransitionId → List Nat → List Nat → Int → Except CacheFault (List Nat × List Nat × Int)
  | oid, [], free, n =>
    if TransitionId.BeginStep.toNat < oid.toNat then .error .topOfEmpty else .ok ([], free, n)
  | oid, ib :: rest, free, n =>
    if TransitionId.BeginStep.toNat < oid.toNat then
      let n := if oid = .SlowUpdate ∧ allocated ib = 0#32 then n - 1 else n
      match rest with
      | [] => .error .topOfEmpty
      | top :: _ => freeEnable service allocated (service top) rest (free ++ [ib]) n
    else .ok (ib :: rest, free, n)

/-- The do-while of `allocate` that rolls back to a begin transition. -/
def rollBackBegin (service : Nat → TransitionId) (id : TransitionId) :
    List Nat → List Nat → Except CacheFault (List Nat × List Nat)
  | [], _ => .error .topOfEmpty
  | ib :: rest, free =>
    if id.toNat < (service ib).toNat then rollBackBegin service id rest (free ++ [ib])
    else .ok (rest, free ++ [ib])

/-- The while loop of `allocate` that rolls back to before an end transition. -/
def rollBackEnd (service : Nat → TransitionId) (id : TransitionId) :
    TransitionId → List Nat → List Nat → Except CacheFault (List Nat × List Nat)
  | oid, [], free =>
    if id.toNat < oid.toNat + 3 then .error .topOfEmpty else .ok ([], free)
  | oid, ib :: rest, free =>
    if id.toNat < oid.toNat + 3 then
      match rest with
      | [] => .ok ([], free ++ [ib])
      | top :: _ => rollBackEnd service id (service top) rest (free ++ [ib])
    else .ok (ib :: rest, free)

/-- The branch of `allocate` for an unexpected transition, `oid` being the service on top. -/
def rollBack (s : TransitionCache) (id oid : TransitionId) (ibuffer : Nat) :
    Except CacheFault TransitionCache :=
  if id.toNat % 2 = 0 then
    if oid.toNat < id.toNat then .error .aborted
    else do
      let (cached, free) ← rollBackBegin s.service id s.cachedTr s.freeTr
      .ok (({ s with cachedTr := cached, freeTr := free } : TransitionCache).push ibuffer)
  else do
    let (cached, free) ← rollBackEnd s.service id oid s.cachedTr s.freeTr
    .ok { s with cachedTr := cached, freeTr := free }

/-- What `allocate` does to the stack and the free list once `ibuffer` is chosen. -/
def cache (s : TransitionCache) (id : TransitionId) (ibuffer : Nat) :
    Except CacheFault TransitionCache :=
  match s.cachedTr with
  | [] => .ok (if id = .Configure then s.push ibuffer else s)
  | top :: rest =>
    let oid := s.service top
    if id = .SlowUpdate then
      .ok (if s.nSlowUpdates < maxSlowUpdates then { s with nSlowUpdates := s.nSlowUpdates + 1 }
        else s)
    else if id.toNat = oid.toNat + 2 then .ok (s.push ibuffer)
    else if id.toNat = oid.toNat + 1 then
      .ok { s with cachedTr := rest, freeTr := s.freeTr ++ [top] }
    else if id = .Disable then do
      let (cached, free, n) ← freeEnable s.service s.allocated oid s.cachedTr s.freeTr s.nSlowUpdates
      .ok { s with cachedTr := cached, freeTr := free, nSlowUpdates := n }
    else s.rollBack id oid ibuffer

/-- The update of `_not_ready` at a begin transition: the clients that still hold an `Enable`. -/
def markNotReady (s : TransitionCache) (id : TransitionId) (ibuffer : Nat) : TransitionCache :=
  if id.toNat % 2 = 0 then
    { s with
      notReady := ((List.range s.numberofTrBuffers).filter
        fun itr => itr ≠ ibuffer ∧ s.service itr = .Enable).foldl (· ||| s.allocated ·) s.notReady }
  else s

/-- The first free buffer that no client holds. -/
def available (s : TransitionCache) : Option Nat := s.freeTr.find? (s.allocated · = 0#32)

/-- `TransitionCache::allocate(TransitionId::Value)`; no index stands for `-1`. -/
def allocate (s : TransitionCache) (id : TransitionId) :
    Except CacheFault (TransitionCache × Option Nat) :=
  match s.available with
  | none => .ok (s, none)
  | some ibuffer => do
    let s ← s.cache id ibuffer
    .ok (s.markNotReady id ibuffer, some ibuffer)

/-- The smallest end transition that a client holds, `NumberOf` if none. -/
def lastEnd (s : TransitionCache) (client : Nat) : Nat :=
  (List.range s.numberofTrBuffers).foldl
    (fun last i =>
      let td := (s.service i).toNat
      if s.allocated i &&& 1#32 <<< client ≠ 0#32 ∧ td % 2 = 1 ∧ td < last then td else last)
    13

/-- `TransitionCache::allocate(int, unsigned)`: queue a buffer for a client, if it is ready. -/
def queue (s : TransitionCache) (ibuffer client : Nat) : TransitionCache × Bool :=
  let id := s.service ibuffer
  let result := s.notReady &&& 1#32 <<< client = 0#32 ∨ id = .SlowUpdate ∨
    id.toNat % 2 = 1 ∧ id.toNat < s.lastEnd client
  if result then
    let v := s.allocated ibuffer ||| 1#32 <<< client
    ({ s with allocated := Function.update s.allocated ibuffer v }, true)
  else (s, false)

/-- `TransitionCache::deallocate(int, unsigned)`: a client has completed a transition. -/
def deallocate (s : TransitionCache) (ibuffer client : Nat) : TransitionCache × Bool :=
  let v := s.allocated ibuffer &&& ~~~(1#32 <<< client)
  let n := if v = 0#32 ∧ s.service ibuffer = .SlowUpdate then s.nSlowUpdates - 1 else s.nSlowUpdates
  let s := { s with allocated := Function.update s.allocated ibuffer v, nSlowUpdates := n }
  if s.notReady &&& 1#32 <<< client = 0#32 then (s, false)
  else if ∃ i < s.numberofTrBuffers, s.allocated i &&& 1#32 <<< client ≠ 0#32 then (s, false)
  else ({ s with notReady := s.notReady &&& ~~~(1#32 <<< client) }, true)

/-- `TransitionCache::deallocate(unsigned)`: retire a client. -/
def retire (s : TransitionCache) (client : Nat) : TransitionCache :=
  { s with
    notReady := s.notReady &&& ~~~(1#32 <<< client)
    allocated := fun itr =>
      if itr < s.numberofTrBuffers then s.allocated itr &&& ~~~(1#32 <<< client)
      else s.allocated itr }

end TransitionCache

/-- The cache with the transition that `events` has allocated a buffer for and not copied yet, and
    with the buffers that clients were given and have not returned. -/
structure TransitionServer where
  cache : TransitionCache
  copying : Option (Nat × TransitionId)
  held : Nat → Nat → Bool

/-- What the threads of the server do to the cache: `events` allocates a buffer and copies the
    transition into it, a transition is queued for a client, a client returns a buffer, and a client
    is retired. -/
inductive CacheOp where
  | allocate (id : TransitionId)
  | copy
  | queue (ibuffer client : Nat)
  | deallocate (ibuffer client : Nat)
  | retire (client : Nat)
  deriving DecidableEq

namespace TransitionServer

/-- The server of a new cache. -/
def start (nbuff : Nat) : TransitionServer where
  cache := .new nbuff
  copying := none
  held _ _ := false

/-- The service of a buffer; the one of the transition at hand while its copy is due. -/
def serviceOf (s : TransitionServer) (ibuffer : Nat) : TransitionId :=
  match s.copying with
  | some (i, id) => if ibuffer = i then id else s.cache.service ibuffer
  | none => s.cache.service ibuffer

/-- One step of the server. -/
def step (s : TransitionServer) : CacheOp → Except CacheFault TransitionServer
  | .allocate id => do
    let (cache, result) ← s.cache.allocate id
    .ok { s with cache := cache, copying := result.map (·, id) }
  | .copy =>
    match s.copying with
    | none => .ok s
    | some (ibuffer, id) =>
      .ok { s with
        cache := { s.cache with service := Function.update s.cache.service ibuffer id }
        copying := none }
  | .queue ibuffer client =>
    let (cache, result) := s.cache.queue ibuffer client
    .ok { s with
      cache := cache
      held := fun i c => s.held i c || result && i = ibuffer && c = client }
  | .deallocate ibuffer client =>
    .ok { s with
      cache := (s.cache.deallocate ibuffer client).1
      held := fun i c => s.held i c && !(i = ibuffer && c = client) }
  | .retire client =>
    .ok { s with
      cache := s.cache.retire client
      held := fun i c => s.held i c && c ≠ client }

end TransitionServer

end Lcls2.Shmem
