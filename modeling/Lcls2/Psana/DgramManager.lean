import Lcls2.Eb.EbDgram
import Lcls2.Lib.Run

/-!
# Reading the dgrams of one stream

`DgramManager.__next__` (`psana/dgrammanager.py`) hands the dgrams of one file, or of shared memory,
to the user as events. Where the `EndRun` of a run is missing it fabricates one: at the end of the
file, or when the next `BeginRun` comes in, which then waits in `buffered_beginruns` for the next
call. `found_endrun` says whether the last run has been ended.

A `Configure` replaces the configs and is not handed out; the source calls `__next__` again, which
finds the buffer empty and goes back to reading, so that `fetch` skips it. With one stream
`dgrams` has one element.
-/

namespace Lcls2.Psana
open Eb (TransitionId)

/-- A dgram as the manager sees it: its service and its time stamp, the seconds in the upper half. -/
structure Dgram where
  service : TransitionId
  time : BitVec 64
  deriving DecidableEq, Repr

/-- `createTransition` of `dgram.cc`. -/
def createTransition (transId : TransitionId) (sec usec : BitVec 32) : Dgram where
  service := transId
  time := sec ++ usec

/-- What is still to come: the rest of the file, or what `shmem_cli.get` is going to return, `none`
    where the server has gone away. -/
inductive Source where
  | file (dgrams : List Dgram)
  | shmem (views : List (Option Dgram))
  deriving DecidableEq, Repr

/-- The dgrams a source holds. -/
def Source.dgrams : Source → List Dgram
  | file ds => ds
  | shmem views => views.reduceOption

/-- An event: a dgram from the source, or an `EndRun` made up for a given time. -/
inductive Event where
  | read (d : Dgram)
  | fake_endrun (sec usec : BitVec 32)
  deriving DecidableEq, Repr

namespace Event

/-- The dgram of the event. -/
def dgram : Event → Dgram
  | read d => d
  | fake_endrun sec usec => createTransition .EndRun sec usec

/-- `Event.timestamp`. -/
def timestamp (e : Event) : BitVec 64 := e.dgram.time

/-- What was read, if anything was. -/
def source : Event → Option Dgram
  | read d => some d
  | fake_endrun _ _ => none

end Event

/-- How a call of `__next__` ends for the user. -/
inductive Outcome where
  | event (e : Event)
  | stopIteration
  | indexError
  deriving DecidableEq, Repr

/-- What a call of `__next__` may end in besides: shared memory has nothing to offer yet, a server
    that has come back does not begin with a `Configure`, or it is gone again (`assert view`). -/
inductive NextFault where
  | blocked | configureExpected | noView
  deriving DecidableEq, Repr

/-- The manager, with what there is to read. -/
structure DgramManager where
  source : Source
  config : Dgram
  _timestamps : List (BitVec 64)
  found_endrun : Bool
  buffered_beginruns : Option Dgram
  deriving DecidableEq, Repr

namespace DgramManager

/-- `__init__`, which has read the first `Configure`. -/
def init (config : Dgram) (source : Source) : DgramManager where
  source := source
  config := config
  _timestamps := []
  found_endrun := true
  buffered_beginruns := none

/-- The seconds word of a time stamp. -/
def seconds (t : BitVec 64) : BitVec 32 := t.extractLsb' 32 32

/-- The low word of the time given to an `EndRun` that follows time `t`: `int(low * 1e3 + 1)`, which
    is exact, and of which `dgram_init` keeps 32 bits. -/
def fakeUsec (t : BitVec 64) : BitVec 32 := BitVec.ofNat 32 ((t.setWidth 32).toNat * 1000 + 1)

/-- What `_check_missing_endrun` finds out. -/
inductive Checked where
  | missing (fake : Event) (m : DgramManager)
  | nothing (m : DgramManager)
  | indexError

/-- `_check_missing_endrun`. -/
def check_missing_endrun (m : DgramManager) (beginruns : Option Dgram) : Checked :=
  if m.found_endrun = false then
    match m._timestamps.getLast? with
    | none => .indexError
    | some t =>
      .missing (.fake_endrun (seconds t) (fakeUsec t))
        { m with
          buffered_beginruns := beginruns <|> m.buffered_beginruns
          found_endrun := true }
  else .nothing { m with found_endrun := false }

/-- Reading a file up to the next dgram that is no `Configure`; `none` at its end. -/
def fetchFile (m : DgramManager) : List Dgram → Option Dgram × DgramManager
  | [] => (none, { m with source := .file [] })
  | d :: ds =>
    if d.service = .Configure then fetchFile { m with config := d } ds
    else (some d, { m with source := .file ds })

/-- The same for shared memory, where a view that is missing calls for a new connection
    (`_connect_shmem_cli`). -/
def fetchShmem (m : DgramManager) : List (Option Dgram) → Except NextFault (Dgram × DgramManager)
  | [] => .error .blocked
  | some d :: views =>
    if d.service = .Configure then fetchShmem { m with config := d } views
    else .ok (d, { m with source := .shmem views })
  | none :: [] => .error .blocked
  | none :: none :: _ => .error .noView
  | none :: some d :: views =>
    if d.service = .Configure then fetchShmem { m with config := d } views
    else .error .configureExpected

/-- The next dgram that is no `Configure`; `none` where the `Dgram` constructor stops the
    iteration. -/
def fetch (m : DgramManager) : Except NextFault (Option Dgram × DgramManager) :=
  match m.source with
  | .file ds => .ok (m.fetchFile ds)
  | .shmem views => do
    let (d, m) ← m.fetchShmem views
    return (some d, m)

/-- Handing an event out. -/
def give (m : DgramManager) (e : Event) : Outcome × DgramManager :=
  (.event e, { m with _timestamps := m._timestamps ++ [e.timestamp] })

/-- What `__next__` does with what it has read. -/
def pair (m : DgramManager) : Option Dgram → Outcome × DgramManager
  | none =>
    match m.check_missing_endrun none with
    | .missing fake m => m.give fake
    | .nothing m => (.stopIteration, m)
    | .indexError => (.indexError, m)
  | some d =>
    match d.service with
    | .BeginRun =>
      match m.check_missing_endrun (some d) with
      | .missing fake m => m.give fake
      | .nothing m => m.give (.read d)
      | .indexError => (.indexError, m)
    | .EndRun => { m with found_endrun := true }.give (.read d)
    | _ => m.give (.read d)

/-- `__next__`. -/
def next (m : DgramManager) : Except NextFault (Outcome × DgramManager) :=
  match m.buffered_beginruns with
  | some d => .ok ({ m with found_endrun := false, buffered_beginruns := none }.give (.read d))
  | none => do
    let (d, m) ← m.fetch
    return m.pair d

/-- The dgrams still to be handed out. -/
def pending (m : DgramManager) : List Dgram :=
  m.source.dgrams.filter fun d => d.service ≠ .Configure

/-- What reading changes: the source and the configs. -/
structure Fetched (m : DgramManager) (d : Option Dgram) (m' : DgramManager) : Prop where
  head : m.pending.head? = d
  tail : m'.pending = m.pending.tail
  timestamps : m'._timestamps = m._timestamps
  found : m'.found_endrun = m.found_endrun
  buffered : m'.buffered_beginruns = m.buffered_beginruns

/-- Reading a file takes the first dgram that is pending. -/
lemma fetchFile_spec (m : DgramManager) (ds : List Dgram) :
    Fetched { m with source := .file ds } (m.fetchFile ds).1 (m.fetchFile ds).2 := by
  induction ds generalizing m with
  | nil => exact ⟨rfl, rfl, rfl, rfl, rfl⟩
  | cons d ds ih =>
    simp only [fetchFile]
    by_cases hd : d.service = .Configure
    · rw [if_pos hd]
      have fetched := ih { m with config := d }
      have same : ({ m with source := .file (d :: ds) } : DgramManager).pending =
          ({ m with source := .file ds } : DgramManager).pending := by
        simp [pending, Source.dgrams, hd]
      exact ⟨same ▸ fetched.head, same ▸ fetched.tail, fetched.timestamps, fetched.found,
        fetched.buffered⟩
    · rw [if_neg hd]
      constructor <;> simp [pending, Source.dgrams, hd]

/-- Reading shared memory takes the first dgram that is pending, and there is one. -/
lemma fetchShmem_spec {m m' : DgramManager} {views : List (Option Dgram)} {d : Dgram}
    (h : m.fetchShmem views = .ok (d, m')) :
    Fetched { m with source := .shmem views } (some d) m' := by
  -- a `Configure`, from the same server or from one that has come back, is passed over
  have skip : ∀ (m : DgramManager) (c : Dgram) (before : List (Option Dgram)) views,
      c.service = .Configure → before.reduceOption = [c] →
      Fetched { m with config := c, source := .shmem views } (some d) m' →
      Fetched { m with source := .shmem (before ++ views) } (some d) m' := by
    intro m c before views hc only fetched
    have same : ({ m with source := .shmem (before ++ views) } : DgramManager).pending =
        ({ m with config := c, source := .shmem views } : DgramManager).pending := by
      simp [pending, Source.dgrams, List.reduceOption_append, only, hc]
    exact ⟨same ▸ fetched.head, same ▸ fetched.tail, fetched.timestamps, fetched.found,
      fetched.buffered⟩
  induction m, views using fetchShmem.induct with
  | case1 m => simp only [fetchShmem, reduceCtorEq] at h
  | case2 m c views hc ih =>
    simp only [fetchShmem, hc, if_true] at h
    exact skip m c [some c] views hc rfl (ih h)
  | case3 m c views hc =>
    simp only [fetchShmem, hc, if_false] at h
    cases h
    constructor <;> simp [pending, Source.dgrams, hc]
  | case4 m => simp only [fetchShmem, reduceCtorEq] at h
  | case5 m views => simp only [fetchShmem, reduceCtorEq] at h
  | case6 m c views hc ih =>
    simp only [fetchShmem, hc, if_true] at h
    exact skip m c [none, some c] views hc rfl (ih h)
  | case7 m c views hc => simp only [fetchShmem, hc, if_false, reduceCtorEq] at h

/-- Reading takes the first dgram that is pending. -/
lemma fetch_spec {m m' : DgramManager} {d : Option Dgram} (h : m.fetch = .ok (d, m')) :
    m.Fetched d m' := by
  simp only [fetch] at h
  cases source : m.source with
  | file ds =>
    rw [source] at h
    have fetched := fetchFile_spec m ds
    have same : ({ m with source := .file ds } : DgramManager) = m := by rw [← source]
    rw [same, Except.ok.inj h] at fetched
    exact fetched
  | shmem views =>
    rw [source] at h
    obtain ⟨⟨c, m₁⟩, e, h⟩ := Lib.bind_ok h
    cases h
    have fetched := fetchShmem_spec e
    have same : ({ m with source := .shmem views } : DgramManager) = m := by rw [← source]
    rw [same] at fetched
    exact fetched

/-- Everything a call of `__next__` can do. -/
inductive Turn (m m' : DgramManager) : Outcome → Prop where
  /-- the `BeginRun` that waits is handed out -/
  | buffered (d : Dgram) :
    m.buffered_beginruns = some d → m'.buffered_beginruns = none → m'.found_endrun = false →
    m'.pending = m.pending → m'._timestamps = m._timestamps ++ [d.time] →
    Turn m m' (.event (.read d))
  /-- a dgram is handed out as it was read -/
  | read (d : Dgram) :
    m.buffered_beginruns = none → m'.buffered_beginruns = none → m.pending = d :: m'.pending →
    (d.service = .BeginRun → m.found_endrun = true) →
    m'.found_endrun =
      (if d.service = .BeginRun then false else if d.service = .EndRun then true
        else m.found_endrun) →
    m'._timestamps = m._timestamps ++ [d.time] →
    Turn m m' (.event (.read d))
  /-- an `EndRun` is made up, before the next run or at the end of the file -/
  | fabricated (t : BitVec 64) :
    m.buffered_beginruns = none → m.found_endrun = false →
    (∀ d, m.pending.head? = some d → d.service = .BeginRun) → m._timestamps.getLast? = some t →
    m'.buffered_beginruns = m.pending.head? → m'.found_endrun = true →
    m'.pending = m.pending.tail →
    m'._timestamps =
      m._timestamps ++ [(Event.fake_endrun (seconds t) (fakeUsec t)).timestamp] →
    Turn m m' (.event (.fake_endrun (seconds t) (fakeUsec t)))
  /-- there is nothing left and nothing to make up -/
  | stopped :
    m.buffered_beginruns = none → m'.buffered_beginruns = none → m.pending = [] →
    m'.pending = [] → m.found_endrun = true → m'.found_endrun = false →
    m'._timestamps = m._timestamps → Turn m m' .stopIteration
  /-- an `EndRun` would be made up, but no event gives it a time -/
  | failed :
    m.buffered_beginruns = none → m.found_endrun = false → m._timestamps = [] →
    Turn m m' .indexError

/-- What `__next__` does with what it has read, by cases. -/
lemma pair_turn {m m₁ : DgramManager} {d : Option Dgram} (fetched : m.Fetched d m₁)
    (empty : m.buffered_beginruns = none) : Turn m (m₁.pair d).2 (m₁.pair d).1 := by
  obtain ⟨head, tail, timestamps, found, buffered⟩ := fetched
  rw [empty] at buffered
  -- the time of the last event, where one is made up
  have fabricates : m₁.found_endrun = false →
      (∀ d, m.pending.head? = some d → d.service = .BeginRun) →
      match m₁.check_missing_endrun m.pending.head? with
      | .missing fake m' => Turn m (m'.give fake).2 (m'.give fake).1
      | .nothing _ => False
      | .indexError => Turn m m₁ .indexError := by
    intro open_ begins
    simp only [check_missing_endrun, if_pos open_]
    cases last : m₁._timestamps.getLast? with
    | none =>
      exact .failed empty (found ▸ open_) (timestamps ▸ List.getLast?_eq_none_iff.mp last)
    | some t =>
      refine .fabricated t empty (found ▸ open_) begins (timestamps ▸ last) ?_ rfl tail ?_
      · show (m.pending.head? <|> m₁.buffered_beginruns) = m.pending.head?
        rw [buffered]
        cases m.pending.head? <;> rfl
      · show m₁._timestamps ++ _ = _
        rw [timestamps]
  have ended : m₁.found_endrun ≠ false → ∀ d, m₁.check_missing_endrun d =
      .nothing { m₁ with found_endrun := false } := by
    intro h d
    rw [check_missing_endrun, if_neg h]
  cases d with
  | none =>
    rw [head] at fabricates
    simp only [pair]
    by_cases open_ : m₁.found_endrun = false
    · have turn := fabricates open_ (by simp)
      generalize m₁.check_missing_endrun none = checked at turn
      cases checked with
      | missing fake m' => exact turn
      | nothing m' => exact turn.elim
      | indexError => exact turn
    · rw [ended open_]
      have none_left := List.head?_eq_none_iff.mp head
      refine .stopped empty buffered none_left ?_ (found ▸ Bool.eq_true_of_not_eq_false open_) rfl
        timestamps
      show m₁.pending = []
      rw [tail, none_left]
      rfl
  | some d =>
    have first : m.pending = d :: m₁.pending := by
      rw [tail]
      exact (List.cons_head?_tail head).symm
    simp only [pair]
    cases service : d.service with
    | BeginRun =>
      by_cases open_ : m₁.found_endrun = false
      · rw [head] at fabricates
        have turn := fabricates open_ (by rintro _ ⟨⟩; exact service)
        generalize m₁.check_missing_endrun (some d) = checked at turn
        cases checked with
        | missing fake m' => exact turn
        | nothing m' => exact turn.elim
        | indexError => exact turn
      · simp only [ended open_]
        refine .read d empty buffered first (fun _ => found ▸ Bool.eq_true_of_not_eq_false open_) ?_
          (by rw [← timestamps]; rfl)
        rw [if_pos service]
        rfl
    | EndRun =>
      refine .read d empty buffered first (by simp [service]) ?_ (by rw [← timestamps]; rfl)
      simp [service, give]
    | _ =>
      refine .read d empty buffered first (by simp [service]) ?_ (by rw [← timestamps]; rfl)
      simp [service, give, found]

/-- A call of `__next__`, by cases. -/
lemma next_turn {m m' : DgramManager} {o : Outcome} (h : m.next = .ok (o, m')) : Turn m m' o := by
  simp only [next] at h
  cases buffered : m.buffered_beginruns with
  | some d =>
    rw [buffered] at h
    cases h
    exact .buffered d buffered rfl rfl rfl rfl
  | none =>
    rw [buffered] at h
    obtain ⟨⟨d, m₁⟩, e, h⟩ := Lib.bind_ok h
    have turn := pair_turn (fetch_spec e) buffered
    rw [Except.ok.inj h] at turn
    exact turn

end DgramManager

end Lcls2.Psana
