import Lcls2.Eb.Teb
import Lcls2.Lib.RoundRobin
import Lcls2.Lib.Run

/-!
# Monitor buffers

`Teb::_monitor` gives a buffer of a MEB to a result. The buffers that the MEBs offer wait in one list a MEB;
`Teb::connect` makes the lists, `Teb::disconnect` drops them, and `Teb::configure` says how many buffers of a
list are kept back for the slow readout groups.

* A request for all MEBs goes round: the cursor `_iMeb` says which MEB is tried first. Any other request tries
  the MEBs it names from the lowest on and leaves the cursor alone.
* No member function resets the cursor. A connection to fewer MEBs than the cursor says is therefore left with
  a cursor out of range, and a `connect` that no `disconnect` precedes leaves more lists than MEBs.
-/

namespace Lcls2.Eb
open Lcls2.Lib

namespace TebParams

/-- `allMebs` of `Teb::_monitor`. -/
def allMebs (p : TebParams) : BitVec 32 := (1#32 <<< p.numMrqs) - 1#32

/-- `dsts` of `Teb::_monitor`. -/
def requested (p : TebParams) (rdg : ResultDgram) : BitVec 32 := rdg.monitor &&& p.allMebs

/-- The readout groups other than the common one. -/
def slowRogs (p : TebParams) : List Nat := (List.range 16).filter ((p.rogs &&& ~~~(1#16 <<< p.partition)).getLsbD ·)

end TebParams

namespace Teb

/-- `Teb::Teb`. The event index and the prescale counter are set later. -/
def new (mem : Nat → ResultDgram) (eventIdx wrtCounter : BitVec 32) : Teb where
  mem
  eventIdx
  batch := none
  monBufLists := []
  rogReserved := fun _ => 0
  iMeb := 0
  wrtCounter
  pidPrv := 0
  posted := []
  acked := []
  sends := 0
  eventCount := 0
  trCount := 0
  batchCount := 0
  writeCount := 0
  monitorCount := 0
  nMonCount := 0
  mebCount := fun _ => 0
  prescaleCount := 0

/-- `Teb::connect`, as far as it concerns the TEB itself. -/
def connect (p : TebParams) (s : Teb) : Teb :=
  { s with monBufLists := s.monBufLists ++ List.replicate p.numMrqs [] }

/-- `Teb::disconnect`, likewise. -/
def disconnect (s : Teb) : Teb := { s with monBufLists := [] }

/-- What `Teb::configure` keeps back of a MEB's list. -/
def reserve (app : TebApp) (p : TebParams) (iMeb : Nat) : Nat :=
  p.slowRogs.foldl (fun sum rog => (sum + app.rogReserve rog iMeb p.numMebEvBufs) % 2 ^ 32) 0

/-- `Teb::configure`. When the links cannot be configured, the reserves stay as they are. -/
def configure (app : TebApp) (p : TebParams) (linked : Bool) (s : Teb) : Teb :=
  let s := { s with monitorCount := 0, nMonCount := 0, mebCount := fun _ => 0, wrtCounter := app.prescale }
  if linked then { s with rogReserved := reserve app p } else s

/-- The start of `Teb::run`. The lists it clears are copies. -/
def start (s : Teb) : Teb :=
  { s with
    batch := none
    eventIdx := 0#32
    eventCount := 0
    trCount := 0
    batchCount := 0
    writeCount := 0
    prescaleCount := 0 }

/-- A MEB's list holds more than what is kept back. -/
def ready (s : Teb) (iMeb : Nat) : Bool := s.rogReserved iMeb < (s.monBufLists[iMeb]?.getD []).length

end Teb

/-- The calls of the application that concern the monitor buffers. `TebApp::handleConnect` refuses more MEBs
    than there can be. -/
inductive TebCall where
  | connect (p : TebParams)
  | disconnect
  | configure (app : TebApp) (linked : Bool)
  | run
  | monitor (polled : List (BitVec 32)) (rdg : ResultDgram)

/-- The TEB with its parameters. What follows `connected` is history that no call reads: the number of lists
    and the cursor that `connect` found, and the last MEB since then that a request for all MEBs used. -/
structure TebSession where
  prms : TebParams
  teb : Teb
  connected : Bool
  found : Nat
  cursor : Nat
  last : Option Nat

namespace TebSession

/-- A result that was given a monitor buffer names the buffer's MEB. -/
def mebOf (rdg : ResultDgram) : Nat := ImmData.src rdg.monBufNo

/-- The MEB that a request for all MEBs is to try first. -/
def first (s : TebSession) : Nat :=
  match s.last with
  | none => s.cursor
  | some iMeb => (iMeb + 1) % s.prms.numMrqs

/-- The request is for all MEBs. -/
def roundRobin (s : TebSession) (rdg : ResultDgram) : Bool := s.prms.requested rdg = s.prms.allMebs

/-- The MEBs that a request tries, in order. -/
def order (s : TebSession) (rdg : ResultDgram) : List Nat :=
  if s.roundRobin rdg then turns s.prms.numMrqs s.prms.numMrqs s.first
  else (List.range s.prms.numMrqs).filter ((s.prms.requested rdg).getLsbD ·)

/-- The history after a request. -/
def note (s : TebSession) (rdg rdg' : ResultDgram) : Option Nat :=
  if s.roundRobin rdg && rdg'.monitor != 0#32 then some (mebOf rdg') else s.last

/-- `MAX_MRQS`. -/
def maxMrqs : Nat := 4

/-- One call. -/
def step (s : TebSession) : TebCall → Except TebFault TebSession
  | .connect p =>
    if maxMrqs < p.numMrqs then .ok { s with prms := p, connected := false }
    else
      .ok {
        prms := p
        teb := s.teb.connect p
        connected := true
        found := s.teb.monBufLists.length
        cursor := s.teb.iMeb
        last := none }
  | .disconnect => .ok { s with teb := s.teb.disconnect, connected := false }
  | .configure app linked => .ok { s with teb := s.teb.configure app s.prms linked }
  | .run => .ok { s with teb := s.teb.start }
  | .monitor polled rdg => do
    let (teb, rdg') ← s.teb.monitor s.prms polled rdg
    pure { s with teb, last := s.note rdg rdg' }

/-- Before any call. -/
def new (p : TebParams) (teb : Teb) : TebSession where
  prms := p
  teb
  connected := false
  found := 0
  cursor := 0
  last := none

/-- Events are processed while the MEBs are connected, and only connected MEBs offer buffers. -/
def Allowed (_ : List TebCall) (s : TebSession) : TebCall → Prop
  | .monitor polled _ => s.connected = true ∧ ∀ imm ∈ polled, ImmData.src imm < s.prms.numMrqs
  | _ => True

end TebSession

/-! ## The loop over the MEBs -/

/-- The MEBs whose bits are still set, in the order in which they are to be tried. -/
structure Selects (dsts : BitVec 32) (order : List Nat) : Prop where
  nodup : order.Nodup
  bits : ∀ j, dsts.getLsbD j = true ↔ j ∈ order

namespace Selects

variable {dsts : BitVec 32} {iMeb : Nat} {order : List Nat}

/-- When no MEB is left, no bit is set. -/
lemma eq_zero (h : Selects dsts []) : dsts = 0#32 := by
  apply BitVec.eq_of_getLsbD_eq
  intro j _
  cases bit : dsts.getLsbD j with
  | false => exact BitVec.getLsbD_zero.symm
  | true => exact absurd ((h.bits j).mp bit) List.not_mem_nil

/-- When one is left, its bit is. -/
lemma ne_zero (h : Selects dsts (iMeb :: order)) : dsts ≠ 0#32 := by
  intro zero
  have bit := (h.bits iMeb).mpr List.mem_cons_self
  rw [zero, BitVec.getLsbD_zero] at bit
  cases bit

/-- Clearing a bit. -/
lemma getLsbD_clear (dsts : BitVec 32) (i j : Nat) :
    (dsts &&& ~~~(1#32 <<< i)).getLsbD j = true ↔ dsts.getLsbD j = true ∧ j ≠ i := by
  rw [BitVec.getLsbD_and, BitVec.getLsbD_not, BitVec.getLsbD_shiftLeft, BitVec.getLsbD_one, Bool.and_eq_true]
  constructor
  · rintro ⟨bit, other⟩
    refine ⟨bit, ?_⟩
    rintro rfl
    simp only [Nat.sub_self, lt_irrefl, decide_false, Bool.not_false, Bool.and_true] at other
    have lt := BitVec.lt_of_getLsbD bit
    simp [lt] at other
  · rintro ⟨bit, other⟩
    have lt := BitVec.lt_of_getLsbD bit
    refine ⟨bit, ?_⟩
    simp only [lt, decide_true, Bool.true_and, Bool.not_eq_true', Bool.and_eq_false_iff, Bool.not_eq_false',
      decide_eq_false_iff_not, decide_eq_true_eq]
    omega

/-- The first MEB is tried once. -/
lemma tail (h : Selects dsts (iMeb :: order)) : Selects (dsts &&& ~~~(1#32 <<< iMeb)) order where
  nodup := h.nodup.of_cons
  bits j := by
    rw [getLsbD_clear, h.bits, List.mem_cons]
    constructor
    · rintro ⟨same | later, other⟩
      · exact absurd same other
      · exact later
    · intro later
      refine ⟨.inr later, ?_⟩
      rintro rfl
      exact (List.nodup_cons.mp h.nodup).1 later

/-- In ascending order the first one is that of the lowest bit. -/
lemma ctz (h : Selects dsts (iMeb :: order)) (sorted : (iMeb :: order).Pairwise (· < ·)) :
    dsts.ctz.toNat = iMeb := by
  have lowest := BitVec.getLsbD_true_ctz_of_ne_zero h.ne_zero
  cases List.mem_cons.mp ((h.bits _).mp lowest) with
  | inl same => exact same
  | inr later =>
    have above : iMeb < dsts.ctz.toNat := (List.pairwise_cons.mp sorted).1 _ later
    have unset := BitVec.getLsbD_false_of_lt_ctz above
    rw [(h.bits iMeb).mpr List.mem_cons_self] at unset
    cases unset

end Selects

namespace Teb

/-- The TEB with its cursor at a MEB. -/
def withCursor (s : Teb) (iMeb : Nat) : Teb := { s with iMeb }

@[simp] lemma withCursor_iMeb (s : Teb) (iMeb : Nat) : (s.withCursor iMeb).iMeb = iMeb := rfl
@[simp] lemma withCursor_monBufLists (s : Teb) (iMeb : Nat) : (s.withCursor iMeb).monBufLists = s.monBufLists := rfl
@[simp] lemma withCursor_ready (s : Teb) (iMeb : Nat) : (s.withCursor iMeb).ready = s.ready := rfl
@[simp] lemma withCursor_withCursor (s : Teb) (iMeb iMeb' : Nat) :
    (s.withCursor iMeb).withCursor iMeb' = s.withCursor iMeb' := rfl
@[simp] lemma withCursor_self (s : Teb) : s.withCursor s.iMeb = s := rfl

/-- How a request is answered when it takes a MEB's buffer, and when it takes none. -/
def answer (s : Teb) (rdg : ResultDgram) : Option Nat → Teb × ResultDgram
  | none => ({ s with nMonCount := s.nMonCount + 1 }, rdg.setMonitor 0#32)
  | some iMeb =>
    let lst := s.monBufLists[iMeb]?.getD []
    ({ s with
        monBufLists := s.monBufLists.set iMeb lst.tail
        monitorCount := s.monitorCount + 1
        mebCount := Function.update s.mebCount iMeb (s.mebCount iMeb + 1) },
      { rdg with monBufNo := lst.headD 0#32 })

/-- The MEB that a round tries, and where the round leaves the cursor. -/
def tried (roundRobin : Bool) (dsts : BitVec 32) (s : Teb) : Nat := if roundRobin then s.iMeb else dsts.ctz.toNat
def next (roundRobin : Bool) (s : Teb) : Teb :=
  if roundRobin then s.withCursor ((s.iMeb + 1) % s.monBufLists.length) else s

@[simp] lemma next_ready (roundRobin : Bool) (s : Teb) : (next roundRobin s).ready = s.ready := by
  cases roundRobin with
  | true => rfl
  | false => rfl

/-- One round: the MEB's buffer is taken or its bit is cleared. -/
lemma assignMonBuf_round {roundRobin : Bool} {n : Nat} {dsts : BitVec 32} {s : Teb} {rdg : ResultDgram}
    (nonzero : dsts ≠ 0#32) (lt : tried roundRobin dsts s < s.monBufLists.length) :
    assignMonBuf roundRobin (n + 1) dsts s rdg =
      if s.ready (tried roundRobin dsts s) then .ok ((next roundRobin s).answer rdg (some (tried roundRobin dsts s)))
      else assignMonBuf roundRobin n (dsts &&& ~~~(1#32 <<< tried roundRobin dsts s)) (next roundRobin s) rdg := by
  have found := List.getElem?_eq_getElem lt
  cases roundRobin with
  | true =>
    simp only [tried, if_true] at lt found ⊢
    rw [assignMonBuf, if_neg nonzero]
    cases lst : s.monBufLists[s.iMeb] with
    | nil => simp [found, lst, ready, next, withCursor]
    | cons buffer rest => simp [found, lst, ready, next, withCursor, answer]
  | false =>
    simp only [tried, Bool.false_eq_true, if_false] at lt found ⊢
    rw [assignMonBuf, if_neg nonzero]
    cases lst : s.monBufLists[dsts.ctz.toNat] with
    | nil => simp [found, lst, ready, next]
    | cons buffer rest => simp [found, lst, ready, next, answer]

/-- A request for some MEBs tries them in ascending order. -/
lemma assignMonBuf_some {rdg : ResultDgram} {s : Teb} {order : List Nat} {dsts : BitVec 32} {n : Nat}
    (selects : Selects dsts order) (sorted : order.Pairwise (· < ·)) (lt : ∀ m ∈ order, m < s.monBufLists.length)
    (enough : order.length ≤ n) :
    assignMonBuf false n dsts s rdg = .ok (s.answer rdg (order.find? s.ready)) := by
  induction order generalizing dsts n with
  | nil =>
    cases n with
    | zero => rw [assignMonBuf, if_pos selects.eq_zero]; rfl
    | succ n => rw [assignMonBuf, if_pos selects.eq_zero]; rfl
  | cons m order ih =>
    cases n with
    | zero => cases enough
    | succ n =>
      have lowest : tried false dsts s = m := selects.ctz sorted
      rw [assignMonBuf_round selects.ne_zero (lowest.symm ▸ lt m List.mem_cons_self), lowest, List.find?_cons]
      cases s.ready m with
      | true => rfl
      | false =>
        exact ih selects.tail sorted.of_cons (fun m' later => lt m' (List.mem_cons_of_mem m later))
          (Nat.le_of_succ_le_succ enough)

/-- Where a request for all MEBs leaves the cursor when the next `k` turns are its own. -/
def cursorAfter (s : Teb) (k : Nat) : Nat :=
  match (turns s.monBufLists.length k s.iMeb).find? s.ready with
  | none => (s.iMeb + k) % s.monBufLists.length
  | some m => (m + 1) % s.monBufLists.length

/-- A request for all MEBs tries them in turn. -/
lemma assignMonBuf_all {rdg : ResultDgram} {s : Teb} {k : Nat} {dsts : BitVec 32} {n : Nat}
    (selects : Selects dsts (turns s.monBufLists.length k s.iMeb)) (lt : s.iMeb < s.monBufLists.length)
    (enough : k ≤ n) :
    assignMonBuf true n dsts s rdg =
      .ok ((s.withCursor (s.cursorAfter k)).answer rdg ((turns s.monBufLists.length k s.iMeb).find? s.ready)) := by
  induction k generalizing dsts n s with
  | zero =>
    have stays : s.cursorAfter 0 = s.iMeb := Nat.mod_eq_of_lt lt
    rw [stays]
    cases n with
    | zero => rw [assignMonBuf, if_pos selects.eq_zero]; rfl
    | succ n => rw [assignMonBuf, if_pos selects.eq_zero]; rfl
  | succ k ih =>
    cases n with
    | zero => cases enough
    | succ n =>
      have pos : 0 < s.monBufLists.length := by omega
      rw [turns] at selects
      rw [@assignMonBuf_round true n dsts s rdg selects.ne_zero lt, turns, List.find?_cons]
      have turn : tried true dsts s = s.iMeb := rfl
      rw [turn]
      cases free : s.ready s.iMeb with
      | true =>
        have after : s.cursorAfter (k + 1) = (s.iMeb + 1) % s.monBufLists.length := by
          rw [cursorAfter, turns, List.find?_cons, free]
        rw [after]
        rfl
      | false =>
        have after : s.cursorAfter (k + 1) = (next true s).cursorAfter k := by
          have round : ((s.iMeb + 1) % s.monBufLists.length + k) % s.monBufLists.length
              = (s.iMeb + (k + 1)) % s.monBufLists.length := by
            rw [Nat.mod_add_mod, Nat.add_assoc, Nat.add_comm 1 k]
          rw [cursorAfter, turns, List.find?_cons, free, ← round]
          rfl
        rw [after]
        exact ih (s := next true s) selects.tail (Nat.mod_lt _ pos) (Nat.le_of_succ_le_succ enough)

end Teb

/-! ## A request -/

/-- The bits of `allMebs`. -/
lemma getLsbD_allMebs {p : TebParams} (fits : p.numMrqs ≤ 4) (j : Nat) :
    p.allMebs.getLsbD j = decide (j < p.numMrqs) := by
  have value : p.allMebs.toNat = 2 ^ p.numMrqs - 1 := by
    unfold TebParams.allMebs
    generalize p.numMrqs = n at fits
    interval_cases n <;> rfl
  rw [BitVec.getLsbD, value, Nat.testBit_two_pow_sub_one]

/-- Only connected MEBs are requested. -/
lemma lt_of_requested {p : TebParams} (fits : p.numMrqs ≤ 4) {rdg : ResultDgram} {j : Nat}
    (bit : (p.requested rdg).getLsbD j = true) : j < p.numMrqs := by
  rw [TebParams.requested, BitVec.getLsbD_and, Bool.and_eq_true, getLsbD_allMebs fits] at bit
  exact of_decide_eq_true bit.2

/-- A request for some MEBs names them. -/
lemma selects_some {p : TebParams} (fits : p.numMrqs ≤ 4) (rdg : ResultDgram) :
    Selects (p.requested rdg) ((List.range p.numMrqs).filter ((p.requested rdg).getLsbD ·)) where
  nodup := List.nodup_range.filter _
  bits j := by
    rw [List.mem_filter, List.mem_range]
    exact ⟨fun bit => ⟨lt_of_requested fits bit, bit⟩, And.right⟩

/-- A request for all MEBs names them in any turn. -/
lemma selects_all {p : TebParams} (fits : p.numMrqs ≤ 4) {i : Nat} (lt : i < p.numMrqs) :
    Selects p.allMebs (turns p.numMrqs p.numMrqs i) where
  nodup := nodup_turns lt
  bits j := by
    rw [getLsbD_allMebs fits, mem_turns lt, decide_eq_true_iff]

/-- Nothing is requested where no MEB is connected. -/
lemma selects_nothing {p : TebParams} (none : p.numMrqs = 0) (rdg : ResultDgram) : Selects (p.requested rdg) [] := by
  have order := selects_some (p := p) (by omega) rdg
  rwa [none, List.range_zero, List.filter_nil] at order

namespace ResultDgram

/-- Overriding the monitor flags leaves none. -/
@[simp] lemma monitor_setMonitor_zero (rdg : ResultDgram) : (rdg.setMonitor 0#32).monitor = 0#32 := by
  have nothing : (0#32 <<< 2) &&& 0x3c#32 = 0#32 := by decide
  have cleared : ~~~0x3c#32 &&& 0x3c#32 = 0#32 := by decide
  unfold monitor setMonitor
  rw [nothing, BitVec.or_zero, BitVec.and_assoc, cleared, BitVec.and_zero]
  rfl

end ResultDgram

/-- A MEB's list holds its own buffers. -/
def Sourced (lists : List (List (BitVec 32))) : Prop :=
  ∀ i lst, lists[i]? = some lst → ∀ imm ∈ lst, ImmData.src imm = i

/-- A list may be replaced by one that holds its MEB's buffers too. -/
lemma Sourced.set {lists : List (List (BitVec 32))} (h : Sourced lists) {i : Nat} {lst : List (BitVec 32)}
    (own : ∀ imm ∈ lst, ImmData.src imm = i) : Sourced (lists.set i lst) := by
  intro j lst' at_j imm mem
  rw [List.getElem?_set] at at_j
  split at at_j
  · rename_i same
    split at at_j
    · cases at_j
      exact same ▸ own imm mem
    · cases at_j
  · exact h j lst' at_j imm mem

namespace Teb

/-- A full list stays as it is; otherwise the buffer is its last. -/
lemma mem_pushMonBuf {size : Nat} {buf imm : BitVec 32} {lst : List (BitVec 32)}
    (mem : imm ∈ pushMonBuf size buf lst) : imm ∈ lst ∨ imm = buf := by
  unfold pushMonBuf at mem
  split at mem
  · exact .inl mem
  · cases List.mem_append.mp mem with
    | inl old => exact .inl old
    | inr new => exact .inr (List.mem_singleton.mp new)

/-- Offers of connected MEBs are taken into their lists; nothing else changes. -/
lemma pollMonBufs_ok {p : TebParams} {polled : List (BitVec 32)} {s : Teb}
    (offered : ∀ imm ∈ polled, ImmData.src imm < s.monBufLists.length) :
    ∃ lists, s.pollMonBufs p polled = .ok { s with monBufLists := lists } ∧
      lists.length = s.monBufLists.length ∧ (Sourced s.monBufLists → Sourced lists) := by
  induction polled generalizing s with
  | nil => exact ⟨s.monBufLists, rfl, rfl, id⟩
  | cons imm polled ih =>
    cases lst : s.monBufLists[ImmData.src imm]? with
    | none => exact absurd (offered imm List.mem_cons_self) (Nat.not_lt.mpr (List.getElem?_eq_none_iff.mp lst))
    | some old =>
      have offered' : ∀ imm' ∈ polled,
          ImmData.src imm' < (s.monBufLists.set (ImmData.src imm) (pushMonBuf p.numMebEvBufs imm old)).length := by
        intro imm' later
        rw [List.length_set]
        exact offered imm' (List.mem_cons_of_mem imm later)
      obtain ⟨lists, poll, same, sourced⟩ := ih (s := { s with monBufLists := _ }) offered'
      refine ⟨lists, ?_, same.trans List.length_set, fun h => sourced (h.set ?_)⟩
      · rw [pollMonBufs, lst]
        exact poll
      · intro imm' mem
        cases mem_pushMonBuf mem with
        | inl before => exact h _ _ lst imm' before
        | inr new => rw [new]

/-- A request that takes no buffer, and one that takes the first of a list. -/
@[simp] lemma answer_none (s : Teb) (rdg : ResultDgram) : (s.answer rdg none).2.monitor = 0#32 :=
  rdg.monitor_setMonitor_zero
@[simp] lemma answer_some (s : Teb) (rdg : ResultDgram) (iMeb : Nat) :
    (s.answer rdg (some iMeb)).2.monitor = rdg.monitor := rfl

/-- A ready list has a first buffer. -/
lemma exists_of_ready {s : Teb} {iMeb : Nat} (h : s.ready iMeb = true) :
    ∃ buffer rest, s.monBufLists[iMeb]? = some (buffer :: rest) := by
  have longer := of_decide_eq_true h
  cases lst : s.monBufLists[iMeb]? with
  | none =>
    rw [lst] at longer
    cases longer
  | some bufs =>
    cases bufs with
    | nil =>
      rw [lst] at longer
      cases longer
    | cons buffer rest => exact ⟨buffer, rest, rfl⟩

/-- What is answered leaves one list the MEBs' own buffers as before. -/
lemma Sourced_answer {s : Teb} (h : Sourced s.monBufLists) (rdg : ResultDgram) (served : Option Nat) :
    Sourced (s.answer rdg served).1.monBufLists := by
  cases served with
  | none => exact h
  | some iMeb =>
    apply h.set
    intro imm mem
    cases lst : s.monBufLists[iMeb]? with
    | none =>
      rw [lst] at mem
      cases mem
    | some bufs =>
      rw [lst] at mem
      exact h iMeb bufs lst imm (List.mem_of_mem_tail mem)

end Teb

namespace Teb

/-- The loop leaves the lists as they are, up to a buffer it takes. -/
lemma assignMonBuf_keeps {roundRobin : Bool} {n : Nat} {dsts : BitVec 32} {s s' : Teb} {rdg rdg' : ResultDgram}
    (h : assignMonBuf roundRobin n dsts s rdg = .ok (s', rdg')) :
    s'.monBufLists.length = s.monBufLists.length ∧ (Sourced s.monBufLists → Sourced s'.monBufLists) := by
  induction n generalizing dsts s with
  | zero =>
    rw [assignMonBuf] at h
    split at h
    · cases h
      exact ⟨rfl, id⟩
    · cases h
  | succ n ih =>
    cases zero : decide (dsts = 0#32) with
    | true =>
      rw [assignMonBuf, if_pos (of_decide_eq_true zero)] at h
      cases h
      exact ⟨rfl, id⟩
    | false =>
      have nonzero := of_decide_eq_false zero
      cases Nat.lt_or_ge (tried roundRobin dsts s) s.monBufLists.length with
      | inl lt =>
        rw [assignMonBuf_round nonzero lt] at h
        have same : (next roundRobin s).monBufLists = s.monBufLists := by
          cases roundRobin with
          | true => rfl
          | false => rfl
        split at h
        · cases h
          have sourced : Sourced s.monBufLists → Sourced (answer _ rdg (some _)).1.monBufLists := fun own =>
            Sourced_answer (s := next roundRobin s) (same.symm ▸ own) rdg (some (tried roundRobin dsts s))
          exact ⟨List.length_set.trans (congrArg List.length same), sourced⟩
        · have kept := ih h
          rwa [same] at kept
      | inr out =>
        -- a list out of range is no list
        have missing := List.getElem?_eq_none_iff.mpr out
        rw [assignMonBuf, if_neg nonzero] at h
        cases roundRobin with
        | true =>
          simp only [tried, if_true] at missing
          simp only [if_true, missing] at h
          cases h
        | false =>
          simp only [tried, Bool.false_eq_true, if_false] at missing
          simp only [Bool.false_eq_true, if_false, missing] at h
          cases h

/-- So does a request, up to what is offered. -/
lemma monitor_keeps {p : TebParams} {s s' : Teb} {polled : List (BitVec 32)} {rdg rdg' : ResultDgram}
    (offered : ∀ imm ∈ polled, ImmData.src imm < s.monBufLists.length)
    (h : s.monitor p polled rdg = .ok (s', rdg')) :
    s'.monBufLists.length = s.monBufLists.length ∧ (Sourced s.monBufLists → Sourced s'.monBufLists) := by
  obtain ⟨lists, poll, same, sourced⟩ := pollMonBufs_ok (p := p) offered
  obtain ⟨t, poll', h⟩ := bind_ok h
  cases poll.symm.trans poll'
  have kept := assignMonBuf_keeps h
  exact ⟨kept.1.trans same, fun own => kept.2 (sourced own)⟩

end Teb

namespace TebSession

/-- How `_monitor` answers a request: `t` is the TEB once the offers are taken in. -/
structure Answers (s : TebSession) (t : Teb) (rdg : ResultDgram) (t' : Teb) (rdg' : ResultDgram) : Prop where
  /-- Only lists of connected MEBs are read. -/
  lists : t.monBufLists.length = s.prms.numMrqs
  tries : ∀ m ∈ s.order rdg, m < s.prms.numMrqs ∧ (s.prms.requested rdg).getLsbD m = true
  /-- The loop ends within a round for each MEB. -/
  ends : ∀ rounds, s.prms.numMrqs ≤ rounds →
    Teb.assignMonBuf (s.roundRobin rdg) rounds (s.prms.requested rdg) t rdg = .ok (t', rdg')
  /-- There is a buffer when a requested MEB's list holds more than is kept back. -/
  served : rdg'.monitor ≠ 0#32 ↔
    ∃ m, (s.prms.requested rdg).getLsbD m = true ∧ t.ready m = true
  /-- It is that of the first such MEB. -/
  first : (t', rdg') = (t.withCursor t'.iMeb).answer rdg ((s.order rdg).find? t.ready)

/-- The MEBs that are tried are requested, in any order. -/
lemma selects_order {s : TebSession} (fits : s.prms.numMrqs ≤ 4) {rdg : ResultDgram}
    (turn : s.roundRobin rdg = true → s.prms.numMrqs = 0 ∨ s.first < s.prms.numMrqs) :
    Selects (s.prms.requested rdg) (s.order rdg) := by
  unfold order
  split
  · rename_i all
    cases turn all with
    | inl none =>
      rw [none, turns]
      exact selects_nothing none rdg
    | inr lt =>
      rw [of_decide_eq_true all]
      exact selects_all fits lt
  · exact selects_some fits rdg

/-- Where a request leaves the cursor. -/
def cursorAfter (s : TebSession) (t : Teb) (rdg : ResultDgram) : Nat :=
  if s.roundRobin rdg then
    match (s.order rdg).find? t.ready with
    | none => t.iMeb
    | some m => (m + 1) % s.prms.numMrqs
  else t.iMeb

/-- Any loop over the MEBs that has as many rounds as there are MEBs gives one answer. -/
lemma assignMonBuf_eq {s : TebSession} {t : Teb} {rdg : ResultDgram} (fits : s.prms.numMrqs ≤ 4)
    (lists : t.monBufLists.length = s.prms.numMrqs)
    (turn : s.roundRobin rdg = true → s.prms.numMrqs = 0 ∨ t.iMeb = s.first ∧ s.first < s.prms.numMrqs)
    {rounds : Nat} (enough : s.prms.numMrqs ≤ rounds) :
    Teb.assignMonBuf (s.roundRobin rdg) rounds (s.prms.requested rdg) t rdg =
      .ok ((t.withCursor (s.cursorAfter t rdg)).answer rdg ((s.order rdg).find? t.ready)) := by
  have selects := selects_order fits (fun all => (turn all).imp_right And.right)
  cases all : s.roundRobin rdg with
  | false =>
    have order : s.order rdg = (List.range s.prms.numMrqs).filter ((s.prms.requested rdg).getLsbD ·) := by
      rw [order, all, if_neg Bool.false_ne_true]
    have stays : s.cursorAfter t rdg = t.iMeb := by
      rw [cursorAfter, all, if_neg Bool.false_ne_true]
    rw [stays, Teb.withCursor_self]
    apply Teb.assignMonBuf_some selects
    · exact order ▸ List.pairwise_lt_range.filter _
    · intro m mem
      exact lists ▸ lt_of_requested fits ((selects.bits m).mpr mem)
    · rw [order]
      exact (List.length_filter_le _ _).trans (List.length_range.trans_le enough)
  | true =>
    have order : s.order rdg = turns s.prms.numMrqs s.prms.numMrqs s.first := by
      rw [order, all, if_pos rfl]
    cases turn all with
    | inl none =>
      -- nothing is requested, so the loop does not start
      have nothing : s.order rdg = [] := by
        rw [order, none, turns]
      have stays : s.cursorAfter t rdg = t.iMeb := by
        rw [cursorAfter, nothing, all, if_pos rfl]
        rfl
      have zero := (nothing ▸ selects).eq_zero
      rw [stays, nothing, Teb.withCursor_self, zero]
      cases rounds with
      | zero => rw [Teb.assignMonBuf, if_pos rfl]; rfl
      | succ n => rw [Teb.assignMonBuf, if_pos rfl]; rfl
    | inr turn =>
      have order : s.order rdg = turns t.monBufLists.length s.prms.numMrqs t.iMeb := by
        rw [order, lists, turn.1]
      have after : s.cursorAfter t rdg = t.cursorAfter s.prms.numMrqs := by
        rw [cursorAfter, all, if_pos rfl, order, Teb.cursorAfter, lists, Nat.add_mod_right]
        cases (turns s.prms.numMrqs s.prms.numMrqs t.iMeb).find? t.ready with
        | none => exact (Nat.mod_eq_of_lt (turn.1 ▸ turn.2)).symm
        | some m => rfl
      rw [after, order]
      exact Teb.assignMonBuf_all (order ▸ selects) (by rw [lists, turn.1]; exact turn.2) enough

/-- The answer to a request. -/
lemma answers {s : TebSession} {t : Teb} {rdg : ResultDgram} (fits : s.prms.numMrqs ≤ 4)
    (lists : t.monBufLists.length = s.prms.numMrqs)
    (turn : s.roundRobin rdg = true → s.prms.numMrqs = 0 ∨ t.iMeb = s.first ∧ s.first < s.prms.numMrqs) :
    s.Answers t rdg
      ((t.withCursor (s.cursorAfter t rdg)).answer rdg ((s.order rdg).find? t.ready)).1
      ((t.withCursor (s.cursorAfter t rdg)).answer rdg ((s.order rdg).find? t.ready)).2 := by
  have selects := selects_order fits (fun all => (turn all).imp_right And.right)
  have tries : ∀ m ∈ s.order rdg, m < s.prms.numMrqs ∧ (s.prms.requested rdg).getLsbD m = true := by
    intro m mem
    have bit := (selects.bits m).mpr mem
    exact ⟨lt_of_requested fits bit, bit⟩
  refine ⟨lists, tries, fun rounds enough => assignMonBuf_eq fits lists turn enough, ?_, ?_⟩
  · cases found : (s.order rdg).find? t.ready with
    | none =>
      rw [Teb.answer_none]
      refine ⟨fun h => absurd rfl h, ?_⟩
      rintro ⟨m, bit, free⟩
      exact absurd free (List.find?_eq_none.mp found m ((selects.bits m).mp bit))
    | some m =>
      have bit := (tries m (List.mem_of_find?_eq_some found)).2
      rw [Teb.answer_some]
      refine ⟨fun _ => ⟨m, bit, List.find?_some found⟩, fun _ zero => ?_⟩
      rw [TebParams.requested, zero, BitVec.zero_and, BitVec.getLsbD_zero] at bit
      cases bit
  · cases (s.order rdg).find? t.ready with
    | none => rfl
    | some m => rfl

/-- What holds between calls. The turn is that of the history where `connect` found no list and a cursor in
    range. -/
structure Sound (s : TebSession) : Prop where
  sourced : Sourced s.teb.monBufLists
  fits : s.connected = true → s.prms.numMrqs ≤ maxMrqs
  lists : s.connected = true → s.teb.monBufLists.length = s.found + s.prms.numMrqs
  turn : s.connected = true → s.found = 0 → s.cursor < s.prms.numMrqs →
    s.teb.iMeb = s.first ∧ s.first < s.prms.numMrqs

/-- A request for all MEBs finds the cursor where the history has it. -/
lemma Sound.turn_of {s : TebSession} (h : s.Sound) (connected : s.connected = true) (fresh : s.found = 0)
    {rdg : ResultDgram} (inRange : s.roundRobin rdg = true → s.prms.numMrqs = 0 ∨ s.cursor < s.prms.numMrqs) :
    s.roundRobin rdg = true → s.prms.numMrqs = 0 ∨ s.teb.iMeb = s.first ∧ s.first < s.prms.numMrqs :=
  fun all => (inRange all).imp_right (h.turn connected fresh)

/-- A request is answered, whatever its MEBs' lists hold. -/
lemma Sound.monitor {s : TebSession} (h : s.Sound) (connected : s.connected = true) (fresh : s.found = 0)
    {lists : List (List (BitVec 32))} (same : lists.length = s.teb.monBufLists.length)
    {polled : List (BitVec 32)} (offered : ∀ imm ∈ polled, ImmData.src imm < s.prms.numMrqs) {rdg : ResultDgram}
    (inRange : s.roundRobin rdg = true → s.prms.numMrqs = 0 ∨ s.cursor < s.prms.numMrqs) :
    ∃ t t' rdg', Teb.pollMonBufs s.prms { s.teb with monBufLists := lists } polled = .ok t ∧
      t.iMeb = s.teb.iMeb ∧ (Sourced lists → Sourced t.monBufLists) ∧
      t'.iMeb = s.cursorAfter t rdg ∧
      Teb.monitor s.prms { s.teb with monBufLists := lists } polled rdg = .ok (t', rdg') ∧
      s.Answers t rdg t' rdg' := by
  have length : lists.length = s.prms.numMrqs := by
    rw [same, h.lists connected, fresh, Nat.zero_add]
  obtain ⟨polledLists, poll, length', sourced⟩ := @Teb.pollMonBufs_ok s.prms polled
    { s.teb with monBufLists := lists } (length.symm ▸ offered)
  have answered := @answers s { s.teb with monBufLists := polledLists } rdg
    (h.fits connected) (length'.trans length) (h.turn_of connected fresh inRange)
  have enough : s.prms.numMrqs ≤ 32 := (h.fits connected).trans (by decide)
  refine ⟨_, _, _, poll, rfl, sourced, ?_, ?_, answered⟩
  · cases (s.order rdg).find? { s.teb with monBufLists := polledLists }.ready with
    | none => rfl
    | some m => rfl
  · rw [Teb.monitor, poll]
    exact answered.ends 32 enough

/-- The MEB whose buffer a result was given is the one the loop found. -/
lemma mebOf_answer {t : Teb} (own : Sourced t.monBufLists) {rdg : ResultDgram} {m : Nat} (free : t.ready m = true) :
    mebOf (t.answer rdg (some m)).2 = m := by
  obtain ⟨buffer, rest, lst⟩ := Teb.exists_of_ready free
  have given : (t.answer rdg (some m)).2.monBufNo = buffer := by
    simp only [Teb.answer, lst, Option.getD_some, List.headD_cons]
  rw [mebOf, given]
  exact own m _ lst buffer List.mem_cons_self

/-- The history and the cursor move alike. -/
lemma turn_monitor {s : TebSession} {t t' : Teb} {rdg rdg' : ResultDgram} (own : Sourced t.monBufLists)
    (answered : s.Answers t rdg t' rdg') (cursor : t'.iMeb = s.cursorAfter t rdg)
    (turn : t.iMeb = s.first ∧ s.first < s.prms.numMrqs) :
    let after := { s with teb := t', last := s.note rdg rdg' }
    after.teb.iMeb = after.first ∧ after.first < after.prms.numMrqs := by
  intro after
  have pos : 0 < s.prms.numMrqs := Nat.zero_lt_of_lt turn.2
  have given : rdg' = ((t.withCursor t'.iMeb).answer rdg ((s.order rdg).find? t.ready)).2 :=
    congrArg Prod.snd answered.first
  cases all : s.roundRobin rdg with
  | false =>
    have note : s.note rdg rdg' = s.last := by
      rw [note, all, Bool.false_and, if_neg Bool.false_ne_true]
    have first : after.first = s.first := by
      simp only [after, TebSession.first, note]
    have stays : after.teb.iMeb = t.iMeb := by
      change t'.iMeb = t.iMeb
      rw [cursor, cursorAfter, all, if_neg Bool.false_ne_true]
    rw [stays, first]
    exact turn
  | true =>
    cases found : (s.order rdg).find? t.ready with
    | none =>
      rw [found] at given
      have note : s.note rdg rdg' = s.last := by
        have none : rdg'.monitor = 0#32 := by
          rw [given]
          exact Teb.answer_none _ _
        rw [note, none, bne_self_eq_false, Bool.and_false, if_neg Bool.false_ne_true]
      have first : after.first = s.first := by
        simp only [after, TebSession.first, note]
      have stays : after.teb.iMeb = t.iMeb := by
        change t'.iMeb = t.iMeb
        rw [cursor, cursorAfter, all, if_pos rfl, found]
      rw [stays, first]
      exact turn
    | some m =>
      have free : t.ready m = true := List.find?_some found
      have some : rdg'.monitor ≠ 0#32 :=
        answered.served.mpr ⟨m, (answered.tries m (List.mem_of_find?_eq_some found)).2, free⟩
      rw [found] at given
      have meb : mebOf rdg' = m := by
        rw [given]
        exact mebOf_answer (t := t.withCursor t'.iMeb) own free
      have note : s.note rdg rdg' = .some m := by
        rw [note, all, Bool.true_and, if_pos (bne_iff_ne.mpr some), meb]
      have first : after.first = (m + 1) % s.prms.numMrqs := by
        simp only [after, TebSession.first, note]
      have moved : after.teb.iMeb = (m + 1) % s.prms.numMrqs := by
        change t'.iMeb = (m + 1) % s.prms.numMrqs
        rw [cursor, cursorAfter, all, if_pos rfl, found]
      rw [moved, first]
      exact ⟨rfl, Nat.mod_lt _ pos⟩

/-- Every call keeps it. -/
lemma Sound.step {s s' : TebSession} {calls : List TebCall} {call : TebCall} (h : s.Sound)
    (allowed : Allowed calls s call) (e : s.step call = .ok s') : s'.Sound := by
  cases call with
  | connect p =>
    simp only [TebSession.step] at e
    split at e
    · cases e
      exact ⟨h.sourced, Bool.noConfusion, Bool.noConfusion, Bool.noConfusion⟩
    · rename_i fits
      cases e
      refine ⟨?_, fun _ => Nat.le_of_not_lt fits, fun _ => ?_, fun _ _ lt => ⟨rfl, lt⟩⟩
      · intro i lst at_i imm mem
        cases Nat.lt_or_ge i s.teb.monBufLists.length with
        | inl old =>
          rw [Teb.connect, List.getElem?_append_left old] at at_i
          exact h.sourced i lst at_i imm mem
        | inr new =>
          rw [Teb.connect, List.getElem?_append_right new] at at_i
          rw [(List.mem_replicate.mp (List.mem_of_getElem? at_i)).2] at mem
          cases mem
      · exact List.length_append.trans (congrArg (s.teb.monBufLists.length + ·) List.length_replicate)
  | disconnect =>
    cases e
    refine ⟨?_, Bool.noConfusion, Bool.noConfusion, Bool.noConfusion⟩
    intro i lst at_i
    cases at_i
  | configure app linked =>
    cases e
    have same : s.teb.configure app s.prms linked =
        { s.teb.configure app s.prms linked with monBufLists := s.teb.monBufLists, iMeb := s.teb.iMeb } := by
      cases linked with
      | true => rfl
      | false => rfl
    rw [same]
    exact ⟨h.sourced, h.fits, h.lists, h.turn⟩
  | run =>
    cases e
    exact ⟨h.sourced, h.fits, h.lists, h.turn⟩
  | monitor polled rdg =>
    obtain ⟨connected, offered⟩ := allowed
    obtain ⟨⟨teb, rdg'⟩, call, e⟩ := bind_ok e
    cases e
    have lists := h.lists connected
    have kept := Teb.monitor_keeps (fun imm mem => (offered imm mem).trans_le (lists ▸ Nat.le_add_left _ _)) call
    refine ⟨kept.2 h.sourced, h.fits, fun _ => kept.1.trans lists, ?_⟩
    intro _ fresh inRange
    obtain ⟨t, t', rdg'', -, same, sourced, cursor, call', answered⟩ :=
      h.monitor connected fresh (Eq.refl s.teb.monBufLists.length) offered (fun _ => .inr inRange)
    cases call.symm.trans call'
    exact turn_monitor (sourced h.sourced) answered cursor (same ▸ h.turn connected fresh inRange)

/-- It holds before any call. -/
lemma Sound.new (p : TebParams) (mem : Nat → ResultDgram) (eventIdx wrtCounter : BitVec 32) :
    (new p (.new mem eventIdx wrtCounter)).Sound := by
  refine ⟨?_, Bool.noConfusion, Bool.noConfusion, Bool.noConfusion⟩
  intro i lst at_i
  cases at_i

end TebSession

variable {p : TebParams} {mem : Nat → ResultDgram} {eventIdx wrtCounter : BitVec 32} {calls : List TebCall}
  {s : TebSession}

/-- Over every sequence of calls, a request made while MEBs are connected is answered, whatever the lists hold,
    within a round for each MEB: with the buffer of the first MEB, in the order in which they are tried, that
    holds more than is kept back for it, if there is one. A request for all MEBs tries them in turn from the
    one after the last that such a request used, where the connection was made with the cursor in range and no
    lists left over. -/
theorem monitor_in_turn (run : Run TebSession.step TebSession.Allowed (.new p (.new mem eventIdx wrtCounter)) calls s)
    (connected : s.connected = true) (fresh : s.found = 0) {lists : List (List (BitVec 32))}
    (same : lists.length = s.teb.monBufLists.length) {polled : List (BitVec 32)}
    (offered : ∀ imm ∈ polled, ImmData.src imm < s.prms.numMrqs) {rdg : ResultDgram}
    (inRange : s.roundRobin rdg = true → s.prms.numMrqs = 0 ∨ s.cursor < s.prms.numMrqs) :
    ∃ t t' rdg', Teb.pollMonBufs s.prms { s.teb with monBufLists := lists } polled = .ok t ∧
      Teb.monitor s.prms { s.teb with monBufLists := lists } polled rdg = .ok (t', rdg') ∧
      s.Answers t rdg t' rdg' := by
  have sound : s.Sound := by
    apply run.invariant (P := fun _ s => s.Sound)
    · exact TebSession.Sound.new p mem eventIdx wrtCounter
    · intro calls s call s' h allowed e
      exact h.step allowed e
  obtain ⟨t, t', rdg', poll, -, -, -, call, answered⟩ := sound.monitor connected fresh same offered inRange
  exact ⟨t, t', rdg', poll, call, answered⟩

/-! ## Events -/

namespace Teb

variable {app : TebApp} {p : TebParams}

/-- What a request reads and changes. -/
def buffers (s : Teb) : List (List (BitVec 32)) × Nat × (Nat → Nat) := (s.monBufLists, s.iMeb, s.rogReserved)

/-- Batches and posts have no part in it. -/
lemma sendTo_buffers {dsts : List Nat} {s s' : Teb} (h : sendTo app p dsts s = .ok s') : s'.buffers = s.buffers := by
  induction dsts generalizing s with
  | nil =>
    cases h
    rfl
  | cons dst dsts ih =>
    rw [sendTo] at h
    split at h
    · cases h
    · split at h
      · cases h
      · have same := ih h
        exact same

lemma post_buffers {s s' : Teb} {b : TebBatch} (h : s.post app p b = .ok s') : s'.buffers = s.buffers := by
  obtain ⟨t, sent, h⟩ := bind_ok h
  have same := sendTo_buffers sent
  cases h
  exact same

lemma flush_buffers {s s' : Teb} (h : s.flush app p = .ok s') : s'.buffers = s.buffers := by
  unfold flush at h
  split at h
  · cases h
    rfl
  · obtain ⟨t, posted, h⟩ := bind_ok h
    have same := post_buffers posted
    cases h
    exact same

lemma expire_buffers {s : Teb} {b : TebBatch} {dsts : BitVec 64} {idx : Nat} {expired : Bool} {r : Teb × TebBatch}
    (h : s.expire app p b dsts idx expired = .ok r) : r.1.buffers = s.buffers := by
  unfold expire at h
  split at h
  · obtain ⟨t, posted, h⟩ := bind_ok h
    have same := post_buffers posted
    cases h
    exact same
  · cases h
    rfl

lemma addToBatch_buffers {s s' : Teb} {b : TebBatch} {dsts : BitVec 64} {idx : Nat}
    (h : s.addToBatch app p b dsts idx = .ok s') : s'.buffers = s.buffers := by
  simp only [addToBatch] at h
  split at h
  · cases h
    rfl
  · obtain ⟨r, expired, h⟩ := bind_ok h
    have same := expire_buffers expired
    split at h
    · obtain ⟨t, posted, h⟩ := bind_ok h
      cases h
      exact (post_buffers posted).trans same
    · cases h
      exact same

lemma tryPost_buffers {s s' : Teb} {dsts : BitVec 64} {idx : Nat} (h : s.tryPost app p dsts idx = .ok s') :
    s'.buffers = s.buffers := by
  obtain ⟨t, wrapped, h⟩ := bind_ok h
  have same : t.buffers = s.buffers := by
    unfold wrap at wrapped
    split at wrapped
    · exact flush_buffers wrapped
    · cases wrapped
      rfl
  exact (addToBatch_buffers h).trans same

lemma handlePrescale_buffers (s : Teb) (rdg : ResultDgram) : (s.handlePrescale app rdg).1.buffers = s.buffers := by
  unfold handlePrescale
  split
  · rfl
  · split
    · rfl
    · rfl

/-- The buffers are as they were or as a request left them. -/
def Through (p : TebParams) (polled : List (BitVec 32)) (s s' : Teb) : Prop :=
  s'.buffers = s.buffers ∨
    ∃ (t : Teb) (rdg : ResultDgram) (t' : Teb) (rdg' : ResultDgram),
      t.buffers = s.buffers ∧ t.monitor p polled rdg = .ok (t', rdg') ∧ s'.buffers = t'.buffers

lemma decideEvent_through {s : Teb} {event : EbEvent} {polled : List (BitVec 32)} {rdg : ResultDgram}
    {r : Teb × ResultDgram} (h : s.decideEvent app p event polled rdg = .ok r) : Through p polled s r.1 := by
  simp only [decideEvent] at h
  split at h
  · have same := @handlePrescale_buffers app s { rdg with data := app.event event rdg }
    split at h
    · refine .inr ⟨_, _, r.1, r.2, ?_, h, rfl⟩
      split
      · exact same
      · exact same
    · cases h
      refine .inl ?_
      change (ite _ _ _ : Teb).buffers = _
      split
      · exact same
      · exact same
  · cases h
    exact .inl rfl

lemma respond_through {s s' : Teb} {event : EbEvent} {polled : List (BitVec 32)} {idx : Nat}
    (h : s.respond app p event polled idx = .ok s') : Through p polled s s' := by
  obtain ⟨⟨t, rdg⟩, decided, h⟩ := bind_ok h
  have through := decideEvent_through decided
  cases receivers : p.receiversOf event.creator.readoutGroups with
  | none =>
    simp only [receivers] at h
    cases h
  | some dsts =>
    simp only [receivers] at h
    have same := tryPost_buffers h
    cases through with
    | inl kept => exact .inl (same.trans kept)
    | inr asked =>
      obtain ⟨t, rdg, t', rdg', before, call, after⟩ := asked
      exact .inr ⟨t, rdg, t', rdg', before, call, same.trans after⟩

lemma flushIfDue_buffers {s s' : Teb} {dgram : EbDgram} (h : s.flushIfDue app p dgram = .ok s') :
    s'.buffers = s.buffers := by
  unfold flushIfDue at h
  split at h
  · cases h
    rfl
  · split at h
    · exact flush_buffers h
    · cases h
      rfl

/-- An event touches the buffers by a request only. -/
theorem process_through {s s' : Teb} {event : EbEvent} {polled : List (BitVec 32)}
    (h : s.process app p event polled = .ok s') : Through p polled s s' := by
  simp only [process] at h
  split at h
  · cases h
  · split at h
    · have through := respond_through h
      exact through
    · obtain ⟨t, flushed, h⟩ := bind_ok h
      have same := flushIfDue_buffers flushed
      cases h
      exact .inl same

end Teb

/-! ## Runs -/

instance TebSession.decidableAllowed (calls : List TebCall) (s : TebSession) (call : TebCall) :
    Decidable (Allowed calls s call) :=
  match call with
  | .monitor polled _ =>
    -- over the list, not over all words
    have _ : Decidable (∀ imm ∈ polled, ImmData.src imm < s.prms.numMrqs) := List.decidableBAll _ polled
    inferInstanceAs (Decidable (s.connected = true ∧ ∀ imm ∈ polled, ImmData.src imm < s.prms.numMrqs))
  | .connect _ => .isTrue trivial
  | .disconnect => .isTrue trivial
  | .configure _ _ => .isTrue trivial
  | .run => .isTrue trivial

/-- A partition with some MEBs, a buffer of a MEB, and an event that is requested for some MEBs. -/
def withMebs (numMrqs : Nat) : TebParams where
  partition := 0
  id := 0
  rogs := 1#16
  receivers := [1#64]
  links := 1
  maxEntries := 64#32
  numBuffers := 256#32
  numMrqs
  numMebEvBufs := 8

def bufferOf (src idx : Nat) : BitVec 32 := BitVec.ofNat 32 (src * 2 ^ 24 + idx)

def requestFor (mebs : BitVec 32) : ResultDgram where
  pulseIdAndControl := 1#64
  env := 0x0c000001#32
  src := 0
  sizeofPayload := 8
  data := mebs <<< 2
  monBufNo := 0#32

/-- Before any connection. -/
def noMebs : TebSession := .new (withMebs 0) (.new (fun _ => requestFor 0#32) 0#32 0#32)

/-- Three MEBs take turns when all are requested. -/
theorem monitor_in_turn_three : ∃ s : TebSession,
    Run TebSession.step TebSession.Allowed noMebs
      [.connect (withMebs 3), .monitor [bufferOf 0 1, bufferOf 1 1] (requestFor 7#32)] s ∧
    ∃ t t' rdg', Teb.pollMonBufs s.prms { s.teb with monBufLists := s.teb.monBufLists } [bufferOf 0 2] = .ok t ∧
      Teb.monitor s.prms { s.teb with monBufLists := s.teb.monBufLists } [bufferOf 0 2] (requestFor 7#32)
        = .ok (t', rdg') ∧
      s.Answers t (requestFor 7#32) t' rdg' := by
  obtain ⟨s, run, test⟩ := Run.of_replay_any TebSession.step TebSession.Allowed noMebs
    [.connect (withMebs 3), .monitor [bufferOf 0 1, bufferOf 1 1] (requestFor 7#32)]
    (fun s => s.connected && s.found == 0 && s.prms.numMrqs == 3 && s.cursor == 0) (by decide +kernel)
  simp only [Bool.and_eq_true, beq_iff_eq] at test
  obtain ⟨⟨⟨connected, fresh⟩, three⟩, start⟩ := test
  refine ⟨s, run, monitor_in_turn run connected fresh rfl ?_ ?_⟩
  · intro imm mem
    rw [List.mem_singleton.mp mem, three]
    decide
  · intro _
    rw [three, start]
    exact .inr (by decide)

/-- A request for some MEBs is answered with a buffer of the lowest one that is ready, whatever was used last. -/
lemma TebSession.monitor_lowest {s : TebSession} (fits : s.prms.numMrqs ≤ 4)
    (lists : s.teb.monBufLists.length = s.prms.numMrqs) {rdg : ResultDgram} (some : s.roundRobin rdg = false) {m : Nat}
    (lowest : ((List.range s.prms.numMrqs).filter ((s.prms.requested rdg).getLsbD ·)).find? s.teb.ready = .some m) :
    s.teb.monitor s.prms [] rdg = .ok (s.teb.answer rdg (.some m)) := by
  have order : s.order rdg = (List.range s.prms.numMrqs).filter ((s.prms.requested rdg).getLsbD ·) := by
    rw [TebSession.order, some, if_neg Bool.false_ne_true]
  have stays : s.cursorAfter s.teb rdg = s.teb.iMeb := by
    rw [cursorAfter, some, if_neg Bool.false_ne_true]
  have loop := TebSession.assignMonBuf_eq fits lists
    (fun all => absurd (all.symm.trans some) Bool.noConfusion) (show s.prms.numMrqs ≤ 32 from fits.trans (by decide))
  rw [order, lowest, stays, Teb.withCursor_self] at loop
  exact loop

/-- A request for some of the MEBs does not take turns: MEB 0 is used again although MEB 1 is ready. And a
    cursor that three MEBs left is out of range when one is connected. -/
theorem some_mebs_not_in_turn :
    (∃ s : TebSession,
      Run TebSession.step TebSession.Allowed noMebs
        [.connect (withMebs 3), .monitor [bufferOf 0 1, bufferOf 0 2, bufferOf 1 1] (requestFor 7#32)] s ∧
      s.last = some 0 ∧ s.teb.ready 1 = true ∧
      ∃ t rdg, s.teb.monitor s.prms [] (requestFor 3#32) = .ok (t, rdg) ∧ TebSession.mebOf rdg = 0) ∧
    ∃ s : TebSession,
      Run TebSession.step TebSession.Allowed noMebs
        [.connect (withMebs 3), .monitor [bufferOf 0 1] (requestFor 7#32), .disconnect, .connect (withMebs 1)] s ∧
      s.teb.monitor s.prms [bufferOf 0 1] (requestFor 1#32) = .error .noMeb := by
  constructor
  · obtain ⟨s, run, test⟩ := Run.of_replay_any TebSession.step TebSession.Allowed noMebs
      [.connect (withMebs 3), .monitor [bufferOf 0 1, bufferOf 0 2, bufferOf 1 1] (requestFor 7#32)]
      (fun s => s.last == some 0 && s.teb.ready 1 && s.teb.ready 0 && s.prms.numMrqs == 3 &&
        s.teb.monBufLists == [[bufferOf 0 2], [bufferOf 1 1], []]) (by decide +kernel)
    simp only [Bool.and_eq_true, beq_iff_eq] at test
    obtain ⟨⟨⟨⟨last, next⟩, free⟩, three⟩, lists⟩ := test
    have requested : s.prms.requested (requestFor 3#32) = 3#32 := by
      rw [TebParams.requested, TebParams.allMebs, three]
      decide
    have some : s.roundRobin (requestFor 3#32) = false := by
      rw [TebSession.roundRobin, requested, TebParams.allMebs, three]
      decide
    have order : (List.range s.prms.numMrqs).filter ((s.prms.requested (requestFor 3#32)).getLsbD ·) = [0, 1] := by
      rw [three, requested]
      decide
    have call := TebSession.monitor_lowest (m := 0) (by rw [three]; decide) (by rw [three, lists]; rfl) some
      (by rw [order, List.find?_cons, free])
    refine ⟨s, run, last, next, _, _, call, ?_⟩
    simp only [TebSession.mebOf, lists]
    decide +kernel
  · obtain ⟨s, run, test⟩ := Run.of_replay_any TebSession.step TebSession.Allowed noMebs
      [.connect (withMebs 3), .monitor [bufferOf 0 1] (requestFor 7#32), .disconnect, .connect (withMebs 1)]
      (fun s => s.teb.monitor s.prms [bufferOf 0 1] (requestFor 1#32) = .error .noMeb) (by decide +kernel)
    exact ⟨s, run, of_decide_eq_true test⟩

end Lcls2.Eb
