import Lcls2.Xtc.Iterator

/-!
# What a dgram holds

The `Names` and `ShapesData` in the memory of a dgram (`xtc/ShapesData.hh`, `xtc/NamesId.hh`), whatever is damaged, and
those of them that `XtcIterator::iterate` comes to: it skips what is below an `Xtc` that is `Corrupted`. A `Dgram`
carries that its `Xtc`s are well nested, so that the iteration returns.
-/

namespace Lcls2.Xtc
open Lib

/-- `NamesId`, as the key of `NamesLookup`: the value of a `Src`. -/
structure NamesId where
  value : BitVec 28
  deriving DecidableEq, Repr

/-- `NamesId::nodeId` and `NamesId::namesId`. -/
def NamesId.nodeId (id : NamesId) : BitVec 12 := (id.value >>> 8).setWidth 12
def NamesId.namesId (id : NamesId) : BitVec 8 := id.value.setWidth 8

/-- `NamesId::NamesId`. -/
def NamesId.of (nodeId : BitVec 12) (namesId : BitVec 8) : NamesId :=
  ⟨nodeId.setWidth 28 <<< 8 ||| namesId.setWidth 28⟩

/-- A `std::string` that is made of a `char*` ends before its first zero. -/
abbrev CString := { s : Bytes // 0 ∉ s }

/-- `Names`, as far as it is read. -/
structure Names where
  id : NamesId
  detName : CString
  alg : CString
  deriving DecidableEq

/-- `ShapesData`, where it is in the memory and what is copied of it. -/
structure ShapesData where
  xtc : Nat
  id : NamesId
  payload : Bytes
  deriving DecidableEq, Repr

/-- An `Xtc` that is no `Parent`. -/
inductive Leaf where
  | names (names : Names)
  | shapesData (sd : ShapesData)
  | other
  deriving DecidableEq

/-- The names, and the data, that a leaf is. -/
def Leaf.names? : Leaf → Option Names
  | names n => some n
  | shapesData _ | other => none

def Leaf.shapesData? : Leaf → Option ShapesData
  | shapesData sd => some sd
  | names _ | other => none

/-- The `src` of the `Xtc` at an offset, as a `NamesId`. -/
def namesIdAt (mem : Bytes) (xtc : Nat) : NamesId := ⟨BitVec.ofNat 28 (ofLe (slice mem xtc (xtc + 4)))⟩

/-- The string at an offset. -/
def cString (mem : Bytes) (offset : Nat) : CString :=
  ⟨(mem.drop offset).takeWhile (· ≠ 0), fun zero =>
    absurd rfl (of_decide_eq_true (List.mem_takeWhile_imp (p := fun b : UInt8 => decide (b ≠ 0)) zero))⟩

/-- `detName` and `alg` behind the header of `Names`: after `numArrays` come `detType`, `detName` and `detId` with
    `MaxNameSize` bytes each. -/
def detNameOffset : Nat := sizeofXtc + 4 + 256
def algOffset : Nat := sizeofXtc + 4 + 3 * 256

/-- The `Xtc` at an offset by its type. -/
def leafAt (mem : Bytes) (xtc : Nat) : Leaf :=
  match contains mem xtc % 0x1000 with
  | 1 => .shapesData ⟨xtc, namesIdAt mem xtc, slice mem (xtc + sizeofXtc) (xtc + extent mem xtc)⟩
  | 4 => .names ⟨namesIdAt mem xtc, cString mem (xtc + detNameOffset), cString mem (xtc + algOffset)⟩
  | _ => .other

/-- What the iteration has processed, but for the `Parent`s. -/
def processed (mem : Bytes) (accesses : List Access) : List Leaf :=
  accesses.filterMap fun
    | .header _ => none
    | .process _ xtc => if isParent mem xtc then none else some (leafAt mem xtc)

instance (mem : Bytes) (bufEnd xtc stop : Nat) : Decidable (Fits mem bufEnd xtc stop) :=
  decidable_of_iff (xtc + sizeofXtc ≤ bufEnd ∧ sizeofXtc ≤ extent mem xtc ∧ xtc + extent mem xtc ≤ stop ∧
    xtc + extent mem xtc ≤ bufEnd)
    ⟨fun h => ⟨h.1, h.2.1, h.2.2.1, h.2.2.2⟩, fun h => ⟨h.header, h.long, h.inParent, h.inBuffer⟩⟩

/-- What there is from `xtc` up to `stop`, if it is well nested, each with whether the iteration comes to it. -/
def leavesAt (mem : Bytes) (bufEnd : Nat) : Nat → Bool → Nat → Nat → Option (List (Bool × Leaf))
  | 0, _, _, _ => none
  | n + 1, reached, xtc, stop =>
    if xtc = stop then some []
    else if Fits mem bufEnd xtc stop then
      if isParent mem xtc then do
        let inside ← leavesAt mem bufEnd n (reached && !corrupted mem xtc) (xtc + sizeofXtc) (xtc + extent mem xtc)
        let rest ← leavesAt mem bufEnd n reached (xtc + extent mem xtc) stop
        some (inside ++ rest)
      else do
        let rest ← leavesAt mem bufEnd n reached (xtc + extent mem xtc) stop
        some ((reached, leafAt mem xtc) :: rest)
    else none

/-- Whether the iteration gets into an `Xtc`. -/
def isEntered (mem : Bytes) (xtc : Nat) : Bool := !corrupted mem xtc && 0 < sizeofPayload (extent mem xtc)

/-- The `xtc` of a dgram in a buffer that ends at `bufEnd`, with what it holds. -/
structure DgramXtc where
  mem : Bytes
  bufEnd : Nat
  xtc : Nat
  leaves : List (Bool × Leaf)
  long : sizeofXtc ≤ extent mem xtc
  held : leavesAt mem bufEnd (bufEnd + 1) (isEntered mem xtc) (xtc + sizeofXtc) (xtc + extent mem xtc) = some leaves

/-- The leaves of the `Xtc` that a memory starts with. -/
def leavesOf (mem : Bytes) : Option (List (Bool × Leaf)) :=
  leavesAt mem mem.length (mem.length + 1) (isEntered mem 0) (0 + sizeofXtc) (0 + extent mem 0)

/-- Whether a memory starts with an `Xtc` that is well nested. -/
def isNested (mem : Bytes) : Bool := sizeofXtc ≤ extent mem 0 && (leavesOf mem).isSome

/-- The dgram that a memory starts with. -/
def DgramXtc.ofMem (mem : Bytes) (nested : isNested mem = true) : DgramXtc where
  mem
  bufEnd := mem.length
  xtc := 0
  leaves := (leavesOf mem).getD []
  long := of_decide_eq_true (Bool.and_eq_true_iff.mp nested).1
  held := by
    obtain ⟨leaves, found⟩ := Option.isSome_iff_exists.mp (Bool.and_eq_true_iff.mp nested).2
    show leavesOf mem = _
    rw [found]
    rfl

/-- The bytes of `Names` without fields: the source, the type, the extent, `numArrays`, `detType`, `detName`, `detId`,
    the name and the version of the algorithm, and the segment. -/
def namesBytes (id : NamesId) (detName alg : Bytes) : Bytes :=
  toLe 4 id.value.toNat ++ toLe 2 0 ++ toLe 2 4 ++ toLe 4 1048 ++ toLe 4 0 ++ List.replicate 256 0 ++
    (detName ++ List.replicate (256 - detName.length) 0) ++ List.replicate 256 0 ++
    (alg ++ List.replicate (256 - alg.length) 0) ++ List.replicate 8 0

/-- The bytes of `ShapesData` with some payload. -/
def shapesDataBytes (id : NamesId) (payload : Bytes) : Bytes :=
  toLe 4 id.value.toNat ++ toLe 2 0 ++ toLe 2 1 ++ toLe 4 (12 + payload.length) ++ payload

/-- The bytes of a `Parent` with some damage. -/
def parentBytes (damage : Nat) (children : Bytes) : Bytes :=
  toLe 4 0 ++ toLe 2 damage ++ toLe 2 0 ++ toLe 4 (12 + children.length) ++ children

/-- What the iteration comes to. -/
def reachedOf (leaves : List (Bool × Leaf)) : List Leaf := (leaves.filter (·.1)).map (·.2)

section walk
variable {mem : Bytes} {bufEnd n k parent xtc stop visits : Nat} {remaining : Int} {w : Walked} {reached : Bool}
  {leaves leaves' : List (Bool × Leaf)}

lemma reachedOf_append : reachedOf (leaves ++ leaves') = reachedOf leaves ++ reachedOf leaves' := by
  rw [reachedOf, List.filter_append, List.map_append]
  rfl

/-- Below what is skipped everything is. -/
lemma leavesAt_skipped (h : leavesAt mem bufEnd n false xtc stop = some leaves) : reachedOf leaves = [] := by
  induction n generalizing xtc stop leaves with
  | zero => cases h
  | succ n ih =>
    rw [leavesAt] at h
    split at h
    · cases h
      rfl
    · split at h
      · split at h
        · obtain ⟨inside, e, h⟩ := Option.bind_eq_some_iff.mp h
          obtain ⟨rest, e', h⟩ := Option.bind_eq_some_iff.mp h
          cases h
          rw [reachedOf_append, ih e, ih e']
          rfl
        · obtain ⟨rest, e, h⟩ := Option.bind_eq_some_iff.mp h
          cases h
          show reachedOf rest = []
          exact ih e
      · cases h

/-- The loop comes to what is not below a `Corrupted` `Xtc`, in its order. -/
lemma loop_leaves (h : leavesAt mem bufEnd k true xtc stop = some leaves) (step : InStep mem parent xtc remaining)
    (whole : stop = parent + extent mem parent)
    (walk : loop mem bufEnd (fun _ => .next) n parent xtc remaining visits = some w) :
    w.ending = .returned ∧ processed mem w.accesses = reachedOf leaves := by
  induction k generalizing n parent xtc stop remaining visits w leaves with
  | zero => cases h
  | succ k ih =>
    rw [leavesAt] at h
    split at h
    · rename_i same
      cases h
      have left := step.left
      have nothing : remaining ≤ 0 := by omega
      cases n with
      | zero => cases walk
      | succ n =>
        rw [loop, if_pos nothing] at walk
        cases walk
        exact ⟨rfl, rfl⟩
    · split at h
      · rename_i fits
        subst whole
        obtain ⟨m, inner, rfl, process, round⟩ := round_of_fits walk step fits
        cases kind : isParent mem xtc with
        | true =>
          rw [if_pos kind] at h
          obtain ⟨inside, e, h⟩ := Option.bind_eq_some_iff.mp h
          obtain ⟨rest, e', h⟩ := Option.bind_eq_some_iff.mp h
          cases h
          rw [processBy, kind, if_pos rfl, iterateBy] at process
          have within : inner.ending = .returned ∧ processed mem inner.accesses = reachedOf inside := by
            -- The iteration does not look into a damaged `Xtc`.
            cases damaged : corrupted mem xtc with
            | true =>
              rw [damaged, if_pos rfl] at process
              rw [damaged] at e
              cases process
              exact ⟨rfl, (leavesAt_skipped e).symm⟩
            | false =>
              rw [damaged, if_neg Bool.false_ne_true] at process
              rw [damaged] at e
              exact ih e (step.inside fits) rfl process
          obtain ⟨later, follow, ending, -, all⟩ := round.of_returned within.1
          obtain ⟨returned, after⟩ := ih e' (step.next fits) rfl follow
          refine ⟨ending.trans returned, ?_⟩
          rw [all, processed, List.filterMap_append, reachedOf_append, ← within.2, ← after]
          congr 1
          rw [Walked.child, List.filterMap_cons_none rfl, List.filterMap_cons_none]
          · rfl
          · exact if_pos kind
        | false =>
          rw [if_neg (by rw [kind]; exact Bool.false_ne_true)] at h
          obtain ⟨rest, e, h⟩ := Option.bind_eq_some_iff.mp h
          cases h
          rw [processBy, kind, if_neg Bool.false_ne_true] at process
          cases process
          obtain ⟨later, follow, ending, -, all⟩ := round.of_returned rfl
          obtain ⟨returned, after⟩ := ih e (step.next fits) rfl follow
          refine ⟨ending.trans returned, ?_⟩
          have here : processed mem ((visited (fun _ => .next) visits).child parent xtc).accesses =
              [leafAt mem xtc] := by
            rw [processed, Walked.child, List.filterMap_cons_none rfl, List.filterMap_cons_some]
            · rfl
            · exact if_neg (by rw [kind]; exact Bool.false_ne_true)
          rw [all, processed, List.filterMap_append]
          show processed mem _ ++ processed mem _ = _
          rw [here, after]
          rfl
      · cases h

/-- Where the data among some leaves is. -/
def addresses (leaves : List (Bool × Leaf)) : List Nat :=
  leaves.filterMap fun leaf => leaf.2.shapesData?.map ShapesData.xtc

/-- Data of a dgram is in the order of its addresses. -/
lemma leavesAt_addresses (h : leavesAt mem bufEnd n reached xtc stop = some leaves) :
    xtc ≤ stop ∧ (∀ a ∈ addresses leaves, xtc ≤ a ∧ a < stop) ∧ (addresses leaves).Pairwise (· < ·) := by
  induction n generalizing reached xtc stop leaves with
  | zero => cases h
  | succ n ih =>
    rw [leavesAt] at h
    split at h
    · rename_i same
      cases h
      exact ⟨Nat.le_of_eq same, fun a none_ => absurd none_ List.not_mem_nil, .nil⟩
    · split at h
      · rename_i fits
        have long := fits.long
        have inParent := fits.inParent
        have sizes : sizeofXtc = 12 := rfl
        split at h
        · obtain ⟨inside, e, h⟩ := Option.bind_eq_some_iff.mp h
          obtain ⟨rest, e', h⟩ := Option.bind_eq_some_iff.mp h
          cases h
          obtain ⟨-, within, sorted⟩ := ih e
          obtain ⟨-, behind, sorted'⟩ := ih e'
          rw [addresses, List.filterMap_append]
          refine ⟨by omega, ?_, List.pairwise_append.mpr ⟨sorted, sorted', ?_⟩⟩
          · intro a ha
            cases List.mem_append.mp ha with
            | inl ha =>
              have := within a ha
              omega
            | inr ha =>
              have := behind a ha
              omega
          · intro a ha b hb
            exact Nat.lt_of_lt_of_le (within a ha).2 (behind b hb).1
        · obtain ⟨rest, e, h⟩ := Option.bind_eq_some_iff.mp h
          cases h
          obtain ⟨-, behind, sorted⟩ := ih e
          -- A leaf has an address if it is data.
          have here : addresses ((reached, leafAt mem xtc) :: rest) = addresses rest ∨
              addresses ((reached, leafAt mem xtc) :: rest) = xtc :: addresses rest := by
            rw [addresses, List.filterMap_cons, leafAt]
            split
            · exact .inl rfl
            · rename_i some_
              split at some_
              · cases some_
                exact .inr rfl
              · cases some_
              · cases some_
          refine ⟨by omega, ?_, ?_⟩
          · intro a ha
            cases here with
            | inl same =>
              have := behind a (same ▸ ha)
              omega
            | inr same =>
              rw [same] at ha
              cases List.mem_cons.mp ha with
              | inl ha => omega
              | inr ha =>
                have := behind a ha
                omega
          · cases here with
            | inl same =>
              rw [same]
              exact sorted
            | inr same =>
              rw [same]
              refine .cons ?_ sorted
              intro a ha
              have := behind a ha
              omega
      · cases h

end walk

/-- The iteration over a dgram returns and has processed what it comes to. -/
lemma DgramXtc.iterate_leaves (d : DgramXtc) :
    ∃ w, iterate d.mem d.bufEnd (fun _ => .next) (d.bufEnd + 1) d.xtc = some w ∧ w.ending = .returned ∧
      processed d.mem w.accesses = reachedOf d.leaves := by
  have held := d.held
  have long := d.long
  have lt := extent_lt d.mem d.xtc
  have sizes : sizeofXtc = 12 := rfl
  rw [isEntered] at held
  rw [iterate, iterateBy]
  cases damaged : corrupted d.mem d.xtc with
  | true =>
    rw [damaged] at held
    exact ⟨⟨[], .returned, 0⟩, if_pos rfl, rfl, (leavesAt_skipped held).symm⟩
  | false =>
    rw [if_neg Bool.false_ne_true]
    rw [damaged] at held
    cases Int.lt_or_le 0 (sizeofPayload (extent d.mem d.xtc)) with
    | inl some_ =>
      rw [decide_eq_true some_] at held
      have small : extent d.mem d.xtc < 2 ^ 31 + 12 := by
        by_contra large
        rw [sizeofPayload_of_ge lt (by omega)] at some_
        omega
      have payload := sizeofPayload_of_le small
      have step : InStep d.mem d.xtc (d.xtc + sizeofXtc) (sizeofPayload (extent d.mem d.xtc)) := by
        rw [payload]
        refine ⟨le_rfl, ?_, ?_, ?_⟩
        · omega
        · omega
        · omega
      obtain ⟨w, ends⟩ := @loop_ends d.mem d.bufEnd (fun _ => .next) (d.bufEnd + 1) d.xtc (d.xtc + sizeofXtc) 0
        (sizeofPayload (extent d.mem d.xtc)) (by omega) (by omega)
      exact ⟨w, ends, loop_leaves held step rfl ends⟩
    | inr none_ =>
      rw [decide_eq_false (Int.not_lt.mpr none_)] at held
      refine ⟨⟨[], .returned, 0⟩, ?_, rfl, (leavesAt_skipped held).symm⟩
      rw [loop, if_pos none_]

end Lcls2.Xtc
