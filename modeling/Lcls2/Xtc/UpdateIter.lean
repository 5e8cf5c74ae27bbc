import Lcls2.Lib.Run
import Lcls2.Xtc.Contents

/-!
# Editing dgrams

Model of `XtcUpdateIter` (`xtc/src/XtcUpdateIter.cc`) and of `DgramEdit` (`psana/dgramedit.pyx`), which
drives it: a `Configure` is iterated for its names, detectors are added to it, and events are saved
without the data that `removedata` has named.

* The iteration is that of `XtcIterator`; what `process` does with the `Xtc`s it comes to is done in their order.
* `_namesLookup` and `_flagFilter` are maps; a loop over `_flagFilter` that looks for one key is a
  lookup.
* `_tmpbuf` and `_cfgbuf` hold what was copied into them, in order.
-/

namespace Lcls2.Xtc
open Lib

/-- The `throw`s of the iterator, its `abort`, and the end of the fuel. -/
inductive EditFault where
  | invalidNamesId | unavailableNamesId | aborted | fuel
  deriving DecidableEq, Repr

/-- The underscore. -/
def underscore : UInt8 := 95

/-- The key of a detector and an algorithm. -/
def filterKey (detName algName : CString) : Bytes := detName.1 ++ underscore :: algName.1

/-- `XtcUpdateIter`. -/
structure XtcUpdateIter where
  _namesLookup : NamesId → Option Names
  _flagFilter : Bytes → Option Bool
  _tmpbuf : List ShapesData
  _cfgbuf : List Leaf
  _removed_size : BitVec 32
  _cfgFlag : Bool
  _cfgWriteFlag : Bool
  _nodeId : BitVec 12
  _maxOfMinNamesId : BitVec 32
  _minOfMaxNamesId : BitVec 32

namespace XtcUpdateIter

/-- `XtcUpdateIter::XtcUpdateIter`. -/
def init : XtcUpdateIter where
  _namesLookup := fun _ => none
  _flagFilter := fun _ => none
  _tmpbuf := []
  _cfgbuf := []
  _removed_size := 0
  _cfgFlag := false
  _cfgWriteFlag := false
  _nodeId := 0
  _maxOfMinNamesId := 0
  _minOfMaxNamesId := 255

/-- The names id pulls the end of the closest range, and the lower one where both are as close. -/
def pullRange (namesId : BitVec 8) (u : XtcUpdateIter) : XtcUpdateIter :=
  let n := namesId.setWidth 32
  let distanceToMin := (n - u._maxOfMinNamesId).toInt
  let distanceToMax := (n - u._minOfMaxNamesId).toInt
  if distanceToMin.natAbs ≤ distanceToMax.natAbs then
    if u._maxOfMinNamesId < n then { u with _maxOfMinNamesId := n } else u
  else
    if n < u._minOfMaxNamesId then { u with _minOfMaxNamesId := n } else u

/-- `_flagFilter.insert`, which leaves an entry alone that is there. -/
def insertFlag (key : Bytes) (u : XtcUpdateIter) : XtcUpdateIter :=
  { u with _flagFilter := Function.update u._flagFilter key (some ((u._flagFilter key).getD false)) }

/-- `process` of `Names`. -/
def processNames (names : Names) (u : XtcUpdateIter) : XtcUpdateIter :=
  let u := { u with _namesLookup := Function.update u._namesLookup names.id (some names) }
  let u := if u._cfgWriteFlag then { u with _cfgbuf := u._cfgbuf ++ [.names names] } else u
  let u := u.insertFlag (filterKey names.detName names.alg)
  { u with _nodeId := names.id.nodeId }.pullRange names.id.namesId

/-- `process` of `ShapesData`. -/
def processShapesData (sd : ShapesData) (u : XtcUpdateIter) : Except EditFault XtcUpdateIter :=
  match u._namesLookup sd.id with
  | none => .error .invalidNamesId
  | some names =>
    if u._cfgFlag then
      .ok (if u._cfgWriteFlag then { u with _cfgbuf := u._cfgbuf ++ [.shapesData sd] } else u)
    else if u._flagFilter (filterKey names.detName names.alg) = some true then
      .ok { u with _removed_size := u._removed_size + BitVec.ofNat 32 (12 + sd.payload.length) }
    else .ok { u with _tmpbuf := u._tmpbuf ++ [sd] }

/-- `process` of anything but a `Parent`. -/
def processLeaf (u : XtcUpdateIter) : Leaf → Except EditFault XtcUpdateIter
  | .names names => .ok (u.processNames names)
  | .shapesData sd => u.processShapesData sd
  | .other => .ok u

/-- `iterate`: `process` always answers `Continue`, and where it throws the iteration ends. -/
def iterate (u : XtcUpdateIter) (d : DgramXtc) : Except EditFault XtcUpdateIter :=
  match Xtc.iterate d.mem d.bufEnd (fun _ => .next) (d.bufEnd + 1) d.xtc with
  | none => .error .fuel
  | some w => do
    let u ← (processed d.mem w.accesses).foldlM processLeaf u
    if w.ending = .aborted then .error .aborted else .ok u

/-- `getNextNamesId`, with what it leaves behind even where it throws. -/
def getNextNamesId (u : XtcUpdateIter) : Except EditFault (BitVec 32) × XtcUpdateIter :=
  let nextNamesId := u._maxOfMinNamesId + 1
  let u' := { u with _maxOfMinNamesId := nextNamesId }
  if nextNamesId = u._minOfMaxNamesId then (.error .unavailableNamesId, u')
  else (.ok nextNamesId, u')

/-- `addNames`, of what it adds to the iterator. -/
def addNames (names : Names) (u : XtcUpdateIter) : XtcUpdateIter :=
  { u with _namesLookup := Function.update u._namesLookup names.id (some names) }

/-- `setFilter`. -/
def setFilter (detName algName : CString) (u : XtcUpdateIter) : XtcUpdateIter :=
  match u._flagFilter (filterKey detName algName) with
  | none => u
  | some _ =>
    { u with _flagFilter := Function.update u._flagFilter (filterKey detName algName) (some true) }

/-- `clearFilter` and `resetRemovedSize`. -/
def clearFilter (u : XtcUpdateIter) : XtcUpdateIter :=
  { u with
    _flagFilter := fun key => (u._flagFilter key).map fun _ => false
    _removed_size := 0 }

/-- Iterating over a dgram is processing what the iteration comes to. -/
lemma iterate_eq_leaves (u : XtcUpdateIter) (d : DgramXtc) :
    u.iterate d = (reachedOf d.leaves).foldlM processLeaf u := by
  obtain ⟨w, walk, ending, leaves⟩ := d.iterate_leaves
  rw [iterate, walk]
  simp only [leaves, ending]
  cases (reachedOf d.leaves).foldlM processLeaf u with
  | error fault => rfl
  | ok u' => rfl

end XtcUpdateIter

end Lcls2.Xtc
