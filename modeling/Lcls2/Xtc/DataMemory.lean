import Lcls2.Lib.Cells
import Lcls2.Xtc.FillOrder
import Lcls2.Xtc.Iterator

/-!
# Described data in memory

Model of `CreateData` and of the `DescData` that reads (`xtc/DescData.hh`) on the bytes of a memory, with `Xtc::alloc`
and the placement of headers (`xtc/Xtc.hh`), the `ShapesData` with its `shapes` and `data` (`xtc/ShapesData.hh`) and an
event, a parent `Xtc` into which one `ShapesData` after the other is written.

The end of the buffer is given. The bytes that a user of an array writes into it are given with the call; `set_string`
gets the characters of a C string.
-/

namespace Lcls2.Xtc
open Lib

/-- `TypeId::Type`. -/
inductive XtcType where
  | Parent | ShapesData | Shapes | Data | Names
  deriving DecidableEq

/-- The number of a type. -/
def XtcType.value : XtcType → Nat
  | .Parent => 0
  | .ShapesData => 1
  | .Shapes => 2
  | .Data => 3
  | .Names => 4

/-- `contains.id()`. -/
def typeId (mem : Bytes) (xtc : Nat) : Nat := contains mem xtc % 0x1000

/-- `src.value()`. -/
def srcValue (mem : Bytes) (xtc : Nat) : Nat := ofLe (slice mem xtc (xtc + 4)) % 2 ^ 28

/-- The header of a new `Xtc`, without damage and without payload. -/
def newHeader (src : Nat) (type : XtcType) : Bytes := toLe 4 src ++ (toLe 2 0 ++ toLe 2 type.value) ++ toLe 4 12

/-- `Xtc::alloc`. -/
def allocAt (bufEnd : Nat) (mem : Bytes) (xtc size : Nat) : Except DataFault (Nat × Bytes) :=
  if bufEnd < xtc + extent mem xtc + size then .error .abort
  else .ok (xtc + extent mem xtc, writeAt mem (xtc + 8) (toLe 4 (extent mem xtc + size)))

/-- `ShapesData::_first` and `ShapesData::_second`. -/
def firstOf (shapesdata : Nat) : Nat := shapesdata + sizeofXtc
def secondOf (mem : Bytes) (shapesdata : Nat) : Nat := firstOf shapesdata + extent mem (firstOf shapesdata)

/-- `ShapesData::_firstIsShapes`. -/
def firstIsShapes (mem : Bytes) (shapesdata : Nat) : Bool := typeId mem (firstOf shapesdata) = XtcType.Shapes.value

/-- `ShapesData::data`. -/
def dataOf (mem : Bytes) (shapesdata : Nat) : Except DataFault Nat :=
  let data := if firstIsShapes mem shapesdata then secondOf mem shapesdata else firstOf shapesdata
  if typeId mem data = XtcType.Data.value then .ok data else .error .abort

/-- `ShapesData::shapes`. -/
def shapesOf (mem : Bytes) (shapesdata : Nat) : Except DataFault Nat :=
  if firstIsShapes mem shapesdata then .ok (firstOf shapesdata)
  else if typeId mem (secondOf mem shapesdata) = XtcType.Shapes.value then .ok (secondOf mem shapesdata)
  else .error .abort

/-- Where `Shapes::get` finds a shape. -/
def shapeCell (shapes k : Nat) : Nat := shapes + sizeofXtc + sizeofShape * k

/-- A shape in memory. -/
def shapeAt (mem : Bytes) (cell : Nat) : Shape := fun i =>
  BitVec.ofNat 32 (ofLe (slice mem (cell + 4 * i) (cell + 4 * i + 4)))

/-- The first dimensions of a shape are written. -/
def writeShape (mem : Bytes) (cell : Nat) (shape : Shape) : Nat → Bytes
  | 0 => mem
  | rank + 1 => writeAt (writeShape mem cell shape rank) (cell + 4 * rank) (toLe 4 (shape rank).toNat)

/-- A value of a type, by its bytes. -/
structure Value (T : ValueType) where
  bytes : Bytes
  size : bytes.length = T.size

/-- A `CreateData` in memory. -/
structure DataWriter where
  names : NameIndex
  bufEnd : Nat
  parent : Nat
  shapesdata : Nat
  mem : Bytes
  offset : List (BitVec 32)
  numentries : Nat
  numarrays : Nat

/-- The calls that fill in the entries, with what is written into an array: `allocate` returns where it is, and so does
    `get_ptr` before `set_array_shape`. -/
inductive DataCall where
  | setValue (T : ValueType) (index : Nat) (value : Value T)
  | allocate (T : ValueType) (index : Nat) (shape : Shape) (elements : Bytes)
  | setArrayShape (index : Nat) (shape : Shape) (elements : Bytes)
  | setString (index : Nat) (chars : Bytes)

namespace DataWriter

/-- `CreateData::CreateData`, with the source of a `NamesId`. -/
def new (names : NameIndex) (namesId : Nat) (bufEnd parent : Nat) (mem : Bytes) : Except DataFault DataWriter := do
  let (shapesdata, mem) ← allocAt bufEnd mem parent 12
  let mem := writeAt mem shapesdata (newHeader namesId .ShapesData)
  let (shapes, mem) ← allocAt bufEnd mem shapesdata 12
  let mem := writeAt mem shapes (newHeader 0 .Shapes)
  let (_, mem) ← allocAt bufEnd mem shapes 0
  let (_, mem) ← allocAt bufEnd mem parent 12
  let size := numArrays names.names * sizeofShape % 2 ^ 32
  let (_, mem) ← allocAt bufEnd mem parent size
  let (_, mem) ← allocAt bufEnd mem shapesdata size
  let (_, mem) ← allocAt bufEnd mem shapes size
  let (data, mem) ← allocAt bufEnd mem shapesdata 12
  let mem := writeAt mem data (newHeader 0 .Data)
  let (_, mem) ← allocAt bufEnd mem parent 12
  pure ⟨names, bufEnd, parent, shapesdata, mem, [0#32], 0, 0⟩

/-- `AutoParentAlloc::alloc` of the data, in the parent, the `ShapesData` and the `Data`. -/
def allocData (size : BitVec 32) (w : DataWriter) : Except DataFault DataWriter := do
  let data ← dataOf w.mem w.shapesdata
  let (_, mem) ← allocAt w.bufEnd w.mem w.parent size.toNat
  let (_, mem) ← allocAt w.bufEnd mem w.shapesdata size.toNat
  let (_, mem) ← allocAt w.bufEnd mem data size.toNat
  pure { w with mem }

/-- An entry of some size is next. -/
def push (size : BitVec 32) (w : DataWriter) : DataWriter :=
  { w with
    numentries := w.numentries + 1
    offset := w.offset ++ [(w.offset[w.numentries]?.getD 0#32) + size] }

/-- `CreateData::set_array_shape`. -/
def setArrayShape (index : Nat) (shape : Shape) (w : DataWriter) : Except DataFault DataWriter :=
  match w.names.names[index]? with
  | none => .error .noName
  | some name =>
    if name.rank = 0 then .error .abort
    else do
      let shapes ← shapesOf w.mem w.shapesdata
      let mem := writeShape w.mem (shapeCell shapes w.numarrays) shape name.rank
      let shapes ← shapesOf mem w.shapesdata
      let size := (shapeAt mem (shapeCell shapes w.numarrays)).size name
      { w with mem, numarrays := w.numarrays + 1 }.push size |>.allocData size

/-- Where the data go on: `get_ptr`. -/
def getPtr (w : DataWriter) : Except DataFault Nat := do
  let data ← dataOf w.mem w.shapesdata
  pure (data + extent w.mem data)

/-- `CreateData::allocate`. -/
def allocate (T : ValueType) (index : Nat) (shape : Shape) (w : DataWriter) : Except DataFault (Nat × DataWriter) :=
  match w.names.names[index]? with
  | none => .error .noName
  | some name =>
    if checkType T name.type then do
      let ptr ← w.getPtr
      let w ← w.setArrayShape index shape
      pure (ptr, w)
    else .error .abort

/-- `CreateData::set_value`. -/
def setValue {T : ValueType} (index : Nat) (value : Value T) (w : DataWriter) : Except DataFault DataWriter := do
  let data ← dataOf w.mem w.shapesdata
  if index ≠ w.numentries then .error .outOfOrder
  else
    match w.names.names[index]? with
    | none => .error .noName
    | some name =>
      if checkType T name.type then
        let mem := writeAt w.mem (data + sizeofXtc + (w.offset.getD index 0).toNat) value.bytes
        let w ← { w with mem }.allocData (BitVec.ofNat 32 T.size)
        pure (w.push (BitVec.ofNat 32 name.type.elementSize))
      else .error .abort

/-- Something is written to memory. -/
def store (address : Nat) (bytes : Bytes) (w : DataWriter) : DataWriter := { w with mem := writeAt w.mem address bytes }

/-- The bytes that `set_string` allocates for a string of some length, a multiple of four. -/
def stringBytes (length : Nat) : Nat := length / 4 * 4 + 4

/-- `CreateData::set_string`. Of the shape, it sets the first dimension. -/
def setString (index : Nat) (chars : Bytes) (w : DataWriter) : Except DataFault DataWriter := do
  let next ← w.getPtr
  let maxStrLen := w.bufEnd - next
  let bytes := min (stringBytes chars.length) maxStrLen
  let (ptr, w) ← w.allocate .char index fun _ => BitVec.ofNat 32 bytes
  pure (w.store ptr (chars.take (maxStrLen - 1) ++ [0]))

/-- One call. -/
def step (w : DataWriter) : DataCall → Except DataFault DataWriter
  | .setValue _ index value => w.setValue index value
  | .allocate T index shape elements => do
    let (ptr, w) ← w.allocate T index shape
    pure (w.store ptr elements)
  | .setArrayShape index shape elements => do
    let ptr ← w.getPtr
    (w.store ptr elements).setArrayShape index shape
  | .setString index chars => w.setString index chars

end DataWriter

/-- Some shapes of a `ShapesData` in memory. Without any, `shapes` is not called. -/
def shapesIn (mem : Bytes) (shapesdata n : Nat) : Except DataFault (List Shape) :=
  if n = 0 then .ok []
  else do
    let shapes ← shapesOf mem shapesdata
    pure ((List.range n).map fun k => shapeAt mem (shapeCell shapes k))

/-- `DescData(shapesdata, nameindex)`, which does not look at the last name. -/
def descData (mem : Bytes) (x : NameIndex) (shapesdata : Nat) : Except DataFault DescData := do
  let shapes ← shapesIn mem shapesdata (numArrays x.names.dropLast)
  DescData.read x.names shapes

/-- `get_value`, by the bytes of the value. -/
def getValue (mem : Bytes) (x : NameIndex) (shapesdata : Nat) (T : ValueType) (index : Nat) :
    Except DataFault Bytes := do
  let d ← descData mem x shapesdata
  if x.fields.length < index then .error .abort
  else
    let data ← dataOf mem shapesdata
    match x.names[index]? with
    | none => .error .noName
    | some name =>
      if checkType T name.type then
        let ptr := data + sizeofXtc + (d.offset.getD index 0).toNat
        .ok (slice mem ptr (ptr + T.size))
      else .error .abort

/-- `get_array`, by its shape and its bytes; `shape` finds the shape by the name. -/
def getArray (mem : Bytes) (x : NameIndex) (shapesdata : Nat) (index : Nat) : Except DataFault (Shape × Bytes) := do
  let d ← descData mem x shapesdata
  match x.fields[index]? with
  | none => .error .noName
  | some field =>
    let shapes ← shapesOf mem shapesdata
    let shape := shapeAt mem (shapeCell shapes ((x.shapeMap.lookup field.called).getD 0))
    let data ← dataOf mem shapesdata
    let ptr := data + sizeofXtc + (d.offset.getD index 0).toNat
    .ok (shape, slice mem ptr (ptr + shape.bytes field.entry))

/-- What is written of one detector: its names, the number of their `NamesId`, and the calls. -/
structure Detector where
  names : NameIndex
  namesId : Nat
  calls : List DataCall

/-- A detector's `CreateData` is made and filled in. -/
def Detector.write (bufEnd parent : Nat) (mem : Bytes) (d : Detector) : Except DataFault DataWriter := do
  let w ← DataWriter.new d.names d.namesId bufEnd parent mem
  d.calls.foldlM DataWriter.step w

/-- An event is written, one detector after the other. -/
def writeEvent (bufEnd parent : Nat) (mem : Bytes) (ds : List Detector) : Except DataFault Bytes :=
  ds.foldlM (fun mem d => (d.write bufEnd parent mem).map (·.mem)) mem

end Lcls2.Xtc
