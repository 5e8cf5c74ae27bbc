import Lcls2.Lib.Dict
import Lcls2.Xtc.ReadData

/-!
# The order of filling in

The data of a `CreateData` are to be filled in in the order of the names, as a reader computes from the names where they
are. `set_value` checks the order, but `set_array_shape` compares a number with itself; and `set_value` does not look at
the rank. `order_kept` is about the runs that do neither, and whose sizes are in the range of their type as far as they
are filled in.
-/

namespace Lcls2.Xtc
open Lib CreateData

/-- A `Name` with what it is called. -/
structure Field where
  called : String
  entry : Name

/-- `NameIndex`. -/
structure NameIndex where
  fields : List Field
  fits : fields.length * sizeofName < 2 ^ 32

namespace NameIndex

def names (x : NameIndex) : List Name := x.fields.map Field.entry

/-- What the arrays are called. -/
def arrayNames (x : NameIndex) : List String := (x.fields.filter fun f => 0 < f.entry.rank).map Field.called

/-- `_shapeMap`; a name that comes again replaces the array before it. -/
def shapeMap (x : NameIndex) : Dict String Nat := Dict.update [] x.arrayNames.zipIdx

end NameIndex

/-- Bytes of the data. -/
structure DataRange where
  start : Nat
  bytes : Nat
  deriving DecidableEq

/-- Two ranges have no byte in common. -/
def DataRange.Apart (a b : DataRange) : Prop := a.start + a.bytes ≤ b.start ∨ b.start + b.bytes ≤ a.start

/-- What `get_value` or `get_array` reads: an array has the shape that `shapeMap` has for what it is called. -/
def DescData.range (d : DescData) (x : NameIndex) (shapes : List Shape) (index : Nat) : DataRange where
  start := (d.offset.getD index 0).toNat
  bytes :=
    match x.fields[index]? with
    | none => 0
    | some f =>
      if f.entry.rank = 0 then f.entry.type.elementSize
      else match shapes[(x.shapeMap.lookup f.called).getD 0]? with
        | none => 0
        | some shape => shape.bytes f.entry

namespace CreateData

/-- The entry that a call is about, and the bytes that are written for it: `set_value` writes where the entry is, an
    array is at the end of the data. -/
def target (s : CreateData) : Call → Nat × DataRange
  | .setValue T index => (index, ⟨(s.offset.getD index 0).toNat, T.size⟩)
  | .allocate _ index shape | .setArrayShape index shape =>
    (index, ⟨s.data.extent.toNat - 12, ((s.names[index]?.map shape.size).getD 0).toNat⟩)

/-- The shapes with that of a call. -/
def shapesWith (s : CreateData) : Call → List Shape
  | .setValue _ _ => s.shapes
  | .allocate _ _ shape | .setArrayShape _ shape => s.shapes.set s.numarrays shape

/-- A call that fills in an array is about the next entry; `set_value` checks that itself. -/
def ArrayInOrder (s : CreateData) : Call → Prop
  | .setValue _ _ => True
  | .allocate _ index _ | .setArrayShape index _ => index = s.numentries

end CreateData

/-- A `CreateData` that is filled in, with what has been written. -/
structure Filling where
  data : CreateData
  written : List (Nat × DataRange)

namespace Filling

/-- One call. -/
def step (f : Filling) (call : CreateData.Call) : Except DataFault Filling :=
  (f.data.step call).map fun data => ⟨data, f.written ++ [f.data.target call]⟩

/-- Nothing is written yet. What is in the memory of the shapes is left over. -/
def start (s : CreateData) (leftover : List Shape) : Filling := ⟨{ s with shapes := leftover }, []⟩

/-- An array is filled in as the next entry, and by no `set_value`; and the sizes of the entries that are then filled in
    are in the range of their type. -/
structure InRange (x : NameIndex) (_ : List CreateData.Call) (f : Filling) (call : CreateData.Call) : Prop where
  inOrder : f.data.ArrayInOrder call
  scalar : ∀ T index, call = .setValue T index → ∀ name ∈ f.data.names[index]?, name.rank = 0
  sizes : 12 + fieldStart x.names (f.data.shapesWith call) (f.data.numentries + 1) < 2 ^ 32

/-- The entries were written in their order, and a reader gets for each of them what was written, and for no other
    entry any byte of it. Where an entry is that is not written yet depends on the shapes that are left over. -/
structure Kept (x : NameIndex) (f : Filling) : Prop where
  order : f.written.map Prod.fst = List.range f.written.length
  own : ∀ d, DescData.read x.names f.data.shapes = .ok d → ∀ w ∈ f.written,
    d.range x f.data.shapes w.1 = w.2
  others : ∀ d, DescData.read x.names f.data.shapes = .ok d → ∀ w ∈ f.written, ∀ index < x.fields.length,
    index ≠ w.1 → index < f.written.length ∨ 12 + fieldStart x.names f.data.shapes (index + 1) < 2 ^ 32 →
      (d.range x f.data.shapes index).Apart w.2

end Filling

/-! ## Sizes -/

/-- A value is as large as an element of its type. -/
lemma checkType_size {T : ValueType} {type : DataType} (h : checkType T type = true) : T.size = type.elementSize := by
  cases T <;> cases type <;> first | rfl | cases h

lemma bytes_congr {shape shape' : Shape} {name : Name} (same : ∀ i < name.rank, shape i = shape' i) :
    shape.bytes name = shape'.bytes name := by
  rw [Shape.bytes, Shape.bytes, Shape.elements, Shape.elements]
  congr 2
  apply List.map_congr_left
  intro i hi
  rw [same i (List.mem_range.mp hi)]

lemma fieldStart_congr {names : List Name} {shapes shapes' : List Shape} {n : Nat}
    (same : ∀ i < n, fieldBytes names shapes i = fieldBytes names shapes' i) :
    fieldStart names shapes n = fieldStart names shapes' n := by
  rw [fieldStart, fieldStart]
  congr 1
  apply List.map_congr_left
  intro i hi
  exact same i (List.mem_range.mp hi)

/-- Arrays have shapes of their own. -/
lemma numArrays_ne {names : List Name} {i j : Nat} {a b : Name} (ha : names[i]? = some a) (hb : names[j]? = some b)
    (ra : a.rank ≠ 0) (rb : b.rank ≠ 0) (ne : i ≠ j) : numArrays (names.take i) ≠ numArrays (names.take j) := by
  have nextA := CreateData.numArrays_take_succ ha
  have nextB := CreateData.numArrays_take_succ hb
  rw [if_pos (Nat.pos_of_ne_zero ra)] at nextA
  rw [if_pos (Nat.pos_of_ne_zero rb)] at nextB
  obtain lt | lt := Nat.lt_or_gt_of_ne ne
  · have := @numArrays_mono names (i + 1) j lt
    omega
  · have := @numArrays_mono names (j + 1) i lt
    omega

/-- Setting the shape of an array changes the size of nothing else. -/
lemma fieldBytes_set {names : List Name} {shapes : List Shape} {n : Nat} {name : Name} (found : names[n]? = some name)
    (array : name.rank ≠ 0) (slot : numArrays (names.take n) < shapes.length) (shape : Shape) (i : Nat) :
    fieldBytes names (shapes.set (numArrays (names.take n)) shape) i =
      if i = n then shape.bytes name else fieldBytes names shapes i := by
  by_cases here : i = n
  · subst here
    rw [if_pos rfl]
    simp only [fieldBytes, found, if_neg array, List.getElem?_set_self slot]
  · rw [if_neg here, fieldBytes, fieldBytes]
    cases other : names[i]? with
    | none => rfl
    | some a =>
      simp only
      split
      · rfl
      · rename_i array'
        rw [List.getElem?_set_ne (numArrays_ne found other array array' (Ne.symm here))]

/-! ## Runs -/

namespace CreateData

/-- What an allocation adds to the data. -/
lemma allocData_extent {s s' : CreateData} {size : BitVec 32} (h : s.allocData size = .ok s') :
    ∃ parent shapesdata,
      s' = { s with parent, shapesdata, data := { s.data with extent := s.data.extent + size } } := by
  have alloc : ∀ (x : XtcRef) (r : Nat × XtcRef), x.alloc size.toNat s.bufEnd = .ok r →
      r.2 = { x with extent := x.extent + size } := by
    intro x r h
    unfold XtcRef.alloc at h
    split at h
    · cases h
    · cases h
      rw [BitVec.ofNat_toNat, BitVec.setWidth_eq]
  obtain ⟨parent, -, h⟩ := bind_ok h
  obtain ⟨shapesdata, -, h⟩ := bind_ok h
  obtain ⟨data, third, h⟩ := bind_ok h
  cases h
  refine ⟨parent.2, shapesdata.2, ?_⟩
  rw [← alloc _ _ third]

end CreateData

namespace Filling

/-- The first entries are filled in, one after the other. -/
structure Inv (x : NameIndex) (f : Filling) : Prop where
  same : f.data.names = x.names
  slots : f.data.shapes.length = numArrays x.names
  arrays : f.data.numarrays = numArrays (x.names.take f.data.numentries)
  offset : f.data.offset = (List.range (f.data.numentries + 1)).map fun j =>
    BitVec.ofNat 32 (fieldStart x.names f.data.shapes j)
  extent : f.data.data.extent = BitVec.ofNat 32 (12 + fieldStart x.names f.data.shapes f.data.numentries)
  written : f.written = (List.range f.data.numentries).map fun i =>
    (i, ⟨fieldStart x.names f.data.shapes i, fieldBytes x.names f.data.shapes i⟩)
  le : f.data.numentries ≤ x.fields.length
  small : 12 + fieldStart x.names f.data.shapes f.data.numentries < 2 ^ 32

variable {x : NameIndex} {f f' : Filling}

lemma Inv.getD (inv : Inv x f) : f.data.offset.getD f.data.numentries 0 =
    BitVec.ofNat 32 (fieldStart x.names f.data.shapes f.data.numentries) := by
  rw [inv.offset, List.range_succ, List.map_append, List.map_singleton]
  simp

/-- One more entry is filled in. -/
lemma Inv.advance (inv : Inv x f) {data : CreateData} {w : Nat × DataRange} (same : data.names = x.names)
    (slots : data.shapes.length = f.data.shapes.length) (entries : data.numentries = f.data.numentries + 1)
    (arrays : data.numarrays = numArrays (x.names.take (f.data.numentries + 1)))
    (before : ∀ i < f.data.numentries, fieldBytes x.names data.shapes i = fieldBytes x.names f.data.shapes i)
    (offset : data.offset = f.data.offset ++ [f.data.offset.getD f.data.numentries 0 +
      BitVec.ofNat 32 (fieldBytes x.names data.shapes f.data.numentries)])
    (extent : data.data.extent = f.data.data.extent +
      BitVec.ofNat 32 (fieldBytes x.names data.shapes f.data.numentries))
    (here : w = (f.data.numentries, ⟨fieldStart x.names f.data.shapes f.data.numentries,
      fieldBytes x.names data.shapes f.data.numentries⟩))
    (lt : f.data.numentries < x.fields.length)
    (small : 12 + fieldStart x.names data.shapes (f.data.numentries + 1) < 2 ^ 32) :
    Inv x ⟨data, f.written ++ [w]⟩ := by
  have starts : ∀ j ≤ f.data.numentries, fieldStart x.names data.shapes j = fieldStart x.names f.data.shapes j :=
    fun j hj => fieldStart_congr fun i hi => before i (by omega)
  have next := fieldStart_succ x.names data.shapes f.data.numentries
  rw [starts _ (Nat.le_refl _)] at next
  refine ⟨same, slots.trans inv.slots, by rw [entries, arrays], ?_, ?_, ?_, by rw [entries]; exact lt,
    by rwa [entries]⟩
  · rw [offset, inv.getD, inv.offset, entries, @List.range_succ (f.data.numentries + 1), List.map_append,
      List.map_singleton, ← BitVec.ofNat_add, next]
    congr 1
    apply List.map_congr_left
    intro j hj
    rw [starts j (Nat.le_of_lt_succ (List.mem_range.mp hj))]
  · rw [extent, inv.extent, entries, ← BitVec.ofNat_add, next, Nat.add_assoc]
  · show f.written ++ [w] = List.map (fun i => (i, (⟨fieldStart x.names data.shapes i, _⟩ : DataRange))) _
    rw [inv.written, entries, List.range_succ, List.map_append, List.map_singleton, here, starts _ (Nat.le_refl _)]
    congr 1
    apply List.map_congr_left
    intro j hj
    have hj := List.mem_range.mp hj
    rw [starts j (Nat.le_of_lt hj), before j hj]

/-- What is filled in is within the range of its type. -/
lemma mod_start {shapes : List Shape} {n m : Nat} (hn : n ≤ m) (small : 12 + fieldStart x.names shapes m < 2 ^ 32) :
    (BitVec.ofNat 32 (fieldStart x.names shapes n)).toNat = fieldStart x.names shapes n ∧
      (BitVec.ofNat 32 (12 + fieldStart x.names shapes n)).toNat = 12 + fieldStart x.names shapes n := by
  have le := @fieldStart_mono x.names shapes _ _ hn
  exact ⟨Nat.mod_eq_of_lt (by omega), Nat.mod_eq_of_lt (by omega)⟩

lemma lt_of_found {name : Name} (found : x.names[f.data.numentries]? = some name) :
    f.data.numentries < x.fields.length := by
  have := (List.getElem?_eq_some_iff.mp found).1
  rwa [NameIndex.names, List.length_map] at this

/-- A scalar is filled in. -/
lemma Inv.setValue (inv : Inv x f) {calls : List CreateData.Call} {T : ValueType} {index : Nat} {data : CreateData}
    (ok : InRange x calls f (.setValue T index)) (called : f.data.setValue T index = .ok data) :
    Inv x ⟨data, f.written ++ [f.data.target (.setValue T index)]⟩ := by
  have small := ok.sizes
  simp only [CreateData.shapesWith] at small
  simp only [CreateData.setValue] at called
  split at called
  · cases called
  rename_i index_eq
  rw [not_not] at index_eq
  subst index_eq
  cases found : f.data.names[f.data.numentries]? with
  | none =>
    rw [found] at called
    cases called
  | some name =>
    have scalar := ok.scalar T _ rfl name found
    simp only [found] at called
    rw [inv.same] at found
    split at called
    swap
    · cases called
    rename_i type
    have bytes : fieldBytes x.names f.data.shapes f.data.numentries = name.type.elementSize := by
      simp only [fieldBytes, found, if_pos scalar]
    -- A scalar is no array, so that the shapes stay as they are.
    have arrays := CreateData.numArrays_take_succ found
    rw [if_neg (Nat.not_lt.mpr scalar.le), Nat.add_zero] at arrays
    cases alloc : f.data.allocData (BitVec.ofNat 32 T.size) with
    | error fault =>
      rw [alloc] at called
      cases called
    | ok t =>
      rw [alloc] at called
      cases called
      obtain ⟨parent, shapesdata, rfl⟩ := CreateData.allocData_extent alloc
      have lt := lt_of_found found
      apply inv.advance
      · exact inv.same
      · rfl
      · rfl
      · exact inv.arrays.trans arrays.symm
      · exact fun _ _ => rfl
      · simp only [CreateData.push, bytes, List.getD_eq_getElem?_getD]
        rfl
      · simp only [CreateData.push, bytes, checkType_size type]
      · simp only [CreateData.target, CreateData.push, inv.getD, (mod_start (Nat.le_succ _) small).1, bytes,
          checkType_size type]
      · exact lt
      · exact small

/-- An array is filled in. -/
lemma Inv.setArrayShape (inv : Inv x f) {shape : Shape} {data : CreateData}
    (small : 12 + fieldStart x.names (f.data.shapes.set f.data.numarrays shape) (f.data.numentries + 1) < 2 ^ 32)
    (called : f.data.setArrayShape f.data.numentries shape = .ok data) :
    Inv x ⟨data, f.written ++ [f.data.target (.setArrayShape f.data.numentries shape)]⟩ := by
  unfold CreateData.setArrayShape at called
  cases found : f.data.names[f.data.numentries]? with
  | none =>
    rw [found] at called
    cases called
  | some name =>
    simp only [found] at called
    split at called
    · cases called
    rename_i array
    cases slot : f.data.shapes[f.data.numarrays]? with
    | none =>
      rw [slot] at called
      cases called
    | some sh =>
      simp only [slot] at called
      obtain ⟨parent, shapesdata, rfl⟩ := CreateData.allocData_extent called
      have slot := (List.getElem?_eq_some_iff.mp slot).1
      have found' := found
      rw [inv.same] at found'
      have arrays := CreateData.numArrays_take_succ found'
      rw [if_pos (Nat.pos_of_ne_zero array)] at arrays
      have lt := lt_of_found found'
      rw [inv.arrays] at slot
      -- only the dimensions up to the rank are written, and only they count
      have table : ∀ (sh' : Shape), (∀ i < name.rank, sh' i = shape i) → ∀ i,
          fieldBytes x.names (f.data.shapes.set f.data.numarrays sh') i =
            if i = f.data.numentries then shape.bytes name else fieldBytes x.names f.data.shapes i := by
        intro sh' same i
        rw [inv.arrays, fieldBytes_set found' array slot, bytes_congr same]
      have same : ∀ i < name.rank, (fun i => if i < name.rank then shape i else sh i) i = shape i :=
        fun i lt => if_pos lt
      have written := table _ same
      have given := table shape fun _ _ => rfl
      have here := (written f.data.numentries).trans (if_pos rfl)
      have total : fieldStart x.names (f.data.shapes.set f.data.numarrays
          fun i => if i < name.rank then shape i else sh i) (f.data.numentries + 1) =
          fieldStart x.names (f.data.shapes.set f.data.numarrays shape) (f.data.numentries + 1) :=
        fieldStart_congr fun i _ => (written i).trans (given i).symm
      have before : fieldStart x.names (f.data.shapes.set f.data.numarrays shape) f.data.numentries =
          fieldStart x.names f.data.shapes f.data.numentries :=
        fieldStart_congr fun i hi => (given i).trans (if_neg (Nat.ne_of_lt hi))
      have sum := fieldStart_succ x.names (f.data.shapes.set f.data.numarrays shape) f.data.numentries
      rw [before, given, if_pos rfl] at sum
      apply inv.advance
      · exact inv.same
      · exact List.length_set
      · rfl
      · exact (congrArg (· + 1) inv.arrays).trans arrays.symm
      · exact fun i hi => (written i).trans (if_neg (Nat.ne_of_lt hi))
      · simp only [CreateData.push, here, List.getD_eq_getElem?_getD, DescData.size_eq, bytes_congr same]
        rfl
      · simp only [CreateData.push, here, DescData.size_eq, bytes_congr same]
      · simp only [CreateData.push, here, CreateData.target, found, Option.map_some, Option.getD_some, size_toNat,
          inv.extent, BitVec.toNat_ofNat]
        rw [Nat.mod_eq_of_lt (by omega), Nat.mod_eq_of_lt (by omega), Nat.add_sub_cancel_left]
      · exact lt
      · exact total ▸ small

/-- Every call in range keeps the invariant. -/
lemma Inv.step (inv : Inv x f) {calls : List CreateData.Call} {call : CreateData.Call} (ok : InRange x calls f call)
    (h : f.step call = .ok f') : Inv x f' := by
  cases called : f.data.step call with
  | error fault =>
    rw [Filling.step, called] at h
    cases h
  | ok data =>
    rw [Filling.step, called] at h
    cases h
    cases call with
    | setValue T index => exact inv.setValue ok called
    | setArrayShape index shape =>
      have index_eq : index = f.data.numentries := ok.inOrder
      subst index_eq
      exact inv.setArrayShape ok.sizes called
    | allocate T index shape =>
      have index_eq : index = f.data.numentries := ok.inOrder
      subst index_eq
      simp only [CreateData.step, CreateData.allocate] at called
      split at called
      · cases called
      · split at called
        · cases set : f.data.setArrayShape f.data.numentries shape with
          | error fault =>
            rw [set] at called
            cases called
          | ok data' =>
            rw [set] at called
            cases called
            exact inv.setArrayShape ok.sizes set
        · cases called

/-- Nothing is filled in at first. -/
lemma Inv.start {parent : XtcRef} {bufEnd : Option Nat} {s : CreateData} {leftover : List Shape}
    (made : CreateData.new x.names parent bufEnd = .ok s) (slots : leftover.length = numArrays x.names) :
    Inv x (start s leftover) := by
  obtain ⟨_, -, made⟩ := bind_ok made
  obtain ⟨_, -, made⟩ := bind_ok made
  obtain ⟨_, -, made⟩ := bind_ok made
  obtain ⟨_, -, made⟩ := bind_ok made
  obtain ⟨_, -, made⟩ := bind_ok made
  obtain ⟨_, -, made⟩ := bind_ok made
  obtain ⟨_, -, made⟩ := bind_ok made
  obtain ⟨_, -, made⟩ := bind_ok made
  obtain ⟨_, -, made⟩ := bind_ok made
  cases made
  exact ⟨rfl, slots, rfl, rfl, rfl, rfl, Nat.zero_le _, (show 12 + 0 < 2 ^ 32 by decide)⟩

end Filling

/-! ## The reader -/

namespace NameIndex

variable {x : NameIndex}

/-- The arrays among the first fields. -/
lemma arrayNames_get {fields : List Field} {i : Nat} {f : Field} (found : fields[i]? = some f)
    (array : f.entry.rank ≠ 0) :
    ((fields.filter fun f => 0 < f.entry.rank).map Field.called)[numArrays ((fields.map Field.entry).take i)]? =
      some f.called := by
  induction fields generalizing i with
  | nil => cases found
  | cons g fields ih =>
    cases i with
    | zero =>
      cases found
      rw [List.filter_cons_of_pos (by simpa using Nat.pos_of_ne_zero array)]
      rfl
    | succ i =>
      have rest := ih found
      rw [List.map_cons, List.take_succ_cons, numArrays, List.countP_cons]
      by_cases h : 0 < g.entry.rank
      · rw [List.filter_cons_of_pos (by simpa using h), if_pos (by simpa using h)]
        exact rest
      · rw [List.filter_cons_of_neg (by simpa using h), if_neg (by simpa using h)]
        exact rest

/-- Where arrays have names of their own, each of them has its shape. -/
lemma shapeMap_lookup (distinct : x.arrayNames.Nodup) {i : Nat} {f : Field} (found : x.fields[i]? = some f)
    (array : f.entry.rank ≠ 0) : x.shapeMap.lookup f.called = some (numArrays (x.names.take i)) := by
  have keys : (Dict.keys x.arrayNames.zipIdx).Nodup := by
    rw [Dict.keys, List.zipIdx_map_fst]
    exact distinct
  rw [shapeMap, Dict.lookup_update _ keys]
  have mem : (f.called, numArrays (x.names.take i)) ∈ x.arrayNames.zipIdx :=
    List.mem_zipIdx_iff_getElem?.mpr (arrayNames_get found array)
  rw [(Dict.mem_iff_lookup keys).mp mem]
  rfl

/-- What the reader gets for an entry. -/
lemma range_eq (distinct : x.arrayNames.Nodup) {shapes : List Shape} {d : DescData} {i : Nat}
    (h : DescData.read x.names shapes = .ok d) (hi : i < x.fields.length)
    (small : 12 + fieldStart x.names shapes (i + 1) < 2 ^ 32) :
    d.range x shapes i = ⟨fieldStart x.names shapes i, fieldBytes x.names shapes i⟩ := by
  have count : x.names.length = x.fields.length := List.length_map _
  have named : x.names ≠ [] := List.ne_nil_of_length_pos (by omega)
  have filled := DescData.fill_eq ⟨x.names, by rw [count]; exact x.fits⟩ shapes
    (@List.length_replicate _ (x.names.length + 1) (0 : BitVec 32))
  rw [DescData.read, filled, if_neg named] at h
  split at h
  swap
  · cases h
  cases h
  have field : x.fields[i]? = some x.fields[i] := List.getElem?_eq_getElem hi
  have name : x.names[i]? = some x.fields[i].entry := by rw [names, List.getElem?_map, field]; rfl
  simp only [DescData.range, fieldBytes, field, name]
  rw [DescData.setUpTo_getD _ _ _ (by omega), (Filling.mod_start (Nat.le_succ i) small).1]
  split
  · rfl
  · rename_i array
    rw [shapeMap_lookup distinct field array]
    rfl

end NameIndex

/-- What was filled in with every call in range is kept: the entries are in order, and a reader gets for each of them
its own bytes, and for no other entry any of them, be it filled in or, with the shapes that are left over, in range. -/
theorem order_kept {x : NameIndex} {parent : XtcRef} {bufEnd : Option Nat} {s : CreateData} {leftover : List Shape}
    {calls : List CreateData.Call} {f : Filling} (distinct : x.arrayNames.Nodup)
    (made : CreateData.new x.names parent bufEnd = .ok s) (slots : leftover.length = numArrays x.names)
    (run : Run Filling.step (Filling.InRange x) (.start s leftover) calls f) : f.Kept x := by
  have inv : Filling.Inv x f := by
    apply run.invariant (P := fun _ f => Filling.Inv x f)
    · exact .start made slots
    · intro calls f call f' inv ok h
      exact inv.step ok h
  have entries : ∀ w ∈ f.written, ∃ i < f.data.numentries,
      w = (i, ⟨fieldStart x.names f.data.shapes i, fieldBytes x.names f.data.shapes i⟩) := by
    intro w hw
    rw [inv.written] at hw
    obtain ⟨i, hi, rfl⟩ := List.mem_map.mp hw
    exact ⟨i, List.mem_range.mp hi, rfl⟩
  have small : ∀ i < f.data.numentries, 12 + fieldStart x.names f.data.shapes (i + 1) < 2 ^ 32 := by
    intro i hi
    exact Nat.lt_of_le_of_lt (Nat.add_le_add_left (fieldStart_mono hi) 12) inv.small
  have count : f.written.length = f.data.numentries := by
    rw [inv.written, List.length_map, List.length_range]
  have le := inv.le
  refine ⟨?_, ?_, ?_⟩
  · rw [inv.written, List.map_map, List.length_map, List.length_range]
    exact List.map_id _
  · intro d h w hw
    obtain ⟨i, hi, rfl⟩ := entries w hw
    exact NameIndex.range_eq distinct h (by omega) (small i hi)
  · intro d h w hw j hj ne within
    have ends : 12 + fieldStart x.names f.data.shapes (j + 1) < 2 ^ 32 := by
      cases within with
      | inl written => exact small j (count ▸ written)
      | inr ends => exact ends
    obtain ⟨i, hi, rfl⟩ := entries w hw
    rw [NameIndex.range_eq distinct h hj ends]
    have nextI := fieldStart_succ x.names f.data.shapes i
    have nextJ := fieldStart_succ x.names f.data.shapes j
    obtain lt | lt := Nat.lt_or_gt_of_ne ne
    · have := @fieldStart_mono x.names f.data.shapes (j + 1) i lt
      left
      simp only
      omega
    · have := @fieldStart_mono x.names f.data.shapes (i + 1) j lt
      right
      simp only
      omega

/-- Two arrays of bytes. -/
def twoArrays : NameIndex := ⟨[⟨"a", .UINT8, 1, by decide⟩, ⟨"b", .UINT8, 1, by decide⟩], by decide⟩

/-- Arrays that are filled in in order are kept. -/
theorem arrays_in_order : ∃ s f, CreateData.new twoArrays.names rootAt (some 5120) = .ok s ∧
    Run Filling.step (Filling.InRange twoArrays) (.start s [square 0, square 0])
      [.allocate .uint8_t 0 (square 2), .allocate .uint8_t 1 (square 3)] f ∧ f.Kept twoArrays := by
  obtain ⟨s, made⟩ : ∃ s, CreateData.new twoArrays.names rootAt (some 5120) = .ok s := ⟨_, rfl⟩
  have run : ∃ f, Run Filling.step (Filling.InRange twoArrays) (.start s [square 0, square 0])
      [.allocate .uint8_t 0 (square 2), .allocate .uint8_t 1 (square 3)] f := by
    cases made
    refine ⟨_, .snoc (.snoc .nil ⟨rfl, nofun, ?_⟩ rfl) ⟨?_, nofun, ?_⟩ rfl⟩
    · rfl
    · decide
    · decide
  obtain ⟨f, run⟩ := run
  exact ⟨s, f, made, run, order_kept (by decide) made rfl run⟩

/-- The second array is filled in first: a reader gets its bytes for the first one. -/
theorem swapped_arrays : ∃ s f d, CreateData.new twoArrays.names rootAt (some 5120) = .ok s ∧
    Run Filling.step (fun _ _ _ => True) (.start s [square 0, square 0])
      [.allocate .uint8_t 1 (square 2), .allocate .uint8_t 0 (square 3)] f ∧
    f.written = [(1, ⟨0, 2⟩), (0, ⟨2, 3⟩)] ∧ DescData.read twoArrays.names f.data.shapes = .ok d ∧
    d.range twoArrays f.data.shapes 0 = ⟨0, 2⟩ ∧ ¬ f.Kept twoArrays := by
  refine ⟨_, _, _, rfl, .of_foldlM rfl, rfl, rfl, by decide, ?_⟩
  intro kept
  have order := kept.order
  exact absurd order (by decide)

end Lcls2.Xtc
