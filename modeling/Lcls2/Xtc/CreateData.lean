import Lcls2.Lib.Run

/-!
# Described data

Model of `CreateData` (`xtc/DescData.hh`) with the parts of `xtc/ShapesData.hh` and `xtc/Xtc.hh` that it
allocates with: a `ShapesData` in a parent `Xtc` that contains the shapes of its arrays and then their data, whose
three extents grow together.

* An `Xtc` is its address and its extent; what is written into the data has no part in it.
* `names` is what the `Names` object says of the entries. A `Name` has a rank below `MaxRank`.
* Sizes are `unsigned`, and so are their products.
-/

namespace Lcls2.Xtc
open Lib

/-- `Name::DataType`. -/
inductive DataType where
  | UINT8 | UINT16 | UINT32 | UINT64 | INT8 | INT16 | INT32 | INT64 | FLOAT | DOUBLE | CHARSTR | ENUMVAL | ENUMDICT
  deriving DecidableEq, Repr

/-- `Name::get_element_size`. -/
def DataType.elementSize : DataType → Nat
  | .UINT8 | .INT8 | .CHARSTR => 1
  | .UINT16 | .INT16 => 2
  | .UINT32 | .INT32 | .FLOAT | .ENUMVAL | .ENUMDICT => 4
  | .UINT64 | .INT64 | .DOUBLE => 8

/-- The types that `checkType` is overloaded for. -/
inductive ValueType where
  | uint8_t | uint16_t | uint32_t | uint64_t | int8_t | int16_t | int32_t | int64_t | float | double | char
  deriving DecidableEq, Repr

/-- `sizeof(T)`. -/
def ValueType.size : ValueType → Nat
  | .uint8_t | .int8_t | .char => 1
  | .uint16_t | .int16_t => 2
  | .uint32_t | .int32_t | .float => 4
  | .uint64_t | .int64_t | .double => 8

/-- `DescData::checkType`. -/
def checkType : ValueType → DataType → Bool
  | .uint8_t, type => type = .UINT8
  | .uint16_t, type => type = .UINT16
  | .uint32_t, type => type = .UINT32 || type = .ENUMVAL || type = .ENUMDICT
  | .uint64_t, type => type = .UINT64
  | .int8_t, type => type = .INT8
  | .int16_t, type => type = .INT16
  | .int32_t, type => type = .INT32 || type = .ENUMVAL || type = .ENUMDICT
  | .int64_t, type => type = .INT64
  | .float, type => type = .FLOAT
  | .double, type => type = .DOUBLE
  | .char, type => type = .CHARSTR

/-- `MaxRank`. -/
def maxRank : Nat := 5

/-- `Name`; its constructors abort on a larger rank. -/
structure Name where
  type : DataType
  rank : Nat
  lt : rank < maxRank
  deriving DecidableEq

/-- `Shape`, and its size in bytes. -/
abbrev Shape := Nat → BitVec 32

/-- `Shape::size`. -/
def Shape.size (shape : Shape) (name : Name) : BitVec 32 :=
  (List.range name.rank).foldl (fun size i => size * shape i) 1#32 * BitVec.ofNat 32 name.type.elementSize

/-- The number of elements and the size of an array over the natural numbers. -/
def Shape.elements (shape : Shape) (rank : Nat) : Nat := ((List.range rank).map fun i => (shape i).toNat).prod
def Shape.bytes (shape : Shape) (name : Name) : Nat := shape.elements name.rank * name.type.elementSize

/-- The reasons for an `abort`, a `throw` or an access out of range. -/
inductive DataFault where
  | abort | outOfOrder | noName | noShape
  deriving DecidableEq, Repr

/-- An `Xtc`: where it is, and its extent. -/
structure XtcRef where
  addr : Nat
  extent : BitVec 32
  deriving DecidableEq, Repr

namespace XtcRef

/-- `Xtc::next`. -/
def next (x : XtcRef) : Nat := x.addr + x.extent.toNat

/-- `Xtc::alloc`. -/
def alloc (x : XtcRef) (size : Nat) (bufEnd : Option Nat) : Except DataFault (Nat × XtcRef) :=
  if bufEnd.any (· < x.next + size) then .error .abort
  else .ok (x.next, { x with extent := x.extent + BitVec.ofNat 32 size })

end XtcRef

/-- `CreateData`; `shapes` holds a shape for each array of the names. -/
structure CreateData where
  names : List Name
  bufEnd : Option Nat
  parent : XtcRef
  shapesdata : XtcRef
  shapesXtc : XtcRef
  shapes : List Shape
  data : XtcRef
  offset : List (BitVec 32)
  numentries : Nat
  numarrays : Nat

/-- `Names::numArrays`. -/
def numArrays (names : List Name) : Nat := names.countP (0 < ·.rank)

/-- `sizeof(Shape)`. -/
def sizeofShape : Nat := 20

namespace CreateData

/-- `CreateData::CreateData`. Each header is allocated in the `ShapesData` and in the parent; an `Xtc` without
    payload has an extent of 12. -/
def new (names : List Name) (parent : XtcRef) (bufEnd : Option Nat) : Except DataFault CreateData := do
  let (addr, parent) ← parent.alloc 12 bufEnd
  let (shapesAddr, shapesdata) ← XtcRef.alloc ⟨addr, 12#32⟩ 12 bufEnd
  let (_, shapesXtc) ← XtcRef.alloc ⟨shapesAddr, 12#32⟩ 0 bufEnd
  let (_, parent) ← parent.alloc 12 bufEnd
  let size := numArrays names * sizeofShape % 2 ^ 32
  let (_, parent) ← parent.alloc size bufEnd
  let (_, shapesdata) ← shapesdata.alloc size bufEnd
  let (_, shapesXtc) ← shapesXtc.alloc size bufEnd
  let (dataAddr, shapesdata) ← shapesdata.alloc 12 bufEnd
  let (_, parent) ← parent.alloc 12 bufEnd
  pure {
    names
    bufEnd
    parent
    shapesdata
    shapesXtc
    shapes := List.replicate (numArrays names) fun _ => 0#32
    data := ⟨dataAddr, 12#32⟩
    offset := [0#32]
    numentries := 0
    numarrays := 0 }

/-- `AutoParentAlloc::alloc` of the data, in the parent, the `ShapesData` and the `Data`. -/
def allocData (size : BitVec 32) (s : CreateData) : Except DataFault CreateData := do
  let (_, parent) ← s.parent.alloc size.toNat s.bufEnd
  let (_, shapesdata) ← s.shapesdata.alloc size.toNat s.bufEnd
  let (_, data) ← s.data.alloc size.toNat s.bufEnd
  pure { s with parent, shapesdata, data }

/-- An entry of some size is next. -/
def push (size : BitVec 32) (s : CreateData) : CreateData :=
  { s with
    numentries := s.numentries + 1
    offset := s.offset ++ [(s.offset[s.numentries]?.getD 0#32) + size] }

/-- `CreateData::set_array_shape`, with the one of `DescData`: its check of the order compares a number with
    itself. -/
def setArrayShape (index : Nat) (shape : Shape) (s : CreateData) : Except DataFault CreateData :=
  match s.names[index]? with
  | none => .error .noName
  | some name =>
    if name.rank = 0 then .error .abort
    else
      match s.shapes[s.numarrays]? with
      | none => .error .noShape
      | some sh =>
        let sh : Shape := fun i => if i < name.rank then shape i else sh i
        { s with shapes := s.shapes.set s.numarrays sh, numarrays := s.numarrays + 1 }.push (sh.size name)
          |>.allocData (sh.size name)

/-- `CreateData::allocate`: where the array is, and what becomes of the `CreateData`. -/
def allocate (T : ValueType) (index : Nat) (shape : Shape) (s : CreateData) : Except DataFault (Nat × CreateData) :=
  match s.names[index]? with
  | none => .error .noName
  | some name =>
    if checkType T name.type then (s.setArrayShape index shape).map ((s.data.next, ·))
    else .error .abort

/-- `CreateData::set_value`. -/
def setValue (T : ValueType) (index : Nat) (s : CreateData) : Except DataFault CreateData :=
  if index ≠ s.numentries then .error .outOfOrder
  else
    match s.names[index]? with
    | none => .error .noName
    | some name =>
      if checkType T name.type then
        (s.allocData (BitVec.ofNat 32 T.size)).map (push (BitVec.ofNat 32 name.type.elementSize))
      else .error .abort

/-- The calls that fill in the entries. `set_string` is an `allocate` of characters. -/
inductive Call where
  | setValue (T : ValueType) (index : Nat)
  | allocate (T : ValueType) (index : Nat) (shape : Shape)
  | setArrayShape (index : Nat) (shape : Shape)

/-- One call. -/
def step (s : CreateData) : Call → Except DataFault CreateData
  | .setValue T index => s.setValue T index
  | .allocate T index shape => (s.allocate T index shape).map Prod.snd
  | .setArrayShape index shape => s.setArrayShape index shape

/-- The entries are filled in one after the other, which `set_value` checks. -/
def InOrder (_ : List Call) (s : CreateData) : Call → Prop
  | .setValue _ index => index = s.numentries
  | .allocate _ index _ => index = s.numentries
  | .setArrayShape index _ => index = s.numentries

/-- The `Xtc`s whose extents grow with the data. -/
def enclosing (s : CreateData) : List XtcRef := [s.parent, s.shapesdata, s.data]

/-- A call aborts, or it reserves the bytes below the end of the buffer and adds just them to every enclosing
    extent. -/
def Reserves (s : CreateData) (bufEnd bytes : Nat) : Except DataFault (Nat × CreateData) → Prop
  | .error fault => fault = .abort
  | .ok (ptr, s') =>
    ptr = s.data.next ∧ ptr + bytes ≤ s'.data.next ∧ s'.data.next ≤ bufEnd ∧
      s'.enclosing.map (·.extent.toNat) = s.enclosing.map (·.extent.toNat + bytes)

/-- The size as an `unsigned` does not fit the buffer, or the size is an `unsigned` and so are the extents with
    it. -/
def HasRoom (s : CreateData) (bufEnd bytes : Nat) : Prop :=
  (∃ x ∈ s.enclosing, bufEnd < x.next + bytes % 2 ^ 32) ∨
    bytes < 2 ^ 32 ∧ ∀ x ∈ s.enclosing, x.extent.toNat + bytes < 2 ^ 32

end CreateData

/-! ## Sizes -/

/-- A product of `unsigned`s. -/
lemma foldl_mul_toNat (shape : Shape) (rank : Nat) :
    ((List.range rank).foldl (fun size i => size * shape i) 1#32).toNat = shape.elements rank % 2 ^ 32 := by
  induction rank with
  | zero => rfl
  | succ rank ih =>
    rw [Shape.elements, List.range_succ, List.foldl_append, List.map_append, List.prod_append, List.foldl_cons,
      List.foldl_nil, BitVec.toNat_mul, ih, Nat.mod_mul_mod, List.map_cons, List.map_nil, List.prod_cons,
      List.prod_nil, Nat.mul_one]
    rfl

/-- An element is no larger than the largest type. -/
lemma elementSize_le (type : DataType) : type.elementSize ≤ 8 := by
  cases type <;> decide

/-- The size of an array is that over the natural numbers up to a multiple of `2 ^ 32`. -/
lemma size_toNat (shape : Shape) (name : Name) : (shape.size name).toNat = shape.bytes name % 2 ^ 32 := by
  have small : name.type.elementSize % 2 ^ 32 = name.type.elementSize :=
    Nat.mod_eq_of_lt (Nat.lt_of_le_of_lt (elementSize_le name.type) (by decide))
  rw [Shape.size, BitVec.toNat_mul, foldl_mul_toNat, BitVec.toNat_ofNat, small, Nat.mod_mul_mod, Shape.bytes]

/-- Only the first dimensions of a shape count. -/
lemma size_congr {shape shape' : Shape} {name : Name} (same : ∀ i < name.rank, shape i = shape' i) :
    shape.size name = shape'.size name := by
  have product : (List.range name.rank).foldl (fun size i => size * shape i) 1#32 =
      (List.range name.rank).foldl (fun size i => size * shape' i) 1#32 := by
    apply List.foldl_ext
    intro size i mem
    rw [same i (List.mem_range.mp mem)]
  rw [Shape.size, Shape.size, product]

/-! ## Allocation -/

namespace XtcRef

variable {x x' : XtcRef} {size bufEnd at_ : Nat}

/-- An allocation that succeeds ends in the buffer. -/
lemma alloc_ok (h : x.alloc size (some bufEnd) = .ok (at_, x')) :
    at_ = x.next ∧ x.next + size ≤ bufEnd ∧ x' = { x with extent := x.extent + BitVec.ofNat 32 size } := by
  unfold alloc at h
  split at h
  · cases h
  · rename_i fits
    cases h
    refine ⟨rfl, ?_, rfl⟩
    simp only [Option.any_some, decide_eq_true_eq, not_lt] at fits
    exact fits

/-- One that does not succeed aborts. -/
lemma alloc_error {fault : DataFault} (h : x.alloc size (some bufEnd) = .error fault) :
    fault = .abort ∧ bufEnd < x.next + size := by
  unfold alloc at h
  split at h
  · rename_i beyond
    cases h
    refine ⟨rfl, ?_⟩
    simpa only [Option.any_some, decide_eq_true_eq] using beyond
  · cases h

/-- The extent grows by the size just when both are `unsigned` together. -/
lemma extent_grows (x : XtcRef) (bytes : Nat) :
    (x.extent + BitVec.ofNat 32 (bytes % 2 ^ 32)).toNat = x.extent.toNat + bytes ↔ x.extent.toNat + bytes < 2 ^ 32 := by
  have lt := x.extent.isLt
  rw [BitVec.toNat_add, BitVec.toNat_ofNat]
  omega

end XtcRef

namespace CreateData

variable {s s' : CreateData} {size : BitVec 32} {bufEnd bytes : Nat}

/-- What is reserved when all three extents have room. -/
lemma allocData_ok (h : s.allocData size = .ok s') (given : s.bufEnd = some bufEnd) :
    (∀ x ∈ s.enclosing, x.next + size.toNat ≤ bufEnd) ∧
      s' = { s with
        parent := { s.parent with extent := s.parent.extent + BitVec.ofNat 32 size.toNat }
        shapesdata := { s.shapesdata with extent := s.shapesdata.extent + BitVec.ofNat 32 size.toNat }
        data := { s.data with extent := s.data.extent + BitVec.ofNat 32 size.toNat } } := by
  rw [allocData, given] at h
  obtain ⟨⟨_, parent⟩, first, h⟩ := bind_ok h
  obtain ⟨⟨_, shapesdata⟩, second, h⟩ := bind_ok h
  obtain ⟨⟨_, data⟩, third, h⟩ := bind_ok h
  obtain ⟨-, parentFits, rfl⟩ := XtcRef.alloc_ok first
  obtain ⟨-, shapesdataFits, rfl⟩ := XtcRef.alloc_ok second
  obtain ⟨-, dataFits, rfl⟩ := XtcRef.alloc_ok third
  cases h
  refine ⟨?_, ?_⟩
  · intro x mem
    simp only [enclosing, List.mem_cons, List.not_mem_nil, or_false] at mem
    rcases mem with rfl | rfl | rfl
    · exact parentFits
    · exact shapesdataFits
    · exact dataFits
  · rw [given]

/-- Where one of them has none, the call aborts. -/
lemma allocData_error {fault : DataFault} (h : s.allocData size = .error fault) (given : s.bufEnd = some bufEnd) :
    fault = .abort ∧ ∃ x ∈ s.enclosing, bufEnd < x.next + size.toNat := by
  rw [allocData, given] at h
  cases first : s.parent.alloc size.toNat (some bufEnd) with
  | error e =>
    rw [first] at h
    cases h
    obtain ⟨abort, beyond⟩ := XtcRef.alloc_error first
    exact ⟨abort, s.parent, by simp [enclosing], beyond⟩
  | ok parent =>
    rw [first] at h
    cases second : s.shapesdata.alloc size.toNat (some bufEnd) with
    | error e =>
      rw [second] at h
      cases h
      obtain ⟨abort, beyond⟩ := XtcRef.alloc_error second
      exact ⟨abort, s.shapesdata, by simp [enclosing], beyond⟩
    | ok shapesdata =>
      rw [second] at h
      cases third : s.data.alloc size.toNat (some bufEnd) with
      | error e =>
        rw [third] at h
        cases h
        obtain ⟨abort, beyond⟩ := XtcRef.alloc_error third
        exact ⟨abort, s.data, by simp [enclosing], beyond⟩
      | ok data =>
        rw [third] at h
        cases h

/-- Allocating a size that is one over the natural numbers up to a multiple of `2 ^ 32` reserves the latter just
    when there is room. -/
lemma reserves_allocData (t : CreateData) (given : s.bufEnd = some bufEnd) (wraps : size.toNat = bytes % 2 ^ 32)
    (same : t.enclosing = s.enclosing) (end_ : t.bufEnd = s.bufEnd) :
    s.Reserves bufEnd bytes ((t.allocData size).map ((s.data.next, ·))) ↔ s.HasRoom bufEnd bytes := by
  have given' : t.bufEnd = some bufEnd := end_.trans given
  cases h : t.allocData size with
  | error fault =>
    obtain ⟨abort, beyond⟩ := allocData_error h given'
    rw [wraps, same] at beyond
    exact ⟨fun _ => .inl beyond, fun _ => abort⟩
  | ok s' =>
    obtain ⟨fits, rfl⟩ := allocData_ok h given'
    rw [wraps, same] at fits
    obtain ⟨parent, shapesdata, data⟩ : t.parent = s.parent ∧ t.shapesdata = s.shapesdata ∧ t.data = s.data := by
      simp only [enclosing, List.cons.injEq, and_true] at same
      exact same
    have notBeyond : ¬ ∃ x ∈ s.enclosing, bufEnd < x.next + bytes % 2 ^ 32 := by
      rintro ⟨x, mem, beyond⟩
      exact absurd (fits x mem) (Nat.not_le.mpr beyond)
    have dataFits := fits s.data (by simp [enclosing])
    rw [HasRoom, or_iff_right notBeyond]
    simp only [Except.map, Reserves, wraps, parent, shapesdata, data, enclosing,
      List.map_cons, List.map_nil, List.cons.injEq, XtcRef.extent_grows, and_true, List.forall_mem_cons,
      List.not_mem_nil, IsEmpty.forall_iff, implies_true, XtcRef.next, true_and] at dataFits ⊢
    have lt := s.data.extent.isLt
    constructor
    · rintro ⟨-, -, first, second, third⟩
      exact ⟨by omega, first, second, third⟩
    · rintro ⟨-, first, second, third⟩
      have grows := (XtcRef.extent_grows s.data bytes).mpr third
      rw [grows]
      have exact_ : bytes % 2 ^ 32 = bytes := Nat.mod_eq_of_lt (by omega)
      rw [exact_] at dataFits
      exact ⟨by omega, by omega, first, second, third⟩

/-! ## Entries -/

/-- The arrays among the first names. -/
lemma numArrays_take_succ {names : List Name} {n : Nat} {name : Name} (found : names[n]? = some name) :
    numArrays (names.take (n + 1)) = numArrays (names.take n) + if 0 < name.rank then 1 else 0 := by
  rw [numArrays, List.take_add_one, found, List.countP_append, Option.toList_some, List.countP_singleton]
  simp only [decide_eq_true_eq]
  rfl

/-- The entries that are filled in are those of the first names, each array with a shape. -/
structure Filled (names : List Name) (bufEnd : Nat) (s : CreateData) : Prop where
  same : s.names = names
  given : s.bufEnd = some bufEnd
  slots : s.shapes.length = numArrays names
  arrays : s.numarrays ≤ numArrays (names.take s.numentries)

variable {names : List Name} {name : Name} {T : ValueType} {shape : Shape}

/-- The array that is next has a shape. -/
lemma Filled.slot (h : Filled names bufEnd s) (found : s.names[s.numentries]? = some name) (array : name.rank ≠ 0) :
    ∃ sh, s.shapes[s.numarrays]? = some sh := by
  rw [h.same] at found
  have next := numArrays_take_succ found
  rw [if_pos (Nat.pos_of_ne_zero array)] at next
  have all : numArrays (names.take (s.numentries + 1)) ≤ numArrays names := (List.take_sublist _ _).countP_le
  have before := h.arrays
  have shapes := h.slots
  have lt : s.numarrays < s.shapes.length := by omega
  exact ⟨_, List.getElem?_eq_getElem lt⟩

/-- What an allocation leaves alone. -/
lemma allocData_frame (h : s.allocData size = .ok s') (given : s.bufEnd = some bufEnd) :
    s'.names = s.names ∧ s'.bufEnd = s.bufEnd ∧ s'.shapes = s.shapes ∧ s'.numentries = s.numentries ∧
      s'.numarrays = s.numarrays := by
  obtain ⟨-, rfl⟩ := allocData_ok h given
  exact ⟨rfl, rfl, rfl, rfl, rfl⟩

/-- Setting a shape fills in one entry. -/
lemma Filled.setArrayShape (h : Filled names bufEnd s) (e : s.setArrayShape s.numentries shape = .ok s') :
    Filled names bufEnd s' := by
  unfold CreateData.setArrayShape at e
  split at e
  · cases e
  · rename_i name found
    split at e
    · cases e
    · rename_i array
      split at e
      · cases e
      · obtain ⟨same, end_, shapes, entries, arrays⟩ := allocData_frame e h.given
        have next := numArrays_take_succ (h.same ▸ found)
        rw [if_pos (Nat.pos_of_ne_zero array)] at next
        have before := h.arrays
        refine ⟨same.trans h.same, end_.trans h.given, ?_, ?_⟩
        · rw [shapes]
          exact List.length_set.trans h.slots
        · rw [entries, arrays]
          change s.numarrays + 1 ≤ numArrays (names.take (s.numentries + 1))
          omega

/-- So does every call. -/
lemma Filled.step {calls : List Call} {call : Call} (h : Filled names bufEnd s) (inOrder : InOrder calls s call)
    (e : s.step call = .ok s') : Filled names bufEnd s' := by
  cases call with
  | setValue T index =>
    simp only [CreateData.step, setValue] at e
    split at e
    · cases e
    · split at e
      · cases e
      · rename_i found
        split at e
        · cases alloc : s.allocData (BitVec.ofNat 32 T.size) with
          | error fault =>
            rw [alloc] at e
            cases e
          | ok t =>
            rw [alloc] at e
            cases e
            obtain ⟨same, end_, shapes, entries, arrays⟩ := allocData_frame alloc h.given
            have inOrder : index = s.numentries := inOrder
            rw [inOrder, h.same] at found
            have next := numArrays_take_succ found
            refine ⟨same.trans h.same, end_.trans h.given, ?_, ?_⟩
            · rw [← h.slots, ← shapes]
              rfl
            · change t.numarrays ≤ numArrays (names.take (t.numentries + 1))
              have before := h.arrays
              rw [arrays, entries, next]
              omega
        · cases e
  | allocate T index shape =>
    have inOrder : index = s.numentries := inOrder
    simp only [CreateData.step, allocate] at e
    split at e
    · cases e
    · split at e
      · cases set : s.setArrayShape index shape with
        | error fault =>
          rw [set] at e
          cases e
        | ok t =>
          rw [set] at e
          cases e
          exact h.setArrayShape (inOrder ▸ set)
      · cases e
  | setArrayShape index shape =>
    have inOrder : index = s.numentries := inOrder
    exact h.setArrayShape (inOrder ▸ e)

/-- Nothing is filled in at first. -/
lemma Filled.new {parent : XtcRef} (e : new names parent (some bufEnd) = .ok s) : Filled names bufEnd s := by
  obtain ⟨_, -, e⟩ := bind_ok e
  obtain ⟨_, -, e⟩ := bind_ok e
  obtain ⟨_, -, e⟩ := bind_ok e
  obtain ⟨_, -, e⟩ := bind_ok e
  obtain ⟨_, -, e⟩ := bind_ok e
  obtain ⟨_, -, e⟩ := bind_ok e
  obtain ⟨_, -, e⟩ := bind_ok e
  obtain ⟨_, -, e⟩ := bind_ok e
  obtain ⟨_, -, e⟩ := bind_ok e
  cases e
  exact ⟨rfl, rfl, List.length_replicate, Nat.zero_le _⟩

/-! ## Arrays -/

/-- After any calls that fill in the entries in order, allocating the next one as an array aborts, or reserves what
    its shape says in the buffer and in every enclosing extent, just when it is of another type or no array, or
    there is room for its size over the natural numbers. -/
theorem allocate_iff {parent : XtcRef} {s₀ : CreateData} {calls : List Call}
    (made : new names parent (some bufEnd) = .ok s₀) (run : Run CreateData.step InOrder s₀ calls s)
    (found : s.names[s.numentries]? = some name) (T : ValueType) (shape : Shape) :
    s.Reserves bufEnd (shape.bytes name) (s.allocate T s.numentries shape) ↔
      checkType T name.type = false ∨ name.rank = 0 ∨ s.HasRoom bufEnd (shape.bytes name) := by
  have filled : Filled names bufEnd s := by
    apply run.invariant (P := fun _ s => Filled names bufEnd s)
    · exact .new made
    · intro calls s call s' h inOrder e
      exact h.step inOrder e
  cases type : checkType T name.type with
  | false =>
    simp only [allocate, found, type, Bool.false_eq_true, if_false, Reserves, true_or]
  | true =>
    cases array : decide (name.rank = 0) with
    | true =>
      have scalar := of_decide_eq_true array
      have aborts : s.setArrayShape s.numentries shape = .error .abort := by
        simp only [CreateData.setArrayShape, found, scalar, if_true]
      simp only [allocate, found, type, if_true, aborts, Except.map, Reserves, scalar, true_or, or_true]
    | false =>
      have array := of_decide_eq_false array
      obtain ⟨sh, slot⟩ := filled.slot found array
      have size : (Shape.size (fun i => if i < name.rank then shape i else sh i) name).toNat =
          shape.bytes name % 2 ^ 32 := by
        have same : ∀ i < name.rank, (fun i => if i < name.rank then shape i else sh i) i = shape i :=
          fun i lt => if_pos lt
        rw [size_congr same, size_toNat]
      have call := reserves_allocData (s := s) ({ s with
          shapes := s.shapes.set s.numarrays fun i => if i < name.rank then shape i else sh i
          numarrays := s.numarrays + 1 }.push (Shape.size (fun i => if i < name.rank then shape i else sh i) name))
        filled.given size rfl rfl
      simp only [allocate, CreateData.setArrayShape, found, slot, type, if_true, array, if_false, Bool.true_eq_false,
        false_or]
      exact call

/-! ## Images -/

/-- A `Names` with one image of bytes, and a parent in a buffer of a kilobyte. -/
def image : List Name := [⟨.UINT8, 2, by decide⟩]

def rootAt : XtcRef := ⟨4096, 12#32⟩

/-- The shape of a square image. -/
def square (n : Nat) : Shape := fun _ => BitVec.ofNat 32 n

/-- The image that is created, before it is allocated. -/
def createImage : CreateData where
  names := image
  bufEnd := some 5120
  parent := ⟨4096, 68#32⟩
  shapesdata := ⟨4108, 56#32⟩
  shapesXtc := ⟨4120, 32#32⟩
  shapes := [fun _ => 0#32]
  data := ⟨4152, 12#32⟩
  offset := [0#32]
  numentries := 0
  numarrays := 0

/-- An image of eight by eight has room. -/
theorem allocate_eight :
    createImage.Reserves 5120 64 (createImage.allocate .uint8_t 0 (square 8)) := by
  have made : new image rootAt (some 5120) = .ok createImage := by rfl
  have first : createImage.names[createImage.numentries]? = some ⟨.UINT8, 2, by decide⟩ := rfl
  have call := (allocate_iff made .nil first .uint8_t (square 8)).mpr
  refine call (.inr (.inr (.inr ⟨by decide, ?_⟩)))
  decide

/-- One of `65536` by `65536` takes no room at all. -/
theorem large_image_reserves_nothing :
    new image rootAt (some 5120) = .ok createImage ∧
      ∃ s', createImage.allocate .uint8_t 0 (square 65536) = .ok (4164, s') ∧ s'.data = createImage.data ∧
        ¬ createImage.Reserves 5120 ((square 65536).bytes ⟨.UINT8, 2, by decide⟩)
            (createImage.allocate .uint8_t 0 (square 65536)) := by
  refine ⟨rfl, _, rfl, rfl, ?_⟩
  rintro ⟨-, room, -⟩
  exact absurd room (by decide)

end CreateData

end Lcls2.Xtc
