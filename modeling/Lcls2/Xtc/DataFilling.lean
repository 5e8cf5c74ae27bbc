import Lcls2.Xtc.DataLayout

/-!
# Filling in described data

A `CreateData` is filled in call by call. `Laid` says after some calls what is where: the shapes of the arrays, the data
of the entries one after the other, and the extents. A call that suits the next entry keeps it, if there is room.
-/

namespace Lcls2.Xtc
open Lib

/-! ## The calls -/

namespace DataCall

/-- The entry that a call fills in. -/
def index : DataCall → Nat
  | .setValue _ index _ | .allocate _ index _ _ | .setArrayShape index _ _ | .setString index _ => index

/-- The shape that it gives an array. -/
def shape : DataCall → Shape
  | .setValue _ _ _ => fun _ => 0
  | .allocate _ _ shape _ | .setArrayShape _ shape _ => shape
  | .setString _ chars => fun _ => BitVec.ofNat 32 (DataWriter.stringBytes chars.length)

/-- What it writes. -/
def content : DataCall → Bytes
  | .setValue _ _ value => value.bytes
  | .allocate _ _ _ elements | .setArrayShape _ _ elements => elements
  | .setString _ chars => chars ++ [0]

/-- How much of the data it takes. -/
def bytes (call : DataCall) (name : Name) : Nat :=
  if name.rank = 0 then name.type.elementSize else call.shape.bytes name

/-- A call is about some entry, and has a value of its type, elements that its shape has room for, or a string that is
    not too long for the shape of an entry of rank one. -/
def Suits (call : DataCall) (index : Nat) (name : Name) : Prop :=
  call.index = index ∧
    match call with
    | .setValue T _ _ => name.rank = 0 ∧ checkType T name.type
    | .allocate T _ shape elements => name.rank ≠ 0 ∧ checkType T name.type ∧ elements.length ≤ shape.bytes name
    | .setArrayShape _ shape elements => name.rank ≠ 0 ∧ elements.length ≤ shape.bytes name
    | .setString _ chars => name.rank = 1 ∧ checkType .char name.type ∧ DataWriter.stringBytes chars.length < 2 ^ 32

end DataCall

/-- How much of the data some calls take. -/
def written (names : List Name) (calls : List DataCall) : Nat := ((names.zip calls).map fun p => p.2.bytes p.1).sum

namespace DataCall

variable {names : List Name} {calls : List DataCall} {call : DataCall} {name : Name} {index : Nat}

/-- No call at all. -/
lemma written_nil (names : List Name) : written names [] = 0 := by
  rw [written, List.zip_nil_right]
  rfl

/-- One more call. -/
lemma written_snoc (call : DataCall) (found : names[calls.length]? = some name) :
    written names (calls ++ [call]) = written names calls + call.bytes name := by
  induction calls generalizing names with
  | nil =>
    cases names with
    | nil => cases found
    | cons _ _ =>
      cases found
      simp [written]
  | cons first calls ih =>
    cases names with
    | nil => cases found
    | cons n names =>
      have rest : written names (calls ++ [call]) = _ := ih found
      simp only [written] at rest
      simp only [written, List.cons_append, List.zip_cons_cons, List.map_cons, List.sum_cons, rest, Nat.add_assoc]

/-- The first calls, and one more of them. -/
lemma written_take_succ (here : calls[index]? = some call) (found : names[index]? = some name) :
    written names (calls.take (index + 1)) = written names (calls.take index) + call.bytes name := by
  have lt := (List.getElem?_eq_some_iff.mp here).1
  have length : (calls.take index).length = index := by
    rw [List.length_take]
    omega
  rw [List.take_add_one, here, Option.toList_some]
  apply written_snoc call
  rw [length]
  exact found

/-- The first calls. -/
lemma written_take_le : written names (calls.take index) ≤ written names calls := by
  induction index generalizing names calls with
  | zero =>
    rw [List.take_zero, written_nil]
    exact Nat.zero_le _
  | succ index ih =>
    cases calls with
    | nil => exact Nat.le_refl _
    | cons first calls =>
      cases names with
      | nil => exact Nat.le_refl _
      | cons n names => exact Nat.add_le_add_left (@ih names calls) _

/-- What a string takes. -/
lemma string_bytes {chars : Bytes} (one : name.rank = 1) (type : checkType .char name.type = true)
    (small : DataWriter.stringBytes chars.length < 2 ^ 32) :
    (setString index chars).bytes name = DataWriter.stringBytes chars.length := by
  have size : name.type.elementSize = 1 := (checkType_size type).symm
  rw [bytes, if_neg (by omega), Shape.bytes, Shape.elements, one, size]
  simp only [shape, List.range_one, List.map_singleton, List.prod_singleton, BitVec.toNat_ofNat]
  rw [Nat.mod_eq_of_lt small, Nat.mul_one]

/-- What a call writes fits into what it takes. -/
lemma Suits.content_le (h : Suits call index name) : call.content.length ≤ call.bytes name := by
  obtain ⟨-, h⟩ := h
  cases call with
  | setValue T index value =>
    obtain ⟨scalar, type⟩ := h
    rw [bytes, if_pos scalar, ← checkType_size type]
    exact Nat.le_of_eq value.size
  | allocate T index shape elements =>
    obtain ⟨array, -, fits⟩ := h
    rw [bytes, if_neg array]
    exact fits
  | setArrayShape index shape elements =>
    obtain ⟨array, fits⟩ := h
    rw [bytes, if_neg array]
    exact fits
  | setString index chars =>
    obtain ⟨one, type, small⟩ := h
    rw [string_bytes one type small, DataWriter.stringBytes, content, List.length_append, List.length_singleton]
    omega

end DataCall

/-- The last element, or one after it. -/
lemma snoc_last {α : Type*} {as : List α} {a b : α} {i : Nat} (here : (as ++ [a])[i]? = some b) (last : as.length ≤ i) :
    i = as.length ∧ a = b := by
  have lt := (List.getElem?_eq_some_iff.mp here).1
  rw [List.length_append, List.length_singleton] at lt
  have i_eq : i = as.length := by omega
  subst i_eq
  rw [List.getElem?_append_right (Nat.le_refl _), Nat.sub_self] at here
  cases here
  exact ⟨rfl, rfl⟩

/-- Each call suits the entry in its place. -/
def Suit (names : List Name) (calls : List DataCall) : Prop :=
  ∀ i (call : DataCall) name, calls[i]? = some call → names[i]? = some name → call.Suits i name

/-- What some calls have written: the shapes of the arrays and the data of all entries. -/
structure Contents (mem : Bytes) (x : NameIndex) (sd : Nat) (calls : List DataCall) : Prop where
  dims : ∀ i call name, calls[i]? = some call → x.names[i]? = some name → name.rank ≠ 0 → ∀ k < name.rank,
    At mem (sd + 24 + 20 * numArrays (x.names.take i) + 4 * k) (toLe 4 (call.shape k).toNat)
  data : ∀ i call, calls[i]? = some call →
    At mem (sd + 36 + 20 * numArrays x.names + written x.names (calls.take i)) call.content

/-- An array has a place among the shapes. -/
lemma slot_lt {names : List Name} {i : Nat} {name : Name} (found : names[i]? = some name) (array : name.rank ≠ 0) :
    numArrays (names.take i) < numArrays names := by
  have next := CreateData.numArrays_take_succ found
  have few : numArrays (names.take (i + 1)) ≤ numArrays names := (List.take_sublist (i + 1) names).countP_le
  rw [if_pos (Nat.pos_of_ne_zero array)] at next
  omega

namespace Contents

variable {mem mem' : Bytes} {x : NameIndex} {sd : Nat} {calls : List DataCall} {call : DataCall} {name : Name}

/-- What has been written stays where it is. -/
lemma kept (h : Contents mem x sd calls) (suit : Suit x.names calls) (le : calls.length ≤ x.fields.length)
    (keep : ∀ a bs, At mem a bs →
      sd + 24 ≤ a ∧ a + bs.length ≤ sd + 24 + 20 * numArrays (x.names.take calls.length) ∨
      sd + 36 + 20 * numArrays x.names ≤ a ∧
        a + bs.length ≤ sd + 36 + 20 * numArrays x.names + written x.names calls → At mem' a bs) :
    Contents mem' x sd calls := by
  constructor
  · intro i call name here found array k lt
    have next := CreateData.numArrays_take_succ found
    rw [if_pos (Nat.pos_of_ne_zero array)] at next
    have last := @numArrays_mono x.names (i + 1) calls.length (List.getElem?_eq_some_iff.mp here).1
    have rank := name.lt
    rw [maxRank] at rank
    apply keep _ _ (h.dims i call name here found array k lt)
    left
    rw [toLe_length]
    omega
  · intro i call here
    have lt := (List.getElem?_eq_some_iff.mp here).1
    have count : x.names.length = x.fields.length := List.length_map _
    have found : x.names[i]? = some x.names[i] := List.getElem?_eq_getElem (by omega)
    have length := (suit i call _ here found).content_le
    have next := @DataCall.written_take_succ x.names calls call _ i here found
    have last := @DataCall.written_take_le x.names calls (i + 1)
    apply keep _ _ (h.data i call here)
    right
    omega

/-- The shape and the data of one more call. -/
lemma snoc (h : Contents mem x sd calls) (found : x.names[calls.length]? = some name)
    (dims : name.rank ≠ 0 → ∀ k < name.rank,
      At mem (sd + 24 + 20 * numArrays (x.names.take calls.length) + 4 * k) (toLe 4 (call.shape k).toNat))
    (data : At mem (sd + 36 + 20 * numArrays x.names + written x.names calls) call.content) :
    Contents mem x sd (calls ++ [call]) := by
  constructor
  · intro i call' name' here found' array k lt
    cases Nat.lt_or_ge i calls.length with
    | inl before =>
      rw [List.getElem?_append_left before] at here
      exact h.dims i call' name' here found' array k lt
    | inr last =>
      obtain ⟨rfl, rfl⟩ := snoc_last here last
      cases found.symm.trans found'
      exact dims array k lt
  · intro i call' here
    cases Nat.lt_or_ge i calls.length with
    | inl before =>
      rw [List.getElem?_append_left before] at here
      rw [List.take_append_of_le_length (Nat.le_of_lt before)]
      exact h.data i call' here
    | inr last =>
      obtain ⟨rfl, rfl⟩ := snoc_last here last
      rw [List.take_left]
      exact data

end Contents

/-- A `CreateData` after some calls, at the end of a parent whose extent was `extent`. -/
structure Laid (x : NameIndex) (namesId src extent : Nat) (before : Bytes) (calls : List DataCall) (w : DataWriter) :
    Prop where
  names : w.names = x
  place : w.shapesdata = w.parent + extent
  numentries : w.numentries = calls.length
  numarrays : w.numarrays = numArrays (x.names.take calls.length)
  offset : w.offset = (List.range (calls.length + 1)).map fun i => BitVec.ofNat 32 (written x.names (calls.take i))
  le : calls.length ≤ x.fields.length
  suit : Suit x.names calls
  root : HeaderAt w.mem w.parent src .Parent (extent + 36 + 20 * numArrays x.names + written x.names calls)
  shapesdata : ShapesDataAt w.mem w.shapesdata namesId (numArrays x.names) (written x.names calls)
  contents : Contents w.mem x w.shapesdata calls
  below : Below w.parent w.shapesdata before w.mem

namespace Laid

variable {x : NameIndex} {namesId src extent : Nat} {before : Bytes} {calls : List DataCall} {w : DataWriter}

/-- Nothing is filled in at first. -/
lemma start {bufEnd parent : Nat} (root : HeaderAt before parent src .Parent extent)
    (long : 12 ≤ extent) (room : parent + extent + 36 + 20 * numArrays x.names ≤ bufEnd)
    (fits : bufEnd ≤ before.length) (small : extent + 36 + 20 * numArrays x.names < 2 ^ 32) :
    ∃ w, DataWriter.new x namesId bufEnd parent before = .ok w ∧ w.bufEnd = bufEnd ∧ w.parent = parent ∧
      Laid x namesId src extent before [] w := by
  obtain ⟨mem, made, root, here, below⟩ := @DataWriter.new_ok x before bufEnd parent src namesId extent root long room
    fits small
  refine ⟨_, made, rfl, rfl, rfl, rfl, rfl, rfl, ?_, Nat.zero_le _, nofun, ?_, ?_, ⟨nofun, nofun⟩, below⟩
  · simp only [List.take_nil, DataCall.written_nil]
    rfl
  · rw [DataCall.written_nil, Nat.add_zero]
    exact root
  · rw [DataCall.written_nil]
    exact here

/-- Where the next data are. -/
lemma offset_getD (laid : Laid x namesId src extent before calls w) :
    w.offset.getD w.numentries 0 = BitVec.ofNat 32 (written x.names calls) := by
  rw [laid.offset, laid.numentries, List.range_succ, List.map_append, List.map_singleton, List.take_length]
  simp

/-- Where the data of the next entry go. -/
def next (x : NameIndex) (calls : List DataCall) (w : DataWriter) : Nat :=
  w.shapesdata + 36 + 20 * numArrays x.names + written x.names calls

/-- There is room for data of some size, in the buffer and in the range of an extent. -/
structure Room (x : NameIndex) (extent : Nat) (calls : List DataCall) (w : DataWriter) (bytes : Nat) : Prop where
  buffer : w.parent + extent + 36 + 20 * numArrays x.names + written x.names calls + bytes ≤ w.bufEnd
  memory : w.bufEnd ≤ w.mem.length
  long : 12 ≤ extent
  small : extent + 36 + 20 * numArrays x.names + written x.names calls + bytes < 2 ^ 32

/-- The data and what is in front of them after an allocation, with what stays. -/
structure Grown (x : NameIndex) (namesId src extent : Nat) (calls : List DataCall) (w : DataWriter) (bytes : Nat)
    (mem' : Bytes) : Prop where
  root : HeaderAt mem' w.parent src .Parent
    (extent + 36 + 20 * numArrays x.names + written x.names calls + bytes)
  shapesdata : ShapesDataAt mem' w.shapesdata namesId (numArrays x.names) (written x.names calls + bytes)
  below : Below w.parent w.shapesdata w.mem mem'
  keep : ∀ a bs, At w.mem a bs →
    w.shapesdata + 24 ≤ a ∧ a + bs.length ≤ w.shapesdata + 24 + 20 * numArrays (x.names.take calls.length) ∨
    w.shapesdata + 36 + 20 * numArrays x.names ≤ a ∧ a + bs.length ≤ next x calls w → At mem' a bs

/-- One more entry is filled in. -/
lemma advance (laid : Laid x namesId src extent before calls w) {call : DataCall} {name : Name} {mem' : Bytes}
    {size : BitVec 32} {numarrays : Nat} (found : x.names[calls.length]? = some name)
    (suits : call.Suits calls.length name)
    (size_eq : size = BitVec.ofNat 32 (call.bytes name))
    (arrays : numarrays = w.numarrays + if 0 < name.rank then 1 else 0)
    (grown : Grown x namesId src extent calls w (call.bytes name) mem')
    (dims : name.rank ≠ 0 → ∀ k < name.rank,
      At mem' (w.shapesdata + 24 + 20 * numArrays (x.names.take calls.length) + 4 * k) (toLe 4 (call.shape k).toNat))
    (data : At mem' (next x calls w) call.content) :
    Laid x namesId src extent before (calls ++ [call]) ({ w with mem := mem', numarrays := numarrays }.push size) := by
  have lt : calls.length < x.fields.length := by
    have := (List.getElem?_eq_some_iff.mp found).1
    rwa [NameIndex.names, List.length_map] at this
  have total := DataCall.written_snoc call found
  have count : (calls ++ [call]).length = calls.length + 1 := by
    rw [List.length_append, List.length_singleton]
  have contents := (laid.contents.kept laid.suit laid.le grown.keep).snoc found dims data
  refine ⟨laid.names, laid.place, ?_, ?_, ?_, ?_, ?_, ?_, ?_, contents, laid.below.trans grown.below⟩
  · rw [count]
    exact congrArg (· + 1) laid.numentries
  · rw [count, CreateData.numArrays_take_succ found, ← laid.numarrays]
    exact arrays
  · have last : w.offset[w.numentries]?.getD 0#32 = BitVec.ofNat 32 (written x.names calls) := by
      rw [← List.getD_eq_getElem?_getD]
      exact laid.offset_getD
    simp only [DataWriter.push, last, size_eq, count]
    rw [laid.offset, @List.range_succ (calls.length + 1), List.map_append, List.map_singleton, ← BitVec.ofNat_add,
      ← total, ← count, List.take_length]
    congr 1
    apply List.map_congr_left
    intro i hi
    have := List.mem_range.mp hi
    rw [List.take_append_of_le_length (by omega)]
  · rw [count]
    exact lt
  · intro i call' name' here found'
    cases Nat.lt_or_ge i calls.length with
    | inl before =>
      rw [List.getElem?_append_left before] at here
      exact laid.suit i call' name' here found'
    | inr last =>
      obtain ⟨rfl, rfl⟩ := snoc_last here last
      cases found.symm.trans found'
      exact suits
  · rw [total, ← Nat.add_assoc]
    exact grown.root
  · rw [total]
    exact grown.shapesdata

/-- An allocation in the data. -/
lemma allocData_ok (laid : Laid x namesId src extent before calls w) {more : BitVec 32}
    (room : Room x extent calls w more.toNat) (offset : List (BitVec 32)) (numentries numarrays : Nat) :
    ∃ mem', DataWriter.allocData more { w with offset, numentries, numarrays } =
        .ok { w with mem := mem', offset, numentries, numarrays } ∧
      Grown x namesId src extent calls w more.toNat mem' ∧
      ∀ a bs, At w.mem a bs →
        w.shapesdata + 24 ≤ a ∧ a + bs.length ≤ w.shapesdata + 24 + 20 * numArrays x.names ∨
        w.shapesdata + 36 + 20 * numArrays x.names ≤ a → At mem' a bs := by
  have place := laid.place
  have buffer := room.buffer
  have long := room.long
  have small := room.small
  obtain ⟨mem', alloc, root, here, below, keep⟩ :=
    @DataWriter.allocData_ok _ _ _ { w with offset, numentries, numarrays } _ _ more laid.root laid.shapesdata
      (show w.parent + 12 ≤ w.shapesdata by omega)
      (show w.shapesdata + 36 + 20 * numArrays x.names + written x.names calls = w.parent + _ by omega)
      (show w.parent + _ + more.toNat ≤ w.bufEnd by omega) room.memory (by omega)
  have few := (List.take_sublist calls.length x.names).countP_le (p := fun n => 0 < n.rank)
  refine ⟨mem', alloc, ⟨root, here, below, ?_⟩, keep⟩
  intro a bs cell within
  apply keep a bs cell
  cases within with
  | inl shapes => exact .inl ⟨shapes.1, Nat.le_trans shapes.2 (Nat.add_le_add_left (Nat.mul_le_mul_left 20 few) _)⟩
  | inr data => exact .inr data.1

/-- A write where the next data go. -/
lemma Grown.store {bytes : Nat} {mem' : Bytes} (grown : Grown x namesId src extent calls w bytes mem') (data : Bytes)
    (fits : next x calls w + data.length ≤ w.mem.length) (long : w.parent + 12 ≤ w.shapesdata) :
    Grown x namesId src extent calls w bytes (writeAt mem' (next x calls w) data) ∧
      At (writeAt mem' (next x calls w) data) (next x calls w) data ∧
      Changed (next x calls w) (next x calls w + data.length) mem' (writeAt mem' (next x calls w) data) := by
  have fits' := grown.below.length.symm ▸ fits
  have change := Changed.write fits'
  have few := (List.take_sublist calls.length x.names).countP_le (p := fun n => 0 < n.rank)
  have next_eq : next x calls w = w.shapesdata + 36 + 20 * numArrays x.names + written x.names calls := rfl
  have few : numArrays (x.names.take calls.length) ≤ numArrays x.names := few
  refine ⟨⟨grown.root.kept change (by omega), grown.shapesdata.kept change (by omega),
    grown.below.trans (.of_after change (by omega)), ?_⟩, .write fits', change⟩
  intro a bs cell within
  exact change.kept (grown.keep a bs cell within) (by omega)

/-- A change of what is not filled in. -/
lemma change (laid : Laid x namesId src extent before calls w) {mem' : Bytes} {lo hi : Nat}
    (long : 12 ≤ extent) (change : Changed lo hi w.mem mem')
    (apart : w.shapesdata + 24 + 20 * numArrays (x.names.take calls.length) ≤ lo ∧
      hi ≤ w.shapesdata + 24 + 20 * numArrays x.names ∨ next x calls w ≤ lo) :
    Laid x namesId src extent before calls { w with mem := mem' } := by
  have place := laid.place
  have few : numArrays (x.names.take calls.length) ≤ numArrays x.names :=
    (List.take_sublist calls.length x.names).countP_le
  have next_eq : next x calls w = w.shapesdata + 36 + 20 * numArrays x.names + written x.names calls := rfl
  refine ⟨laid.names, place, laid.numentries, laid.numarrays, laid.offset, laid.le, laid.suit,
    laid.root.kept change (by omega), laid.shapesdata.kept change (by omega), ?_,
    laid.below.trans (.of_after change (by omega))⟩
  apply laid.contents.kept laid.suit laid.le
  intro a bs cell within
  exact change.kept cell (by omega)

/-- The shape of an array. -/
lemma setArrayShape_ok (laid : Laid x namesId src extent before calls w) {shape : Shape} {name : Name}
    (found : x.names[calls.length]? = some name) (array : name.rank ≠ 0)
    (room : Room x extent calls w (shape.bytes name)) :
    ∃ mem', w.setArrayShape calls.length shape =
        .ok ({ w with mem := mem', numarrays := w.numarrays + 1 }.push (BitVec.ofNat 32 (shape.bytes name))) ∧
      Grown x namesId src extent calls w (shape.bytes name) mem' ∧
      (∀ k < name.rank, At mem' (w.shapesdata + 24 + 20 * numArrays (x.names.take calls.length) + 4 * k)
        (toLe 4 (shape k).toNat)) ∧
      ∀ a bs, At w.mem a bs → next x calls w ≤ a → At mem' a bs := by
  have next_eq : next x calls w = w.shapesdata + 36 + 20 * numArrays x.names + written x.names calls := rfl
  have buffer := room.buffer
  have memory := room.memory
  have place := laid.place
  have small := room.small
  have slot := slot_lt found array
  have rank := name.lt
  rw [maxRank] at rank
  have cell : shapeCell (w.shapesdata + 12) w.numarrays =
      w.shapesdata + 24 + 20 * numArrays (x.names.take calls.length) := by
    rw [shapeCell, laid.numarrays, sizeofXtc, sizeofShape]
  have within : w.shapesdata + 24 + 20 * numArrays (x.names.take calls.length) + 4 * name.rank ≤ w.mem.length := by
    omega
  -- only the dimensions up to the rank are written, and only they count
  obtain ⟨mem1, mem1_eq⟩ : ∃ mem1, mem1 = writeShape w.mem
      (w.shapesdata + 24 + 20 * numArrays (x.names.take calls.length)) shape name.rank := ⟨_, rfl⟩
  have change := @writeShape_changed w.mem _ name.rank shape within
  have dims : ∀ k < name.rank, At mem1 (w.shapesdata + 24 + 20 * numArrays (x.names.take calls.length) + 4 * k)
      (toLe 4 (shape k).toNat) := by
    intro k lt
    rw [mem1_eq]
    exact writeShape_word within lt
  rw [← mem1_eq] at change
  have laid' := laid.change room.long change (.inl ⟨Nat.le_refl _, by omega⟩)
  have size : (shapeAt mem1 (w.shapesdata + 24 + 20 * numArrays (x.names.take calls.length))).size name =
      BitVec.ofNat 32 (shape.bytes name) := by
    rw [DescData.size_eq]
    congr 1
    exact bytes_congr fun k lt => shapeAt_of (dims k lt)
  have more : (BitVec.ofNat 32 (shape.bytes name)).toNat = shape.bytes name := Nat.mod_eq_of_lt (by omega)
  have room' : Room x extent calls { w with mem := mem1 } (BitVec.ofNat 32 (shape.bytes name)).toNat := by
    rw [more]
    exact ⟨buffer, change.length.symm ▸ memory, room.long, small⟩
  obtain ⟨mem', alloc, grown, keep⟩ := laid'.allocData_ok room' (w.offset ++ [(w.offset[w.numentries]?.getD 0#32) +
    BitVec.ofNat 32 (shape.bytes name)]) (w.numentries + 1) (w.numarrays + 1)
  rw [more] at grown
  have keep : ∀ a bs, At mem1 a bs →
      w.shapesdata + 24 ≤ a ∧ a + bs.length ≤ w.shapesdata + 24 + 20 * numArrays x.names ∨
      w.shapesdata + 36 + 20 * numArrays x.names ≤ a → At mem' a bs := keep
  have found' : w.names.names[calls.length]? = some name := by
    rw [laid.names]
    exact found
  refine ⟨mem', ?_, ⟨grown.root, grown.shapesdata, ?_, ?_⟩, ?_, ?_⟩
  · rw [DataWriter.setArrayShape, found']
    simp only [if_neg array, laid.shapesdata.shapesOf, ok_bind, cell, ← mem1_eq, laid'.shapesdata.shapesOf, size]
    exact alloc
  · exact (Below.of_after change (by omega)).trans grown.below
  · intro a bs here within
    exact grown.keep a bs (change.kept here (by omega)) within
  · intro k lt
    apply keep _ _ (dims k lt)
    left
    rw [toLe_length]
    omega
  · intro a bs here after
    exact keep a bs (change.kept here (by omega)) (.inr (by omega))

/-- Where the data end. -/
lemma getPtr (laid : Laid x namesId src extent before calls w)
    (small : extent + 36 + 20 * numArrays x.names + written x.names calls < 2 ^ 32) :
    w.getPtr = .ok (next x calls w) := by
  have ext := extent_of laid.shapesdata.data.extent (by omega)
  rw [DataWriter.getPtr, laid.shapesdata.dataOf (by omega), ok_bind, ext, next]
  congr 1
  omega

/-- A scalar that is written gets its place. -/
lemma scalar_ok (laid : Laid x namesId src extent before calls w) {call : DataCall} {name : Name} {size : Nat}
    (found : x.names[calls.length]? = some name) (suits : call.Suits calls.length name) (scalar : name.rank = 0)
    (size_eq : call.bytes name = size) (room : Room x extent calls w size)
    (data : At w.mem (next x calls w) call.content) :
    ∃ w', w.allocData (BitVec.ofNat 32 size) = .ok w' ∧ w'.bufEnd = w.bufEnd ∧ w'.parent = w.parent ∧
      Laid x namesId src extent before (calls ++ [call]) (w'.push (BitVec.ofNat 32 size)) := by
  subst size_eq
  have small := room.small
  have more : (BitVec.ofNat 32 (call.bytes name)).toNat = call.bytes name := Nat.mod_eq_of_lt (by omega)
  obtain ⟨mem', called, grown, keep⟩ := laid.allocData_ok (more.symm ▸ room) w.offset w.numentries w.numarrays
  rw [more] at grown
  have arrays : w.numarrays = w.numarrays + if 0 < name.rank then 1 else 0 := by
    rw [if_neg (Nat.not_lt.mpr scalar.le), Nat.add_zero]
  have data' : At mem' (next x calls w) call.content := keep _ _ data (.inr (by rw [next]; omega))
  exact ⟨_, called, rfl, rfl, laid.advance found suits rfl arrays grown (fun array => absurd scalar array) data'⟩

/-- An array that is written gets its shape. -/
lemma shape_ok (laid : Laid x namesId src extent before calls w) {call : DataCall} {name : Name}
    (found : x.names[calls.length]? = some name) (suits : call.Suits calls.length name) (array : name.rank ≠ 0)
    (room : Room x extent calls w (call.bytes name)) (data : At w.mem (next x calls w) call.content) :
    ∃ w', w.setArrayShape calls.length call.shape = .ok w' ∧ w'.bufEnd = w.bufEnd ∧ w'.parent = w.parent ∧
      Laid x namesId src extent before (calls ++ [call]) w' := by
  have bytes : call.bytes name = call.shape.bytes name := if_neg array
  obtain ⟨mem', called, grown, dims, keep⟩ := laid.setArrayShape_ok found array (bytes ▸ room)
  have arrays : w.numarrays + 1 = w.numarrays + if 0 < name.rank then 1 else 0 := by
    rw [if_pos (Nat.pos_of_ne_zero array)]
  have laid' := laid.advance found suits (congrArg _ bytes.symm) arrays (bytes ▸ grown) (fun _ => dims)
    (keep _ _ data (Nat.le_refl _))
  exact ⟨_, called, rfl, rfl, laid'⟩

/-- An array is allocated, and written. -/
lemma allocate_ok (laid : Laid x namesId src extent before calls w) {T : ValueType} {call : DataCall} {name : Name}
    (found : x.names[calls.length]? = some name) (suits : call.Suits calls.length name) (array : name.rank ≠ 0)
    (type : checkType T name.type = true) (room : Room x extent calls w (call.bytes name)) :
    ∃ w', w.allocate T calls.length call.shape = .ok (next x calls w, w') ∧
      (w'.store (next x calls w) call.content).bufEnd = w.bufEnd ∧
      (w'.store (next x calls w) call.content).parent = w.parent ∧
      Laid x namesId src extent before (calls ++ [call]) (w'.store (next x calls w) call.content) := by
  have bytes : call.bytes name = call.shape.bytes name := if_neg array
  have content := suits.content_le
  have small := room.small
  have buffer := room.buffer
  have memory := room.memory
  have place := laid.place
  have next_eq : next x calls w = w.shapesdata + 36 + 20 * numArrays x.names + written x.names calls := rfl
  obtain ⟨mem', called, grown, dims, -⟩ := laid.setArrayShape_ok found array (bytes ▸ room)
  obtain ⟨grown', data, change⟩ := grown.store call.content (by omega) (by have := room.long; omega)
  have slot := slot_lt found array
  have rank := name.lt
  rw [maxRank] at rank
  have arrays : w.numarrays + 1 = w.numarrays + if 0 < name.rank then 1 else 0 := by
    rw [if_pos (Nat.pos_of_ne_zero array)]
  refine ⟨DataWriter.push (BitVec.ofNat 32 (call.bytes name)) { w with mem := mem', numarrays := w.numarrays + 1 }, ?_,
    rfl, rfl, laid.advance found suits rfl arrays (bytes ▸ grown') ?_ data⟩
  · have found' : w.names.names[calls.length]? = some name := by
      rw [laid.names]
      exact found
    rw [DataWriter.allocate, found']
    simp only [if_pos type, laid.getPtr (by omega), ok_bind, called, bytes]
    rfl
  · intro _ k lt
    apply change.kept (dims k lt)
    left
    rw [toLe_length]
    omega

/-- Every call that suits the next entry is made, if there is room for it. -/
lemma step (laid : Laid x namesId src extent before calls w) {call : DataCall} {name : Name}
    (found : x.names[calls.length]? = some name) (suits : call.Suits calls.length name)
    (room : Room x extent calls w (call.bytes name)) :
    ∃ w', w.step call = .ok w' ∧ w'.bufEnd = w.bufEnd ∧ w'.parent = w.parent ∧
      Laid x namesId src extent before (calls ++ [call]) w' := by
  have content := suits.content_le
  have buffer := room.buffer
  have small := room.small
  have memory := room.memory
  have place := laid.place
  have next_eq : next x calls w = w.shapesdata + 36 + 20 * numArrays x.names + written x.names calls := rfl
  have found' : w.names.names[calls.length]? = some name := by
    rw [laid.names]
    exact found
  cases call with
  | setValue T index value =>
    have suits' := suits
    obtain ⟨rfl, scalar, type⟩ := suits'
    have bytes : DataCall.bytes (.setValue T calls.length value) name = T.size := by
      rw [DataCall.bytes, if_pos scalar]
      exact (checkType_size type).symm
    have size := value.size
    rw [bytes] at buffer small
    have ptr : w.shapesdata + 24 + 20 * numArrays x.names + sizeofXtc + (w.offset.getD w.numentries 0).toNat =
        next x calls w := by
      rw [laid.offset_getD, BitVec.toNat_ofNat, Nat.mod_eq_of_lt (by omega), sizeofXtc]
      omega
    -- the value is written before its place is allocated
    have within : next x calls w + value.bytes.length ≤ w.mem.length := by omega
    have stored := laid.change room.long (Changed.write within) (.inr (Nat.le_refl _))
    obtain ⟨w', called, bufEnd, parent, laid'⟩ := stored.scalar_ok found suits scalar bytes
      ⟨buffer, (Changed.write within).length.symm ▸ memory, room.long, small⟩ (.write within)
    refine ⟨w'.push (BitVec.ofNat 32 T.size), ?_, bufEnd, parent, laid'⟩
    rw [← laid.numentries] at found'
    simp only [DataWriter.step, DataWriter.setValue, laid.shapesdata.dataOf (by omega), ok_bind, ← laid.numentries,
      found', ne_eq, not_true_eq_false, if_false, if_pos type, ptr, ← checkType_size type, called]
    rfl
  | allocate T index shape elements =>
    have suits' := suits
    obtain ⟨rfl, array, type, fits⟩ := suits'
    obtain ⟨w', called, bufEnd, parent, laid'⟩ := laid.allocate_ok found suits array type room
    have called : w.allocate T calls.length shape = _ := called
    refine ⟨_, ?_, bufEnd, parent, laid'⟩
    simp only [DataWriter.step, called, ok_bind]
    rfl
  | setArrayShape index shape elements =>
    have suits' := suits
    obtain ⟨rfl, array, fits⟩ := suits'
    have content : elements.length ≤ DataCall.bytes (.setArrayShape calls.length shape elements) name := content
    -- the elements are written before the shape
    have within : next x calls w + elements.length ≤ w.mem.length := by omega
    have stored := laid.change room.long (Changed.write within) (.inr (Nat.le_refl _))
    obtain ⟨w', called, bufEnd, parent, laid'⟩ := stored.shape_ok found suits array
      ⟨buffer, (Changed.write within).length.symm ▸ memory, room.long, small⟩ (.write within)
    refine ⟨w', ?_, bufEnd, parent, laid'⟩
    simp only [DataWriter.step, laid.getPtr (by omega), ok_bind]
    exact called
  | setString index chars =>
    have suits' := suits
    obtain ⟨rfl, one, type, range⟩ := suits'
    have content : chars.length + 1 ≤ DataCall.bytes (.setString calls.length chars) name := by
      rw [DataCall.content, List.length_append] at content
      exact content
    obtain ⟨w', called, bufEnd, parent, laid'⟩ := laid.allocate_ok found suits (by omega) type room
    refine ⟨_, ?_, bufEnd, parent, laid'⟩
    have length : min (DataWriter.stringBytes chars.length) (w.bufEnd - next x calls w) =
        DataWriter.stringBytes chars.length := by
      rw [DataCall.string_bytes one type range] at buffer
      omega
    have all : chars.take (w.bufEnd - next x calls w - 1) = chars := List.take_of_length_le (by omega)
    have called : w.allocate .char calls.length (fun _ => BitVec.ofNat 32 (DataWriter.stringBytes chars.length)) = _ :=
      called
    simp only [DataWriter.step, DataWriter.setString, laid.getPtr (by omega), ok_bind, length, called, all]
    rfl

/-- Calls that suit the next entries are made, if there is room for them. -/
lemma run (laid : Laid x namesId src extent before calls w) (more : List DataCall)
    (suit : Suit x.names (calls ++ more)) (count : (calls ++ more).length ≤ x.fields.length)
    (buffer : w.parent + extent + 36 + 20 * numArrays x.names + written x.names (calls ++ more) ≤ w.bufEnd)
    (fits : w.bufEnd ≤ before.length) (long : 12 ≤ extent)
    (small : extent + 36 + 20 * numArrays x.names + written x.names (calls ++ more) < 2 ^ 32) :
    ∃ w', more.foldlM DataWriter.step w = .ok w' ∧ w'.parent = w.parent ∧
      Laid x namesId src extent before (calls ++ more) w' := by
  induction more generalizing calls w with
  | nil =>
    rw [List.append_nil]
    exact ⟨w, rfl, rfl, laid⟩
  | cons call more ih =>
    have split : calls ++ call :: more = calls ++ [call] ++ more := by rw [List.append_assoc, List.singleton_append]
    have here : (calls ++ call :: more)[calls.length]? = some call := by
      rw [List.getElem?_append_right (Nat.le_refl _), Nat.sub_self]
      rfl
    have lt : calls.length < x.names.length := by
      rw [NameIndex.names, List.length_map]
      rw [List.length_append, List.length_cons] at count
      omega
    have found : x.names[calls.length]? = some x.names[calls.length] := List.getElem?_eq_getElem lt
    have total := DataCall.written_snoc call found
    have part := @DataCall.written_take_le x.names (calls ++ [call] ++ more) (calls ++ [call]).length
    rw [List.take_left, total] at part
    rw [split] at buffer small
    have memory := laid.below.length.symm ▸ fits
    obtain ⟨w', called, bufEnd, parent, laid'⟩ := laid.step found (suit _ _ _ here found)
      ⟨by omega, memory, long, by omega⟩
    rw [split] at suit count
    rw [← bufEnd, ← parent] at buffer
    obtain ⟨w'', later, parent', laid''⟩ := ih laid' suit count buffer (bufEnd ▸ fits) small
    refine ⟨w'', ?_, parent'.trans parent, split ▸ laid''⟩
    rw [List.foldlM_cons, called]
    exact later

end Laid

end Lcls2.Xtc
