import Lcls2.Xtc.DataMemory

/-!
# The layout of described data

The bytes of a `ShapesData`: after its header come the header of the `Shapes` with a shape for each array, and the
header of the `Data` with the data. The extents of `ShapesDataAt` say that every `Xtc` is as long as its header and what
it contains: the constructor of `CreateData` makes such a `ShapesData`, and an allocation of data keeps it so.
-/

namespace Lcls2.Xtc
open Lib

/-! ## Headers -/

section headers
variable {mem bs data : Bytes} {a b offset src ext size bufEnd : Nat} {type : XtcType}

/-- A header in memory. -/
structure HeaderAt (mem : Bytes) (a src : Nat) (type : XtcType) (ext : Nat) : Prop where
  src : At mem a (toLe 4 src)
  kind : At mem (a + 4) (toLe 2 0 ++ toLe 2 type.value)
  extent : At mem (a + 8) (toLe 4 ext)

/-- The number of a type has a few bits. -/
lemma XtcType.value_lt (type : XtcType) : type.value < 5 := by
  cases type <;> decide

/-- An extent that is read. -/
lemma extent_of (here : At mem (a + 8) (toLe 4 ext)) (small : ext < 2 ^ 32) : extent mem a = ext := by
  rw [At, toLe_length] at here
  rw [extent, here]
  exact ofLe_toLe small

/-- A type that is read. -/
lemma HeaderAt.typeId (here : HeaderAt mem a src type ext) : typeId mem a = type.value := by
  have lt := type.value_lt
  have part := @At.part mem _ (a + 4) here.kind 2 2 (by simp)
  have number : slice (toLe 2 0 ++ toLe 2 type.value) 2 (2 + 2) = toLe 2 type.value := rfl
  rw [number] at part
  rw [Xtc.typeId, contains, show slice mem (a + 6) (a + 8) = toLe 2 type.value from part,
    ofLe_toLe (by omega), Nat.mod_eq_of_lt (by omega)]

/-- It has no damage. -/
lemma HeaderAt.undamaged (here : HeaderAt mem a src type ext) : corrupted mem a = false := by
  have part := @At.part mem _ (a + 4) here.kind 0 2 (by simp)
  have number : slice (toLe 2 0 ++ toLe 2 type.value) 0 (0 + 2) = toLe 2 0 := rfl
  rw [number] at part
  rw [corrupted, damage, show slice mem (a + 4) (a + 6) = toLe 2 0 from part]
  rfl

/-- A source that is read. -/
lemma HeaderAt.srcValue (here : HeaderAt mem a src type ext) (small : src < 2 ^ 28) : srcValue mem a = src := by
  have read := here.src
  rw [At, toLe_length] at read
  rw [Xtc.srcValue, read, ofLe_toLe (by omega), Nat.mod_eq_of_lt small]

/-- A change beside a header. -/
lemma HeaderAt.kept {mem' : Bytes} {lo hi : Nat} (here : HeaderAt mem a src type ext) (change : Changed lo hi mem mem')
    (apart : a + 12 ≤ lo ∨ hi ≤ a) : HeaderAt mem' a src type ext := by
  refine ⟨change.kept here.src ?_, change.kept here.kind ?_, change.kept here.extent ?_⟩
  · rw [toLe_length]
    omega
  · simp only [List.length_append, toLe_length]
    omega
  · rw [toLe_length]
    omega

/-- A new extent. -/
lemma HeaderAt.grow (here : HeaderAt mem a src type ext) (fits : a + 12 ≤ mem.length) (ext' : Nat) :
    HeaderAt (writeAt mem (a + 8) (toLe 4 ext')) a src type ext' ∧
      Changed (a + 8) (a + 12) mem (writeAt mem (a + 8) (toLe 4 ext')) := by
  have within : a + 8 + (toLe 4 ext').length ≤ mem.length := by
    rw [toLe_length]
    omega
  have change := Changed.write within
  rw [toLe_length] at change
  refine ⟨⟨change.kept here.src ?_, change.kept here.kind ?_, .write within⟩, change⟩
  · rw [toLe_length]
    omega
  · simp only [List.length_append, toLe_length]
    omega

/-- A new header. -/
lemma HeaderAt.new (fits : a + 12 ≤ mem.length) (src : Nat) (type : XtcType) :
    HeaderAt (writeAt mem a (newHeader src type)) a src type 12 ∧
      Changed a (a + 12) mem (writeAt mem a (newHeader src type)) := by
  have length : (newHeader src type).length = 12 := by
    simp only [newHeader, List.length_append, toLe_length]
  have within : a + (newHeader src type).length ≤ mem.length := by
    rw [length]
    exact fits
  have change := Changed.write within
  have here : At (writeAt mem a (newHeader src type)) a (newHeader src type) := .write within
  rw [length] at change
  refine ⟨⟨?_, here.within (k := 4) rfl ?_, here.within (k := 8) rfl ?_⟩, change⟩
  · exact here.within (k := 0) rfl (by rw [length, toLe_length]; omega)
  · rw [length]
    simp only [List.length_append, toLe_length]
    omega
  · rw [length, toLe_length]

/-- An allocation that the buffer has room for. -/
lemma HeaderAt.alloc (here : HeaderAt mem a src type ext) (bufEnd size : Nat) (room : a + ext + size ≤ bufEnd)
    (long : 12 ≤ ext) (small : ext < 2 ^ 32) (fits : bufEnd ≤ mem.length) :
    ∃ mem', allocAt bufEnd mem a size = .ok (a + ext, mem') ∧ HeaderAt mem' a src type (ext + size) ∧
      Changed (a + 8) (a + 12) mem mem' := by
  refine ⟨writeAt mem (a + 8) (toLe 4 (ext + size)), ?_, here.grow (by omega) _⟩
  rw [allocAt, extent_of here.extent small, if_neg (Nat.not_lt.mpr room)]

end headers

/-! ## Shapes -/

section shapes
variable {mem bs : Bytes} {a cell rank i : Nat} {shape : Shape}

/-- The dimensions that are written. -/
lemma writeShape_changed (fits : cell + 4 * rank ≤ mem.length) :
    Changed cell (cell + 4 * rank) mem (writeShape mem cell shape rank) := by
  induction rank with
  | zero => exact .refl
  | succ rank ih =>
    have before := ih (by omega)
    have within : cell + 4 * rank + (toLe 4 (shape rank).toNat).length ≤
        (writeShape mem cell shape rank).length := by
      rw [before.length, toLe_length]
      omega
    have last := Changed.write within
    rw [toLe_length] at last
    exact (before.widen (Nat.le_refl _) (by omega)).trans (last.widen (by omega) (by omega))

/-- Each of them. -/
lemma writeShape_word (fits : cell + 4 * rank ≤ mem.length) (lt : i < rank) :
    At (writeShape mem cell shape rank) (cell + 4 * i) (toLe 4 (shape i).toNat) := by
  induction rank with
  | zero => cases lt
  | succ rank ih =>
    have within : cell + 4 * rank + (toLe 4 (shape rank).toNat).length ≤
        (writeShape mem cell shape rank).length := by
      rw [(@writeShape_changed mem cell rank shape (by omega)).length, toLe_length]
      omega
    cases Nat.lt_succ_iff_lt_or_eq.mp lt with
    | inl before =>
      apply (Changed.write within).kept (ih (by omega) before)
      rw [toLe_length]
      omega
    | inr last =>
      subst last
      exact .write within

/-- A dimension that is read. -/
lemma shapeAt_of (here : At mem (cell + 4 * i) (toLe 4 (shape i).toNat)) : shapeAt mem cell i = shape i := by
  rw [At, toLe_length] at here
  rw [shapeAt, here, ofLe_toLe (shape i).isLt, BitVec.ofNat_toNat, BitVec.setWidth_eq]

end shapes

/-! ## The parts of a `ShapesData` -/

/-- A `ShapesData` with the shapes of some arrays and data of some size: each `Xtc` is as long as its header and what
    it contains. -/
structure ShapesDataAt (mem : Bytes) (sd namesId arrays size : Nat) : Prop where
  header : HeaderAt mem sd namesId .ShapesData (36 + 20 * arrays + size)
  shapes : HeaderAt mem (sd + 12) 0 .Shapes (12 + 20 * arrays)
  data : HeaderAt mem (sd + 24 + 20 * arrays) 0 .Data (12 + size)

namespace ShapesDataAt

variable {mem mem' : Bytes} {sd namesId arrays size lo hi : Nat}

/-- Where the shapes are. -/
lemma shapesOf (here : ShapesDataAt mem sd namesId arrays size) : shapesOf mem sd = .ok (sd + 12) := by
  have first : firstIsShapes mem sd = true := by
    rw [firstIsShapes, firstOf, sizeofXtc, here.shapes.typeId]
    rfl
  rw [Xtc.shapesOf, first, if_pos rfl]
  rfl

/-- Where the data are. -/
lemma dataOf (here : ShapesDataAt mem sd namesId arrays size) (small : 36 + 20 * arrays + size < 2 ^ 32) :
    dataOf mem sd = .ok (sd + 24 + 20 * arrays) := by
  have first : firstIsShapes mem sd = true := by
    rw [firstIsShapes, firstOf, sizeofXtc, here.shapes.typeId]
    rfl
  have second : secondOf mem sd = sd + 24 + 20 * arrays := by
    rw [secondOf, firstOf, sizeofXtc, extent_of here.shapes.extent (by omega)]
    omega
  simp only [Xtc.dataOf, first, if_true, second, here.data.typeId]

/-- A change outside of the headers. -/
lemma kept (here : ShapesDataAt mem sd namesId arrays size) (change : Changed lo hi mem mem')
    (apart : hi ≤ sd ∨ sd + 24 ≤ lo ∧ hi ≤ sd + 24 + 20 * arrays ∨ sd + 36 + 20 * arrays ≤ lo) :
    ShapesDataAt mem' sd namesId arrays size := by
  refine ⟨here.header.kept change ?_, here.shapes.kept change ?_, here.data.kept change ?_⟩
  · omega
  · omega
  · omega

end ShapesDataAt

/-- Before the end of the parent, nothing but its extent is changed. -/
structure Below (parent sd : Nat) (mem mem' : Bytes) : Prop where
  length : mem'.length = mem.length
  apart : ∀ a b, b ≤ sd → b ≤ parent + 8 ∨ parent + 12 ≤ a → slice mem' a b = slice mem a b

namespace Below

variable {mem mem' mem'' : Bytes} {parent sd lo hi : Nat}

/-- The extent of the parent is changed. -/
lemma of_extent (change : Changed (parent + 8) (parent + 12) mem mem') : Below parent sd mem mem' :=
  ⟨change.length, fun a b _ => change.apart a b⟩

/-- What comes after is changed. -/
lemma of_after (change : Changed lo hi mem mem') (after : sd ≤ lo) : Below parent sd mem mem' := by
  refine ⟨change.length, ?_⟩
  intro a b below _
  exact change.apart a b (.inl (Nat.le_trans below after))

/-- One change after the other. -/
lemma trans (h : Below parent sd mem mem') (h' : Below parent sd mem' mem'') : Below parent sd mem mem'' := by
  refine ⟨h'.length.trans h.length, ?_⟩
  intro a b below apart
  exact (h'.apart a b below apart).trans (h.apart a b below apart)

end Below

/-- A `ShapesData` that is being made at the end of a parent: the extents of the parent, of the `ShapesData` and of its
    `Shapes`. -/
structure Making (parent extent src namesId : Nat) (before mem : Bytes) (r s h : Nat) : Prop where
  root : HeaderAt mem parent src .Parent r
  header : HeaderAt mem (parent + extent) namesId .ShapesData s
  shapes : HeaderAt mem (parent + extent + 12) 0 .Shapes h
  below : Below parent (parent + extent) before mem

namespace Making

variable {before mem : Bytes} {parent extent src namesId r s h size bufEnd : Nat}

/-- An allocation in the parent. -/
lemma allocParent (made : Making parent extent src namesId before mem r s h) (size : Nat) (long : 12 ≤ extent)
    (fits : bufEnd ≤ before.length) (le : extent ≤ r) (room : parent + r + size ≤ bufEnd) (small : r < 2 ^ 32) :
    ∃ mem', allocAt bufEnd mem parent size = .ok (parent + r, mem') ∧
      Making parent extent src namesId before mem' (r + size) s h := by
  have fits := made.below.length.symm ▸ fits
  obtain ⟨mem', alloc, root, change⟩ := made.root.alloc bufEnd size room (by omega) small fits
  exact ⟨mem', alloc, root, made.header.kept change (by omega), made.shapes.kept change (by omega),
    made.below.trans (.of_extent change)⟩

/-- An allocation in the `ShapesData`. -/
lemma allocHeader (made : Making parent extent src namesId before mem r s h) (size : Nat) (long : 12 ≤ extent)
    (fits : bufEnd ≤ before.length) (le : 12 ≤ s) (room : parent + extent + s + size ≤ bufEnd) (small : s < 2 ^ 32) :
    ∃ mem', allocAt bufEnd mem (parent + extent) size = .ok (parent + extent + s, mem') ∧
      Making parent extent src namesId before mem' r (s + size) h := by
  have fits := made.below.length.symm ▸ fits
  obtain ⟨mem', alloc, header, change⟩ := made.header.alloc bufEnd size room le small fits
  exact ⟨mem', alloc, made.root.kept change (by omega), header, made.shapes.kept change (by omega),
    made.below.trans (.of_after change (by omega))⟩

/-- An allocation in the `Shapes`. -/
lemma allocShapes (made : Making parent extent src namesId before mem r s h) (size : Nat) (long : 12 ≤ extent)
    (fits : bufEnd ≤ before.length) (le : 12 ≤ h) (room : parent + extent + 12 + h + size ≤ bufEnd)
    (small : h < 2 ^ 32) :
    ∃ mem', allocAt bufEnd mem (parent + extent + 12) size = .ok (parent + extent + 12 + h, mem') ∧
      Making parent extent src namesId before mem' r s (h + size) := by
  have fits := made.below.length.symm ▸ fits
  obtain ⟨mem', alloc, shapes, change⟩ := made.shapes.alloc bufEnd size room le small fits
  exact ⟨mem', alloc, made.root.kept change (by omega), made.header.kept change (by omega), shapes,
    made.below.trans (.of_after change (by omega))⟩

end Making

namespace DataWriter

variable {x : NameIndex} {mem : Bytes} {bufEnd parent src namesId extent : Nat}

/-- The headers of the `ShapesData` and of the `Shapes`. -/
lemma headers_ok (root : HeaderAt mem parent src .Parent extent) (long : 12 ≤ extent)
    (room : parent + extent + 36 ≤ bufEnd) (fits : bufEnd ≤ mem.length) (small : extent < 2 ^ 32) :
    ∃ mem1 mem3, allocAt bufEnd mem parent 12 = .ok (parent + extent, mem1) ∧
      allocAt bufEnd (writeAt mem1 (parent + extent) (newHeader namesId .ShapesData)) (parent + extent) 12 =
        .ok (parent + extent + 12, mem3) ∧
      Making parent extent src namesId mem (writeAt mem3 (parent + extent + 12) (newHeader 0 .Shapes))
        (extent + 12) 24 12 := by
  obtain ⟨mem1, alloc1, root, change1⟩ := root.alloc bufEnd 12 (by omega) long small fits
  have length1 := change1.length
  obtain ⟨header, change2⟩ := @HeaderAt.new mem1 (parent + extent) (by omega) namesId .ShapesData
  have root := root.kept change2 (by omega)
  have length2 := change2.length
  obtain ⟨mem3, alloc3, header, change3⟩ :=
    header.alloc bufEnd 12 (by omega) (by omega) (by omega) (by omega)
  have root := root.kept change3 (by omega)
  have length3 := change3.length
  obtain ⟨shapes, change4⟩ := @HeaderAt.new mem3 (parent + extent + 12) (by omega) 0 .Shapes
  refine ⟨mem1, mem3, alloc1, alloc3, root.kept change4 (by omega), header.kept change4 (by omega), shapes, ?_⟩
  exact (Below.of_extent change1).trans
    (((Below.of_after change2 (by omega)).trans (.of_after change3 (by omega))).trans (.of_after change4 (by omega)))

/-- The constructor makes a `ShapesData` without data at the end of the parent. -/
lemma new_ok (root : HeaderAt mem parent src .Parent extent) (long : 12 ≤ extent)
    (room : parent + extent + 36 + 20 * numArrays x.names ≤ bufEnd) (fits : bufEnd ≤ mem.length)
    (small : extent + 36 + 20 * numArrays x.names < 2 ^ 32) :
    ∃ mem', new x namesId bufEnd parent mem = .ok ⟨x, bufEnd, parent, parent + extent, mem', [0#32], 0, 0⟩ ∧
      HeaderAt mem' parent src .Parent (extent + 36 + 20 * numArrays x.names) ∧
      ShapesDataAt mem' (parent + extent) namesId (numArrays x.names) 0 ∧
      Below parent (parent + extent) mem mem' := by
  have size : numArrays x.names * sizeofShape % 2 ^ 32 = 20 * numArrays x.names := by
    rw [sizeofShape]
    omega
  obtain ⟨mem1, mem3, alloc1, alloc3, made⟩ := @headers_ok mem bufEnd parent src namesId extent root long (by omega)
    fits (by omega)
  -- the shapes
  obtain ⟨mem5, alloc5, made⟩ := made.allocShapes 0 long fits (by omega) (by omega) (by omega)
  obtain ⟨mem6, alloc6, made⟩ := made.allocParent 12 long fits (by omega) (by omega) (by omega)
  obtain ⟨mem7, alloc7, made⟩ := made.allocParent (20 * numArrays x.names) long fits (by omega) (by omega)
    (by omega)
  obtain ⟨mem8, alloc8, made⟩ := made.allocHeader (20 * numArrays x.names) long fits (by omega) (by omega)
    (by omega)
  obtain ⟨mem9, alloc9, made⟩ := made.allocShapes (20 * numArrays x.names) long fits (by omega) (by omega)
    (by omega)
  -- the data
  obtain ⟨mem10, alloc10, made⟩ := made.allocHeader 12 long fits (by omega) (by omega) (by omega)
  have length10 := made.below.length
  have place : parent + extent + (24 + 20 * numArrays x.names) = parent + extent + 24 + 20 * numArrays x.names := by
    omega
  obtain ⟨data, change⟩ := @HeaderAt.new mem10 (parent + extent + 24 + 20 * numArrays x.names) (by omega) 0 .Data
  have made : Making parent extent src namesId mem _ _ _ _ :=
    ⟨made.root.kept change (by omega), made.header.kept change (by omega), made.shapes.kept change (by omega),
      made.below.trans (.of_after change (by omega))⟩
  have fits' := made.below.length.symm ▸ fits
  obtain ⟨mem12, alloc12, root, last⟩ := made.root.alloc bufEnd 12 (by omega) (by omega) (by omega)
    fits'
  refine ⟨mem12, ?_, ?_, ⟨?_, ?_, ?_⟩, made.below.trans (.of_extent last)⟩
  · simp only [new, alloc1, alloc3, alloc5, alloc6, alloc7, alloc8, alloc9, alloc10, alloc12, size, place, ok_bind]
    rfl
  · rw [show extent + 36 + 20 * numArrays x.names = extent + 12 + 12 + 20 * numArrays x.names + 12 by omega]
    exact root
  · rw [show 36 + 20 * numArrays x.names + 0 = 24 + 20 * numArrays x.names + 12 by omega]
    exact made.header.kept last (by omega)
  · exact made.shapes.kept last (by omega)
  · exact data.kept last (by omega)

/-- What an allocation in the data changes. -/
lemma allocData_ok {w : DataWriter} {arrays size : Nat} {more : BitVec 32}
    (root : HeaderAt w.mem w.parent src .Parent extent)
    (here : ShapesDataAt w.mem w.shapesdata namesId arrays size) (long : w.parent + 12 ≤ w.shapesdata)
    (place : w.shapesdata + 36 + 20 * arrays + size = w.parent + extent)
    (room : w.parent + extent + more.toNat ≤ w.bufEnd) (fits : w.bufEnd ≤ w.mem.length)
    (small : extent < 2 ^ 32) :
    ∃ mem', w.allocData more = .ok { w with mem := mem' } ∧
      HeaderAt mem' w.parent src .Parent (extent + more.toNat) ∧
      ShapesDataAt mem' w.shapesdata namesId arrays (size + more.toNat) ∧
      Below w.parent w.shapesdata w.mem mem' ∧
      ∀ a bs, At w.mem a bs →
        w.shapesdata + 24 ≤ a ∧ a + bs.length ≤ w.shapesdata + 24 + 20 * arrays ∨
          w.shapesdata + 36 + 20 * arrays ≤ a → At mem' a bs := by
  have found := here.dataOf (by omega)
  obtain ⟨mem1, alloc1, root, change1⟩ := root.alloc w.bufEnd more.toNat room (by omega) small fits
  have here := here.kept change1 (by omega)
  have length1 := change1.length
  obtain ⟨mem2, alloc2, header, change2⟩ := here.header.alloc w.bufEnd more.toNat
    (by omega) (by omega) (by omega) (by omega)
  have shapes := here.shapes.kept change2 (by omega)
  have data := here.data.kept change2 (by omega)
  have length2 := change2.length
  obtain ⟨mem3, alloc3, data, change3⟩ := data.alloc w.bufEnd more.toNat
    (by omega) (by omega) (by omega) (by omega)
  refine ⟨mem3, ?_, ?_, ⟨?_, ?_, ?_⟩, ?_, ?_⟩
  · simp only [allocData, found, alloc1, alloc2, alloc3, ok_bind]
    rfl
  · exact (root.kept change2 (by omega)).kept change3 (by omega)
  · rw [← Nat.add_assoc]
    exact header.kept change3 (by omega)
  · exact shapes.kept change3 (by omega)
  · rw [← Nat.add_assoc]
    exact data
  · exact ((Below.of_extent change1).trans (.of_after change2 (by omega))).trans (.of_after change3 (by omega))
  · intro a bs cell apart
    exact change3.kept (change2.kept (change1.kept cell (by omega)) (by omega)) (by omega)

end DataWriter

end Lcls2.Xtc
