import Lcls2.Lib.Bytes
import Lcls2.Xtc.CreateData

/-!
# Reading described data

Model of the constructor of `DescData` that reads a `ShapesData` (`xtc/DescData.hh`): it computes where the data of
each name are, with the shapes of the arrays. The last round of its loop is the one before the last name, and the loop
counts with `unsigned`s, so that a `Names` without names is no case of it: `total_iff`.
-/

namespace Lcls2.Xtc
open Lib

/-- `sizeof(Name)`. -/
def sizeofName : Nat := 524

/-- The entries of a `Names`; their size is an `unsigned`. -/
structure NamesXtc where
  entries : List Name
  fits : entries.length * sizeofName < 2 ^ 32

/-- A `DescData` that reads. Its `_numarrays` goes along with the `shapeIndex` of the loop. -/
structure DescData where
  offset : List (BitVec 32)
  numarrays : Nat

namespace DescData

/-- One round of the loop: the data after those of a name. -/
def round (names : List Name) (shapes : List Shape) (i : Nat) (d : DescData) : Except DataFault DescData :=
  match names[i]? with
  | none => .error .noName
  | some name =>
    if name.rank = 0 then
      .ok { d with offset := d.offset.set (i + 1) (d.offset.getD i 0 + BitVec.ofNat 32 name.type.elementSize) }
    else
      match shapes[d.numarrays]? with
      | none => .error .noShape
      | some shape => .ok ⟨d.offset.set (i + 1) (d.offset.getD i 0 + shape.size name), d.numarrays + 1⟩

/-- Some rounds of the loop. -/
def rounds (names : List Name) (shapes : List Shape) : (n : Nat) → (i : Nat) → DescData → Except DataFault DescData
  | 0, _, d => .ok d
  | n + 1, i, d => d.round names shapes i >>= rounds names shapes n (i + 1)

/-- The body of the constructor, on some offsets. -/
def fill (names : List Name) (shapes : List Shape) (offset : List (BitVec 32)) : Except DataFault DescData :=
  rounds names shapes (BitVec.ofNat 32 names.length - 1).toNat 0 ⟨offset.set 0 0, 0⟩

/-- `DescData(shapesdata, nameindex)`. -/
def read (names : List Name) (shapes : List Shape) : Except DataFault DescData :=
  fill names shapes (List.replicate (names.length + 1) 0)

end DescData

/-- The size of what a name stands for. An array has the shape that is next. -/
def fieldBytes (names : List Name) (shapes : List Shape) (i : Nat) : Nat :=
  match names[i]? with
  | none => 0
  | some name =>
    if name.rank = 0 then name.type.elementSize
    else match shapes[numArrays (names.take i)]? with
      | none => 0
      | some shape => shape.bytes name

/-- The size of all that is before a name. -/
def fieldStart (names : List Name) (shapes : List Shape) (i : Nat) : Nat :=
  ((List.range i).map (fieldBytes names shapes)).sum

/-- The constructor ends without an access out of range, touches just as many offsets as there are names, and they are
    as far apart as the data are long. -/
structure Total (names : List Name) (shapes : List Shape) : Prop where
  fills : ∃ offset, offset.length = names.length ∧ ∀ unset, unset.length = names.length + 1 →
    ∃ d, DescData.fill names shapes unset = .ok d ∧ d.offset = offset ++ unset.drop names.length
  sizes : ∀ d, DescData.read names shapes = .ok d → ∀ i, i + 1 < names.length →
    (d.offset.getD (i + 1) 0).toNat = (d.offset.getD i 0).toNat + fieldBytes names shapes i

lemma numArrays_mono {names : List Name} {i j : Nat} (h : i ≤ j) :
    numArrays (names.take i) ≤ numArrays (names.take j) :=
  (List.take_sublist_take_left h).countP_le

lemma fieldStart_succ (names : List Name) (shapes : List Shape) (i : Nat) :
    fieldStart names shapes (i + 1) = fieldStart names shapes i + fieldBytes names shapes i := by
  rw [fieldStart, List.range_succ, List.map_append, List.sum_append, List.map_singleton, List.sum_singleton]
  rfl

lemma fieldStart_mono {names : List Name} {shapes : List Shape} {i j : Nat} (h : i ≤ j) :
    fieldStart names shapes i ≤ fieldStart names shapes j := by
  induction h with
  | refl => exact Nat.le_refl _
  | step _ ih =>
    rw [fieldStart_succ]
    exact Nat.le_add_right_of_le ih

namespace DescData

variable {names : List Name} {shapes : List Shape} {offset : List (BitVec 32)} {i n : Nat}

/-- The offsets before round `i`: they are set up to there. -/
def setUpTo (names : List Name) (shapes : List Shape) (unset : List (BitVec 32)) (i : Nat) : DescData :=
  ⟨(List.range (i + 1)).map (fun j => BitVec.ofNat 32 (fieldStart names shapes j)) ++ unset.drop (i + 1),
    numArrays (names.take i)⟩

/-- The offsets that are set. -/
lemma setUpTo_getD (names : List Name) (shapes : List Shape) (unset : List (BitVec 32)) {i j : Nat} (h : j ≤ i) :
    (setUpTo names shapes unset i).offset.getD j 0 = BitVec.ofNat 32 (fieldStart names shapes j) := by
  have lt : j < (List.range (i + 1)).length := by
    rw [List.length_range]
    omega
  rw [setUpTo, List.getD_append _ _ _ _ (by rwa [List.length_map]), List.getD_eq_getElem _ _ (by rwa [List.length_map]),
    List.getElem_map, List.getElem_range]

/-- The size of an array as an `unsigned`. -/
lemma size_eq (shape : Shape) (name : Name) : shape.size name = BitVec.ofNat 32 (shape.bytes name) := by
  apply BitVec.eq_of_toNat_eq
  rw [size_toNat, BitVec.toNat_ofNat]

/-- A round adds the size of the name to its offset, if an array has a shape. -/
lemma round_eq {d : DescData} (hi : i < names.length) (arrays : d.numarrays = numArrays (names.take i)) :
    d.round names shapes i =
      if numArrays (names.take (i + 1)) ≤ max shapes.length d.numarrays then
        .ok ⟨d.offset.set (i + 1) (d.offset.getD i 0 + BitVec.ofNat 32 (fieldBytes names shapes i)),
          numArrays (names.take (i + 1))⟩
      else .error .noShape := by
  have found : names[i]? = some names[i] := List.getElem?_eq_getElem hi
  have next := CreateData.numArrays_take_succ found
  simp only [round, found, fieldBytes]
  by_cases scalar : names[i].rank = 0
  · rw [if_neg (Nat.not_lt.mpr scalar.le)] at next
    have next : numArrays (names.take (i + 1)) = d.numarrays := next.trans arrays.symm
    rw [if_pos scalar, next, if_pos (Nat.le_max_right ..), if_pos scalar]
  · rw [if_pos (Nat.pos_of_ne_zero scalar), ← arrays] at next
    rw [if_neg scalar, next, if_neg scalar, ← arrays]
    by_cases slot : d.numarrays < shapes.length
    · rw [if_pos (by omega), List.getElem?_eq_getElem slot]
      simp only [size_eq]
    · rw [if_neg (by omega), List.getElem?_eq_none (by omega)]

/-- A round sets the next offset. -/
lemma round_setUpTo {unset : List (BitVec 32)} (hi : i < names.length) (long : i + 1 < unset.length) :
    (setUpTo names shapes unset i).round names shapes i =
      if numArrays (names.take (i + 1)) ≤ max shapes.length (numArrays (names.take i)) then
        .ok (setUpTo names shapes unset (i + 1))
      else .error .noShape := by
  rw [round_eq hi rfl, setUpTo_getD names shapes unset (Nat.le_refl i), ← BitVec.ofNat_add, ← fieldStart_succ]
  simp only [setUpTo]
  rw [List.set_append_right _ _ (by simp), @List.range_succ (i + 1), List.map_append, List.append_assoc,
    List.drop_eq_getElem_cons long]
  simp only [List.length_map, List.length_range, Nat.sub_self, List.set_cons_zero, List.map_singleton,
    List.singleton_append]

/-- The rounds set the offsets, as long as the arrays have shapes. -/
lemma rounds_eq {unset : List (BitVec 32)} (hn : i + n < names.length) (long : i + n < unset.length)
    (slots : numArrays (names.take i) ≤ shapes.length) :
    rounds names shapes n i (setUpTo names shapes unset i) =
      if numArrays (names.take (i + n)) ≤ shapes.length then .ok (setUpTo names shapes unset (i + n))
      else .error .noShape := by
  induction n generalizing i with
  | zero =>
    rw [Nat.add_zero, if_pos slots]
    rfl
  | succ n ih =>
    rw [rounds, round_setUpTo (by omega) (by omega), Nat.max_eq_left slots]
    by_cases slot : numArrays (names.take (i + 1)) ≤ shapes.length
    · rw [if_pos slot, ok_bind, ih (by omega) (by omega) slot, Nat.add_assoc, Nat.add_comm 1 n]
    · have later : ¬ numArrays (names.take (i + (n + 1))) ≤ shapes.length := by
        intro h
        exact slot (Nat.le_trans (numArrays_mono (by omega)) h)
      rw [if_neg slot, if_neg later]
      rfl

/-- Without names, the first round goes wrong; otherwise every offset but the last is set. -/
lemma fill_eq (names : NamesXtc) (shapes : List Shape) {unset : List (BitVec 32)}
    (long : unset.length = names.entries.length + 1) :
    fill names.entries shapes unset =
      if names.entries = [] then .error .noName
      else if numArrays names.entries.dropLast ≤ shapes.length then
        .ok (setUpTo names.entries shapes unset (names.entries.length - 1))
      else .error .noShape := by
  have fits := names.fits
  have few : names.entries.length < 2 ^ 32 := by
    rw [sizeofName] at fits
    omega
  by_cases empty : names.entries = []
  · rw [if_pos empty, fill, empty]
    rfl
  · have pos := List.length_pos_of_ne_nil empty
    have bound : (BitVec.ofNat 32 names.entries.length - 1).toNat = names.entries.length - 1 := by
      rw [BitVec.toNat_sub, BitVec.toNat_ofNat, Nat.mod_eq_of_lt few]
      show (2 ^ 32 - 1 + _) % 2 ^ 32 = _
      omega
    have start : (⟨unset.set 0 0, 0⟩ : DescData) = setUpTo names.entries shapes unset 0 := by
      cases unset with
      | nil => cases long
      | cons _ _ => rfl
    rw [if_neg empty, fill, bound, start, rounds_eq (by omega) (by omega) (Nat.zero_le _), Nat.zero_add,
      List.dropLast_eq_take]

end DescData

/-- The offsets are right just when there is a name, every array but a last one has a shape, and what is before the
last name is an `unsigned`. -/
theorem total_iff (names : NamesXtc) (shapes : List Shape) :
    Total names.entries shapes ↔
      names.entries ≠ [] ∧ numArrays names.entries.dropLast ≤ shapes.length ∧
        fieldStart names.entries shapes (names.entries.length - 1) < 2 ^ 32 := by
  have pos : names.entries ≠ [] → 0 < names.entries.length := List.length_pos_of_ne_nil
  by_cases ok : names.entries ≠ [] ∧ numArrays names.entries.dropLast ≤ shapes.length
  · obtain ⟨named, slots⟩ := ok
    have pos := pos named
    have filled : ∀ unset : List (BitVec 32), unset.length = names.entries.length + 1 →
        DescData.fill names.entries shapes unset =
          .ok (DescData.setUpTo names.entries shapes unset (names.entries.length - 1)) := by
      intro unset long
      rw [DescData.fill_eq names shapes long, if_neg named, if_pos slots]
    have back : names.entries.length - 1 + 1 = names.entries.length := by omega
    rw [and_iff_right named, and_iff_right slots]
    constructor
    · intro total
      have sizes := total.sizes _ (filled _ List.length_replicate)
      have each : ∀ i < names.entries.length,
          (BitVec.ofNat 32 (fieldStart names.entries shapes i)).toNat = fieldStart names.entries shapes i := by
        intro i hi
        induction i with
        | zero => rfl
        | succ i ih =>
          have step := sizes i hi
          rw [DescData.setUpTo_getD _ _ _ (by omega), DescData.setUpTo_getD _ _ _ (by omega), ih (by omega)] at step
          rw [step, fieldStart_succ]
      rw [← each (names.entries.length - 1) (by omega)]
      exact BitVec.isLt _
    · intro small
      refine ⟨⟨(List.range names.entries.length).map fun j => BitVec.ofNat 32 (fieldStart names.entries shapes j),
        ?_, ?_⟩, ?_⟩
      · rw [List.length_map, List.length_range]
      · intro unset long
        refine ⟨_, filled unset long, ?_⟩
        simp only [DescData.setUpTo, back]
      · intro d h i hi
        cases (filled _ List.length_replicate).symm.trans h
        have le : fieldStart names.entries shapes (i + 1) < 2 ^ 32 :=
          Nat.lt_of_le_of_lt (fieldStart_mono (by omega)) small
        have next := fieldStart_succ names.entries shapes i
        rw [DescData.setUpTo_getD _ _ _ (by omega), DescData.setUpTo_getD _ _ _ (by omega), BitVec.toNat_ofNat,
          BitVec.toNat_ofNat, Nat.mod_eq_of_lt le, Nat.mod_eq_of_lt (by omega), next]
  · have stuck : ∀ unset : List (BitVec 32), unset.length = names.entries.length + 1 →
        ∀ d, DescData.fill names.entries shapes unset ≠ .ok d := by
      intro unset long d
      rw [DescData.fill_eq names shapes long]
      split
      · nofun
      · rename_i named
        rw [if_neg fun slots => ok ⟨named, slots⟩]
        nofun
    refine iff_of_false ?_ fun h => ok ⟨h.1, h.2.1⟩
    intro total
    obtain ⟨offset, _, fills⟩ := total.fills
    have long : (List.replicate (names.entries.length + 1) (0 : BitVec 32)).length = names.entries.length + 1 :=
      List.length_replicate
    obtain ⟨d, h, _⟩ := fills _ long
    exact stuck _ long d h

/-- The loop of a `Names` without names does not end before it reads a name that is not there. -/
theorem no_names_read : (BitVec.ofNat 32 ([] : List Name).length - 1).toNat = 4294967295 ∧
    DescData.read [] [] = .error .noName ∧ ¬ Total [] [] := by
  refine ⟨by decide, rfl, ?_⟩
  intro total
  obtain ⟨offset, -, fills⟩ := total.fills
  obtain ⟨d, h, -⟩ := fills [0] rfl
  cases h

end Lcls2.Xtc
