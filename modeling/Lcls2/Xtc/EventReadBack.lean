import Lcls2.Xtc.DataFilling

/-!
# An event that is read back

An event is written into an empty parent, detector by detector, and read from memory: the iteration goes from one
`ShapesData` to the next, and of each of them `get_value` and `get_array` get what was written. `event_read_back` is
about events that fit into the buffer and are less than 2 GiB long; the names of the arrays of a detector are distinct,
as a reader looks for the shape of an array by its name.
-/

namespace Lcls2.Xtc
open Lib

/-- What a reader gets for an entry: the value, or an array of the shape that was given to it, which begins with what
    was written. -/
def DataCall.ReadBack (mem : Bytes) (x : NameIndex) (shapesdata index : Nat) (name : Name) : DataCall → Prop
  | .setValue T _ value => getValue mem x shapesdata T index = .ok value.bytes
  | call => ∃ shape bytes, getArray mem x shapesdata index = .ok (shape, bytes) ∧
      (∀ k < name.rank, shape k = call.shape k) ∧ bytes.length = call.shape.bytes name ∧ call.content <+: bytes

namespace Detector

/-- The size of what is written of a detector. -/
def bytes (d : Detector) : Nat := 36 + 20 * numArrays d.names.names + written d.names.names d.calls

/-- A call for each entry, in order. -/
structure Suits (d : Detector) : Prop where
  namesId : d.namesId < 2 ^ 28
  distinct : d.names.arrayNames.Nodup
  whole : d.calls.length = d.names.fields.length
  calls : Suit d.names.names d.calls

/-- What a reader gets of a detector. -/
structure ReadAt (mem : Bytes) (shapesdata : Nat) (d : Detector) : Prop where
  kind : typeId mem shapesdata = XtcType.ShapesData.value
  namesId : srcValue mem shapesdata = d.namesId
  entries : ∀ i (call : DataCall) name, d.calls[i]? = some call → d.names.names[i]? = some name →
    call.ReadBack mem d.names shapesdata i name

end Detector

/-- The extent of an event. -/
def eventBytes (ds : List Detector) : Nat := 12 + (ds.map Detector.bytes).sum

/-- Where the `ShapesData` of each detector is. -/
def placeOf (parent : Nat) (ds : List Detector) (k : Nat) : Nat := parent + eventBytes (ds.take k)

/-! ## Reading an entry -/

section reading
variable {mem : Bytes} {x : NameIndex} {sd namesId size : Nat} {calls : List DataCall} {call : DataCall} {name : Name}
variable {i : Nat}

/-- The shapes that a reader gets. -/
def shapesRead (mem : Bytes) (sd n : Nat) : List Shape :=
  (List.range n).map fun k => shapeAt mem (shapeCell (sd + 12) k)

lemma shapesIn_ok {arrays n : Nat} (here : ShapesDataAt mem sd namesId arrays size) :
    shapesIn mem sd n = .ok (shapesRead mem sd n) := by
  unfold shapesIn
  split
  · rename_i none
    rw [shapesRead, none]
    rfl
  · rw [here.shapesOf]
    rfl

/-- The shape of an array that is read. -/
lemma shape_read (contents : Contents mem x sd calls) (here : calls[i]? = some call) (found : x.names[i]? = some name)
    (array : name.rank ≠ 0) {k : Nat} (lt : k < name.rank) :
    shapeAt mem (shapeCell (sd + 12) (numArrays (x.names.take i))) k = call.shape k := by
  have cell : shapeCell (sd + 12) (numArrays (x.names.take i)) = sd + 24 + 20 * numArrays (x.names.take i) := by
    rw [shapeCell, sizeofXtc, sizeofShape]
  rw [cell]
  exact shapeAt_of (contents.dims i call name here found array k lt)

/-- The size of an entry that is read. -/
lemma fieldBytes_read (contents : Contents mem x sd calls) {n : Nat} (here : calls[i]? = some call)
    (found : x.names[i]? = some name) (few : numArrays (x.names.take (i + 1)) ≤ n) :
    fieldBytes x.names (shapesRead mem sd n) i = call.bytes name := by
  simp only [fieldBytes, found, DataCall.bytes]
  split
  · rfl
  · rename_i array
    have next := CreateData.numArrays_take_succ found
    rw [if_pos (Nat.pos_of_ne_zero array)] at next
    have slot : (shapesRead mem sd n)[numArrays (x.names.take i)]? =
        some (shapeAt mem (shapeCell (sd + 12) (numArrays (x.names.take i)))) := by
      rw [shapesRead, List.getElem?_map, List.getElem?_range (by omega)]
      rfl
    rw [slot]
    exact bytes_congr fun k lt => shape_read contents here found array lt

/-- Where an entry starts that is read. -/
lemma fieldStart_read (contents : Contents mem x sd calls) (whole : calls.length = x.fields.length)
    (hi : i < x.fields.length) :
    fieldStart x.names (shapesRead mem sd (numArrays x.names.dropLast)) i = written x.names (calls.take i) := by
  have count : x.names.length = x.fields.length := List.length_map _
  induction i with
  | zero =>
    rw [List.take_zero, DataCall.written_nil]
    rfl
  | succ i ih =>
    have here : calls[i]? = some calls[i] := List.getElem?_eq_getElem (by omega)
    have found : x.names[i]? = some x.names[i] := List.getElem?_eq_getElem (by omega)
    have few : numArrays (x.names.take (i + 1)) ≤ numArrays x.names.dropLast := by
      rw [List.dropLast_eq_take]
      exact numArrays_mono (by omega)
    rw [fieldStart_succ, ih (by omega), fieldBytes_read contents here found few,
      DataCall.written_take_succ here found]

/-- The offsets that a reader computes. -/
lemma descData_ok (here : ShapesDataAt mem sd namesId (numArrays x.names) size) (contents : Contents mem x sd calls)
    (whole : calls.length = x.fields.length) (named : x.fields ≠ []) :
    ∃ d, descData mem x sd = .ok d ∧
      ∀ i < x.fields.length, d.offset.getD i 0 = BitVec.ofNat 32 (written x.names (calls.take i)) := by
  have count : x.names.length = x.fields.length := List.length_map _
  have some : x.names ≠ [] := by
    rw [NameIndex.names]
    exact fun none => named (List.map_eq_nil_iff.mp none)
  have filled := DescData.fill_eq ⟨x.names, by rw [count]; exact x.fits⟩
    (shapesRead mem sd (numArrays x.names.dropLast)) (@List.length_replicate _ (x.names.length + 1) (0 : BitVec 32))
  have slots : numArrays x.names.dropLast ≤ (shapesRead mem sd (numArrays x.names.dropLast)).length := by
    rw [shapesRead, List.length_map, List.length_range]
  rw [if_neg some, if_pos slots] at filled
  refine ⟨DescData.setUpTo x.names (shapesRead mem sd (numArrays x.names.dropLast))
    (List.replicate (x.names.length + 1) 0) (x.names.length - 1), ?_, ?_⟩
  · rw [descData, shapesIn_ok here, ok_bind]
    exact filled
  · intro i hi
    rw [DescData.setUpTo_getD _ _ _ (by omega), fieldStart_read contents whole hi]

/-- Every entry is read back. -/
lemma entry_read (layout : ShapesDataAt mem sd namesId (numArrays x.names) (written x.names calls))
    (contents : Contents mem x sd calls) (suit : Suit x.names calls) (whole : calls.length = x.fields.length)
    (distinct : x.arrayNames.Nodup) (small : 36 + 20 * numArrays x.names + written x.names calls < 2 ^ 32)
    (fits : sd + 36 + 20 * numArrays x.names + written x.names calls ≤ mem.length)
    (here : calls[i]? = some call) (found : x.names[i]? = some name) : call.ReadBack mem x sd i name := by
  have lt := (List.getElem?_eq_some_iff.mp here).1
  have hi : i < x.fields.length := by omega
  have field : x.fields[i]? = some x.fields[i] := List.getElem?_eq_getElem hi
  have entry : x.fields[i].entry = name := by
    rw [NameIndex.names, List.getElem?_map, field] at found
    exact Option.some.inj found
  have next := DataCall.written_take_succ here found
  have part := @DataCall.written_take_le x.names calls (i + 1)
  have suits := suit i call name here found
  have cell := contents.data i call here
  obtain ⟨d, read, offset⟩ := descData_ok layout contents whole (List.ne_nil_of_length_pos (by omega))
  have ptr : sd + 24 + 20 * numArrays x.names + sizeofXtc + (d.offset.getD i 0).toNat =
      sd + 36 + 20 * numArrays x.names + written x.names (calls.take i) := by
    rw [offset i hi, BitVec.toNat_ofNat, Nat.mod_eq_of_lt (by omega), sizeofXtc]
    omega
  -- an array is read with the shape that was given to it
  have array_read : name.rank ≠ 0 → ∃ shape bytes, getArray mem x sd i = .ok (shape, bytes) ∧
      (∀ k < name.rank, shape k = call.shape k) ∧ bytes.length = call.shape.bytes name ∧ call.content <+: bytes := by
    intro array
    have shapes : x.shapeMap.lookup x.fields[i].called = some (numArrays (x.names.take i)) :=
      NameIndex.shapeMap_lookup distinct field (by rwa [entry])
    have same := fun k lt => @shape_read mem x sd calls call name i contents here found array k lt
    have length : (shapeAt mem (shapeCell (sd + 12) (numArrays (x.names.take i)))).bytes name = call.bytes name := by
      rw [DataCall.bytes, if_neg array]
      exact bytes_congr same
    have bytes : call.bytes name = call.shape.bytes name := if_neg array
    refine ⟨shapeAt mem (shapeCell (sd + 12) (numArrays (x.names.take i))),
      slice mem (sd + 36 + 20 * numArrays x.names + written x.names (calls.take i))
        (sd + 36 + 20 * numArrays x.names + written x.names (calls.take i) + call.bytes name), ?_, same, ?_, ?_⟩
    · rw [getArray, read, ok_bind]
      simp only [field, layout.shapesOf, layout.dataOf small, ok_bind, shapes, Option.getD_some, ptr, entry, length]
    · rw [slice_length _ (by omega), Nat.add_sub_cancel_left, bytes]
    · exact cell.prefix_slice suits.content_le
  cases call with
  | setValue T index value =>
    obtain ⟨-, scalar, type⟩ := suits
    rw [At, DataCall.content, value.size] at cell
    rw [DataCall.ReadBack, getValue, read, ok_bind, if_neg (Nat.not_lt.mpr (Nat.le_of_lt hi))]
    simp only [layout.dataOf small, ok_bind, found, if_pos type, ptr, cell]
  | allocate T index shape elements => exact array_read suits.2.1
  | setArrayShape index shape elements => exact array_read suits.2.1
  | setString index chars =>
    obtain ⟨-, one, -⟩ := suits
    exact array_read (by omega)

end reading

/-! ## Writing an event -/

section writing
variable {mem mem' : Bytes} {bufEnd parent src : Nat} {ds : List Detector} {d : Detector}

/-- One more detector. -/
lemma eventBytes_snoc : eventBytes (ds ++ [d]) = eventBytes ds + d.bytes := by
  rw [eventBytes, List.map_append, List.sum_append, List.map_singleton, List.sum_singleton, ← Nat.add_assoc]
  rfl

/-- The first detectors. -/
lemma eventBytes_take_le (n : Nat) : eventBytes (ds.take n) ≤ eventBytes ds := by
  apply Nat.add_le_add_left
  rw [List.map_take]
  exact (List.take_sublist n _).sum_le_sum fun _ _ => Nat.zero_le _

/-- A detector ends before the event does. -/
lemma placeOf_add_le {k : Nat} (here : ds[k]? = some d) : placeOf parent ds k + d.bytes ≤ parent + eventBytes ds := by
  have part := @eventBytes_take_le ds (k + 1)
  rw [List.take_add_one, here, Option.toList_some, eventBytes_snoc] at part
  rw [placeOf]
  omega

/-- An event in memory. -/
structure EventAt (mem : Bytes) (parent src : Nat) (ds : List Detector) : Prop where
  root : HeaderAt mem parent src .Parent (eventBytes ds)
  layout : ∀ k d, ds[k]? = some d → ShapesDataAt mem (placeOf parent ds k) d.namesId (numArrays d.names.names)
    (written d.names.names d.calls)
  contents : ∀ k d, ds[k]? = some d → Contents mem d.names (placeOf parent ds k) d.calls

/-- What is below a place stays. -/
lemma Below.kept {sd a : Nat} {bs : Bytes} (below : Below parent sd mem mem') (here : At mem a bs)
    (after : parent + 12 ≤ a) (before : a + bs.length ≤ sd) : At mem' a bs := by
  rw [At, below.apart a _ before (.inr after)]
  exact here

/-- A header, and the parts of a `ShapesData`, below that place. -/
lemma HeaderAt.below {sd a src' ext : Nat} {type : XtcType} (here : HeaderAt mem a src' type ext)
    (below : Below parent sd mem mem') (after : parent + 12 ≤ a) (before : a + 12 ≤ sd) :
    HeaderAt mem' a src' type ext := by
  refine ⟨below.kept here.src after ?_, below.kept here.kind (by omega) ?_, below.kept here.extent (by omega) ?_⟩
  · rw [toLe_length]
    omega
  · simp only [List.length_append, toLe_length]
    omega
  · rw [toLe_length]
    omega

lemma ShapesDataAt.below {sd a namesId arrays size : Nat} (here : ShapesDataAt mem a namesId arrays size)
    (below : Below parent sd mem mem') (after : parent + 12 ≤ a) (before : a + (36 + 20 * arrays + size) ≤ sd) :
    ShapesDataAt mem' a namesId arrays size := by
  refine ⟨here.header.below below after ?_, here.shapes.below below ?_ ?_, here.data.below below ?_ ?_⟩
  · omega
  · omega
  · omega
  · omega
  · omega

/-- A detector is written after the others. -/
lemma EventAt.write (event : EventAt mem parent src ds) (suits : ∀ d' ∈ ds ++ [d], Detector.Suits d')
    (room : parent + eventBytes (ds ++ [d]) ≤ bufEnd) (fits : bufEnd ≤ mem.length)
    (small : eventBytes (ds ++ [d]) < 2 ^ 32) :
    ∃ w, d.write bufEnd parent mem = .ok w ∧ w.mem.length = mem.length ∧ EventAt w.mem parent src (ds ++ [d]) := by
  have long : 12 ≤ eventBytes ds := Nat.le_add_right 12 _
  have suit : d.Suits := suits d (List.mem_append_right _ (List.mem_singleton_self d))
  have total := @eventBytes_snoc ds d
  rw [Detector.bytes] at total
  obtain ⟨w, made, bufEnd_eq, parent_eq, laid⟩ := @Laid.start d.names d.namesId src (eventBytes ds) mem bufEnd parent
    event.root long (by omega) fits (by omega)
  subst bufEnd_eq parent_eq
  obtain ⟨w', filled, parent_eq, laid⟩ := laid.run d.calls suit.calls (Nat.le_of_eq suit.whole)
    (by rw [List.nil_append]; omega) fits long (by rw [List.nil_append]; omega)
  rw [List.nil_append] at laid
  have place := laid.place
  rw [parent_eq] at place
  have below := laid.below
  rw [parent_eq] at below
  -- what is in memory of the detectors before it stays
  have before : ∀ k d', ds[k]? = some d' → placeOf w.parent (ds ++ [d]) k = placeOf w.parent ds k ∧
      w.parent + 12 ≤ placeOf w.parent ds k ∧ placeOf w.parent ds k + d'.bytes ≤ w'.shapesdata := by
    intro k d' here
    have lt := (List.getElem?_eq_some_iff.mp here).1
    refine ⟨?_, ?_, ?_⟩
    · rw [placeOf, List.take_append_of_le_length (Nat.le_of_lt lt), ← placeOf]
    · exact Nat.add_le_add_left (Nat.le_add_right 12 _) _
    · rw [place]
      exact placeOf_add_le here
  refine ⟨w', ?_, laid.below.length, ?_, ?_, ?_⟩
  · rw [Detector.write, made]
    exact filled
  · have root := laid.root
    rw [parent_eq] at root
    rw [total, ← Nat.add_assoc, ← Nat.add_assoc]
    exact root
  · intro k d' here
    cases Nat.lt_or_ge k ds.length with
    | inl lt =>
      rw [List.getElem?_append_left lt] at here
      obtain ⟨same, after, within⟩ := before k d' here
      rw [same]
      exact (event.layout k d' here).below below after within
    | inr last =>
      obtain ⟨rfl, rfl⟩ := snoc_last here last
      rw [placeOf, List.take_left, ← place]
      exact laid.shapesdata
  · intro k d' here
    cases Nat.lt_or_ge k ds.length with
    | inl lt =>
      rw [List.getElem?_append_left lt] at here
      obtain ⟨same, after, within⟩ := before k d' here
      rw [same]
      have suit' := suits d' (List.mem_append_left _ (List.mem_of_getElem? here))
      apply (event.contents k d' here).kept suit'.calls (Nat.le_of_eq suit'.whole)
      intro a bs cell inside
      rw [Detector.bytes] at within
      have few : numArrays (d'.names.names.take d'.calls.length) ≤ numArrays d'.names.names :=
        (List.take_sublist d'.calls.length d'.names.names).countP_le
      exact below.kept cell (by omega) (by omega)
    | inr last =>
      obtain ⟨rfl, rfl⟩ := snoc_last here last
      rw [placeOf, List.take_left, ← place]
      exact laid.contents

/-- Detectors are written after the others. -/
lemma EventAt.run (event : EventAt mem parent src ds) (more : List Detector) (suits : ∀ d ∈ ds ++ more, d.Suits)
    (room : parent + eventBytes (ds ++ more) ≤ bufEnd) (fits : bufEnd ≤ mem.length)
    (small : eventBytes (ds ++ more) < 2 ^ 32) :
    ∃ mem', writeEvent bufEnd parent mem more = .ok mem' ∧ mem'.length = mem.length ∧
      EventAt mem' parent src (ds ++ more) := by
  induction more generalizing ds mem with
  | nil =>
    rw [List.append_nil]
    exact ⟨mem, rfl, rfl, event⟩
  | cons d more ih =>
    have split : ds ++ d :: more = ds ++ [d] ++ more := by rw [List.append_assoc, List.singleton_append]
    rw [split] at suits room small
    have part := @eventBytes_take_le (ds ++ [d] ++ more) (ds ++ [d]).length
    rw [List.take_left] at part
    obtain ⟨w, written, length, event'⟩ := event.write
      (fun d' mem => suits d' (List.mem_append_left _ mem))
      (Nat.le_trans (Nat.add_le_add_left part _) room) fits (Nat.lt_of_le_of_lt part small)
    obtain ⟨mem', later, length', event''⟩ := ih event' suits room (length.symm ▸ fits) small
    refine ⟨mem', ?_, length'.trans length, split ▸ event''⟩
    rw [writeEvent, List.foldlM_cons, written]
    exact later

end writing

/-! ## Going through an event -/

section iterating
variable {mem : Bytes} {bufEnd parent src : Nat} {ds : List Detector} {visit : Nat → Visit}

/-- Children one after the other, each in what is left of the payload and of the buffer. -/
inductive Children (mem : Bytes) (bufEnd stop : Nat) : Nat → List Nat → Prop where
  | nil :
    Children mem bufEnd stop stop []
  | cons {xtc later} :
    Fits mem bufEnd xtc stop →
    isParent mem xtc = false →
    Children mem bufEnd stop (xtc + extent mem xtc) later →
    Children mem bufEnd stop xtc (xtc :: later)

/-- The loop goes through all of them. -/
lemma loop_children {stop xtc n visits : Nat} {remaining : Int} {w : Walked} {xtcs : List Nat}
    (children : Children mem bufEnd stop xtc xtcs) (step : InStep mem parent xtc remaining)
    (whole : stop = parent + extent mem parent) (goes : ∀ n, visit n = .next)
    (h : loop mem bufEnd visit n parent xtc remaining visits = some w) :
    w = ⟨xtcs.flatMap fun xtc => [.header xtc, .process parent xtc], .returned, visits + xtcs.length⟩ := by
  induction children generalizing n remaining visits w with
  | nil =>
    have left := step.left
    have nothing : remaining ≤ 0 := by omega
    cases n with
    | zero => cases h
    | succ n =>
      rw [loop, if_pos nothing] at h
      cases h
      rfl
  | @cons xtc later fits kind _ ih =>
    obtain ⟨m, inner, rfl, process, round⟩ := round_of_fits h step (whole ▸ fits)
    rw [processBy, kind, if_neg Bool.false_ne_true, visited, goes] at process
    cases process
    obtain ⟨rest, e, ending, count, accesses⟩ := round.of_returned rfl
    have follow := ih (step.next (whole ▸ fits)) e
    cases w with
    | mk accesses' ending' visits' =>
      cases follow
      cases ending
      cases count
      cases accesses
      have count : visits + 1 + later.length = visits + (later.length + 1) := by omega
      rw [List.flatMap_cons, List.length_cons, ← count]
      rfl

/-- An event is its detectors, one after the other. -/
lemma EventAt.children (event : EventAt mem parent src ds) (room : parent + eventBytes ds ≤ bufEnd)
    (small : eventBytes ds < 2 ^ 32) {k m : Nat} (rest : k + m = ds.length) :
    Children mem bufEnd (parent + eventBytes ds) (placeOf parent ds k)
      ((List.range' k m).map (placeOf parent ds)) := by
  induction m generalizing k with
  | zero =>
    rw [placeOf, List.take_of_length_le (by omega)]
    exact .nil
  | succ m ih =>
    have here : ds[k]? = some ds[k] := List.getElem?_eq_getElem (by omega)
    have layout := event.layout k _ here
    have within := @placeOf_add_le parent ds _ k here
    have bytes : ds[k].bytes = 36 + 20 * numArrays ds[k].names.names + written ds[k].names.names ds[k].calls := rfl
    have low : parent + 12 ≤ placeOf parent ds k := Nat.add_le_add_left (Nat.le_add_right 12 _) _
    have ext : extent mem (placeOf parent ds k) = ds[k].bytes := extent_of layout.header.extent (by omega)
    have kind : isParent mem (placeOf parent ds k) = false := by
      have number := layout.header.typeId
      rw [typeId] at number
      rw [isParent, number]
      rfl
    have next : placeOf parent ds (k + 1) = placeOf parent ds k + ds[k].bytes := by
      rw [placeOf, List.take_add_one, here, Option.toList_some, eventBytes_snoc, ← Nat.add_assoc]
      rfl
    have sizes : sizeofXtc = 12 := rfl
    apply Children.cons
    · refine ⟨?_, ?_, ?_, ?_⟩
      · omega
      · omega
      · omega
      · omega
    · exact kind
    · rw [ext, ← next]
      exact ih (by omega)

/-- The iteration over an event. -/
lemma EventAt.iterate (event : EventAt mem parent src ds) (room : parent + eventBytes ds ≤ bufEnd)
    (small : eventBytes ds < 2 ^ 31) (goes : ∀ n, visit n = .next) {n : Nat} (enough : bufEnd < n) :
    iterate mem bufEnd visit n parent = some
      ⟨((List.range ds.length).map (placeOf parent ds)).flatMap fun xtc => [.header xtc, .process parent xtc],
        .returned, ds.length⟩ := by
  have ext := extent_of event.root.extent (by omega)
  have long : 12 ≤ eventBytes ds := Nat.le_add_right 12 _
  have payload : sizeofPayload (eventBytes ds) = (eventBytes ds : Int) - 12 := sizeofPayload_of_le (by omega)
  have step : InStep mem parent (parent + sizeofXtc) (sizeofPayload (extent mem parent)) := by
    have sizes : sizeofXtc = 12 := rfl
    rw [ext, payload]
    refine ⟨le_rfl, ?_, ?_, ?_⟩
    · rw [ext]
      omega
    · omega
    · omega
  have children := event.children room (by omega) (Nat.zero_add ds.length)
  obtain ⟨w, ends⟩ := @loop_ends mem bufEnd visit n parent (parent + sizeofXtc) 0
    (sizeofPayload (extent mem parent)) (by omega) (by omega)
  rw [Xtc.iterate, iterateBy, event.root.undamaged, if_neg Bool.false_ne_true, ends]
  have all := loop_children children step (by rw [ext]) goes ends
  rw [List.length_map, List.length_range', Nat.zero_add, ← List.range_eq_range'] at all
  rw [all]

end iterating

/-- Events that fit into the buffer, and whose extent the iterator's `int` holds, are written, and what is written is
read back: the iteration visits just the detectors, in order, and of each of them a reader gets what was written. -/
theorem event_read_back {mem : Bytes} {bufEnd parent src : Nat} {ds : List Detector} {visit : Nat → Visit}
    (empty : HeaderAt mem parent src .Parent 12) (fits : bufEnd ≤ mem.length) (suits : ∀ d ∈ ds, d.Suits)
    (room : parent + eventBytes ds ≤ bufEnd) (small : eventBytes ds < 2 ^ 31) (goes : ∀ n, visit n = .next) :
    ∃ mem', writeEvent bufEnd parent mem ds = .ok mem' ∧ extent mem' parent = eventBytes ds ∧
      (∀ n, bufEnd < n → iterate mem' bufEnd visit n parent = some
        ⟨((List.range ds.length).map (placeOf parent ds)).flatMap fun xtc => [.header xtc, .process parent xtc],
          .returned, ds.length⟩) ∧
      ∀ k (d : Detector), ds[k]? = some d → d.ReadAt mem' (placeOf parent ds k) := by
  have start : EventAt mem parent src [] := ⟨empty, nofun, nofun⟩
  obtain ⟨mem', called, length, event⟩ := start.run ds suits room fits (by rw [List.nil_append]; omega)
  rw [List.nil_append] at event
  refine ⟨mem', called, extent_of event.root.extent (by omega), ?_, ?_⟩
  · intro n enough
    exact event.iterate room small goes enough
  · intro k d here
    have suit := suits d (List.mem_of_getElem? here)
    have layout := event.layout k d here
    have within := @placeOf_add_le parent ds d k here
    rw [Detector.bytes] at within
    have low : parent + 12 ≤ placeOf parent ds k := Nat.add_le_add_left (Nat.le_add_right 12 _) _
    refine ⟨layout.header.typeId, layout.header.srcValue suit.namesId, ?_⟩
    intro i call name here' found
    have contents := event.contents k d here
    exact entry_read layout contents suit.calls suit.whole suit.distinct (by omega) (by omega) here' found

/-- The ranks and the entries of a pulse are few. -/
lemma scalar_lt : 0 < maxRank := by decide
lemma array_lt : 1 < maxRank := by decide
lemma three_fit : 3 * sizeofName < 2 ^ 32 := by decide

/-- A pulse: its energy, a trace of it and what it is called. -/
def pulse : Detector where
  names :=
    ⟨[⟨"energy", .UINT16, 0, scalar_lt⟩, ⟨"trace", .UINT8, 1, array_lt⟩, ⟨"label", .CHARSTR, 1, array_lt⟩], three_fit⟩
  namesId := 257
  calls :=
    [.setValue .uint16_t 0 ⟨[1, 2], rfl⟩, .allocate .uint8_t 1 (fun _ => 3#32) [7, 8, 9], .setString 2 [104, 105]]

/-- Two pulses are read back. -/
theorem two_pulses_read_back :
    ∃ mem', writeEvent 256 0 (writeAt (List.replicate 256 0) 0 (newHeader 0 .Parent)) [pulse, pulse] = .ok mem' ∧
      extent mem' 0 = 182 ∧ pulse.ReadAt mem' 12 ∧ pulse.ReadAt mem' 97 := by
  have suits : ∀ d ∈ [pulse, pulse], Detector.Suits d := by
    have suit : Detector.Suits pulse := by
      refine ⟨by decide, by decide, rfl, ?_⟩
      intro i call name here found
      rcases i with _ | _ | _ | i
      · cases here
        cases found
        exact ⟨rfl, rfl, rfl⟩
      · cases here
        cases found
        exact ⟨rfl, by decide, rfl, by decide⟩
      · cases here
        cases found
        exact ⟨rfl, rfl, rfl, by decide⟩
      · cases here
    intro d mem
    rw [List.eq_of_mem_replicate (n := 2) mem]
    exact suit
  have room : 0 + 12 ≤ (List.replicate 256 (0 : UInt8)).length := by
    rw [List.length_replicate]
    decide
  obtain ⟨empty, change⟩ := HeaderAt.new room 0 .Parent
  have length : 256 ≤ (writeAt (List.replicate 256 0) 0 (newHeader 0 .Parent)).length := by
    rw [change.length, List.length_replicate]
  have bytes : eventBytes [pulse, pulse] = 182 := by decide
  obtain ⟨mem', written, extent, -, read⟩ := @event_read_back _ _ _ _ _ (fun _ => .next) empty length suits
    (by rw [bytes]; decide) (by rw [bytes]; decide) fun _ => rfl
  exact ⟨mem', written, extent.trans bytes, read 0 pulse rfl, read 1 pulse rfl⟩

end Lcls2.Xtc
