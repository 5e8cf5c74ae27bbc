import Lcls2.Lib.Bytes

/-!
# Packet footers

Model of `psana/psexp/packet_footer.py`. A packed byte string is its packets, one after the other,
and a footer: the size of each packet and their number, in four bytes each.
-/

namespace Lcls2.Psana
open Lib

/-- What stops packing or splitting: a failed `assert`, a value that `struct.pack` or an `array('I')`
    does not take, an index out of range, a footer or a dgram that is cut off, or the end of the
    fuel. -/
inductive PacketFault where
  | assertion | overflow | index | truncated | fuel
  deriving DecidableEq, Repr

/-- `PacketFooter`. -/
structure PacketFooter where
  nPackets : Nat
  footer : Bytes
  view : Bytes
  deriving DecidableEq

/-- A four-byte field. -/
def fits (n : Nat) : Prop := n < 256 ^ 4

instance (n : Nat) : Decidable (fits n) := inferInstanceAs (Decidable (n < 256 ^ 4))

lemma fits_iff {n : Nat} : 0 ≤ (n : Int) ∧ (n : Int) < 256 ^ 4 ↔ fits n := by
  rw [and_iff_right (Int.natCast_nonneg n), fits]
  exact_mod_cast Iff.rfl

/-- The footer of packets of the given sizes. -/
def footerOf (sizes : List Nat) : Bytes := sizes.flatMap (toLe 4) ++ toLe 4 sizes.length

/-- Packets and their footer. -/
def packed (packets : List Bytes) : Bytes := packets.flatten ++ footerOf (packets.map List.length)

/-- Where the slice `[start:stop]` of so many bytes begins and ends. A bound below 0 counts from the end, and a slice
    that would end before it begins is empty. -/
def sliceBounds (length : Nat) (start stop : Int) : Nat × Nat :=
  let bound (i : Int) : Nat := if i < 0 then (i + length).toNat else min i.toNat length
  (bound start, max (bound start) (bound stop))

namespace PacketFooter

/-- `PacketFooter(n_packets=...)`. -/
def new (nPackets : Nat) : Except PacketFault PacketFooter :=
  if nPackets = 0 then .ok ⟨0, [], []⟩
  else if fits nPackets then
    .ok ⟨nPackets, List.replicate (4 * nPackets) 0 ++ toLe 4 nPackets, []⟩
  else .error .overflow

/-- `PacketFooter(view=...)`. -/
def ofView (view : Bytes) : Except PacketFault PacketFooter :=
  if view = [] then .ok ⟨0, [], []⟩
  else if view.length < 4 then .error .truncated
  else
    let nPackets := ofLe (lastBytes view 4)
    .ok ⟨nPackets, lastBytes view ((nPackets + 1) * 4), view⟩

/-- `PacketFooter.set_size`. Only the upper bound of the index is checked. -/
def setSize (pf : PacketFooter) (idx size : Int) : Except PacketFault PacketFooter :=
  if idx < pf.nPackets then
    if 0 ≤ size ∧ size < 256 ^ 4 then
      let st := idx * 4
      let bounds := sliceBounds pf.footer.length st (st + 4)
      .ok { pf with
        footer := pf.footer.take bounds.1 ++ toLe 4 size.toNat ++ pf.footer.drop bounds.2 }
    else .error .overflow
  else .error .assertion

/-- `PacketFooter.get_size`. -/
def getSize (pf : PacketFooter) (idx : Int) : Except PacketFault Nat :=
  if idx < pf.nPackets then
    let st := idx * 4
    let bounds := sliceBounds pf.footer.length st (st + 4)
    let bs := slice pf.footer bounds.1 bounds.2
    if bs.length = 4 then .ok (ofLe bs) else .error .truncated
  else .error .assertion

/-- `PacketFooter.split_packets`. -/
def splitPackets (pf : PacketFooter) : Except PacketFault (List Bytes) := do
  let sizes ← (List.range pf.nPackets).mapM fun idx : Nat => pf.getSize idx
  .ok ((List.range pf.nPackets).map fun idx =>
    slice pf.view (sizes.take idx).sum ((sizes.take idx).sum + sizes.getD idx 0))

/-- Setting the sizes of consecutive packets. -/
def setSizes (pf : PacketFooter) (start : Nat) : List Nat → Except PacketFault PacketFooter
  | [] => .ok pf
  | size :: sizes => do
    let pf ← pf.setSize start size
    pf.setSizes (start + 1) sizes

end PacketFooter

variable {packets : List Bytes} {sizes : List Nat}

/-- The place of a size. -/
lemma sliceBounds_nat {length i : Nat} (h : 4 * i + 4 ≤ length) :
    sliceBounds length ((i : Int) * 4) ((i : Int) * 4 + 4) = (4 * i, 4 * i + 4) := by
  have start : ¬ (i : Int) * 4 < 0 := by omega
  have stop : ¬ (i : Int) * 4 + 4 < 0 := by omega
  simp only [sliceBounds, if_neg start, if_neg stop, Prod.mk.injEq]
  omega

/-- Setting the size of a packet. -/
lemma setSize_of_lt {pf : PacketFooter} {idx size : Nat} (h : idx < pf.nPackets) (small : fits size)
    (long : 4 * idx + 4 ≤ pf.footer.length) :
    pf.setSize idx size =
      .ok { pf with footer := pf.footer.take (4 * idx) ++ toLe 4 size ++ pf.footer.drop (4 * idx + 4) } := by
  rw [PacketFooter.setSize, if_pos (Int.ofNat_lt.mpr h), if_pos (fits_iff.mpr small)]
  simp only [sliceBounds_nat long, Int.toNat_natCast]

/-- Reading the size of a packet. -/
lemma getSize_of_lt {pf : PacketFooter} {idx : Nat} (h : idx < pf.nPackets) (long : 4 * idx + 4 ≤ pf.footer.length) :
    pf.getSize idx = .ok (ofLe (slice pf.footer (4 * idx) (4 * idx + 4))) := by
  rw [PacketFooter.getSize, if_pos (Int.ofNat_lt.mpr h)]
  simp only [sliceBounds_nat long]
  rw [if_pos (by rw [slice_length _ long]; omega)]

lemma footerOf_length (sizes : List Nat) : (footerOf sizes).length = (sizes.length + 1) * 4 := by
  rw [footerOf, List.length_append, table_length (toLe_length 4), toLe_length]
  ring

lemma packed_ne_nil (packets : List Bytes) : packed packets ≠ [] := by
  intro h
  have h := congrArg List.length h
  rw [packed, List.length_append, footerOf_length, List.length_nil] at h
  omega

/-- The footer at the end of a view. -/
lemma ofView_append (before : Bytes) (count : fits sizes.length) :
    PacketFooter.ofView (before ++ footerOf sizes) =
      .ok ⟨sizes.length, footerOf sizes, before ++ footerOf sizes⟩ := by
  have length := footerOf_length sizes
  have some_ : before ++ footerOf sizes ≠ [] := by
    intro h
    rw [List.append_eq_nil_iff.mp h |>.2, List.length_nil] at length
    omega
  have long : ¬ (before ++ footerOf sizes).length < 4 := by
    rw [List.length_append, length]
    omega
  have last : lastBytes (before ++ footerOf sizes) 4 = toLe 4 sizes.length := by
    rw [footerOf, ← List.append_assoc]
    exact lastBytes_append (toLe_length 4 _)
  have footer : lastBytes (before ++ footerOf sizes) ((sizes.length + 1) * 4) = footerOf sizes :=
    lastBytes_append length
  rw [PacketFooter.ofView, if_neg some_, if_neg long, last, ofLe_toLe count]
  simp only [footer]

/-- The footer of a packed byte string. -/
lemma ofView_packed (count : fits packets.length) :
    PacketFooter.ofView (packed packets) =
      .ok ⟨packets.length, footerOf (packets.map List.length), packed packets⟩ := by
  have h := @ofView_append (packets.map List.length) packets.flatten (by rwa [List.length_map])
  rwa [List.length_map] at h

/-- The sizes in a footer. -/
lemma getSize_footerOf (view : Bytes) (small : ∀ size ∈ sizes, fits size) {i : Nat}
    (hi : i < sizes.length) :
    PacketFooter.getSize ⟨sizes.length, footerOf sizes, view⟩ i = .ok (sizes.getD i 0) := by
  have length := footerOf_length sizes
  rw [getSize_of_lt hi (by simp only; omega)]
  simp only
  rw [footerOf, slice_table (toLe_length 4) _ _ hi, ofLe_toLe (small _ (List.getElem_mem hi)),
    List.getD_eq_getElem _ _ hi]

/-- Reading all sizes of a footer. -/
lemma getSizes_footerOf (view : Bytes) (small : ∀ size ∈ sizes, fits size) :
    ((List.range sizes.length).mapM fun idx : Nat => PacketFooter.getSize ⟨sizes.length, footerOf sizes, view⟩ idx) =
      .ok sizes := by
  have h := mapM_ok (g := fun i => sizes.getD i 0) fun i hi =>
    getSize_footerOf view small (List.mem_range.mp hi)
  rw [h]
  congr 1
  apply List.ext_getElem
  · simp
  · intro i h1 h2
    rw [List.getElem_map, List.getElem_range, List.getD_eq_getElem _ _ h2]

/-- What is packed is split into the same packets. -/
lemma split_packed (count : fits packets.length) (small : ∀ packet ∈ packets, fits packet.length) :
    (do let pf ← PacketFooter.ofView (packed packets); pf.splitPackets) = .ok packets := by
  have sizes := @getSizes_footerOf (packets.map List.length) (packed packets)
    (List.forall_mem_map.mpr small)
  rw [List.length_map] at sizes
  rw [ofView_packed count]
  show PacketFooter.splitPackets _ = _
  rw [PacketFooter.splitPackets, sizes]
  show Except.ok _ = Except.ok _
  congr 1
  apply List.ext_getElem
  · simp
  · intro i h1 h2
    have h2' : i < (packets.map List.length).length := by rwa [List.length_map]
    rw [List.getElem_map, List.getElem_range, List.getD_eq_getElem _ _ h2', List.getElem_map]
    exact slice_flatten packets _ h2

/-- A footer on the way: the first sizes are set. -/
def partFooter (sizes : List Nat) (n : Nat) : Bytes :=
  sizes.flatMap (toLe 4) ++ List.replicate (4 * (n - sizes.length)) 0 ++ toLe 4 n

/-- Setting the next size. -/
lemma setSize_part {n size : Nat} (view : Bytes) (h : sizes.length < n) (small : fits size) :
    PacketFooter.setSize ⟨n, partFooter sizes n, view⟩ sizes.length size =
      .ok ⟨n, partFooter (sizes ++ [size]) n, view⟩ := by
  have before : (sizes.flatMap (toLe 4)).length = 4 * sizes.length :=
    table_length (toLe_length 4) sizes
  have zeros : List.replicate (4 * (n - sizes.length)) (0 : UInt8) =
      List.replicate 4 0 ++ List.replicate (4 * (n - (sizes.length + 1))) 0 := by
    rw [List.replicate_append_replicate]
    congr 1
    omega
  have long : 4 * sizes.length + 4 ≤ (partFooter sizes n).length := by
    rw [partFooter, List.length_append, List.length_append, before, List.length_replicate, toLe_length]
    omega
  rw [setSize_of_lt h small long]
  simp only [partFooter, zeros, List.append_assoc, Except.ok.injEq, PacketFooter.mk.injEq, true_and, and_true]
  rw [← before, List.take_left, ← List.drop_drop, List.drop_left]
  simp [List.flatMap_append]

/-- Setting the sizes that are left. -/
lemma setSizes_part {n : Nat} (view : Bytes) (rest : List Nat) (h : (sizes ++ rest).length ≤ n)
    (small : ∀ size ∈ rest, fits size) :
    PacketFooter.setSizes ⟨n, partFooter sizes n, view⟩ sizes.length rest =
      .ok ⟨n, partFooter (sizes ++ rest) n, view⟩ := by
  induction rest generalizing sizes with
  | nil => rw [List.append_nil, PacketFooter.setSizes]
  | cons size rest ih =>
    rw [List.length_append, List.length_cons] at h
    have room : (sizes ++ [size] ++ rest).length ≤ n := by
      rw [List.length_append, List.length_append, List.length_singleton]
      omega
    have next := ih room fun size hs => small size (List.mem_cons_of_mem _ hs)
    rw [List.length_append, List.length_singleton, List.append_assoc, List.singleton_append] at next
    rw [PacketFooter.setSizes, setSize_part view (by omega) (small size List.mem_cons_self)]
    exact next

lemma partFooter_nil (n : Nat) : partFooter [] n = List.replicate (4 * n) 0 ++ toLe 4 n := rfl

lemma partFooter_full (sizes : List Nat) : partFooter sizes sizes.length = footerOf sizes := by
  rw [partFooter, Nat.sub_self, footerOf]
  simp

/-- A new footer with all its sizes set. -/
lemma setSizes_new (count : fits sizes.length) (small : ∀ size ∈ sizes, fits size)
    (some_ : sizes ≠ []) :
    (do let pf ← PacketFooter.new sizes.length; pf.setSizes 0 sizes) =
      .ok ⟨sizes.length, footerOf sizes, []⟩ := by
  have nonzero : sizes.length ≠ 0 := fun h => some_ (List.length_eq_zero_iff.mp h)
  rw [PacketFooter.new, if_neg nonzero, if_pos count, ← partFooter_nil]
  show PacketFooter.setSizes _ 0 sizes = _
  have h := @setSizes_part [] sizes.length [] sizes (Nat.le_refl _) small
  rwa [List.nil_append, partFooter_full] at h

end Lcls2.Psana
