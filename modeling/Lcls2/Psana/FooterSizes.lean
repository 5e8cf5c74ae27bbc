import Lcls2.Lib.Run
import Lcls2.Psana.PacketFooter

/-!
# Sizes in a packet footer

`PacketFooter` as an object that grows: it is made empty, for a number of packets or from a view, and
then `add_packet` and `set_size` are called. A call can raise and leave the object behind.
`sizes_kept_iff` says when the footer is that of the sizes given: a packet can be added to a
`bytearray` that holds a footer already, and nowhere else; and an index below 0 is not the one of a
packet.
-/

namespace Lcls2.Psana
open Lib

/-- What the footer is an object of. A slice of a `memoryview` is a window on the view. -/
inductive Container where
  | bytearray | memoryview | bytes
  deriving DecidableEq, Repr

/-- A `PacketFooter` with the type of its footer. -/
structure FooterObject where
  pf : PacketFooter
  container : Container
  deriving DecidableEq

namespace FooterObject

/-- Writing into a `memoryview` writes into the view behind it. -/
def written (o : FooterObject) (pf : PacketFooter) : FooterObject :=
  match o.container with
  | .memoryview =>
    { o with pf := { pf with view := o.pf.view.take (o.pf.view.length - pf.footer.length) ++ pf.footer } }
  | .bytearray | .bytes => { o with pf }

/-- `set_size`: whether it raises, and what becomes of the object. A slice of `bytes` cannot be set, and one of a
    `memoryview` only if its length stays. -/
def setSize (o : FooterObject) (idx size : Int) : Bool × FooterObject :=
  match o.pf.setSize idx size with
  | .error _ => (true, o)
  | .ok pf =>
    match o.container with
    | .bytes => (true, o)
    | .bytearray => (false, o.written pf)
    | .memoryview => if pf.footer.length = o.pf.footer.length then (false, o.written pf) else (true, o)

/-- `add_packet`. The number goes up before anything can raise; only a `bytearray` can grow. -/
def addPacket (o : FooterObject) (size : Int) : Bool × FooterObject :=
  let nPackets := o.pf.nPackets + 1
  let o := { o with pf := { o.pf with nPackets } }
  if (0 ≤ size ∧ size < 256 ^ 4) ∧ o.container = .bytearray then
    let last := o.pf.footer.length - 4
    let footer := o.pf.footer.take last ++ toLe 4 size.toNat ++ o.pf.footer.drop last
    if fits nPackets then
      (false, { o with pf := { o.pf with
        footer := footer.take (footer.length - 4) ++ toLe 4 nPackets } })
    else (true, { o with pf := { o.pf with footer } })
  else (true, o)

end FooterObject

/-- A call. -/
inductive SizeOp where
  | addPacket (size : Int)
  | setSize (idx size : Int)
  deriving DecidableEq, Repr

/-- An index is not below 0. -/
def SizeOp.Indexed : SizeOp → Prop
  | .addPacket _ => True
  | .setSize idx _ => 0 ≤ idx

/-- The object, with the size that was given last for each packet, if any was. -/
structure Sizing where
  object : FooterObject
  given : List (Option Nat)
  deriving DecidableEq

namespace Sizing

/-- How a `PacketFooter` is made. -/
inductive Made : Sizing → Prop where
  | empty :
    Made ⟨⟨⟨0, [], []⟩, .bytearray⟩, []⟩
  | new {n pf} :
    PacketFooter.new n = .ok pf →
    Made ⟨⟨pf, .bytearray⟩, List.replicate n none⟩
  | ofView {before sizes pf container} :
    fits sizes.length →
    (∀ size ∈ sizes, fits size) →
    PacketFooter.ofView (before ++ footerOf sizes) = .ok pf →
    Made ⟨⟨pf, container⟩, sizes.map some⟩

/-- One call; a size is given by a call that does not raise, to the packet at the index if there is one. -/
def step (s : Sizing) : SizeOp → Except PacketFault Sizing
  | .addPacket size =>
    match s.object.addPacket size with
    | (true, o) => .ok { s with object := o }
    | (false, o) => .ok ⟨o, s.given ++ [some size.toNat]⟩
  | .setSize idx size =>
    match s.object.setSize idx size with
    | (true, o) => .ok { s with object := o }
    | (false, o) => .ok ⟨o, if 0 ≤ idx then s.given.set idx.toNat (some size.toNat) else s.given⟩

/-- The footer is that of the sizes given. -/
structure Kept (s : Sizing) : Prop where
  count : s.object.pf.nPackets = s.given.length
  getSize : ∀ (idx : Nat) size, s.given[idx]? = some (some size) → s.object.pf.getSize idx = .ok size
  split : ∀ packets : List Bytes, s.given = packets.map (fun packet => some packet.length) →
    (do let pf ← PacketFooter.ofView (packets.flatten ++ s.object.pf.footer); pf.splitPackets) =
      .ok packets

/-- A packet is added to a footer that is there and can grow, and the numbers fit; the index of a packet is not below
    0. -/
def InOrder (s : Sizing) : SizeOp → Prop
  | .addPacket size => s.object.pf.footer ≠ [] ∧ s.object.container = .bytearray ∧ (0 ≤ size ∧ size < 256 ^ 4) ∧
      fits (s.object.pf.nPackets + 1)
  | .setSize idx _ => 0 ≤ idx

/-- The footer holds some size for each packet, and those that were given. -/
structure Holds (s : Sizing) (sizes : List Nat) : Prop where
  footer : s.object.pf.footer = footerOf sizes
  count : s.object.pf.nPackets = sizes.length
  fits : fits sizes.length
  small : ∀ size ∈ sizes, Psana.fits size
  given : List.Forall₂ (fun g size => ∀ x, g = some x → x = size) s.given sizes

/-- Nothing is there yet, or a footer is. -/
def Inv (s : Sizing) : Prop :=
  s.object.pf.footer = [] ∧ s.object.pf.nPackets = 0 ∧ s.given = [] ∨ ∃ sizes, s.Holds sizes

end Sizing

/-- A footer is the table of the sizes and their number. -/
lemma table_length_four (sizes : List Nat) : (sizes.flatMap (toLe 4)).length = 4 * sizes.length :=
  table_length (toLe_length 4) sizes

/-- Sizes that are all zero. -/
lemma flatMap_zeros (n : Nat) :
    (List.replicate n 0).flatMap (toLe 4) = List.replicate (4 * n) 0 := by
  induction n with
  | zero => rfl
  | succ n ih =>
    have four : toLe 4 0 = List.replicate 4 0 := rfl
    rw [List.replicate_succ, List.flatMap_cons, ih, four, List.replicate_append_replicate]
    congr 1
    omega

/-- Setting a size in a footer. -/
lemma setSize_footerOf {sizes : List Nat} (view : Bytes) {idx size : Nat} (h : idx < sizes.length)
    (small : fits size) :
    PacketFooter.setSize ⟨sizes.length, footerOf sizes, view⟩ idx size =
      .ok ⟨sizes.length, footerOf (sizes.set idx size), view⟩ := by
  have length := footerOf_length sizes
  rw [setSize_of_lt h small (by simp only; omega)]
  congr 2
  obtain ⟨pre, x, post, rfl, rfl⟩ : ∃ pre x post, sizes = pre ++ x :: post ∧ pre.length = idx := by
    refine ⟨sizes.take idx, sizes[idx], sizes.drop (idx + 1), ?_, List.length_take_of_le h.le⟩
    rw [List.getElem_cons_drop, List.take_append_drop]
  have table : ∀ y, footerOf (pre ++ y :: post) = pre.flatMap (toLe 4) ++ (toLe 4 y ++
      (post.flatMap (toLe 4) ++ toLe 4 (pre.length + (post.length + 1)))) := by
    intro y
    simp [footerOf, List.flatMap_append]
  rw [List.set_append_right _ _ le_rfl, Nat.sub_self, List.set_cons_zero, table, table,
    ← table_length_four, List.take_left, ← List.drop_drop, List.drop_left]
  simp [List.append_assoc]

/-- Adding a size to a footer. -/
lemma addPacket_footerOf {sizes : List Nat} (view : Bytes) {size : Nat} (small : fits size)
    (count : fits (sizes.length + 1)) :
    FooterObject.addPacket ⟨⟨sizes.length, footerOf sizes, view⟩, .bytearray⟩ size =
      (false, ⟨⟨sizes.length + 1, footerOf (sizes ++ [size]), view⟩, .bytearray⟩) := by
  have four : ∀ bs : Bytes, ∀ n, (bs ++ toLe 4 n).length - 4 = bs.length := by
    intro bs n
    rw [List.length_append, toLe_length, Nat.add_sub_cancel]
  have inserted : footerOf sizes = sizes.flatMap (toLe 4) ++ toLe 4 sizes.length := rfl
  rw [FooterObject.addPacket, if_pos ⟨fits_iff.mpr small, rfl⟩, if_pos count]
  simp only [inserted, four, List.take_left, List.drop_left, Int.toNat_natCast]
  simp [footerOf, List.flatMap_append]

namespace Sizing

variable {s t : Sizing} {sizes : List Nat}

/-- A footer is never empty. -/
lemma Holds.ne_nil (holds : s.Holds sizes) : s.object.pf.footer ≠ [] := by
  intro empty
  have long := footerOf_length sizes
  rw [← holds.footer, empty, List.length_nil] at long
  omega

/-- The object as it is. -/
lemma Holds.pf_eq (holds : s.Holds sizes) :
    s.object.pf = ⟨sizes.length, footerOf sizes, s.object.pf.view⟩ := by
  rw [← holds.footer, ← holds.count]

/-- An object that holds the sizes keeps them. -/
lemma Holds.kept (holds : s.Holds sizes) : s.Kept := by
  have length := holds.given.length_eq
  refine ⟨holds.count.trans length.symm, ?_, ?_⟩
  · intro idx size hidx
    obtain ⟨h, e⟩ := List.getElem?_eq_some_iff.mp hidx
    have h' : idx < sizes.length := length ▸ h
    have same := List.forall₂_iff_get.mp holds.given |>.2 idx h h'
    rw [holds.pf_eq, getSize_footerOf _ holds.small h', List.getD_eq_getElem _ _ h']
    exact congrArg Except.ok (same size e).symm
  · intro packets e
    have all : sizes = packets.map List.length := by
      apply List.ext_getElem
      · rw [← length, e, List.length_map, List.length_map]
      · intro i h1 h2
        have h0 : i < s.given.length := by rw [length]; exact h1
        have same := List.forall₂_iff_get.mp holds.given |>.2 i h0 h1
        rw [List.getElem_map]
        exact (same _ (by simp [e])).symm
    have count : Psana.fits packets.length := by
      have count := holds.fits
      rwa [all, List.length_map] at count
    have small : ∀ packet ∈ packets, Psana.fits packet.length := by
      intro packet hpacket
      apply holds.small
      rw [all]
      exact List.mem_map_of_mem hpacket
    rw [holds.footer, all]
    exact split_packed count small

/-- What is there is kept. -/
lemma Inv.kept (inv : s.Inv) : s.Kept := by
  cases inv with
  | inl empty =>
    obtain ⟨footer, count, given⟩ := empty
    refine ⟨by rw [count, given]; rfl, ?_, ?_⟩
    · intro idx size hidx
      rw [given] at hidx
      cases hidx
    · intro packets e
      rw [given] at e
      obtain rfl := List.map_eq_nil_iff.mp e.symm
      rw [footer]
      rfl
  | inr holds =>
    obtain ⟨sizes, holds⟩ := holds
    exact holds.kept

/-- However the footer is made. -/
lemma Inv.made (made : Made s) : s.Inv := by
  cases made with
  | empty => exact .inl ⟨rfl, rfl, rfl⟩
  | @new n pf h =>
    rw [PacketFooter.new] at h
    split at h
    · rename_i zero
      cases h
      subst zero
      exact .inl ⟨rfl, rfl, rfl⟩
    · split at h
      · rename_i count
        cases h
        refine .inr ⟨List.replicate n 0, ?_, ?_, ?_, ?_, ?_⟩
        · have h := partFooter_full (List.replicate n 0)
          rw [← h, partFooter, List.length_replicate, Nat.sub_self]
          simp [flatMap_zeros]
        · simp
        · simpa using count
        · intro size hsize
          rw [List.eq_of_mem_replicate hsize]
          decide
        · rw [List.forall₂_iff_get]
          refine ⟨by simp, ?_⟩
          intro i h1 h2 x hx
          simp at hx
      · cases h
  | @ofView before sizes pf container count small h =>
    rw [ofView_append before count] at h
    cases h
    refine .inr ⟨sizes, rfl, rfl, count, small, ?_⟩
    rw [List.forall₂_iff_get]
    refine ⟨List.length_map _, ?_⟩
    intro i h1 h2 x hx
    simpa using hx.symm

/-- Giving one size after the other. -/
lemma Holds.setSize (holds : s.Holds sizes) {idx size : Nat} (small : Psana.fits size) (o : FooterObject)
    (pf : o.pf.footer = footerOf (sizes.set idx size) ∧ o.pf.nPackets = sizes.length) :
    Holds ⟨o, s.given.set idx (some size)⟩ (sizes.set idx size) := by
  refine ⟨pf.1, pf.2.trans (List.length_set ..).symm, ?_, ?_, ?_⟩
  · rw [List.length_set]
    exact holds.fits
  · intro x hx
    cases List.mem_or_eq_of_mem_set hx with
    | inl hx => exact holds.small x hx
    | inr hx => rwa [hx]
  · obtain ⟨length, same⟩ := List.forall₂_iff_get.mp holds.given
    rw [List.forall₂_iff_get]
    refine ⟨by rw [List.length_set, List.length_set, length], ?_⟩
    intro i h1 h2 x hx
    simp only [List.get_eq_getElem, List.getElem_set] at hx ⊢
    split at hx
    · rw [if_pos ‹_›]
      exact (Option.some.inj hx).symm
    · rw [if_neg ‹_›]
      exact same i (by simpa using h1) (by simpa using h2) x hx

/-- A size is given, or the call raises and changes nothing. -/
lemma Inv.setSize (inv : s.Inv) {idx size : Int} (indexed : 0 ≤ idx) (h : s.step (.setSize idx size) = .ok t) :
    t.Inv := by
  obtain ⟨idx, rfl⟩ := Int.eq_ofNat_of_zero_le indexed
  have raised : s.step (.setSize (idx : Int) size) = .ok s → t.Inv := by
    intro same
    rw [same] at h
    cases h
    exact inv
  cases inv with
  | inl empty =>
    apply raised
    have none_ : ¬ ((idx : Int) < (0 : Nat)) := Int.not_lt.mpr indexed
    simp only [step, FooterObject.setSize, PacketFooter.setSize, empty.2.1, if_neg none_]
  | inr holds =>
    obtain ⟨sizes, holds⟩ := holds
    by_cases inside : idx < sizes.length
    · by_cases small : 0 ≤ size ∧ size < 256 ^ 4
      · obtain ⟨size, rfl⟩ := Int.eq_ofNat_of_zero_le small.1
        have small := fits_iff.mp small
        have set_ : s.object.pf.setSize idx size =
            .ok ⟨sizes.length, footerOf (sizes.set idx size), s.object.pf.view⟩ := by
          rw [holds.pf_eq]
          exact setSize_footerOf _ inside small
        have length : (footerOf (sizes.set idx size)).length = s.object.pf.footer.length := by
          rw [holds.footer, footerOf_length, footerOf_length, List.length_set]
        cases container : s.object.container with
        | bytes =>
          apply raised
          simp only [step, FooterObject.setSize, set_, container]
        | bytearray =>
          simp only [step, FooterObject.setSize, set_, container, FooterObject.written, if_pos indexed,
            Int.toNat_natCast] at h
          cases h
          exact .inr ⟨_, holds.setSize small _ ⟨rfl, rfl⟩⟩
        | memoryview =>
          simp only [step, FooterObject.setSize, set_, container, FooterObject.written, if_pos length,
            if_pos indexed, Int.toNat_natCast] at h
          cases h
          exact .inr ⟨_, holds.setSize small _ ⟨rfl, rfl⟩⟩
      · apply raised
        have inside : (idx : Int) < s.object.pf.nPackets := Int.ofNat_lt.mpr (holds.count ▸ inside)
        have fails : s.object.pf.setSize idx size = .error .overflow := by
          rw [PacketFooter.setSize, if_pos inside, if_neg small]
        simp only [step, FooterObject.setSize, fails]
    · apply raised
      have outside : ¬ (idx : Int) < s.object.pf.nPackets := fun lt => inside (holds.count ▸ Int.ofNat_lt.mp lt)
      have fails : s.object.pf.setSize idx size = .error .assertion := by
        rw [PacketFooter.setSize, if_neg outside]
      simp only [step, FooterObject.setSize, fails]

/-- A packet that finds things in order is added. -/
lemma Inv.addPacket (inv : s.Inv) {size : Int} (inOrder : s.InOrder (.addPacket size))
    (h : s.step (.addPacket size) = .ok t) : t.Inv := by
  obtain ⟨some_, container, small, count⟩ := inOrder
  obtain ⟨size, rfl⟩ := Int.eq_ofNat_of_zero_le small.1
  have small := fits_iff.mp small
  cases inv with
  | inl empty => exact absurd empty.1 some_
  | inr holds =>
    obtain ⟨sizes, holds⟩ := holds
    have object : s.object = ⟨⟨sizes.length, footerOf sizes, s.object.pf.view⟩, .bytearray⟩ := by
      rw [← holds.pf_eq, ← container]
    have count : fits (sizes.length + 1) := holds.count ▸ count
    have added := addPacket_footerOf s.object.pf.view small count
    rw [← object] at added
    rw [Sizing.step, added] at h
    cases h
    refine .inr ⟨sizes ++ [size], rfl, by simp, by simpa using count, ?_, ?_⟩
    · intro x hx
      cases List.mem_append.mp hx with
      | inl hx => exact holds.small x hx
      | inr hx => rwa [List.mem_singleton.mp hx]
    · apply List.rel_append holds.given
      refine .cons ?_ .nil
      rintro x ⟨⟩
      rfl

/-- A packet that is added to nothing is lost, and where the call raises it is counted all the same. -/
lemma Inv.inOrder (inv : s.Inv) {size : Int} (h : s.step (.addPacket size) = .ok t) (kept : t.Kept) :
    s.InOrder (.addPacket size) := by
  have before := inv.kept.count
  -- a call that raises has counted a packet
  have counts : ∀ footer, t = ⟨⟨⟨s.object.pf.nPackets + 1, footer, s.object.pf.view⟩,
      s.object.container⟩, s.given⟩ → False := by
    rintro footer rfl
    have after : s.object.pf.nPackets + 1 = s.given.length := kept.count
    omega
  simp only [step, FooterObject.addPacket] at h
  by_cases can : (0 ≤ size ∧ size < 256 ^ 4) ∧ s.object.container = .bytearray
  · rw [if_pos can] at h
    by_cases count : fits (s.object.pf.nPackets + 1)
    · rw [if_pos count] at h
      refine ⟨?_, can.2, can.1, count⟩
      intro empty
      cases inv with
      | inr holds =>
        obtain ⟨sizes, holds⟩ := holds
        exact holds.ne_nil empty
      | inl start =>
        rw [empty, start.2.1, start.2.2] at h
        cases h
        have one : (Except.ok (ofLe (slice (toLe 4 1) 0 4)) : Except PacketFault Nat) = .ok size.toNat :=
          kept.getSize 0 size.toNat rfl
        have one : size.toNat = 1 := (Except.ok.inj one).symm
        -- the packet of one byte is read back as the whole view
        have lost : (do let pf ← PacketFooter.ofView ([0] ++ toLe 4 1); pf.splitPackets) = .ok [[0]] :=
          kept.split [[0]] (by simp only [one]; rfl)
        revert lost
        decide
    · rw [if_neg count] at h
      exact (counts _ (Except.ok.inj h).symm).elim
  · rw [if_neg can] at h
    exact (counts _ (Except.ok.inj h).symm).elim

/-- A call in order keeps the invariant. -/
lemma Inv.step (inv : s.Inv) {op : SizeOp} (inOrder : s.InOrder op) (h : s.step op = .ok t) : t.Inv := by
  cases op with
  | addPacket size => exact inv.addPacket inOrder h
  | setSize idx size => exact inv.setSize inOrder h

/-- The sizes are kept where every call finds things in order, and, unless an index is below 0, nowhere else. -/
theorem sizes_kept_iff (made : Made s) (ops : List SizeOp) :
    (∀ t, Run step (fun _ r op => r.InOrder op) s ops t → t.Kept) ∧
    ∀ t, Run step (fun _ _ op => op.Indexed) s ops t →
      ((∀ part r, part <+: ops → Run step (fun _ _ op => op.Indexed) s part r → r.Kept) ↔
        Run step (fun _ r op => r.InOrder op) s ops t) := by
  have kept : ∀ s op t, s.Inv → s.InOrder op → Sizing.step s op = .ok t → t.Kept := by
    intro s op t inv inOrder h
    exact (inv.step inOrder h).kept
  constructor
  · intro t run
    have inv : t.Inv := by
      refine run.invariant (P := fun _ r => r.Inv) (.made made) ?_
      intro _ s op t inv inOrder h
      exact inv.step inOrder h
    exact inv.kept
  · intro t run
    refine Run.everywhere_iff (I := fun _ r => r.Inv) (P := fun _ r => r.Kept) (.made made)
      (Inv.made made).kept ?_ ?_ run
    · intro _ s op t inv inOrder h
      exact inv.step inOrder h
    · intro _ s op t inv _ indexed h
      cases op with
      | addPacket size => exact ⟨inv.inOrder h, fun inOrder => kept _ _ _ inv inOrder h⟩
      | setSize idx size => exact iff_of_true (kept s (.setSize idx size) t inv indexed h) indexed

/-- Two packets in a footer made for them, and a third one. -/
theorem sizes_kept_three :
    ∃ s t, Made s ∧ Run step (fun _ _ op => op.Indexed) s [.setSize 0 7, .setSize 1 9, .addPacket 5] t ∧
      t.Kept ∧ t.object.pf.footer = footerOf [7, 9, 5] := by
  have made : Made ⟨⟨⟨2, footerOf [0, 0], []⟩, .bytearray⟩, [none, none]⟩ := .new (n := 2) rfl
  have two : Run step (fun _ r op => r.InOrder op)
      ⟨⟨⟨2, footerOf [0, 0], []⟩, .bytearray⟩, [none, none]⟩ [.setSize 0 7, .setSize 1 9]
      ⟨⟨⟨2, footerOf [7, 9], []⟩, .bytearray⟩, [some 7, some 9]⟩ :=
    .snoc (.snoc .nil (Int.le_refl 0) rfl) (Int.one_nonneg) rfl
  have room : InOrder ⟨⟨⟨2, footerOf [7, 9], []⟩, .bytearray⟩, [some 7, some 9]⟩ (.addPacket 5) :=
    ⟨by decide, rfl, by decide, by decide⟩
  have run := two.snoc room rfl
  have indexed : Run step (fun _ _ op => op.Indexed) ⟨⟨⟨2, footerOf [0, 0], []⟩, .bytearray⟩, [none, none]⟩ _ _ :=
    run.mono fun _ s op inOrder => by
      cases op with
      | addPacket size => trivial
      | setSize idx size => exact inOrder
  have all := ((sizes_kept_iff made _).2 _ indexed).mpr run
  exact ⟨_, _, made, indexed, all _ _ List.prefix_rfl indexed, by decide⟩

/-- The size of the first packet added to an empty footer is lost, and a size at an index below 0 replaces the one of
    another packet. -/
theorem first_size_lost :
    (∃ s t, Made s ∧ Run step (fun _ _ _ => True) s [.addPacket 7] t ∧ ¬ t.Kept) ∧
    ∃ s t, Made s ∧ Run step (fun _ _ _ => True) s [.setSize 0 7, .setSize (-2) 5] t ∧ ¬ t.Kept := by
  constructor
  · refine ⟨_, _, .empty, .snoc .nil trivial rfl, ?_⟩
    intro kept
    have size := kept.getSize 0 7 rfl
    revert size
    decide
  · refine ⟨_, _, .new (n := 1) rfl, .snoc (.snoc .nil trivial rfl) trivial rfl, ?_⟩
    intro kept
    have size := kept.getSize 0 7 rfl
    revert size
    decide

end Sizing

end Lcls2.Psana
