import Lcls2.Xtc.UpdateIter

/-!
# Fresh names ids

`getNextNamesId` gives a new detector its names id. `Numbering` is a sequence of iterations over a
`Configure` and of such calls, and remembers what each call had to avoid. `fresh_iff` says when all
ids given out are new: before a call has thrown they are, but for the ids below a `Corrupted` `Xtc`, which the
iteration does not come to; a call that throws has moved `_maxOfMinNamesId` on already, so that the next one
gives out the id beyond.
-/

namespace Lcls2.Xtc
open Lib

/-- The names ids among some leaves. -/
def namesIds (leaves : List Leaf) : List NamesId :=
  leaves.filterMap fun leaf => leaf.names?.map Names.id

/-- What the iteration does not come to. -/
def skippedOf (leaves : List (Bool × Leaf)) : List Leaf := (leaves.filter (!·.1)).map (·.2)

/-- An id given out for a node, with the ids that were in the dgram and those given out before. -/
structure Given where
  id : BitVec 32
  nodeId : BitVec 12
  found : List NamesId
  before : List (BitVec 32)
  deriving DecidableEq, Repr

/-- The id is in range and new. -/
def Given.Fresh (g : Given) : Prop :=
  g.id.toNat ≤ 255 ∧ (∀ f ∈ g.found, f.nodeId = g.nodeId → f.namesId.toNat ≠ g.id.toNat) ∧ g.id ∉ g.before

/-- What is done with the iterator: it iterates over (a part of) the `Configure`, or is asked for an
    id. -/
inductive NumberOp where
  | iterate (d : DgramXtc)
  | getNextNamesId

/-- The iterator, the ids it has come across and those it has missed, those it has given out, and whether it has
    thrown. -/
structure Numbering where
  uiter : XtcUpdateIter
  found : List NamesId
  missed : List NamesId
  given : List Given
  thrown : Bool

namespace Numbering

/-- A new iterator. -/
def start : Numbering where
  uiter := .init
  found := []
  missed := []
  given := []
  thrown := false

/-- One operation. -/
def step (s : Numbering) : NumberOp → Except EditFault Numbering
  | .iterate d => do
    let u ← s.uiter.iterate d
    return { s with
      uiter := u
      found := s.found ++ namesIds (reachedOf d.leaves)
      missed := s.missed ++ namesIds (skippedOf d.leaves) }
  | .getNextNamesId =>
    match s.uiter.getNextNamesId with
    | (.error _, u) => .ok { s with uiter := u, thrown := true }
    | (.ok id, u) =>
      .ok { s with
        uiter := u
        given := s.given ++ [⟨id, u._nodeId, s.found ++ s.missed, s.given.map Given.id⟩] }

/-- The number after `_maxOfMinNamesId` is not that of an id of the node among these. -/
def IsFree (s : Numbering) (ids : List NamesId) : Prop :=
  ∀ f ∈ ids, f.nodeId = s.uiter._nodeId → f.namesId.toNat ≠ s.uiter._maxOfMinNamesId.toNat + 1

/-- Nothing has thrown, and the number after `_maxOfMinNamesId` is not one that was missed; or it happens to be
    free. -/
def InOrder (s : Numbering) : NumberOp → Prop
  | .iterate _ => True
  | .getNextNamesId =>
    s.thrown = false ∧ s.IsFree s.missed ∨ s.uiter._maxOfMinNamesId + 1 = s.uiter._minOfMaxNamesId ∨
      (s.uiter._maxOfMinNamesId.toNat < 255 ∧ s.IsFree (s.found ++ s.missed))

instance (s : Numbering) (ids : List NamesId) : Decidable (s.IsFree ids) :=
  inferInstanceAs (Decidable (∀ f ∈ ids, _))

instance (s : Numbering) : (op : NumberOp) → Decidable (s.InOrder op)
  | .iterate _ => .isTrue trivial
  | .getNextNamesId => inferInstanceAs (Decidable (_ ∨ _ ∨ _))

/-- All ids given out were fresh. -/
def Good (s : Numbering) : Prop := ∀ g ∈ s.given, g.Fresh

/-- The lower range holds what was given out, and as long as nothing was thrown the two ranges are
    apart and hold what was found. -/
structure Inv (s : Numbering) : Prop where
  lower : s.uiter._maxOfMinNamesId.toNat ≤ 255
  upper : s.uiter._minOfMaxNamesId.toNat ≤ 255
  given : ∀ g ∈ s.given, g.id.toNat ≤ s.uiter._maxOfMinNamesId.toNat
  apart : s.thrown = false →
    s.uiter._maxOfMinNamesId.toNat < s.uiter._minOfMaxNamesId.toNat
  found : s.thrown = false → ∀ f ∈ s.found,
    f.namesId.toNat ≤ s.uiter._maxOfMinNamesId.toNat ∨
      s.uiter._minOfMaxNamesId.toNat ≤ f.namesId.toNat

end Numbering

/-- What a names id does to the two ranges. -/
structure Pulled (u : XtcUpdateIter) (n : Nat) (u' : XtcUpdateIter) : Prop where
  lower : u._maxOfMinNamesId.toNat ≤ u'._maxOfMinNamesId.toNat
  bound : u'._maxOfMinNamesId.toNat ≤ 255
  upper : u'._minOfMaxNamesId.toNat ≤ u._minOfMaxNamesId.toNat
  apart : u._maxOfMinNamesId.toNat < u._minOfMaxNamesId.toNat →
    u'._maxOfMinNamesId.toNat < u'._minOfMaxNamesId.toNat ∧
      (n ≤ u'._maxOfMinNamesId.toNat ∨ u'._minOfMaxNamesId.toNat ≤ n)

/-- The distance of two small numbers. -/
lemma natAbs_sub_toInt {a b : BitVec 32} (ha : a.toNat ≤ 255) (hb : b.toNat ≤ 255) :
    (a - b).toInt.natAbs = (a.toNat - b.toNat) + (b.toNat - a.toNat) := by
  have h : (a - b).toInt = (a.toNat : Int) - b.toNat := by
    rw [BitVec.toInt_sub, BitVec.toInt_eq_toNat_of_lt (by omega), BitVec.toInt_eq_toNat_of_lt (by omega),
      Int.bmod_eq_of_le (by omega) (by omega)]
  rw [h]
  omega

/-- The id is in the range that it is closest to. -/
lemma pullRange_spec {u v : XtcUpdateIter} (namesId : BitVec 8)
    (same : v._maxOfMinNamesId = u._maxOfMinNamesId)
    (same' : v._minOfMaxNamesId = u._minOfMaxNamesId)
    (lower : u._maxOfMinNamesId.toNat ≤ 255) (upper : u._minOfMaxNamesId.toNat ≤ 255) :
    Pulled u namesId.toNat (v.pullRange namesId) := by
  have small : (namesId.setWidth 32).toNat = namesId.toNat := by
    rw [BitVec.toNat_setWidth]
    exact Nat.mod_eq_of_lt (by omega)
  have le : (namesId.setWidth 32).toNat ≤ 255 := by omega
  simp only [XtcUpdateIter.pullRange, same, same', natAbs_sub_toInt le lower,
    natAbs_sub_toInt le upper, BitVec.lt_def, small]
  split
  · split
    · constructor <;> simp only [small] <;> omega
    · constructor <;> simp only [same, same'] <;> omega
  · split
    · constructor <;> simp only [small] <;> omega
    · constructor <;> simp only [same, same'] <;> omega

/-- What walking some leaves does to the two ranges. -/
structure RangesWalked (u : XtcUpdateIter) (ids : List NamesId) (u' : XtcUpdateIter) : Prop where
  lower : u._maxOfMinNamesId.toNat ≤ u'._maxOfMinNamesId.toNat
  bound : u'._maxOfMinNamesId.toNat ≤ 255
  upper : u'._minOfMaxNamesId.toNat ≤ u._minOfMaxNamesId.toNat
  apart : u._maxOfMinNamesId.toNat < u._minOfMaxNamesId.toNat →
    u'._maxOfMinNamesId.toNat < u'._minOfMaxNamesId.toNat ∧
      ∀ f ∈ ids, f.namesId.toNat ≤ u'._maxOfMinNamesId.toNat ∨
        u'._minOfMaxNamesId.toNat ≤ f.namesId.toNat

/-- Data leaves the ranges alone. -/
lemma processShapesData_ranges {u u' : XtcUpdateIter} {sd : ShapesData}
    (h : u.processShapesData sd = .ok u') :
    u'._maxOfMinNamesId = u._maxOfMinNamesId ∧ u'._minOfMaxNamesId = u._minOfMaxNamesId := by
  simp only [XtcUpdateIter.processShapesData] at h
  cases lookup : u._namesLookup sd.id with
  | none =>
    rw [lookup] at h
    cases h
  | some names =>
    simp only [lookup] at h
    split at h
    · split at h <;> cases h <;> exact ⟨rfl, rfl⟩
    · split at h <;> cases h <;> exact ⟨rfl, rfl⟩

/-- Names pull the ranges, whatever else they change. -/
lemma processNames_pulled {u : XtcUpdateIter} (names : Names)
    (lower : u._maxOfMinNamesId.toNat ≤ 255) (upper : u._minOfMaxNamesId.toNat ≤ 255) :
    Pulled u names.id.namesId.toNat (u.processNames names) := by
  simp only [XtcUpdateIter.processNames]
  split <;> exact pullRange_spec names.id.namesId rfl rfl lower upper

/-- A walk leaves every id that it found in one of the ranges. -/
lemma foldlM_walked {u u' : XtcUpdateIter} {leaves : List Leaf}
    (lower : u._maxOfMinNamesId.toNat ≤ 255) (upper : u._minOfMaxNamesId.toNat ≤ 255)
    (h : leaves.foldlM XtcUpdateIter.processLeaf u = .ok u') : RangesWalked u (namesIds leaves) u' := by
  induction leaves generalizing u with
  | nil =>
    cases h
    exact ⟨le_rfl, lower, le_rfl, fun apart => ⟨apart, by rintro _ ⟨⟩⟩⟩
  | cons leaf leaves ih =>
    rw [List.foldlM_cons] at h
    obtain ⟨v, e, h'⟩ := bind_ok h
    cases leaf with
    | names names =>
      cases e
      have one := processNames_pulled names lower upper
      have rest := ih one.bound (one.upper.trans upper) h'
      refine ⟨one.lower.trans rest.lower, rest.bound, rest.upper.trans one.upper, fun apart => ?_⟩
      obtain ⟨apart', first⟩ := one.apart apart
      obtain ⟨apart'', others⟩ := rest.apart apart'
      refine ⟨apart'', fun f hf => ?_⟩
      cases List.mem_cons.mp hf with
      | inl hf =>
        subst hf
        have := rest.lower
        have := rest.upper
        omega
      | inr hf => exact others f hf
    | shapesData sd =>
      obtain ⟨same, same'⟩ := processShapesData_ranges e
      have rest := ih (same ▸ lower) (same' ▸ upper) h'
      exact ⟨same ▸ rest.lower, rest.bound, same' ▸ rest.upper, fun apart =>
        rest.apart (by rw [same, same']; exact apart)⟩
    | other =>
      cases e
      exact ih lower upper h'

/-- A call, with the number it comes to. -/
lemma getNextNamesId_spec (u : XtcUpdateIter) (lower : u._maxOfMinNamesId.toNat ≤ 255) :
    (u._maxOfMinNamesId + 1).toNat = u._maxOfMinNamesId.toNat + 1 := by
  rw [BitVec.toNat_add]
  exact Nat.mod_eq_of_lt (by show u._maxOfMinNamesId.toNat + 1 < 2 ^ 32; omega)

namespace Numbering

variable {s t : Numbering}

/-- Before anything was done. -/
lemma Inv.start : start.Inv where
  lower := by decide
  upper := by decide
  given := by rintro _ ⟨⟩
  apart := fun _ => by decide
  found := by rintro _ _ ⟨⟩

/-- An iteration keeps the ranges in order, and gives out nothing. -/
lemma Inv.iterate (inv : s.Inv) {d : DgramXtc} (h : s.step (.iterate d) = .ok t) :
    t.Inv ∧ t.given = s.given := by
  obtain ⟨u, e, h⟩ := bind_ok h
  cases h
  rw [XtcUpdateIter.iterate_eq_leaves] at e
  have walked := foldlM_walked inv.lower inv.upper e
  refine ⟨⟨walked.bound, walked.upper.trans inv.upper, ?_, ?_, ?_⟩, rfl⟩
  · intro g hg
    exact (inv.given g hg).trans walked.lower
  · intro going
    exact (walked.apart (inv.apart going)).1
  · intro going f hf
    cases List.mem_append.mp hf with
    | inl hf =>
      cases inv.found going f hf with
      | inl old => exact .inl (old.trans walked.lower)
      | inr old => exact .inr (walked.upper.trans old)
    | inr hf => exact (walked.apart (inv.apart going)).2 f hf

/-- A call throws, or it gives out the number after the lower range. -/
lemma next_cases (h : s.step .getNextNamesId = .ok t) :
    (s.uiter._maxOfMinNamesId + 1 = s.uiter._minOfMaxNamesId ∧ t.given = s.given ∧
        t.thrown = true ∨
      s.uiter._maxOfMinNamesId + 1 ≠ s.uiter._minOfMaxNamesId ∧
        t.given = s.given ++ [⟨s.uiter._maxOfMinNamesId + 1, s.uiter._nodeId, s.found ++ s.missed,
          s.given.map Given.id⟩] ∧ t.thrown = s.thrown) ∧
    t.found = s.found ∧ t.uiter._maxOfMinNamesId = s.uiter._maxOfMinNamesId + 1 ∧
      t.uiter._minOfMaxNamesId = s.uiter._minOfMaxNamesId := by
  simp only [step, XtcUpdateIter.getNextNamesId] at h
  by_cases full : s.uiter._maxOfMinNamesId + 1 = s.uiter._minOfMaxNamesId
  · rw [if_pos full] at h
    cases h
    exact ⟨.inl ⟨full, rfl, rfl⟩, rfl, rfl, rfl⟩
  · rw [if_neg full] at h
    cases h
    exact ⟨.inr ⟨full, rfl, rfl⟩, rfl, rfl, rfl⟩

/-- Nothing that was given out is beyond the lower range. -/
lemma Inv.not_given (inv : s.Inv) : s.uiter._maxOfMinNamesId + 1 ∉ s.given.map Given.id := by
  intro mem
  obtain ⟨g, hg, e⟩ := List.mem_map.mp mem
  have le := inv.given g hg
  rw [e, getNextNamesId_spec _ inv.lower] at le
  omega

/-- A call that finds things in order gives out a fresh id or none. -/
lemma Inv.fresh_next (inv : s.Inv) (inOrder : s.InOrder .getNextNamesId)
    (h : s.uiter._maxOfMinNamesId + 1 ≠ s.uiter._minOfMaxNamesId) :
    Given.Fresh ⟨s.uiter._maxOfMinNamesId + 1, s.uiter._nodeId, s.found ++ s.missed, s.given.map Given.id⟩ := by
  have succ := getNextNamesId_spec _ inv.lower
  simp only [Given.Fresh, succ]
  cases inOrder with
  | inl first =>
    obtain ⟨going, free⟩ := first
    have apart := inv.apart going
    have ne : s.uiter._maxOfMinNamesId.toNat + 1 ≠ s.uiter._minOfMaxNamesId.toNat := by
      rw [← succ]
      exact fun e => h (BitVec.eq_of_toNat_eq e)
    have upper := inv.upper
    refine ⟨by omega, ?_, inv.not_given⟩
    intro f hf node
    cases List.mem_append.mp hf with
    | inl hf =>
      have := inv.found going f hf
      omega
    | inr hf => exact free f hf node
  | inr rest =>
    cases rest with
    | inl full => exact absurd full h
    | inr free => exact ⟨free.1, free.2, inv.not_given⟩

/-- A call that finds things in order keeps them so. -/
lemma Inv.next (inv : s.Inv) (inOrder : s.InOrder .getNextNamesId)
    (h : s.step .getNextNamesId = .ok t) : t.Inv := by
  have succ := getNextNamesId_spec _ inv.lower
  obtain ⟨outcome, found, lower, upper⟩ := next_cases h
  cases outcome with
  | inl full =>
    obtain ⟨full, given, thrown⟩ := full
    refine ⟨?_, upper ▸ inv.upper, ?_, ?_, ?_⟩
    · rw [lower, full]
      exact inv.upper
    · intro g hg
      rw [lower, succ]
      exact (inv.given g (given ▸ hg)).trans (Nat.le_succ _)
    · intro going
      rw [thrown] at going
      cases going
    · intro going
      rw [thrown] at going
      cases going
  | inr free =>
    obtain ⟨ne, given, thrown⟩ := free
    have fresh := inv.fresh_next inOrder ne
    refine ⟨?_, upper ▸ inv.upper, ?_, ?_, ?_⟩
    · rw [lower]
      exact fresh.1
    · intro g hg
      rw [lower, succ]
      rw [given] at hg
      cases List.mem_append.mp hg with
      | inl hg => exact (inv.given g hg).trans (Nat.le_succ _)
      | inr hg =>
        cases List.mem_singleton.mp hg
        exact le_of_eq succ
    · intro going
      have apart := inv.apart (thrown ▸ going)
      have ne : s.uiter._maxOfMinNamesId.toNat + 1 ≠ s.uiter._minOfMaxNamesId.toNat := by
        rw [← succ]
        exact fun e => ne (BitVec.eq_of_toNat_eq e)
      rw [lower, upper, succ]
      omega
    · intro going f hf
      have old := inv.found (thrown ▸ going) f (found ▸ hf)
      rw [lower, upper, succ]
      omega

/-- What a call gives out is fresh just where it finds things in order. -/
lemma Inv.judge (inv : s.Inv) (good : s.Good) (h : s.step .getNextNamesId = .ok t) :
    t.Good ↔ s.InOrder .getNextNamesId := by
  have succ := getNextNamesId_spec _ inv.lower
  obtain ⟨outcome, -, -, -⟩ := next_cases h
  cases outcome with
  | inl full =>
    refine iff_of_true ?_ (.inr (.inl full.1))
    rw [Good, full.2.1]
    exact good
  | inr free =>
    obtain ⟨ne, given, -⟩ := free
    rw [Good, given]
    constructor
    · intro fresh
      have new := fresh _ (List.mem_append_right _ (List.mem_singleton_self _))
      simp only [Given.Fresh, succ] at new
      exact .inr (.inr ⟨new.1, new.2.1⟩)
    · intro inOrder g hg
      cases List.mem_append.mp hg with
      | inl hg => exact good g hg
      | inr hg =>
        cases List.mem_singleton.mp hg
        exact inv.fresh_next inOrder ne

/-- All ids given out are fresh exactly where every call finds things in order. -/
theorem fresh_iff (ops : List NumberOp) (s : Numbering)
    (run : Run step (fun _ _ _ => True) start ops s) :
    (∀ part t, part <+: ops → Run step (fun _ _ _ => True) start part t → t.Good) ↔
      Run step (fun _ t op => t.InOrder op) start ops s := by
  refine Run.everywhere_iff (I := fun _ t => t.Inv) (P := fun _ t => t.Good) Inv.start
    (by rintro _ ⟨⟩) ?_ ?_ run
  · intro _ s op t inv inOrder h
    cases op with
    | iterate d => exact (inv.iterate h).1
    | getNextNamesId => exact inv.next inOrder h
  · intro _ s op t inv good _ h
    cases op with
    | iterate d =>
      refine iff_of_true ?_ trivial
      rw [Good, (inv.iterate h).2]
      exact good
    | getNextNamesId => exact inv.judge good h

/-- A `Configure` with `Names` of the node 1 and some id. -/
def oneNames (namesId : BitVec 8) : Bytes := parentBytes 0 (namesBytes (.of 1 namesId) [104, 115, 100] [114, 97, 119])

lemma oneNames_nested : isNested (oneNames 1) = true := by decide +kernel

/-- A `Configure` with the names id 1: the next one is 2. -/
theorem fresh_after_one :
    ∃ s, Run step (fun _ _ _ => True) start [.iterate (.ofMem _ oneNames_nested), .getNextNamesId] s ∧ s.Good ∧
      s.given.map Given.id = [2] := by
  obtain ⟨s, run, test⟩ := Run.of_replay_any step (fun _ t op => t.InOrder op) start
    [.iterate (.ofMem _ oneNames_nested), .getNextNamesId] (fun s => s.given.map Given.id = [2]) (by decide +kernel)
  have plain := run.mono fun _ _ _ _ => trivial
  exact ⟨s, plain, (fresh_iff _ _ plain).mpr run _ _ List.prefix_rfl plain, of_decide_eq_true test⟩

/-- A `Configure` with the names ids 254 and 255. -/
def lastTwo : Bytes :=
  parentBytes 0 (namesBytes (.of 1 254) [104, 115, 100] [114, 97, 119] ++ namesBytes (.of 1 255) [104, 115, 100] [102])

/-- A `Configure` with the names id 1 in a `Corrupted` part. -/
def hiddenOne : Bytes := parentBytes 0 (parentBytes 8 (namesBytes (.of 0 1) [104, 115, 100] [114, 97, 119]))

lemma lastTwo_nested : isNested lastTwo = true := by decide +kernel

lemma hiddenOne_nested : isNested hiddenOne = true := by decide +kernel

/-- After 253 ids the next call throws, and the one after it gives out 255, which is in the `Configure`. An id that
    was missed is given out by the first call. -/
theorem taken_after_throw :
    (∃ s, Run step (fun _ _ _ => True) start
        (.iterate (.ofMem _ lastTwo_nested) :: List.replicate 255 .getNextNamesId) s ∧ ¬ s.Good) ∧
    ∃ s, Run step (fun _ _ _ => True) start [.iterate (.ofMem _ hiddenOne_nested), .getNextNamesId] s ∧ ¬ s.Good := by
  constructor
  · obtain ⟨s, run, test⟩ := Run.of_replay_any step (fun _ _ _ => True) start
      (.iterate (.ofMem _ lastTwo_nested) :: List.replicate 255 .getNextNamesId)
      (fun s => s.given.any fun g => g.id = 255 ∧ g.nodeId = 1 ∧ .of 1 255 ∈ g.found) (by decide +kernel)
    refine ⟨s, run, ?_⟩
    intro good
    obtain ⟨g, hg, h⟩ := List.any_eq_true.mp test
    obtain ⟨id, node, found⟩ := of_decide_eq_true h
    exact (good g hg).2.1 _ found (by rw [node]; decide) (by rw [id]; decide)
  · obtain ⟨s, run, test⟩ := Run.of_replay_any step (fun _ _ _ => True) start
      [.iterate (.ofMem _ hiddenOne_nested), .getNextNamesId]
      (fun s => s.given.any fun g => g.id = 1 ∧ g.nodeId = 0 ∧ .of 0 1 ∈ g.found) (by decide +kernel)
    refine ⟨s, run, ?_⟩
    intro good
    obtain ⟨g, hg, h⟩ := List.any_eq_true.mp test
    obtain ⟨id, node, found⟩ := of_decide_eq_true h
    exact (good g hg).2.1 _ found (by rw [node]; decide) (by rw [id]; decide)

end Numbering

end Lcls2.Xtc
