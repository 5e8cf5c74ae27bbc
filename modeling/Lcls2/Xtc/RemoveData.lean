import Lcls2.Xtc.UpdateIter

/-!
# Data that is removed

A session with `DgramEdit`: a `Configure` is opened, detectors are added to it, events are opened,
`removedata` names what is to go, and dgrams are saved. `removed_iff` says when every save drops just
what was named since the save before. A pair of names is looked up by its key, which two pairs can
share (`key_eq_iff`), and what is below a `Corrupted` `Xtc` is not copied.
-/

namespace Lcls2.Xtc
open Lib

/-- Data of a dgram, with the names it is looked up under and whether the iteration comes to it. -/
structure Found where
  sd : ShapesData
  names : Option Names
  reached : Bool
  deriving DecidableEq

/-- The data among some leaves. -/
def described (lookup : NamesId → Option Names) : List (Bool × Leaf) → List Found
  | [] => []
  | (reached, .names n) :: leaves =>
    described (if reached then Function.update lookup n.id (some n) else lookup) leaves
  | (reached, .shapesData sd) :: leaves => ⟨sd, lookup sd.id, reached⟩ :: described lookup leaves
  | (_, .other) :: leaves => described lookup leaves

/-- A dgram that is no `Configure`: `Names` are in a `Configure` only. -/
structure EventXtc extends DgramXtc where
  noNames : ∀ leaf ∈ leaves, leaf.2.names? = none

/-- A call of `removedata`, and whether its key was in `_flagFilter`. -/
structure Removal where
  detName : CString
  algName : CString
  known : Bool
  deriving DecidableEq

/-- Two pairs of names that are not the same, and share their key. -/
def Collides (detName algName detName' algName' : CString) : Prop :=
  ∃ x : Bytes,
    detName'.1 = detName.1 ++ underscore :: x ∧ algName.1 = x ++ underscore :: algName'.1 ∨
      detName.1 = detName'.1 ++ underscore :: x ∧ algName'.1 = x ++ underscore :: algName.1

/-- The calls name what has these names. -/
def named (calls : List Removal) (names : Option Names) : Bool :=
  names.any fun n => calls.any fun r => r.detName = n.detName ∧ r.algName = n.alg

/-- A save: what the dgram held, the calls since the last save, what was in the buffer before, and
    what was copied. -/
structure Save where
  found : List Found
  calls : List Removal
  before : List ShapesData
  kept : List ShapesData
  deriving DecidableEq

/-- The save has dropped what was named, and the dgram goes out alone. -/
def Save.Exact (save : Save) : Prop :=
  save.before = [] ∧ save.kept = (save.found.filter fun f => ¬ named save.calls f.names).map Found.sd

instance (save : Save) : Decidable save.Exact := inferInstanceAs (Decidable (_ ∧ _))

/-- What is done with `DgramEdit`s that share an iterator. -/
inductive EditOp where
  | detector (names : Names)
  | openEvent
  | removedata (detName algName : CString)
  | saveConfig (d : DgramXtc)
  | save (d : EventXtc)

/-- Why an operation fails: `process` throws, `Detector` expects a `Configure`, or there is no event
    to save. -/
inductive SessionFault where
  | thrown (fault : EditFault)
  | expectConfigure
  | noEvent
  deriving DecidableEq, Repr

/-- The shared iterator, the calls since the last save, and the saves. -/
structure Session where
  uiter : XtcUpdateIter
  calls : List Removal
  saves : List Save

namespace Session

/-- `DgramEdit(pydg=config)`. -/
def start (config : DgramXtc) : Except EditFault Session := do
  let u ← { XtcUpdateIter.init with _cfgFlag := true }.iterate config
  return ⟨u, [], []⟩

/-- One operation. `save` walks the dgram, copies the buffer out and clears the filter. -/
def step (s : Session) : EditOp → Except SessionFault Session
  | .detector names =>
    if s.uiter._cfgFlag then .ok { s with uiter := s.uiter.addNames names } else .error .expectConfigure
  | .openEvent => .ok { s with uiter := { s.uiter with _cfgFlag := false } }
  | .removedata detName algName =>
    .ok { s with
      uiter := s.uiter.setFilter detName algName
      calls := s.calls ++
        [⟨detName, algName, (s.uiter._flagFilter (filterKey detName algName)).isSome⟩] }
  | .saveConfig d =>
    match { s.uiter with _cfgWriteFlag := true }.iterate d with
    | .error fault => .error (.thrown fault)
    | .ok u => .ok {
        uiter := { u with _cfgbuf := [] }.clearFilter
        calls := []
        saves := s.saves ++ [{
          found := described s.uiter._namesLookup d.leaves
          calls := s.calls
          before := []
          kept := u._cfgbuf.filterMap Leaf.shapesData? }] }
  | .save d =>
    if s.uiter._cfgFlag then .error .noEvent
    else
      match { s.uiter with _cfgWriteFlag := false }.iterate d.toDgramXtc with
      | .error fault => .error (.thrown fault)
      | .ok u => .ok {
          uiter := { u with _tmpbuf := [] }.clearFilter
          calls := []
          saves := s.saves ++ [{
            found := described s.uiter._namesLookup d.leaves
            calls := s.calls
            before := s.uiter._tmpbuf
            kept := u._tmpbuf.drop s.uiter._tmpbuf.length }] }

/-- What a save of an event has to find. -/
structure Apart (s : Session) (found : List Found) : Prop where
  /-- no data of a `Configure` is left over -/
  empty : s.uiter._tmpbuf = []
  /-- what the iteration does not come to is named -/
  skipped : ∀ f ∈ found, f.reached = false → named s.calls f.names = true
  /-- what is named was in the filter when it was -/
  known : ∀ f ∈ found, f.reached = true → ∀ n ∈ f.names, named s.calls f.names = true →
    ∃ r ∈ s.calls, r.known ∧ filterKey r.detName r.algName = filterKey n.detName n.alg
  /-- no call for other names shares the key -/
  apart : ∀ f ∈ found, f.reached = true → ∀ n ∈ f.names, named s.calls f.names = false →
    ∀ r ∈ s.calls, r.known → ¬ Collides r.detName r.algName n.detName n.alg

/-- What an operation has to find. A `Configure` is saved with the data that the iteration comes to before an event
    is opened, and without any afterwards. -/
def InOrder (s : Session) : EditOp → Prop
  | .saveConfig d => ∀ f ∈ described s.uiter._namesLookup d.leaves,
      named s.calls f.names = !(s.uiter._cfgFlag && f.reached)
  | .save d => s.Apart (described s.uiter._namesLookup d.leaves)
  | .detector _ => True
  | .openEvent => True
  | .removedata _ _ => True

/-- Every save so far was exact. -/
def Good (s : Session) : Prop := ∀ save ∈ s.saves, save.Exact

end Session

/-- Two ways to read a list as two parts around a separator. -/
lemma append_cons_eq_iff {α : Type*} {sep : α} {d a d' a' : List α} :
    d ++ sep :: a = d' ++ sep :: a' ↔
      d = d' ∧ a = a' ∨ ∃ x, d' = d ++ sep :: x ∧ a = x ++ sep :: a' ∨
        d = d' ++ sep :: x ∧ a' = x ++ sep :: a := by
  constructor
  · intro h
    cases List.append_eq_append_iff.mp h with
    | inl h =>
      obtain ⟨x, rfl, e⟩ := h
      cases x with
      | nil =>
        cases e
        exact .inl ⟨(List.append_nil d).symm, rfl⟩
      | cons c x =>
        cases e
        exact .inr ⟨x, .inl ⟨rfl, rfl⟩⟩
    | inr h =>
      obtain ⟨x, rfl, e⟩ := h
      cases x with
      | nil =>
        cases e
        exact .inl ⟨List.append_nil d', rfl⟩
      | cons c x =>
        cases e
        exact .inr ⟨x, .inr ⟨rfl, rfl⟩⟩
  · intro h
    cases h with
    | inl h => rw [h.1, h.2]
    | inr h =>
      obtain ⟨x, ⟨rfl, rfl⟩ | ⟨rfl, rfl⟩⟩ := h
      · simp
      · simp

/-- Two pairs share their key when they are the same or collide. -/
lemma key_eq_iff {detName algName detName' algName' : CString} :
    filterKey detName algName = filterKey detName' algName' ↔
      detName = detName' ∧ algName = algName' ∨ Collides detName algName detName' algName' := by
  rw [filterKey, filterKey, append_cons_eq_iff, Subtype.val_inj, Subtype.val_inj, Collides]

/-- What collide are different pairs with one key. -/
lemma collides_iff {detName algName detName' algName' : CString} :
    Collides detName algName detName' algName' ↔
      filterKey detName algName = filterKey detName' algName' ∧ detName ≠ detName' := by
  constructor
  · intro collides
    refine ⟨key_eq_iff.mpr (.inr collides), ?_⟩
    rintro rfl
    obtain ⟨x, ⟨e, _⟩ | ⟨e, _⟩⟩ := collides
    · simpa using congrArg List.length e
    · simpa using congrArg List.length e
  · rintro ⟨key, ne⟩
    cases key_eq_iff.mp key with
    | inl same => exact absurd same.1 ne
    | inr collides => exact collides

instance (detName algName detName' algName' : CString) :
    Decidable (Collides detName algName detName' algName') :=
  decidable_of_iff _ collides_iff.symm

instance Session.decidableApart (s : Session) (found : List Found) : Decidable (s.Apart found) :=
  decidable_of_iff (s.uiter._tmpbuf = [] ∧
      (∀ f ∈ found, f.reached = false → named s.calls f.names = true) ∧
      (∀ f ∈ found, f.reached = true → ∀ n ∈ f.names, named s.calls f.names = true →
        ∃ r ∈ s.calls, r.known ∧ filterKey r.detName r.algName = filterKey n.detName n.alg) ∧
      ∀ f ∈ found, f.reached = true → ∀ n ∈ f.names, named s.calls f.names = false →
        ∀ r ∈ s.calls, r.known → ¬ Collides r.detName r.algName n.detName n.alg)
    ⟨fun h => ⟨h.1, h.2.1, h.2.2.1, h.2.2.2⟩, fun h => ⟨h.empty, h.skipped, h.known, h.apart⟩⟩

instance Session.decidableInOrder (s : Session) : (op : EditOp) → Decidable (s.InOrder op)
  | .saveConfig d => inferInstanceAs (Decidable (∀ f ∈ described s.uiter._namesLookup d.leaves, _ = _))
  | .save _ => s.decidableApart _
  | .detector _ => .isTrue trivial
  | .openEvent => .isTrue trivial
  | .removedata _ _ => .isTrue trivial

/-- The flag of what some data is named by is set. -/
def XtcUpdateIter.isSet (u : XtcUpdateIter) (names : Option Names) : Bool :=
  names.any fun n => u._flagFilter (filterKey n.detName n.alg) = some true

/-- What a walk over some leaves does. -/
structure Visited (u : XtcUpdateIter) (leaves : List (Bool × Leaf)) (u' : XtcUpdateIter) : Prop where
  cfgFlag : u'._cfgFlag = u._cfgFlag
  /-- a key that is new is not set -/
  flags : ∀ key, u'._flagFilter key = some true ↔ u._flagFilter key = some true
  found : ∀ f ∈ described u._namesLookup leaves, f.reached = true → f.names.isSome
  tmpbuf : u'._tmpbuf = u._tmpbuf ++
    if u._cfgFlag then []
    else ((described u._namesLookup leaves).filter fun f => f.reached && !u.isSet f.names).map Found.sd
  cfgbuf : u'._cfgbuf.filterMap Leaf.shapesData? = u._cfgbuf.filterMap Leaf.shapesData? ++
    if u._cfgFlag && u._cfgWriteFlag then ((described u._namesLookup leaves).filter (·.reached)).map Found.sd else []
  unwritten : u._cfgWriteFlag = false → u'._cfgbuf = u._cfgbuf

/-- Names leave the flags that are set alone. -/
lemma insertFlag_set (u : XtcUpdateIter) (key key' : Bytes) :
    (u.insertFlag key)._flagFilter key' = some true ↔ u._flagFilter key' = some true := by
  simp only [XtcUpdateIter.insertFlag, Function.update_apply]
  split
  · subst key'
    cases u._flagFilter key <;> simp
  · rfl

/-- `pullRange` changes the ranges only. -/
lemma pullRange_eq (namesId : BitVec 8) (u : XtcUpdateIter) :
    ∃ lower upper, u.pullRange namesId =
      { u with _maxOfMinNamesId := lower, _minOfMaxNamesId := upper } := by
  simp only [XtcUpdateIter.pullRange]
  split <;> split <;> exact ⟨_, _, rfl⟩

/-- What `Names` change. -/
structure NamesSeen (u : XtcUpdateIter) (n : Names) (u' : XtcUpdateIter) : Prop where
  lookup : u'._namesLookup = Function.update u._namesLookup n.id (some n)
  flags : ∀ key, u'._flagFilter key = some true ↔ u._flagFilter key = some true
  tmpbuf : u'._tmpbuf = u._tmpbuf
  cfgbuf : u'._cfgbuf = u._cfgbuf ++ if u._cfgWriteFlag then [.names n] else []
  cfgFlag : u'._cfgFlag = u._cfgFlag
  cfgWriteFlag : u'._cfgWriteFlag = u._cfgWriteFlag

lemma processNames_seen (u : XtcUpdateIter) (n : Names) : NamesSeen u n (u.processNames n) := by
  simp only [XtcUpdateIter.processNames]
  cases write : u._cfgWriteFlag with
  | true =>
    simp only [if_true]
    generalize e : XtcUpdateIter.insertFlag (filterKey n.detName n.alg) _ = v
    obtain ⟨lower, upper, pulled⟩ := pullRange_eq n.id.namesId { v with _nodeId := n.id.nodeId }
    rw [pulled, ← e]
    exact ⟨rfl, insertFlag_set _ _, rfl, by rw [write]; rfl, rfl, write.symm⟩
  | false =>
    simp only [Bool.false_eq_true, if_false]
    generalize e : XtcUpdateIter.insertFlag (filterKey n.detName n.alg) _ = v
    obtain ⟨lower, upper, pulled⟩ := pullRange_eq n.id.namesId { v with _nodeId := n.id.nodeId }
    rw [pulled, ← e]
    exact ⟨rfl, insertFlag_set _ _, rfl, by rw [write]; exact (List.append_nil _).symm, rfl, write.symm⟩

/-- A walk, one leaf after the other. -/
lemma foldlM_visited {u u' : XtcUpdateIter} {leaves : List (Bool × Leaf)}
    (h : (reachedOf leaves).foldlM XtcUpdateIter.processLeaf u = .ok u') : Visited u leaves u' := by
  induction leaves generalizing u with
  | nil =>
    cases h
    refine ⟨rfl, fun key => Iff.rfl, fun f none_ => absurd none_ List.not_mem_nil, ?_, ?_, fun _ => rfl⟩
    · cases u'._cfgFlag <;> simp [described]
    · cases u'._cfgFlag <;> cases u'._cfgWriteFlag <;> simp [described]
  | cons leaf leaves ih =>
    obtain ⟨reached, leaf⟩ := leaf
    cases reached with
    | false =>
      -- the iteration does not come to it
      have rest : Visited u leaves u' := ih h
      cases leaf with
      | names n => exact ⟨rest.cfgFlag, rest.flags, rest.found, rest.tmpbuf, rest.cfgbuf, rest.unwritten⟩
      | other => exact ⟨rest.cfgFlag, rest.flags, rest.found, rest.tmpbuf, rest.cfgbuf, rest.unwritten⟩
      | shapesData sd =>
        have first : described u._namesLookup ((false, .shapesData sd) :: leaves) =
            ⟨sd, u._namesLookup sd.id, false⟩ :: described u._namesLookup leaves := rfl
        refine ⟨rest.cfgFlag, rest.flags, ?_, ?_, ?_, rest.unwritten⟩
        · rw [first]
          intro f hf reached
          cases List.mem_cons.mp hf with
          | inl here =>
            rw [here] at reached
            cases reached
          | inr hf => exact rest.found f hf reached
        · rw [first, List.filter_cons_of_neg (by simp)]
          exact rest.tmpbuf
        · rw [first, List.filter_cons_of_neg (by simp)]
          exact rest.cfgbuf
    | true =>
      have h : (leaf :: reachedOf leaves).foldlM XtcUpdateIter.processLeaf u = .ok u' := h
      rw [List.foldlM_cons] at h
      obtain ⟨v, e, h'⟩ := bind_ok h
      have rest := ih h'
      cases leaf with
      | names n =>
        cases e
        have seen := processNames_seen u n
        have isSet : ∀ names, (u.processNames n).isSet names = u.isSet names := by
          intro names
          cases names with
          | none => rfl
          | some m => exact decide_eq_decide.mpr (seen.flags _)
        have found := rest.found
        have tmpbuf := rest.tmpbuf
        have cfgbuf := rest.cfgbuf
        rw [seen.lookup] at found tmpbuf cfgbuf
        refine ⟨rest.cfgFlag.trans seen.cfgFlag, fun key => (rest.flags key).trans (seen.flags key), found,
          ?_, ?_, ?_⟩
        · rw [tmpbuf, seen.tmpbuf, seen.cfgFlag]
          simp only [isSet]
          rfl
        · rw [cfgbuf, seen.cfgbuf, seen.cfgFlag, seen.cfgWriteFlag, List.filterMap_append]
          cases u._cfgWriteFlag <;> simp [described, Leaf.shapesData?]
        · intro unwritten
          rw [rest.unwritten (seen.cfgWriteFlag.trans unwritten), seen.cfgbuf, unwritten]
          exact List.append_nil _
      | other =>
        cases e
        exact ⟨rest.cfgFlag, rest.flags, rest.found, rest.tmpbuf, rest.cfgbuf, rest.unwritten⟩
      | shapesData sd =>
        simp only [XtcUpdateIter.processLeaf, XtcUpdateIter.processShapesData] at e
        cases lookup : u._namesLookup sd.id with
        | none =>
          rw [lookup] at e
          cases e
        | some n =>
          simp only [lookup] at e
          have first : described u._namesLookup ((true, .shapesData sd) :: leaves) =
              ⟨sd, some n, true⟩ :: described u._namesLookup leaves := by
            rw [described, lookup]
          have found : ∀ f ∈ ⟨sd, some n, true⟩ :: described u._namesLookup leaves,
              (∀ f ∈ described u._namesLookup leaves, f.reached = true → f.names.isSome) →
                f.reached = true → f.names.isSome := by
            intro f hf others reached
            cases List.mem_cons.mp hf with
            | inl here =>
              rw [here]
              rfl
            | inr hf => exact others f hf reached
          obtain ⟨cfgFlag, flags, found', tmpbuf, cfgbuf, unwritten⟩ := rest
          -- While a Configure is iterated the data is not filtered.
          cases flag : u._cfgFlag with
          | true =>
            simp only [flag, if_true, Except.ok.injEq] at e
            cases write : u._cfgWriteFlag with
            | true =>
              rw [if_pos write] at e
              subst e
              refine ⟨cfgFlag.trans flag.symm, flags, first ▸ fun f hf => found f hf found', ?_, ?_, ?_⟩
              · rw [tmpbuf, flag]
                rfl
              · rw [cfgbuf, first, List.filterMap_append]
                simp [flag, write, Leaf.shapesData?]
              · intro h
                rw [write] at h
                cases h
            | false =>
              rw [write, if_neg Bool.false_ne_true] at e
              subst e
              refine ⟨cfgFlag, flags, first ▸ fun f hf => found f hf found', ?_, ?_, unwritten⟩
              · rw [tmpbuf, flag]
                rfl
              · rw [cfgbuf, flag, write]
                rfl
          | false =>
            simp only [flag, Bool.false_eq_true, if_false] at e
            by_cases set : u._flagFilter (filterKey n.detName n.alg) = some true
            · rw [if_pos set] at e
              cases e
              refine ⟨cfgFlag.trans flag.symm, flags, first ▸ fun f hf => found f hf found', ?_, ?_, unwritten⟩
              · rw [tmpbuf, first]
                simp [flag, set, XtcUpdateIter.isSet]
              · rw [cfgbuf, flag]
                rfl
            · rw [if_neg set] at e
              cases e
              refine ⟨cfgFlag.trans flag.symm, flags, first ▸ fun f hf => found f hf found', ?_, ?_, unwritten⟩
              · rw [tmpbuf, first]
                simp [flag, set, XtcUpdateIter.isSet]
              · rw [cfgbuf, flag]
                rfl

/-- The data of some leaves is where it is described. -/
lemma described_addresses {lookup : NamesId → Option Names} {leaves : List (Bool × Leaf)} :
    (described lookup leaves).map (fun f => f.sd.xtc) = addresses leaves := by
  induction leaves generalizing lookup with
  | nil => rfl
  | cons leaf leaves ih =>
    obtain ⟨reached, leaf⟩ := leaf
    cases leaf with
    | names n => exact ih
    | other => exact ih
    | shapesData sd =>
      rw [described, List.map_cons, ih]
      rfl

/-- Data of a dgram is told apart by where it is. -/
lemma described_injective (d : DgramXtc) {lookup : NamesId → Option Names} :
    ∀ f ∈ described lookup d.leaves, ∀ g ∈ described lookup d.leaves, f.sd = g.sd → f = g := by
  have sorted := (leavesAt_addresses d.held).2.2
  rw [← @described_addresses lookup] at sorted
  have apart : ((described lookup d.leaves).map fun f => f.sd.xtc).Nodup := sorted.imp Nat.ne_of_lt
  intro f hf g hg same
  exact List.inj_on_of_nodup_map apart hf hg (congrArg ShapesData.xtc same)

/-- Two choices among data that is told apart are the same if they choose the same data. -/
lemma map_filter_iff {α β : Type*} {g : α → β} {l : List α} {p q : α → Bool}
    (inj : ∀ x ∈ l, ∀ y ∈ l, g x = g y → x = y) :
    (l.filter p).map g = (l.filter q).map g ↔ ∀ x ∈ l, p x = q x := by
  have one : ∀ p q : α → Bool, (l.filter p).map g = (l.filter q).map g → ∀ x ∈ l, p x = true → q x = true := by
    intro p q e x hx hp
    have mem : g x ∈ (l.filter q).map g := by
      rw [← e]
      exact List.mem_map_of_mem (List.mem_filter.mpr ⟨hx, hp⟩)
    obtain ⟨y, hy, e'⟩ := List.mem_map.mp mem
    obtain ⟨hy, hq⟩ := List.mem_filter.mp hy
    rwa [inj y hy x hx e'] at hq
  constructor
  · intro e x hx
    exact Bool.eq_iff_iff.mpr ⟨one p q e x hx, one q p e.symm x hx⟩
  · intro e
    rw [List.filter_congr e]

namespace Session

/-- The flags that are set are those of the calls since the last save. -/
structure Inv (s : Session) : Prop where
  flags : ∀ key, s.uiter._flagFilter key = some true ↔
    ∃ r ∈ s.calls, r.known ∧ filterKey r.detName r.algName = key
  cfgbuf : s.uiter._cfgbuf = []

variable {s t : Session}

/-- After a save nothing is set. -/
lemma clearFilter_flags (u : XtcUpdateIter) (key : Bytes) :
    u.clearFilter._flagFilter key ≠ some true := by
  simp only [XtcUpdateIter.clearFilter]
  cases u._flagFilter key <;> simp

lemma Inv.cleared (u : XtcUpdateIter) (cfgbuf : u._cfgbuf = []) (saves : List Save) :
    Inv ⟨u.clearFilter, [], saves⟩ where
  flags key := by
    refine iff_of_false (clearFilter_flags u key) ?_
    rintro ⟨_, ⟨⟩, _⟩
  cfgbuf := cfgbuf

/-- A `Configure` that has been opened. -/
lemma Inv.start {config : DgramXtc} (h : start config = .ok s) : s.Inv ∧ s.Good := by
  obtain ⟨u, e, h⟩ := bind_ok h
  cases h
  rw [XtcUpdateIter.iterate_eq_leaves] at e
  have visited := foldlM_visited e
  refine ⟨⟨fun key => ?_, visited.unwritten rfl⟩, by rintro _ ⟨⟩⟩
  rw [visited.flags]
  refine iff_of_false (by rintro ⟨⟩) ?_
  rintro ⟨_, ⟨⟩, _⟩

/-- `setFilter` sets the flag of a key that is there. -/
lemma setFilter_flags (u : XtcUpdateIter) (detName algName : CString) (key : Bytes) :
    (u.setFilter detName algName)._flagFilter key = some true ↔
      u._flagFilter key = some true ∨
        (u._flagFilter (filterKey detName algName)).isSome ∧ filterKey detName algName = key := by
  simp only [XtcUpdateIter.setFilter]
  cases here : u._flagFilter (filterKey detName algName) with
  | none => simp
  | some flag =>
    simp only [Function.update_apply]
    split
    · simp [*]
    · simp only [Option.isSome_some, true_and]
      exact (or_iff_left (Ne.symm ‹_›)).symm

/-- Any operation keeps the flags right. -/
lemma Inv.step (inv : s.Inv) {op : EditOp} (h : s.step op = .ok t) : t.Inv := by
  cases op with
  | detector names =>
    simp only [Session.step] at h
    split at h
    · cases h
      exact ⟨inv.flags, inv.cfgbuf⟩
    · cases h
  | openEvent =>
    cases h
    exact ⟨inv.flags, inv.cfgbuf⟩
  | removedata detName algName =>
    cases h
    refine ⟨fun key => ?_, ?_⟩
    · rw [setFilter_flags, inv.flags]
      simp [List.mem_append, or_and_right, exists_or]
    · show (s.uiter.setFilter detName algName)._cfgbuf = []
      simp only [XtcUpdateIter.setFilter]
      cases s.uiter._flagFilter (filterKey detName algName) <;> exact inv.cfgbuf
  | saveConfig d =>
    simp only [Session.step] at h
    split at h
    · cases h
    · cases h
      exact .cleared _ rfl _
  | save d =>
    simp only [Session.step] at h
    split at h
    · cases h
    · split at h
      · cases h
      · rename_i u e
        cases h
        rw [XtcUpdateIter.iterate_eq_leaves] at e
        have visited := foldlM_visited e
        exact .cleared { u with _tmpbuf := [] } ((visited.unwritten rfl).trans inv.cfgbuf) _

/-- One more save, after saves that were exact. -/
lemma Good.snoc (good : s.Good) {save : Save} {u : XtcUpdateIter} {calls : List Removal} :
    Good ⟨u, calls, s.saves ++ [save]⟩ ↔ save.Exact := by
  constructor
  · intro all
    exact all _ (List.mem_append_right _ (List.mem_singleton_self _))
  · intro last save hsave
    cases List.mem_append.mp hsave with
    | inl hsave => exact good save hsave
    | inr hsave =>
      cases List.mem_singleton.mp hsave
      exact last

/-- A save of a `Configure` keeps the data that the iteration comes to, or none. -/
lemma Inv.judge_saveConfig (inv : s.Inv) (good : s.Good) {d : DgramXtc}
    (h : s.step (.saveConfig d) = .ok t) : t.Good ↔ s.InOrder (.saveConfig d) := by
  simp only [Session.step] at h
  split at h
  · cases h
  · rename_i u e
    cases h
    rw [XtcUpdateIter.iterate_eq_leaves] at e
    have kept := (foldlM_visited e).cfgbuf
    rw [inv.cfgbuf, Bool.and_true, List.filterMap_nil, List.nil_append] at kept
    have kept : u._cfgbuf.filterMap Leaf.shapesData? = ((described s.uiter._namesLookup d.leaves).filter
        fun f => s.uiter._cfgFlag && f.reached).map Found.sd := by
      rw [kept]
      show (if s.uiter._cfgFlag = true then _ else _) = _
      cases s.uiter._cfgFlag with
      | true => rfl
      | false =>
        rw [if_neg Bool.false_ne_true, List.filter_eq_nil_iff.mpr]
        · rfl
        · intro f _ keep
          cases keep
    have exact_iff : Save.Exact
        { found := described s.uiter._namesLookup d.leaves
          calls := s.calls
          before := []
          kept := u._cfgbuf.filterMap Leaf.shapesData? } ↔ s.InOrder (.saveConfig d) := by
      simp only [Save.Exact, true_and, InOrder, kept]
      rw [map_filter_iff (described_injective d)]
      apply forall₂_congr
      intro f _
      cases named s.calls f.names <;> cases (s.uiter._cfgFlag && f.reached) <;> simp
    exact good.snoc.trans exact_iff

/-- The flag of some data is set as it should be just where what it is named by was known and nothing
    else shares its key. -/
lemma Inv.flag_iff (inv : s.Inv) (n : Names) :
    (s.uiter.isSet (some n) = named s.calls (some n)) ↔
      (named s.calls (some n) = true → ∃ r ∈ s.calls, r.known ∧
        filterKey r.detName r.algName = filterKey n.detName n.alg) ∧
      (named s.calls (some n) = false → ∀ r ∈ s.calls, r.known →
        ¬ Collides r.detName r.algName n.detName n.alg) := by
  have isSet : s.uiter.isSet (some n) = true ↔
      ∃ r ∈ s.calls, r.known ∧ filterKey r.detName r.algName = filterKey n.detName n.alg := by
    rw [← inv.flags]
    exact decide_eq_true_iff
  rw [Bool.eq_iff_iff, isSet]
  constructor
  · intro e
    refine ⟨e.mpr, ?_⟩
    intro unnamed r hr known collides
    rw [e.mp ⟨r, hr, known, key_eq_iff.mpr (.inr collides)⟩] at unnamed
    cases unnamed
  · rintro ⟨known, apart⟩
    refine ⟨?_, known⟩
    rintro ⟨r, hr, hknown, key⟩
    by_contra unnamed
    cases key_eq_iff.mp key with
    | inl same => exact unnamed (List.any_eq_true.mpr ⟨r, hr, by simpa using same⟩)
    | inr collides => exact apart (Bool.eq_false_of_not_eq_true unnamed) r hr hknown collides

/-- A save of an event drops what is named just where it finds things in order. -/
lemma Inv.judge_save (inv : s.Inv) (good : s.Good) {d : EventXtc}
    (h : s.step (.save d) = .ok t) : t.Good ↔ s.InOrder (.save d) := by
  simp only [Session.step] at h
  split at h
  · cases h
  · rename_i flag
    split at h
    · cases h
    · rename_i u e
      cases h
      rw [XtcUpdateIter.iterate_eq_leaves] at e
      have visited := foldlM_visited e
      have kept := visited.tmpbuf
      have found := visited.found
      -- What is kept is what the flags do not drop: it is right if each flag agrees with the calls.
      have exact_iff : Save.Exact
          { found := described s.uiter._namesLookup d.leaves
            calls := s.calls
            before := s.uiter._tmpbuf
            kept := u._tmpbuf.drop s.uiter._tmpbuf.length } ↔ s.InOrder (.save d) := by
        rw [if_neg flag] at kept
        rw [Save.Exact, kept, List.drop_left, map_filter_iff (described_injective d.toDgramXtc)]
        constructor
        · rintro ⟨empty, same⟩
          have flags : ∀ f ∈ described s.uiter._namesLookup d.leaves, f.reached = true → ∀ n, f.names = some n →
              s.uiter.isSet (some n) = named s.calls (some n) := by
            intro f hf reached n hn
            have same : (f.reached && !s.uiter.isSet f.names) = decide ¬ named s.calls f.names := same f hf
            rw [reached, hn] at same
            simpa using same
          refine ⟨empty, ?_, ?_, ?_⟩
          · intro f hf skipped
            have same := same f hf
            rw [skipped] at same
            simpa using same
          · intro f hf reached n hn
            rw [Option.mem_def.mp hn]
            exact ((inv.flag_iff n).mp (flags f hf reached n hn)).1
          · intro f hf reached n hn
            rw [Option.mem_def.mp hn]
            exact ((inv.flag_iff n).mp (flags f hf reached n hn)).2
        · rintro ⟨empty, skipped, known, apart⟩
          refine ⟨empty, ?_⟩
          intro f hf
          cases reached : f.reached with
          | false => simp [skipped f hf reached]
          | true =>
            obtain ⟨n, hn⟩ := Option.isSome_iff_exists.mp (found f hf reached)
            have known := known f hf reached n hn
            have apart := apart f hf reached n hn
            rw [hn] at known apart ⊢
            have flag : s.uiter.isSet (some n) = named s.calls (some n) := (inv.flag_iff n).mpr ⟨known, apart⟩
            show (true && !s.uiter.isSet (some n)) = _
            rw [flag]
            simp
      exact good.snoc.trans exact_iff

/-- The detectors `a` and `a_b`, with the algorithms `b_c` and `c`. -/
def nameA : CString := ⟨[97], by simp⟩
def nameAB : CString := ⟨[97, 95, 98], by simp⟩
def nameBC : CString := ⟨[98, 95, 99], by simp⟩
def nameC : CString := ⟨[99], by simp⟩

/-- A `Configure` with two detectors. -/
def twoNames (first second firstAlg secondAlg : CString) : Bytes :=
  parentBytes 0 (namesBytes (.of 1 1) first.1 firstAlg.1 ++ namesBytes (.of 1 2) second.1 secondAlg.1)

/-- An event with data of both, of some damage. -/
def twoShapes (damage : Nat) : Bytes :=
  parentBytes damage (shapesDataBytes (.of 1 1) [10] ++ shapesDataBytes (.of 1 2) [20])

lemma distinctNames_nested : isNested (twoNames nameA nameAB nameC nameC) = true := by decide +kernel

lemma collidingNames_nested : isNested (twoNames nameA nameAB nameBC nameC) = true := by decide +kernel

lemma twoShapes_nested : isNested (twoShapes 0) = true ∧ isNested (twoShapes 8) = true := by decide +kernel

lemma twoShapes_noNames : (∀ leaf ∈ (leavesOf (twoShapes 0)).getD [], leaf.2.names? = none) ∧
    ∀ leaf ∈ (leavesOf (twoShapes 8)).getD [], leaf.2.names? = none := by decide +kernel

/-- The event, undamaged and `Corrupted`. -/
def shapesEvent : EventXtc := ⟨.ofMem _ twoShapes_nested.1, twoShapes_noNames.1⟩
def corruptedEvent : EventXtc := ⟨.ofMem _ twoShapes_nested.2, twoShapes_noNames.2⟩

end Session

end Lcls2.Xtc
