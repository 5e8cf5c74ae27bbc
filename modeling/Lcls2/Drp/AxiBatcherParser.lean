import Mathlib
import Lcls2.Drp.SubFrames
import Lcls2.Lib.Run

/-!
# The parser of batched frames

Model of `eventBuilderParser::parse_array`, `is_damaged` and `check_for_subframes` (`psdaq/drp/AxiBatcherParser.cc`),
for lines of 16 bytes (`HEADER_WIDTH`, `spsft`) and frames as the DMA returns them, whose size is an `int32_t`. Reading
outside the frame, and a subframe of a negative size, are faults. The parsers of the subframes are only printed, and
left out.
-/

namespace Lcls2.Drp
open Lib

/-- What is no result: reading outside the frame, and `std::length_error`. -/
inductive ParserFault where
  | outside | negative
  deriving DecidableEq

/-- What has been parsed: `frames`, the last one first, and `is_sub_frame`. -/
structure ParsedFrame where
  frames : List Bytes
  isSubFrame : List Bool
  deriving DecidableEq

/-- A conversion to `uint16_t`. -/
def uint16 (n : Int) : Nat := (n % 65536).toNat

section parser
variable (raw : Bytes)

/-- `frame_to_position`. -/
def frameToPosition (position : Int) : Except ParserFault Nat :=
  if 0 ≤ position ∧ position + 1 < raw.length then .ok (ofLe (slice raw position.toNat (position.toNat + 2)))
  else .error .outside

/-- `is_damaged`, whose parameters are of type `uint8_t`. -/
def isDamaged (start stop : Nat) : Bool := stop % 256 ≤ start % 256 || raw.length ≤ stop % 256

/-- The subframe whose tail ends at a place: its size, where it starts and its bytes; or none, where it is damaged. -/
def subFrameBefore (place : Nat) : Except ParserFault (Option (Nat × Nat × Bytes)) := do
  let size ← frameToPosition raw (place - 16)
  let start := uint16 (place - 16 - size)
  let stop := uint16 (place - 16)
  if isDamaged raw start stop then return none
  else if stop < start then .error .negative
  else if raw.length < stop then .error .outside
  else return some (size, start, slice raw start stop)

/-- The loop of `parse_array`, with a bound for its rounds. -/
def parseLoop : Nat → (start parsedFrameSize : Nat) → List Bytes → Except ParserFault (Option (List Bytes))
  | 0, _, _, frames => .ok (some frames)
  | rounds + 1, start, parsedFrameSize, frames =>
    if raw.length ≤ parsedFrameSize + 16 then .ok (some frames)
    else do
      match ← subFrameBefore raw start with
      | none => return none
      | some (size, start, frame) => parseLoop rounds start (parsedFrameSize + size + 16) (frames ++ [frame])

/-- `parse_array` up to the check for subframes. The copy of the header takes 16 bytes. -/
def parseFrames : Except ParserFault (Option (List Bytes)) := do
  if raw.length < 16 then .error .outside
  else
    match ← subFrameBefore raw raw.length with
    | none => return none
    | some (size, start, frame) => parseLoop raw raw.length start (size + 16) [frame]

/-- The loop of `check_for_subframes`, with the parser of a subframe. -/
def checkForSubframes (parse : Bytes → Except ParserFault (Option ParsedFrame)) :
    List Bytes → Except ParserFault (List Bool)
  | [] => .ok []
  | frame :: frames => do
    let isSub := frame.take 2 == raw.take 2
    if isSub then
      let _ ← parse frame
    let rest ← checkForSubframes parse frames
    return isSub :: rest

end parser

/-- `parse_array`, with a bound for the depth of the subframes; a frame without bytes is read outside. -/
def parseArray : Nat → Bytes → Except ParserFault (Option ParsedFrame)
  | 0, _ => .error .outside
  | depth + 1, raw => do
    match ← parseFrames raw with
    | none => return none
    | some frames =>
      if frames.any (·.length < 2) then return some ⟨frames, frames.map fun _ => false⟩
      else
        let isSubFrame ← checkForSubframes raw (parseArray depth) frames
        return some ⟨frames, isSubFrame⟩

/-- `parse_array` of a frame. -/
def parse (raw : Bytes) : Except ParserFault (Option ParsedFrame) := parseArray raw.length raw

/-- The subframes have been recovered. -/
def Recovers (raw : Bytes) (fs : List (Nat × SubFrame)) : Prop :=
  ∃ isSubFrame, parse raw = .ok (some ⟨fs.map (·.2.data), isSubFrame⟩)

/-- The tail sizes add up to the length of a part of the frame, from its begin: the header, or a part, a subframe that
    is padded, and its tail. -/
inductive AddsUp (raw : Bytes) : Nat → Prop where
  | header :
    AddsUp raw 16
  | frame {n place} :
    AddsUp raw n →
    place = n + roundUp (ofLe (slice raw place (place + 4))) 16 →
    AddsUp raw (place + 16)

/-- The size in the tail that ends at a place. -/
def sizeBefore (raw : Bytes) (place : Nat) : Nat := ofLe (slice raw (place - 16) (place - 14))

/-- Where the data before a tail end and start, as positions of 16 bits, and the data. -/
def dataEnd (place : Nat) : Nat := (place - 16) % 65536
def dataStart (raw : Bytes) (place : Nat) : Nat := dataEnd place - sizeBefore raw place
def dataBefore (raw : Bytes) (place : Nat) : Bytes := slice raw (dataStart raw place) (dataEnd place)

/-- From a tail to the one before, whose end is where the data start: the size is not too large, and leaves a tail. -/
structure TailBefore (raw : Bytes) (place start : Nat) : Prop where
  fits : sizeBefore raw place ≤ dataEnd place
  place : start = dataStart raw place
  room : 16 ≤ start
  more : start = 16 → 65552 ≤ raw.length

/-- The tails that are met going back from one that ends at a place. -/
abbrev Tail (raw : Bytes) : Nat → Nat → Prop := Relation.ReflTransGen (TailBefore raw)

/-- The low byte of a size is zero, or larger than that of where its data end. -/
def OutOfOrder (raw : Bytes) (place : Nat) : Prop :=
  sizeBefore raw place % 256 = 0 ∨ dataEnd place % 256 < sizeBefore raw place % 256

instance (raw : Bytes) (place : Nat) : Decidable (OutOfOrder raw place) := inferInstanceAs (Decidable (_ ∨ _))

/-- Going back, a tail is met whose size is out of order. -/
def Caught (raw : Bytes) (place : Nat) : Prop := ∃ tail, Tail raw place tail ∧ OutOfOrder raw tail

/-- A frame that is not left: a size is out of order, or all sizes fit, and it has a subframe of less than two bytes or
    is not left by way of its subframes that begin as it does. -/
inductive Kept : Bytes → Prop where
  | caught {raw} :
    16 ≤ raw.length →
    Caught raw raw.length →
    Kept raw
  | small {raw tail} :
    16 ≤ raw.length →
    (∀ tail, Tail raw raw.length tail → sizeBefore raw tail ≤ dataEnd tail) →
    Tail raw raw.length tail →
    (dataBefore raw tail).length < 2 →
    Kept raw
  | nested {raw} :
    16 ≤ raw.length →
    (∀ tail, Tail raw raw.length tail → sizeBefore raw tail ≤ dataEnd tail) →
    (∀ tail, Tail raw raw.length tail → (dataBefore raw tail).take 2 = raw.take 2 → Kept (dataBefore raw tail)) →
    Kept raw

/-- The subframes are in a frame of less than 65552 bytes, without padding, none of them has a start whose low byte is
    not below that of its end, and those that begin as the frame does are not left. -/
structure Carried (raw : Bytes) (fs : List (Nat × SubFrame)) : Prop where
  some_ : fs ≠ []
  short : raw.length < 65552
  lines : ∀ f ∈ fs, f.2.data.length % 16 = 0
  low : ∀ f ∈ fs, f.1 % 256 < (f.1 + f.2.data.length) % 256
  nested : ∀ f ∈ fs, f.2.data.take 2 = raw.take 2 → Kept f.2.data

section walk
variable {raw : Bytes} {place rounds start parsed k : Nat} {acc out : List Bytes}

/-- The size of a subframe is one of 16 bits. -/
lemma sizeBefore_lt (raw : Bytes) (place : Nat) : sizeBefore raw place < 65536 := by
  have lt := ofLe_lt (slice raw (place - 16) (place - 14))
  have two : (slice raw (place - 16) (place - 14)).length ≤ 2 := by
    rw [slice, List.length_drop, List.length_take]
    omega
  exact lt.trans_le (Nat.pow_le_pow_right (by decide) two)

/-- What `is_damaged` finds of the data before a tail. -/
lemma isDamaged_iff (low : 16 ≤ place) (high : place ≤ raw.length) :
    isDamaged raw (uint16 (place - 16 - sizeBefore raw place)) (uint16 (place - 16)) = true ↔ OutOfOrder raw place := by
  have lt := sizeBefore_lt raw place
  rw [isDamaged, Bool.or_eq_true, decide_eq_true_iff, decide_eq_true_iff, OutOfOrder, dataEnd, uint16, uint16]
  omega

/-- The subframe before a place in the frame. -/
lemma subFrameBefore_eq (low : 16 ≤ place) (high : place ≤ raw.length) :
    subFrameBefore raw place =
      if OutOfOrder raw place then .ok none
      else if sizeBefore raw place ≤ dataEnd place then
        .ok (some (sizeBefore raw place, dataStart raw place, dataBefore raw place))
      else .error .negative := by
  have size : frameToPosition raw (place - 16) = .ok (sizeBefore raw place) := by
    have from_ : ((place : Int) - 16).toNat = place - 16 := by omega
    have to_ : place - 16 + 2 = place - 14 := by omega
    rw [frameToPosition, if_pos ⟨by omega, by omega⟩, from_, to_, sizeBefore]
  have lt := sizeBefore_lt raw place
  have stop : uint16 ((place : Int) - 16) = dataEnd place := by
    rw [uint16, dataEnd]
    omega
  have inside : ¬ raw.length < dataEnd place := by
    rw [dataEnd]
    omega
  have damaged := isDamaged_iff low high
  rw [subFrameBefore, size, ok_bind]
  simp only [stop] at damaged ⊢
  by_cases out : OutOfOrder raw place
  · rw [if_pos out, if_pos (damaged.mpr out)]
    rfl
  · rw [if_neg out, if_neg (mt damaged.mp out), if_neg inside]
    by_cases fits : sizeBefore raw place ≤ dataEnd place
    · have start : uint16 ((place : Int) - 16 - sizeBefore raw place) = dataStart raw place := by
        rw [dataEnd] at fits
        rw [uint16, dataStart, dataEnd]
        omega
      have order : ¬ dataEnd place < dataStart raw place := Nat.not_lt.mpr (Nat.sub_le ..)
      rw [if_pos fits, start, if_neg order]
      rfl
    · have after : dataEnd place < uint16 ((place : Int) - 16 - sizeBefore raw place) := by
        rw [dataEnd] at fits
        rw [uint16, dataEnd]
        omega
      rw [if_neg fits, if_pos after]

/-- Before the begin of the frame there is none. -/
lemma subFrameBefore_outside (low : place < 16) : subFrameBefore raw place = .error .outside := by
  have outside : frameToPosition raw (place - 16) = .error .outside := if_neg fun inside => by omega
  rw [subFrameBefore, outside]
  rfl

/-- There is one tail before another one at most. -/
lemma tail_iff {next tail : Nat} (before : TailBefore raw place next) :
    Tail raw place tail ↔ tail = place ∨ Tail raw next tail := by
  rw [Tail, Relation.ReflTransGen.cases_head_iff]
  apply or_congr eq_comm
  constructor
  · rintro ⟨next', before', rest⟩
    rwa [before.place, ← before'.place]
  · intro rest
    exact ⟨next, before, rest⟩

/-- The first tail is the only one. -/
lemma tail_first_iff {tail : Nat} (none_ : ∀ next, ¬ TailBefore raw place next) :
    Tail raw place tail ↔ tail = place := by
  rw [Tail, Relation.ReflTransGen.cases_head_iff]
  constructor
  · intro h
    cases h with
    | inl here => exact here.symm
    | inr rest =>
      obtain ⟨next, before, -⟩ := rest
      exact absurd before (none_ next)
  · intro here
    exact .inl here.symm

/-- A walk is caught at a tail or before it. -/
lemma caught_iff {next : Nat} (before : TailBefore raw place next) :
    Caught raw place ↔ OutOfOrder raw place ∨ Caught raw next := by
  simp only [Caught, tail_iff before]
  constructor
  · rintro ⟨tail, rfl | met, out⟩
    · exact .inl out
    · exact .inr ⟨tail, met, out⟩
  · intro h
    cases h with
    | inl out => exact ⟨place, .inl rfl, out⟩
    | inr h =>
      obtain ⟨tail, met, out⟩ := h
      exact ⟨tail, .inr met, out⟩

/-- What is left of a frame before the place that the walk has come to; `k` is how often it would not fit 16 bits. -/
structure Walking (raw : Bytes) (rounds start parsed k : Nat) : Prop where
  rest : raw.length = parsed + start + 65536 * k
  rounds : raw.length ≤ rounds + parsed
  long : 65552 ≤ raw.length → 65552 ≤ start ∨ 1 ≤ k

/-- The walk goes on. -/
lemma Walking.next (walking : Walking raw (rounds + 1) start parsed k) (low : 16 ≤ start)
    (fits : sizeBefore raw start ≤ dataEnd start) :
    Walking raw rounds (dataStart raw start) (parsed + sizeBefore raw start + 16) (k + (start - 16) / 65536) := by
  have rest := walking.rest
  have enough := walking.rounds
  have long := walking.long
  rw [dataEnd] at fits
  rw [dataStart, dataEnd]
  constructor
  · omega
  · omega
  · omega

/-- The loop finds damage where the walk meets it. -/
lemma parseLoop_none (walking : Walking raw rounds start parsed k) :
    parseLoop raw rounds start parsed acc = .ok none ↔
      16 ≤ start ∧ (start = 16 → 65552 ≤ raw.length) ∧ Caught raw start := by
  induction rounds generalizing start parsed k acc with
  | zero =>
    have rest := walking.rest
    have enough := walking.rounds
    exact iff_of_false nofun fun caught => by omega
  | succ rounds ih =>
    have rest := walking.rest
    have long := walking.long
    rw [parseLoop]
    split
    · exact iff_of_false nofun fun caught => by omega
    · rename_i more
      by_cases low : 16 ≤ start
      · rw [and_iff_right low, and_iff_right (by omega), subFrameBefore_eq low (by omega)]
        by_cases out : OutOfOrder raw start
        · rw [if_pos out]
          exact iff_of_true rfl ⟨start, .refl, out⟩
        · by_cases fits : sizeBefore raw start ≤ dataEnd start
          · rw [if_neg out, if_pos fits, ok_bind]
            refine (ih (walking.next low fits)).trans ?_
            constructor
            · rintro ⟨room, more, caught⟩
              exact (caught_iff ⟨fits, rfl, room, more⟩).mpr (.inr caught)
            · rintro ⟨tail, met, bad⟩
              cases Relation.ReflTransGen.cases_head met with
              | inl here =>
                subst here
                exact absurd bad out
              | inr rest =>
                obtain ⟨next, before, rest⟩ := rest
                have same := before.place
                subst same
                exact ⟨before.room, before.more, tail, rest, bad⟩
          · rw [if_neg out, if_neg fits]
            refine iff_of_false nofun ?_
            rintro ⟨tail, met, bad⟩
            rw [tail_first_iff fun next before => fits before.fits] at met
            subst met
            exact out bad
      · rw [subFrameBefore_outside (Nat.not_le.mp low)]
        exact iff_of_false nofun fun caught => low caught.1

/-- What the loop gives in a short frame from a place after the header: an error where a size does not fit, and
    otherwise the data of the tails, unless a size is out of order. -/
lemma parseLoop_short (short : raw.length < 65552) (walking : Walking raw rounds start parsed 0) (more : 16 < start) :
    (∀ e, parseLoop raw rounds start parsed acc = .error e →
      ¬ Caught raw start ∧ ∃ tail, Tail raw start tail ∧ ¬ sizeBefore raw tail ≤ dataEnd tail) ∧
    ∀ out, parseLoop raw rounds start parsed acc = .ok (some out) →
      (∀ tail, Tail raw start tail → sizeBefore raw tail ≤ dataEnd tail) ∧
        ∀ f, f ∈ out ↔ f ∈ acc ∨ ∃ tail, Tail raw start tail ∧ f = dataBefore raw tail := by
  induction rounds generalizing start parsed acc with
  | zero =>
    have rest := walking.rest
    have enough := walking.rounds
    omega
  | succ rounds ih =>
    have rest := walking.rest
    rw [parseLoop, if_neg (by omega), subFrameBefore_eq (by omega) (by omega)]
    -- The checks in the order in which the loop makes them.
    by_cases out : OutOfOrder raw start
    · rw [if_pos out]
      exact ⟨fun _ h => (by cases h), fun _ h => (by cases h)⟩
    by_cases fits : sizeBefore raw start ≤ dataEnd start
    swap
    · rw [if_neg out, if_neg fits]
      have only : ∀ tail, Tail raw start tail ↔ tail = start := fun tail =>
        tail_first_iff fun next before => fits before.fits
      refine ⟨fun _ _ => ⟨?_, start, .refl, fits⟩, fun _ h => (by cases h)⟩
      rintro ⟨tail, met, bad⟩
      rw [only] at met
      subst met
      exact out bad
    rw [if_neg out, if_pos fits, ok_bind]
    simp only
    have small : (start - 16) / 65536 = 0 := Nat.div_eq_of_lt (by omega)
    have walking := walking.next (by omega) fits
    rw [small, Nat.add_zero] at walking
    have rest := walking.rest
    by_cases last : dataStart raw start ≤ 16
    · -- the loop is done
      have only : ∀ tail, Tail raw start tail ↔ tail = start := fun tail => by
        apply tail_first_iff
        rintro next ⟨-, rfl, room, long⟩
        have long := long (Nat.le_antisymm last room)
        omega
      have done : parseLoop raw rounds (dataStart raw start) (parsed + sizeBefore raw start + 16)
          (acc ++ [dataBefore raw start]) = .ok (some (acc ++ [dataBefore raw start])) := by
        cases rounds with
        | zero => rfl
        | succ rounds => rw [parseLoop, if_pos (by omega)]
      rw [done]
      refine ⟨fun _ h => (by cases h), ?_⟩
      intro frames h
      cases h
      simp only [only, forall_eq, exists_eq_left, List.mem_append, List.mem_singleton]
      exact ⟨fits, fun _ => trivial⟩
    · have before : TailBefore raw start (dataStart raw start) := ⟨fits, rfl, by omega, by omega⟩
      obtain ⟨failed, found⟩ := @ih (dataStart raw start) _ (acc ++ [dataBefore raw start]) walking (by omega)
      simp only [caught_iff before, tail_iff before]
      constructor
      · intro e h
        obtain ⟨sound, tail, met, beyond⟩ := failed e h
        exact ⟨fun caught => caught.elim out sound, tail, .inr met, beyond⟩
      · intro frames h
        obtain ⟨all, there⟩ := found frames h
        constructor
        · rintro tail (rfl | met)
          · exact fits
          · exact all tail met
        · intro f
          rw [there, List.mem_append, List.mem_singleton, or_assoc]
          apply or_congr_right
          constructor
          · rintro (rfl | ⟨tail, met, rfl⟩)
            · exact ⟨start, .inl rfl, rfl⟩
            · exact ⟨tail, .inr met, rfl⟩
          · rintro ⟨tail, rfl | met, rfl⟩
            · exact .inl rfl
            · exact .inr ⟨tail, met, rfl⟩

/-- The bytes that subframes and their tails take. -/
def bytesOf (frames : List Bytes) : Nat := (frames.map (·.length + 16)).sum

/-- Where the loop ends without damage it has gone through a frame of less than 65552 bytes. -/
lemma parseLoop_some (walking : Walking raw rounds start parsed k)
    (h : parseLoop raw rounds start parsed acc = .ok (some out)) :
    raw.length < 65552 ∧ ∃ more, out = acc ++ more ∧ raw.length ≤ parsed + bytesOf more + 16 := by
  induction rounds generalizing start parsed k acc with
  | zero =>
    have rest := walking.rest
    have enough := walking.rounds
    have long := walking.long
    cases h
    refine ⟨by omega, [], (List.append_nil _).symm, ?_⟩
    show raw.length ≤ parsed + 0 + 16
    omega
  | succ rounds ih =>
    have rest := walking.rest
    have long := walking.long
    rw [parseLoop] at h
    split at h
    · rename_i done
      cases h
      refine ⟨by omega, [], (List.append_nil _).symm, done⟩
    · rename_i more
      by_cases low : 16 ≤ start
      · rw [subFrameBefore_eq low (by omega)] at h
        by_cases out : OutOfOrder raw start
        · rw [if_pos out] at h
          cases h
        · by_cases fits : sizeBefore raw start ≤ dataEnd start
          · rw [if_neg out, if_pos fits] at h
            obtain ⟨short, more, same, whole⟩ := ih (walking.next low fits) h
            refine ⟨short, _ :: more, same.trans (List.append_assoc _ _ _), ?_⟩
            have length : (dataBefore raw start).length = sizeBefore raw start := by
              rw [dataBefore, slice_length _ (by rw [dataEnd]; omega), dataStart]
              omega
            rw [bytesOf, List.map_cons, List.sum_cons, length]
            rw [bytesOf] at whole
            omega
          · rw [if_neg out, if_neg fits] at h
            cases h
      · rw [subFrameBefore_outside (Nat.not_le.mp low)] at h
        cases h

/-- In a frame with a tail the parser is the loop from the end. -/
lemma parseFrames_eq (more : 16 < raw.length) : parseFrames raw = parseLoop raw (raw.length + 1) raw.length 0 [] := by
  rw [parseFrames, if_neg (by omega), parseLoop, if_neg (by omega)]
  simp only [Nat.zero_add, List.nil_append]

/-- The walk begins at the end. -/
lemma walking_end (raw : Bytes) : Walking raw (raw.length + 1) raw.length 0 0 := by
  refine ⟨?_, ?_, fun long => .inl long⟩
  · rw [Nat.zero_add, Nat.mul_zero, Nat.add_zero]
  · exact Nat.le_succ _

/-- Without a tail there is damage. -/
lemma parseFrames_header (header : raw.length = 16) :
    parseFrames raw = .ok none ∧ Caught raw raw.length := by
  have out : OutOfOrder raw raw.length := by
    rw [OutOfOrder, dataEnd, header]
    omega
  refine ⟨?_, raw.length, .refl, out⟩
  rw [parseFrames, if_neg (by omega), subFrameBefore_eq (by omega) (Nat.le_refl _), if_pos out]
  rfl

/-- Damage is found where the walk from the end meets it. -/
lemma parseFrames_none : parseFrames raw = .ok none ↔ 16 ≤ raw.length ∧ Caught raw raw.length := by
  by_cases more : 16 < raw.length
  · rw [parseFrames_eq more, parseLoop_none (walking_end raw)]
    refine and_congr_right fun _ => and_iff_right ?_
    intro header
    omega
  · by_cases header : raw.length = 16
    · obtain ⟨result, caught⟩ := parseFrames_header header
      exact iff_of_true result ⟨header.ge, caught⟩
    · rw [parseFrames, if_pos (by omega)]
      exact iff_of_false nofun fun caught => by omega

end walk

section batch
variable {bs : Bytes} {fs : List (Nat × SubFrame)}

/-- The lengths of a subframe with its padding, and of its tail. -/
lemma padded_length {pad line : Bytes} {f : SubFrame}
    (hpad : (f.data ++ pad).length = roundUp f.data.length (lineWidth 3))
    (htail : (f.tail 3 ++ line).length = roundUp 8 (lineWidth 3)) :
    f.data.length + pad.length = (f.data.length + 15) / 16 * 16 ∧ (f.tail 3 ++ line).length = 16 := by
  rw [List.length_append] at hpad
  exact ⟨hpad, htail⟩

/-- The bytes of a batch, with the padding. -/
lemma batched_length (batch : Batched 3 bs fs) :
    16 + bytesOf (fs.map (·.2.data)) ≤ bs.length ∧
      (bs.length ≤ 16 + bytesOf (fs.map (·.2.data)) → ∀ f ∈ fs, f.2.data.length % 16 = 0) := by
  induction batch with
  | header _ length =>
    have length : _ = 16 := length
    rw [length]
    exact ⟨Nat.le_refl _, fun _ => List.forall_mem_nil _⟩
  | @frame bs fs pad line f batch short hpad htail ih =>
    obtain ⟨padded, tail⟩ := padded_length hpad htail
    have bytes : bytesOf (((bs.length, f) :: fs).map (·.2.data)) =
        f.data.length + 16 + bytesOf (fs.map (·.2.data)) := by
      rw [List.map_cons, bytesOf, List.map_cons, List.sum_cons]
      rfl
    rw [bytes, List.length_append, tail, List.length_append, List.length_append]
    refine ⟨by omega, ?_⟩
    intro all g mem
    cases List.mem_cons.mp mem with
    | inl first =>
      subst first
      show f.data.length % 16 = 0
      omega
    | inr later => exact ih.2 (by omega) g later

/-- What the tail of a subframe holds. -/
lemma sizeBefore_tail {pad line rest : Bytes} {f : SubFrame} (short : f.data.length < 65536)
    (tail : (f.tail 3 ++ line).length = 16) :
    sizeBefore (bs ++ (f.data ++ pad) ++ (f.tail 3 ++ line) ++ rest)
      (bs ++ (f.data ++ pad) ++ (f.tail 3 ++ line)).length = f.data.length := by
  have place : (bs ++ (f.data ++ pad) ++ (f.tail 3 ++ line)).length - 16 = (bs ++ (f.data ++ pad)).length := by
    rw [List.length_append, tail]
    exact Nat.add_sub_cancel _ _
  have next : (bs ++ (f.data ++ pad) ++ (f.tail 3 ++ line)).length - 14 = (bs ++ (f.data ++ pad)).length + 2 := by
    rw [List.length_append, tail]
    omega
  have here := slice_append (bs ++ (f.data ++ pad)) (toLe 2 f.data.length)
    (toLe 2 (f.data.length / 256 / 256) ++ [f.tdest, f.tuser_first, f.tuser_last, .ofNat 3] ++ line ++ rest)
  have parts : bs ++ (f.data ++ pad) ++ (f.tail 3 ++ line) ++ rest = bs ++ (f.data ++ pad) ++ toLe 2 f.data.length ++
      (toLe 2 (f.data.length / 256 / 256) ++ [f.tdest, f.tuser_first, f.tuser_last, .ofNat 3] ++ line ++ rest) := by
    have two : toLe 4 f.data.length = toLe 2 f.data.length ++ toLe 2 (f.data.length / 256 / 256) := rfl
    rw [SubFrame.tail, two]
    simp only [List.append_assoc]
  rw [toLe_length] at here
  rw [sizeBefore, place, next, parts, here]
  exact ofLe_toLe short

/-- The subframe before the end of a part of the batch. -/
lemma subFrameBefore_batch {pad line rest : Bytes} {f : SubFrame}
    (short : (bs ++ (f.data ++ pad) ++ (f.tail 3 ++ line)).length < 65552) (lines : f.data.length % 16 = 0)
    (hpad : (f.data ++ pad).length = roundUp f.data.length (lineWidth 3))
    (htail : (f.tail 3 ++ line).length = roundUp 8 (lineWidth 3)) :
    subFrameBefore (bs ++ (f.data ++ pad) ++ (f.tail 3 ++ line) ++ rest)
        (bs ++ (f.data ++ pad) ++ (f.tail 3 ++ line)).length =
      if bs.length % 256 < (bs.length + f.data.length) % 256 then .ok (some (f.data.length, bs.length, f.data))
      else .ok none := by
  obtain ⟨padded, tail⟩ := padded_length hpad htail
  have none_ : pad = [] := by
    apply List.eq_nil_of_length_eq_zero
    omega
  subst none_
  have length : (bs ++ (f.data ++ []) ++ (f.tail 3 ++ line)).length = bs.length + f.data.length + 16 := by
    rw [List.length_append, tail, List.append_nil, List.length_append]
  have size := @sizeBefore_tail bs [] line rest f (by omega) tail
  have stop : dataEnd (bs ++ (f.data ++ []) ++ (f.tail 3 ++ line)).length = bs.length + f.data.length := by
    rw [dataEnd, length]
    omega
  have le := (List.prefix_append (bs ++ (f.data ++ []) ++ (f.tail 3 ++ line)) rest).length_le
  have bytes := slice_append bs f.data (f.tail 3 ++ line ++ rest)
  rw [subFrameBefore_eq (by omega) le]
  simp only [OutOfOrder, dataBefore, dataStart, size, stop, Nat.add_sub_cancel]
  simp only [List.append_nil, List.append_assoc] at bytes ⊢
  rw [bytes, if_pos (Nat.le_add_left ..)]
  by_cases low : bs.length % 256 < (bs.length + f.data.length) % 256
  · rw [if_pos low, if_neg (by omega)]
  · rw [if_neg low, if_pos (by omega)]

/-- From the end of a part of the batch the loop gives the subframes where their low bytes are in order. -/
lemma parseLoop_batch (batch : Batched 3 bs fs) (lines : ∀ f ∈ fs, f.2.data.length % 16 = 0) :
    ∀ {rest rounds parsed acc}, (bs ++ rest).length < 65552 → (bs ++ rest).length ≤ rounds + parsed →
      (bs ++ rest).length = parsed + bs.length →
      (parseLoop (bs ++ rest) rounds bs.length parsed acc = .ok (some (acc ++ fs.map (·.2.data))) ↔
        ∀ f ∈ fs, f.1 % 256 < (f.1 + f.2.data.length) % 256) := by
  induction batch with
  | @header first line _ length =>
    intro rest rounds parsed acc short enough whole
    have length : (first :: line).length = 16 := length
    refine iff_of_true ?_ (List.forall_mem_nil _)
    rw [List.map_nil, List.append_nil]
    cases rounds with
    | zero => rfl
    | succ rounds => rw [parseLoop, if_pos (by omega)]
  | @frame bs fs pad line f batch _ hpad htail ih =>
    intro rest rounds parsed acc short enough whole
    obtain ⟨padded, tail⟩ := padded_length hpad htail
    have here := lines (bs.length, f) List.mem_cons_self
    have here : f.data.length % 16 = 0 := here
    have below := (batched_length batch).1
    have length : (bs ++ (f.data ++ pad) ++ (f.tail 3 ++ line)).length = bs.length + f.data.length + 16 := by
      rw [List.length_append, tail, List.length_append, List.length_append]
      omega
    have less := (List.prefix_append (bs ++ (f.data ++ pad) ++ (f.tail 3 ++ line)) rest).length_le
    rw [List.forall_mem_cons]
    cases rounds with
    | zero => omega
    | succ rounds =>
      rw [parseLoop, if_neg (by omega), subFrameBefore_batch (by omega) here hpad htail]
      by_cases low : bs.length % 256 < (bs.length + f.data.length) % 256
      · rw [if_pos low, and_iff_right low]
        have later := @ih (fun g mem => lines g (List.mem_cons_of_mem _ mem))
          ((f.data ++ pad) ++ (f.tail 3 ++ line) ++ rest) rounds (parsed + f.data.length + 16) (acc ++ [f.data])
        simp only [List.append_assoc] at later short enough whole length ⊢
        exact later short (by omega) (by omega)
      · rw [if_neg low]
        exact iff_of_false nofun fun all => low all.1

/-- A frame is recovered, without what is in its subframes, where it is short, has subframes without padding, and the
    low bytes are in order. -/
lemma parseFrames_batch (batch : Batched 3 bs fs) :
    parseFrames bs = .ok (some (fs.map (·.2.data))) ↔
      fs ≠ [] ∧ bs.length < 65552 ∧ (∀ f ∈ fs, f.2.data.length % 16 = 0) ∧
        ∀ f ∈ fs, f.1 % 256 < (f.1 + f.2.data.length) % 256 := by
  obtain ⟨le, only⟩ := batch.length (by decide)
  have le : 16 ≤ bs.length := le
  have only : bs.length = 16 ↔ fs = [] := only
  by_cases none_ : fs = []
  · rw [(parseFrames_header (only.mpr none_)).1]
    exact iff_of_false nofun fun all => all.1 none_
  · have more : 16 < bs.length := lt_of_le_of_ne le fun e => none_ (only.mp e.symm)
    rw [and_iff_right none_, parseFrames_eq more]
    have loop := fun lines short => @parseLoop_batch bs fs batch lines [] (bs.length + 1) 0 [] short
    simp only [List.append_nil, List.nil_append, Nat.zero_add] at loop
    constructor
    · intro result
      obtain ⟨short, frames, same, whole⟩ := parseLoop_some (walking_end bs) result
      rw [List.nil_append] at same
      subst same
      have lines := (batched_length batch).2 (by omega)
      exact ⟨short, lines, (loop lines short (Nat.le_succ _) trivial).mp result⟩
    · intro fine
      exact (loop fine.2.1 fine.1 (Nat.le_succ _) trivial).mpr fine.2.2

end batch

section nesting
variable {raw : Bytes} {frames out acc : List Bytes} {rounds start parsed k : Nat}
  {inner inner' : Bytes → Except ParserFault (Option ParsedFrame)}

/-- The subframes that the loop finds are shorter than the frame. -/
lemma parseLoop_shorter (walking : Walking raw rounds start parsed k)
    (h : parseLoop raw rounds start parsed acc = .ok (some out)) (before : ∀ f ∈ acc, f.length < raw.length) :
    ∀ f ∈ out, f.length < raw.length := by
  induction rounds generalizing start parsed k acc with
  | zero =>
    cases h
    exact before
  | succ rounds ih =>
    have rest := walking.rest
    rw [parseLoop] at h
    split at h
    · cases h
      exact before
    · by_cases low : 16 ≤ start
      · rw [subFrameBefore_eq low (by omega)] at h
        by_cases out : OutOfOrder raw start
        · rw [if_pos out] at h
          cases h
        · by_cases fits : sizeBefore raw start ≤ dataEnd start
          · rw [if_neg out, if_pos fits] at h
            refine ih (walking.next low fits) h ?_
            intro f mem
            cases List.mem_append.mp mem with
            | inl old => exact before f old
            | inr new =>
              have end_ : dataEnd start ≤ start - 16 := Nat.mod_le ..
              rw [List.mem_singleton.mp new, dataBefore, slice_length _ (by omega)]
              omega
          · rw [if_neg out, if_neg fits] at h
            cases h
      · rw [subFrameBefore_outside (Nat.not_le.mp low)] at h
        cases h

/-- So are those of a frame. -/
lemma parseFrames_shorter (h : parseFrames raw = .ok (some frames)) : ∀ f ∈ frames, f.length < raw.length := by
  by_cases more : 16 < raw.length
  · rw [parseFrames_eq more] at h
    exact parseLoop_shorter (walking_end raw) h (List.forall_mem_nil _)
  · by_cases header : raw.length = 16
    · rw [(parseFrames_header header).1] at h
      cases h
    · rw [parseFrames, if_pos (by omega)] at h
      cases h

/-- The check of the subframes with parsers that agree on them. -/
lemma checkForSubframes_congr (same : ∀ f ∈ frames, inner f = inner' f) :
    checkForSubframes raw inner frames = checkForSubframes raw inner' frames := by
  induction frames with
  | nil => rfl
  | cons frame frames ih =>
    rw [checkForSubframes, checkForSubframes, same frame List.mem_cons_self,
      ih fun f mem => same f (List.mem_cons_of_mem _ mem)]

/-- The check ends where the parser returns for those that begin as the frame does. -/
lemma checkForSubframes_iff :
    (∃ flags, checkForSubframes raw inner frames = .ok flags) ↔
      ∀ f ∈ frames, f.take 2 = raw.take 2 → ∃ r, inner f = .ok r := by
  induction frames with
  | nil => exact iff_of_true ⟨[], rfl⟩ (List.forall_mem_nil _)
  | cons frame frames ih =>
    rw [List.forall_mem_cons, ← ih, checkForSubframes]
    by_cases sub : frame.take 2 = raw.take 2
    · rw [beq_of_eq sub]
      constructor
      · rintro ⟨flags, h⟩
        obtain ⟨r, parsed, h⟩ := bind_ok h
        obtain ⟨rest, checked, h⟩ := bind_ok h
        exact ⟨fun _ => ⟨r, parsed⟩, rest, checked⟩
      · rintro ⟨first, rest, checked⟩
        obtain ⟨r, parsed⟩ := first sub
        rw [parsed, checked]
        exact ⟨true :: rest, rfl⟩
    · rw [beq_false_of_ne sub]
      constructor
      · rintro ⟨flags, h⟩
        obtain ⟨rest, checked, h⟩ := bind_ok h
        exact ⟨fun same => absurd same sub, rest, checked⟩
      · rintro ⟨-, rest, checked⟩
        rw [checked]
        exact ⟨false :: rest, rfl⟩

/-- A bound for the depth that is not below the length does not matter. -/
lemma parseArray_enough {depth depth' : Nat} (le : raw.length ≤ depth) (le' : raw.length ≤ depth') :
    parseArray depth raw = parseArray depth' raw := by
  have empty : ∀ d, parseArray d [] = .error .outside := by
    intro d
    cases d with
    | zero => rfl
    | succ d => rfl
  induction depth generalizing depth' raw with
  | zero =>
    obtain rfl := List.eq_nil_of_length_eq_zero (Nat.le_zero.mp le)
    rw [empty, empty]
  | succ depth ih =>
    cases depth' with
    | zero =>
      obtain rfl := List.eq_nil_of_length_eq_zero (Nat.le_zero.mp le')
      rw [empty, empty]
    | succ depth' =>
      rw [parseArray, parseArray]
      cases result : parseFrames raw with
      | error e => rfl
      | ok found =>
        cases found with
        | none => rfl
        | some frames =>
          have shorter := parseFrames_shorter result
          have same : checkForSubframes raw (parseArray depth) frames =
              checkForSubframes raw (parseArray depth') frames := by
            apply checkForSubframes_congr
            intro f mem
            have lt := shorter f mem
            exact ih (by omega) (by omega)
          rw [ok_bind, ok_bind]
          simp only [same]

/-- What is parsed, by the frames that are found. -/
lemma parse_found (h : parseFrames raw = .ok (some frames)) :
    parse raw = if frames.any (·.length < 2) then .ok (some ⟨frames, frames.map fun _ => false⟩)
      else checkForSubframes raw parse frames >>= fun isSubFrame => .ok (some ⟨frames, isSubFrame⟩) := by
  have same : checkForSubframes raw (parseArray raw.length) frames = checkForSubframes raw parse frames := by
    apply checkForSubframes_congr
    intro f mem
    exact parseArray_enough (parseFrames_shorter h f mem).le (Nat.le_refl _)
  rw [parse, parseArray_enough (Nat.le_refl _) (Nat.le_succ _), parseArray, h, ok_bind]
  simp only [same]
  rfl

/-- Where no frames are found, the result is that. -/
lemma parse_not_found {r : Except ParserFault (Option ParsedFrame)} (h : parse raw = r) :
    (∀ e, parseFrames raw = .error e → r = .error e) ∧ (parseFrames raw = .ok none → r = .ok none) := by
  rw [parse, parseArray_enough (Nat.le_refl _) (Nat.le_succ _), parseArray] at h
  constructor
  · intro e error
    rw [error] at h
    exact h.symm
  · intro none_
    rw [none_] at h
    exact h.symm

/-- Damage is reported where the walk meets it. -/
lemma parse_none : parse raw = .ok none ↔ 16 ≤ raw.length ∧ Caught raw raw.length := by
  rw [← parseFrames_none]
  constructor
  · intro h
    cases result : parseFrames raw with
    | error e => cases (parse_not_found h).1 e result
    | ok found =>
      cases found with
      | none => rfl
      | some frames =>
        rw [parse_found result] at h
        split at h
        · cases h
        · obtain ⟨flags, -, h⟩ := bind_ok h
          cases h
  · intro h
    exact (parse_not_found rfl).2 h

/-- The frames that are parsed are those that are found. -/
lemma parseFrames_of_parse {p : ParsedFrame} (h : parse raw = .ok (some p)) :
    parseFrames raw = .ok (some p.frames) := by
  cases result : parseFrames raw with
  | error e => cases (parse_not_found h).1 e result
  | ok found =>
    cases found with
    | none => cases (parse_not_found h).2 result
    | some frames =>
      rw [parse_found result] at h
      split at h
      · cases h
        rfl
      · obtain ⟨flags, -, h⟩ := bind_ok h
        cases h
        rfl

/-- The frames that are found in a short frame. -/
lemma parseFrames_short (short : raw.length < 65552) (header : 16 ≤ raw.length) :
    (∀ e, parseFrames raw = .error e → ¬ Caught raw raw.length ∧
      ∃ tail, Tail raw raw.length tail ∧ ¬ sizeBefore raw tail ≤ dataEnd tail) ∧
    ∀ frames, parseFrames raw = .ok (some frames) →
      (∀ tail, Tail raw raw.length tail → sizeBefore raw tail ≤ dataEnd tail) ∧
        ∀ f, f ∈ frames ↔ ∃ tail, Tail raw raw.length tail ∧ f = dataBefore raw tail := by
  by_cases more : 16 < raw.length
  · rw [parseFrames_eq more]
    obtain ⟨failed, found⟩ := @parseLoop_short raw _ _ 0 [] short (walking_end raw) more
    simp only [List.not_mem_nil, false_or] at found
    exact ⟨failed, found⟩
  · rw [(parseFrames_header (Nat.le_antisymm (Nat.not_lt.mp more) header)).1]
    exact ⟨fun _ h => (by cases h), fun _ h => (by cases h)⟩

/-- The parser returns for the short frames that are not left. -/
lemma kept_iff (short : raw.length < 65552) : (∃ r, parse raw = .ok r) ↔ Kept raw := by
  -- A subframe that is taken for a frame itself is shorter.
  induction n : raw.length using Nat.strong_induction_on generalizing raw with
  | _ n ih =>
    subst n
    constructor
    · rintro ⟨r, h⟩
      cases result : parseFrames raw with
      | error e => cases (parse_not_found h).1 e result
      | ok found =>
        cases found with
        | none =>
          obtain ⟨header, caught⟩ := parseFrames_none.mp result
          exact .caught header caught
        | some frames =>
          have header : 16 ≤ raw.length := by
            by_contra less
            rw [parseFrames, if_pos (Nat.not_le.mp less)] at result
            cases result
          obtain ⟨fits, there⟩ := (parseFrames_short short header).2 frames result
          rw [parse_found result] at h
          split at h
          · rename_i some_
            obtain ⟨f, mem, small⟩ := List.any_eq_true.mp some_
            obtain ⟨tail, met, rfl⟩ := (there f).mp mem
            exact .small header fits met (of_decide_eq_true small)
          · obtain ⟨flags, checked, -⟩ := bind_ok h
            refine .nested header fits ?_
            intro tail met same
            have mem := (there _).mpr ⟨tail, met, rfl⟩
            have shorter := parseFrames_shorter result _ mem
            have nested := checkForSubframes_iff.mp ⟨flags, checked⟩ _ mem same
            exact (ih _ shorter (Nat.lt_trans shorter short) rfl).mp nested
    · intro kept
      have header : 16 ≤ raw.length := by
        cases kept with
        | caught header => exact header
        | small header => exact header
        | nested header => exact header
      obtain ⟨failed, found⟩ := parseFrames_short short header
      cases result : parseFrames raw with
      | error e =>
        obtain ⟨sound, tail, met, beyond⟩ := failed e result
        cases kept with
        | caught _ caught => exact absurd caught sound
        | small _ fits => exact absurd (fits tail met) beyond
        | nested _ fits => exact absurd (fits tail met) beyond
      | ok frames =>
        cases frames with
        | none => exact ⟨none, (parse_not_found rfl).2 result⟩
        | some frames =>
          obtain ⟨fits, there⟩ := found frames result
          rw [parse_found result]
          split
          · exact ⟨_, rfl⟩
          · rename_i large
            have checked : ∃ flags, checkForSubframes raw parse frames = .ok flags := by
              rw [checkForSubframes_iff]
              intro f mem same
              obtain ⟨tail, met, rfl⟩ := (there f).mp mem
              have shorter := parseFrames_shorter result _ mem
              refine (ih _ shorter (Nat.lt_trans shorter short) rfl).mpr ?_
              cases kept with
              | caught header caught =>
                rw [parseFrames_none.mpr ⟨header, caught⟩] at result
                cases result
              | @small _ tail' _ _ met' small =>
                exact absurd (List.any_eq_true.mpr ⟨_, (there _).mpr ⟨tail', met', rfl⟩, decide_eq_true small⟩) large
              | nested _ _ nested => exact nested tail met same
            obtain ⟨flags, checked⟩ := checked
            rw [checked]
            exact ⟨_, rfl⟩

end nesting

section recovery
variable {raw : Bytes} {fs : List (Nat × SubFrame)}

/-- A frame is recovered where it is carried. -/
lemma recovers_iff (batch : Batched 3 raw fs) : Recovers raw fs ↔ Carried raw fs := by
  have found := parseFrames_batch batch
  have long : (∀ f ∈ fs, f.2.data.length % 16 = 0) → (∀ f ∈ fs, f.1 % 256 < (f.1 + f.2.data.length) % 256) →
      (fs.map (·.2.data)).any (·.length < 2) = false := by
    intro lines low
    rw [List.any_eq_false]
    intro data mem
    obtain ⟨f, there, rfl⟩ := List.mem_map.mp mem
    have whole := lines f there
    have order := low f there
    rw [decide_eq_true_eq]
    intro short
    have zero : f.2.data.length = 0 := by omega
    rw [zero] at order
    exact absurd order (Nat.lt_irrefl _)
  have nested (short : raw.length < 65552) : (∃ flags, checkForSubframes raw parse (fs.map (·.2.data)) = .ok flags) ↔
      ∀ f ∈ fs, f.2.data.take 2 = raw.take 2 → Kept f.2.data := by
    rw [checkForSubframes_iff, List.forall_mem_map]
    refine forall₂_congr fun f mem => imp_congr_right fun _ => kept_iff ?_
    have listed := List.mem_map_of_mem (f := fun f => f.2.data) mem
    have part := List.single_le_sum (fun _ _ => Nat.zero_le _) _
      (List.mem_map_of_mem (f := fun data : Bytes => data.length + 16) listed)
    have whole := (batched_length batch).1
    rw [bytesOf] at whole
    omega
  constructor
  · rintro ⟨flags, h⟩
    have frames := parseFrames_of_parse h
    obtain ⟨some_, short, lines, low⟩ := found.mp frames
    rw [parse_found frames, if_neg (by rw [long lines low]; exact Bool.false_ne_true)] at h
    obtain ⟨flags', checked, -⟩ := bind_ok h
    exact ⟨some_, short, lines, low, (nested short).mp ⟨flags', checked⟩⟩
  · intro carried
    have frames := found.mpr ⟨carried.some_, carried.short, carried.lines, carried.low⟩
    obtain ⟨flags, checked⟩ := (nested carried.short).mpr carried.nested
    refine ⟨flags, ?_⟩
    rw [parse_found frames, if_neg (by rw [long carried.lines carried.low]; exact Bool.false_ne_true), checked]
    rfl

/-- A well-formed frame is recovered, and damage is reported for one whose tail sizes do not add up, exactly where the
    first is carried, and going back over the tails of the second a size is met that is out of order. -/
theorem axi_frames_iff (raw : Bytes) :
    ((∀ fs, Batched 3 raw fs → Recovers raw fs) ∧ (¬ AddsUp raw raw.length → parse raw = .ok none)) ↔
      (∀ fs, Batched 3 raw fs → Carried raw fs) ∧
        (¬ AddsUp raw raw.length → 16 ≤ raw.length ∧ Caught raw raw.length) := by
  apply and_congr
  · exact forall₂_congr fun fs batch => recovers_iff batch
  · exact imp_congr_right fun _ => parse_none

end recovery

/-- A header for lines of 16 bytes. -/
def axiHeader : Bytes := 48 :: List.replicate 15 0

/-- A frame with a tail for a size, after the header and some data. -/
def axiFrame (data : Bytes) (size : Nat) : Bytes :=
  axiHeader ++ data ++ (toLe 4 size ++ [0, 0, 0, 3] ++ List.replicate 8 0)

/-- A subframe of three bytes in a well-formed frame is reported as damaged, a size that takes the header for data is
    accepted, and one that goes far beyond the begin of the frame is neither. -/
theorem three_bytes_damaged :
    (Batched 3 (axiFrame ([1, 2, 3] ++ List.replicate 13 0) 3) [(16, ⟨[1, 2, 3], 0, 0, 0⟩)] ∧
        parse (axiFrame ([1, 2, 3] ++ List.replicate 13 0) 3) = .ok none) ∧
      (¬ AddsUp (axiFrame [] 8) (axiFrame [] 8).length ∧
        parse (axiFrame [] 8) = .ok (some ⟨[List.replicate 8 0], [false]⟩)) ∧
      ¬ AddsUp (axiFrame [] 266) (axiFrame [] 266).length ∧ parse (axiFrame [] 266) = .error .negative := by
  have apart : ∀ size, 16 ≤ roundUp size 16 → size < 2 ^ 32 →
      ¬ AddsUp (axiFrame [] size) (axiFrame [] size).length := by
    intro size beyond lt adds
    have found : ofLe (slice (axiFrame [] size) 16 20) = size := by
      have here := slice_append (axiHeader ++ []) (toLe 4 size) ([0, 0, 0, 3] ++ List.replicate 8 0)
      rw [toLe_length, List.append_assoc] at here
      exact (congrArg ofLe here).trans (ofLe_toLe lt)
    have length : (axiFrame [] size).length = 32 := by
      rw [axiFrame, List.length_append, List.length_append, List.length_append, List.length_append, toLe_length]
      rfl
    generalize e : (axiFrame [] size).length = n at adds
    cases adds with
    | header => cases length.symm.trans e
    | @frame n place below sum =>
      obtain rfl : place = 16 := by omega
      rw [found] at sum
      have begin_ : n = 0 := by omega
      generalize same : n = m at below
      cases below with
      | header => omega
      | frame _ _ => omega
  refine ⟨⟨?_, ?_⟩, ⟨?_, ?_⟩, ?_, ?_⟩
  · exact @Batched.frame 3 axiHeader [] (List.replicate 13 0) (List.replicate 8 0) ⟨[1, 2, 3], 0, 0, 0⟩
      (.header rfl rfl) (by decide) rfl rfl
  · decide +kernel
  · exact apart 8 (by decide) (by decide)
  · decide +kernel
  · exact apart 266 (by decide) (by decide)
  · decide +kernel

end Lcls2.Drp
