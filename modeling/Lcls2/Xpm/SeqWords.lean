import Mathlib
import Lcls2.Xpm.SeqMemory

/-!
# The words of a sequence

What `Instruction.encoding` (`psdaq/cas/seq.py`) sends for a list of instructions, and what the words in the memory
mean that `cacheSeq` and `insertSeq` make of it, by the word format at the head of `XpmSequenceEngine.cc`.
-/

namespace Lcls2.Xpm

/-- An instruction that is sent: one that `cacheSeq` makes, or a `BeamRequest`. -/
inductive SentInstruction where
  | made (i : Instruction)
  | beamRequest (charge : Int)

/-- A word by its format. -/
inductive SeqWord where
  | fixedRateSync (marker occ : Int)
  | acRateSync (timeslotm marker occ : Int)
  | checkPoint
  | branch (test : Option (Int × Int)) (address : Int)
  | request (value : Int)
  deriving DecidableEq

/-- The field of a word from a bit on. -/
def field (w low size : Nat) : Int := (w / 2 ^ low % 2 ^ size : Nat)

/-- The meaning of a word. -/
def decodeWord (w : Int) : Option SeqWord :=
  if w < 0 then none
  else
    let n := w.toNat
    match n / 2 ^ 29 with
    | 0 => some (.branch (if field n 24 1 = 1 then some (field n 27 2, field n 16 8) else none) (field n 0 11))
    | 1 => some .checkPoint
    | 2 => some (.fixedRateSync (field n 16 4) (field n 0 12))
    | 3 => some (.acRateSync (field n 23 6) (field n 16 4) (field n 0 12))
    | 4 => some (.request (field n 0 16))
    | _ => none

namespace SentInstruction

/-- `args` of an instruction, with the opcode. -/
def args : SentInstruction → List Int
  | .made (.fixedRateSync marker occ) => [0, marker, occ]
  | .made (.acRateSync timeslotm marker occ) => [1, timeslotm, marker, occ]
  | .made (.branch line none) => [2, line]
  | .made (.branch line (some test)) => [2, line, test.1, test.2]
  | .made (.checkPoint word) => [3, word]
  | .beamRequest charge => [4, charge]
  | .made (.controlRequest word) => [5, word]

/-- `encoding`. -/
def encoding (i : SentInstruction) : List Int :=
  (i.args.length - 1 : Nat) :: (i.args ++ List.replicate (6 - i.args.length) 0)

/-- What an instruction means in a sequence that starts at an address. -/
def meaning (start : Nat) : SentInstruction → SeqWord
  | .made (.fixedRateSync marker occ) => .fixedRateSync marker occ
  | .made (.acRateSync timeslotm marker occ) => .acRateSync timeslotm marker occ
  | .made (.branch line test) => .branch test (start + line)
  | .made (.checkPoint _) => .checkPoint
  | .made (.controlRequest word) => .request word
  | .beamRequest charge => .request charge

/-- The line that a branch goes to. -/
def line : SentInstruction → Option Int
  | .made (.branch line _) => some line
  | _ => none

/-- The fields of an instruction fit the word, the line of a branch is one of `n`, and it is no `BeamRequest`. -/
def Fits (n start : Nat) : SentInstruction → Prop
  | .made (.fixedRateSync marker occ) => (0 ≤ marker ∧ marker < 2 ^ 4) ∧ 0 ≤ occ ∧ occ < 2 ^ 12
  | .made (.acRateSync timeslotm marker occ) =>
    (0 ≤ timeslotm ∧ timeslotm < 2 ^ 6) ∧ (0 ≤ marker ∧ marker < 2 ^ 4) ∧ 0 ≤ occ ∧ occ < 2 ^ 12
  | .made (.branch line none) => (0 ≤ line ∧ line < n) ∧ start + line < 2 ^ 11
  | .made (.branch line (some test)) =>
    ((0 ≤ line ∧ line < n) ∧ start + line < 2 ^ 11) ∧ (0 ≤ test.1 ∧ test.1 < 2 ^ 2) ∧ 0 ≤ test.2 ∧ test.2 < 2 ^ 8
  | .made (.checkPoint _) => True
  | .made (.controlRequest word) => 0 ≤ word ∧ word < 2 ^ 16
  | .beamRequest _ => False

/-- What `cacheSeq` makes of the encoding. -/
def kept : SentInstruction → Option Instruction
  | .made (.checkPoint _) => some (.checkPoint 0)
  | .made i => some i
  | .beamRequest _ => none

end SentInstruction

/-- What `cacheSeq` makes of a list of instructions. -/
def keptOf (is : List SentInstruction) : List Instruction := is.filterMap SentInstruction.kept

/-- What is put for a list of instructions. -/
def message (is : List SentInstruction) : List Int := (is.length : Int) :: (is.map SentInstruction.encoding).flatten

namespace Engine

/-- The walk of `insertSeq` over the table. -/
def gap (e : Engine) : Int × Nat := searchGap e.nwords 0 (2 ^ e.seqAddrLen : Nat) 0 e.caches

/-- The engine after `cacheSeq`. -/
def cached (e : Engine) (is : List SentInstruction) : Engine := (e.cacheSeq (message is)).2

/-- A list of instructions is committed at an address with an index: in a range with one word for each of them, that
    means the instruction, and nothing else has changed. -/
structure Committed (e e' : Engine) (is : List SentInstruction) (start : Nat) (index : Int) : Prop where
  range : ∃ cache, (start, cache) ∈ e'.caches ∧ cache.index = index ∧ cache.size = is.length
  words : ∀ k, (h : k < is.length) → decodeWord (e'.ram (start + k)) = some (is[k].meaning start)
  lines : ∀ i ∈ is, ∀ line ∈ i.line, 0 ≤ line ∧ line < is.length
  others : ∀ a, a < start ∨ start + is.length ≤ a → e'.ram a = e.ram a

/-- `insertSeq` returns an error, or an index with which the list is committed. -/
def Settles (e : Engine) (is : List SentInstruction) : Prop :=
  ∃ v, e.insertSeq.1 = some v ∧ (v < 0 ∨ 0 ≤ v ∧ e.Committed e.insertSeq.2 is e.gap.2 v)

/-- `insertSeq` finds no range, or a branch that is kept goes beyond the end of what is kept and there is an index, or
    there is none or all fits. -/
def Fitting (e : Engine) (is : List SentInstruction) : Prop :=
  e.gap.1 = (2 ^ e.seqAddrLen : Nat) ∨
    ((∃ i ∈ keptOf is, ¬ i.IsWithin (keptOf is).length) ∧ e.freeIndex ≠ none) ∨
      ((∀ i ∈ keptOf is, i.IsWithin (keptOf is).length) ∧
        (e.freeIndex = none ∨ ∀ i ∈ is, i.Fits is.length e.gap.2))

end Engine

section words

/-- A field below others. -/
lemma or_eq_add {a b : Nat} (k : Nat) (above : a % 2 ^ k = 0) (lt : b < 2 ^ k) : a ||| b = a + b := by
  obtain ⟨c, rfl⟩ := Nat.dvd_of_mod_eq_zero above
  exact (Nat.two_pow_add_eq_or_of_lt lt c).symm

/-- A mask leaves a field that fits. -/
lemma mask_of_fits {a : Int} {bits : Nat} (nonneg : 0 ≤ a) (lt : a < 2 ^ bits) : (mask a bits : Int) = a := by
  rw [mask, Int.emod_eq_of_lt nonneg lt, Int.toNat_of_nonneg nonneg]

/-- A masked field fits. -/
lemma mask_lt (a : Int) (bits : Nat) : mask a bits < 2 ^ bits := by
  have nonneg := Int.emod_nonneg a (pow_ne_zero bits (two_ne_zero' Int))
  have lt := Int.emod_lt_of_pos a (pow_pos (two_pos : (0 : Int) < 2) bits)
  have cast : ((2 ^ bits : Nat) : Int) = 2 ^ bits := Nat.cast_pow 2 bits
  rw [mask]
  omega

/-- The meaning of a word by the number in its highest bits. -/
lemma decodeWord_cast {n : Nat} (top : Nat) (high : n / 2 ^ 29 = top) :
    decodeWord n =
      (if top = 0 then
        some (.branch (if field n 24 1 = 1 then some (field n 27 2, field n 16 8) else none) (field n 0 11))
      else if top = 1 then some .checkPoint
      else if top = 2 then some (.fixedRateSync (field n 16 4) (field n 0 12))
      else if top = 3 then some (.acRateSync (field n 23 6) (field n 16 4) (field n 0 12))
      else if top = 4 then some (.request (field n 0 16))
      else none) := by
  rw [decodeWord, if_neg (Int.not_lt.mpr (Int.natCast_nonneg n)), Int.toNat_natCast]
  simp only [high]
  match top with
  | 0 => rfl
  | 1 => rfl
  | 2 => rfl
  | 3 => rfl
  | 4 => rfl
  | _ + 5 => rfl

/-- A field by the number in it. -/
lemma field_eq {n low size : Nat} {a : Int} (nonneg : 0 ≤ a) (lt : a < 2 ^ size)
    (h : n / 2 ^ low % 2 ^ size = mask a size) : field n low size = a := by
  rw [field, h, mask_of_fits nonneg lt]

/-- The word of a `FixedRateSync`. -/
lemma decodeWord_fixedRateSync {marker occ : Int} (m : 0 ≤ marker ∧ marker < 2 ^ 4) (o : 0 ≤ occ ∧ occ < 2 ^ 12) :
    decodeWord ((Instruction.fixedRateSync marker occ).word 0) = some (.fixedRateSync marker occ) := by
  have markerLt := mask_lt marker 4
  have occLt := mask_lt occ 12
  have high : 2 * 2 ^ 29 ||| mask marker 4 * 2 ^ 16 = 2 * 2 ^ 29 + mask marker 4 * 2 ^ 16 :=
    or_eq_add 29 (by omega) (by omega)
  have word :
      2 <<< 29 ||| mask marker 4 <<< 16 ||| mask occ 12 = 2 * 2 ^ 29 + mask marker 4 * 2 ^ 16 + mask occ 12 := by
    rw [Nat.shiftLeft_eq, Nat.shiftLeft_eq, high, or_eq_add 16 (by omega) (by omega)]
  rw [Instruction.word, word, decodeWord_cast 2 (by omega)]
  show some (SeqWord.fixedRateSync (field _ 16 4) (field _ 0 12)) = _
  rw [field_eq m.1 m.2 (by omega), field_eq o.1 o.2 (by omega)]

/-- The word of an `ACRateSync`. -/
lemma decodeWord_acRateSync {timeslotm marker occ : Int} (t : 0 ≤ timeslotm ∧ timeslotm < 2 ^ 6)
    (m : 0 ≤ marker ∧ marker < 2 ^ 4) (o : 0 ≤ occ ∧ occ < 2 ^ 12) :
    decodeWord ((Instruction.acRateSync timeslotm marker occ).word 0) = some (.acRateSync timeslotm marker occ) := by
  have timeLt := mask_lt timeslotm 6
  have markerLt := mask_lt marker 4
  have occLt := mask_lt occ 12
  have first : 3 * 2 ^ 29 ||| mask timeslotm 6 * 2 ^ 23 = 3 * 2 ^ 29 + mask timeslotm 6 * 2 ^ 23 :=
    or_eq_add 29 (by omega) (by omega)
  have second : (3 * 2 ^ 29 + mask timeslotm 6 * 2 ^ 23) ||| mask marker 4 * 2 ^ 16 =
      3 * 2 ^ 29 + mask timeslotm 6 * 2 ^ 23 + mask marker 4 * 2 ^ 16 := or_eq_add 23 (by omega) (by omega)
  have word : 3 <<< 29 ||| mask timeslotm 6 <<< 23 ||| mask marker 4 <<< 16 ||| mask occ 12 =
      3 * 2 ^ 29 + mask timeslotm 6 * 2 ^ 23 + mask marker 4 * 2 ^ 16 + mask occ 12 := by
    rw [Nat.shiftLeft_eq, Nat.shiftLeft_eq, Nat.shiftLeft_eq, first, second, or_eq_add 16 (by omega) (by omega)]
  rw [Instruction.word, word, decodeWord_cast 3 (by omega)]
  show some (SeqWord.acRateSync (field _ 23 6) (field _ 16 4) (field _ 0 12)) = _
  rw [field_eq t.1 t.2 (by omega), field_eq m.1 m.2 (by omega), field_eq o.1 o.2 (by omega)]

/-- The word of an unconditional `Branch`. -/
lemma decodeWord_branch {line address : Int} (a : 0 ≤ address ∧ address < 2 ^ 11) :
    decodeWord ((Instruction.branch line none).word address) = some (.branch none address) := by
  have addressLt := mask_lt address 11
  rw [Instruction.word, decodeWord_cast 0 (by omega)]
  have plain : field (mask address 11) 24 1 ≠ 1 := by
    rw [field]
    omega
  show some (SeqWord.branch (if field _ 24 1 = 1 then _ else _) (field _ 0 11)) = _
  rw [if_neg plain, field_eq a.1 a.2 (by omega)]

/-- The word of a conditional `Branch`. -/
lemma decodeWord_conditional {line address : Int} {test : Int × Int} (c : 0 ≤ test.1 ∧ test.1 < 2 ^ 2)
    (v : 0 ≤ test.2 ∧ test.2 < 2 ^ 8) (a : 0 ≤ address ∧ address < 2 ^ 11) :
    decodeWord ((Instruction.branch line (some test)).word address) = some (.branch (some test) address) := by
  have counterLt := mask_lt test.1 2
  have valueLt := mask_lt test.2 8
  have addressLt := mask_lt address 11
  have first : mask test.1 2 * 2 ^ 27 ||| 1 * 2 ^ 24 = mask test.1 2 * 2 ^ 27 + 1 * 2 ^ 24 :=
    or_eq_add 27 (by omega) (by omega)
  have second : (mask test.1 2 * 2 ^ 27 + 1 * 2 ^ 24) ||| mask test.2 8 * 2 ^ 16 =
      mask test.1 2 * 2 ^ 27 + 1 * 2 ^ 24 + mask test.2 8 * 2 ^ 16 := or_eq_add 24 (by omega) (by omega)
  have word : mask test.1 2 <<< 27 ||| 1 <<< 24 ||| mask test.2 8 <<< 16 ||| mask address 11 =
      mask test.1 2 * 2 ^ 27 + 1 * 2 ^ 24 + mask test.2 8 * 2 ^ 16 + mask address 11 := by
    rw [Nat.shiftLeft_eq, Nat.shiftLeft_eq, Nat.shiftLeft_eq, first, second, or_eq_add 16 (by omega) (by omega)]
  rw [Instruction.word, word, decodeWord_cast 0 (by omega)]
  have conditional :
      field (mask test.1 2 * 2 ^ 27 + 1 * 2 ^ 24 + mask test.2 8 * 2 ^ 16 + mask address 11) 24 1 = 1 := by
    rw [field]
    omega
  show some (SeqWord.branch (if field _ 24 1 = 1 then some (field _ 27 2, field _ 16 8) else _) (field _ 0 11)) = _
  rw [if_pos conditional, field_eq c.1 c.2 (by omega), field_eq v.1 v.2 (by omega), field_eq a.1 a.2 (by omega)]

/-- The word of a `ControlRequest`. -/
lemma decodeWord_controlRequest {word : Int} (w : 0 ≤ word ∧ word < 2 ^ 16) :
    decodeWord ((Instruction.controlRequest word).word 0) = some (.request word) := by
  obtain ⟨value, rfl⟩ := Int.eq_ofNat_of_zero_le w.1
  have sum : 4 <<< 29 ||| value = 4 * 2 ^ 29 + value := by
    rw [Nat.shiftLeft_eq, or_eq_add 29 (by omega) (by omega)]
  have same : (Instruction.controlRequest value).word 0 = (4 <<< 29 ||| value : Nat) := rfl
  rw [same, sum, decodeWord_cast 4 (by omega)]
  show some (SeqWord.request (field _ 0 16)) = _
  have whole : (4 * 2 ^ 29 + value) / 2 ^ 0 % 2 ^ 16 = value := by omega
  rw [field, whole]

/-- The fields of a word by its format. -/
def SeqWord.InRange : SeqWord → Prop
  | .fixedRateSync marker occ => (0 ≤ marker ∧ marker < 2 ^ 4) ∧ 0 ≤ occ ∧ occ < 2 ^ 12
  | .acRateSync timeslotm marker occ =>
    (0 ≤ timeslotm ∧ timeslotm < 2 ^ 6) ∧ (0 ≤ marker ∧ marker < 2 ^ 4) ∧ 0 ≤ occ ∧ occ < 2 ^ 12
  | .checkPoint => True
  | .branch none address => 0 ≤ address ∧ address < 2 ^ 11
  | .branch (some test) address =>
    (0 ≤ address ∧ address < 2 ^ 11) ∧ (0 ≤ test.1 ∧ test.1 < 2 ^ 2) ∧ 0 ≤ test.2 ∧ test.2 < 2 ^ 8
  | .request value => 0 ≤ value ∧ value < 2 ^ 16

/-- A field of a word is not larger than it can be. -/
lemma field_range (n low size : Nat) : 0 ≤ field n low size ∧ field n low size < 2 ^ size := by
  have lt := Nat.mod_lt (n / 2 ^ low) (Nat.two_pow_pos size)
  refine ⟨Int.natCast_nonneg _, ?_⟩
  rw [field]
  exact_mod_cast lt

/-- What a word means has fields in their ranges. -/
lemma decodeWord_inRange {w : Int} {d : SeqWord} (h : decodeWord w = some d) : d.InRange := by
  have nonneg : 0 ≤ w := by
    by_contra negative
    rw [decodeWord, if_pos (Int.not_le.mp negative)] at h
    cases h
  obtain ⟨n, rfl⟩ := Int.eq_ofNat_of_zero_le nonneg
  rw [decodeWord_cast _ rfl] at h
  split at h
  · cases h
    split
    · exact ⟨field_range _ _ _, field_range _ _ _, field_range _ _ _⟩
    · exact field_range _ _ _
  · split at h
    · cases h
      trivial
    · split at h
      · cases h
        exact ⟨field_range _ _ _, field_range _ _ _⟩
      · split at h
        · cases h
          exact ⟨field_range _ _ _, field_range _ _ _, field_range _ _ _⟩
        · split at h
          · cases h
            exact field_range _ _ _
          · cases h

end words

section stored
variable {start n : Nat} {seq rest : List Instruction} {bestRam addr : Nat} {ram : Nat → Int} {rval : Int}

/-- The word that `insertSeq` writes for an instruction. -/
def Instruction.stored (start : Nat) : Instruction → Int
  | .branch line test => Instruction.word (line + start) (.branch line test)
  | i => i.word 0

/-- A branch goes to a line, or to the end. -/
def Instruction.IsLine (n : Nat) : Instruction → Prop
  | .branch line _ => 0 ≤ line ∧ line ≤ n
  | _ => True

/-- The words that are written where every branch goes to a line. -/
lemma translate_words (lines : ∀ i ∈ rest, i.IsLine seq.length) :
    ∀ k, (h : k < rest.length) → (translate seq bestRam addr ram rval rest).1 (addr + k) = rest[k].stored bestRam := by
  induction rest generalizing addr ram rval with
  | nil => exact fun k h => absurd h (Nat.not_lt_zero k)
  | cons instr rest ih =>
    have ih := fun addr ram rval => @ih addr ram rval fun i hi => lines i (List.mem_cons_of_mem instr hi)
    have next : ∀ word, ∀ k, (h : k < (instr :: rest).length) → word = instr.stored bestRam →
        (translate seq bestRam (addr + 1) (Function.update ram addr word) rval rest).1 (addr + k) =
          (instr :: rest)[k].stored bestRam := by
      intro word k h same
      cases k with
      | zero =>
        have first := @translate_outside seq rest bestRam (addr + 1) (Function.update ram addr word) rval addr
          (.inl (Nat.lt_succ_self addr))
        exact first.trans ((Function.update_self _ _ _).trans same)
      | succ k =>
        have later := ih (addr + 1) (Function.update ram addr word) rval k (Nat.lt_of_succ_lt_succ h)
        rw [Nat.add_assoc, Nat.add_comm 1] at later
        exact later
    intro k h
    cases instr with
    | branch line test =>
      obtain ⟨nonneg, le⟩ := lines (.branch line test) List.mem_cons_self
      rw [translate, if_neg (Int.not_lt.mpr le), if_pos nonneg]
      apply next _ k h
      have before : (((seq.take line.toNat).map Instruction.nwords).sum : Int) = line := by
        rw [nwords_sum, List.length_take]
        omega
      rw [before]
      rfl
    | fixedRateSync marker occ => exact next _ k h rfl
    | acRateSync timeslotm marker occ => exact next _ k h rfl
    | checkPoint word => exact next _ k h rfl
    | controlRequest word => exact next _ k h rfl

/-- A branch beyond the end is an error. -/
lemma translate_beyond (beyond : ∃ i ∈ rest, ¬ i.IsWithin seq.length) :
    (translate seq bestRam addr ram rval rest).2 = -3 := by
  induction rest generalizing addr ram rval with
  | nil =>
    obtain ⟨i, mem, -⟩ := beyond
    cases mem
  | cons instr rest ih =>
    have later : instr.IsWithin seq.length → ∃ i ∈ rest, ¬ i.IsWithin seq.length := by
      intro within
      obtain ⟨i, mem, over_⟩ := beyond
      cases mem with
      | head => exact absurd within over_
      | tail _ mem => exact ⟨i, mem, over_⟩
    cases instr with
    | branch line test =>
      rw [translate]
      split
      · exact translate_rval.elim id id
      · rename_i within
        have later := later (Int.not_lt.mp within)
        split
        · exact ih later
        · exact ih later
    | fixedRateSync marker occ => exact ih (later trivial)
    | acRateSync timeslotm marker occ => exact ih (later trivial)
    | checkPoint word => exact ih (later trivial)
    | controlRequest word => exact ih (later trivial)

end stored

section sending
variable {is : List SentInstruction} {start n : Nat}

/-- An encoding is a number of arguments and six arguments, of which `cacheSeq` makes an instruction. -/
lemma encoding_eq (i : SentInstruction) :
    ∃ nargs args, i.encoding = nargs :: args ∧ args.length = 6 ∧ Instruction.ofArgs nargs args = i.kept.toList := by
  cases i with
  | beamRequest charge => exact ⟨_, _, rfl, rfl, rfl⟩
  | made i =>
    cases i with
    | branch line test =>
      cases test with
      | none => exact ⟨_, _, rfl, rfl, rfl⟩
      | some test => exact ⟨_, _, rfl, rfl, rfl⟩
    | fixedRateSync marker occ => exact ⟨_, _, rfl, rfl, rfl⟩
    | acRateSync timeslotm marker occ => exact ⟨_, _, rfl, rfl, rfl⟩
    | checkPoint word => exact ⟨_, _, rfl, rfl, rfl⟩
    | controlRequest word => exact ⟨_, _, rfl, rfl, rfl⟩

/-- One instruction before others. -/
lemma keptOf_cons (i : SentInstruction) (is : List SentInstruction) :
    keptOf (i :: is) = i.kept.toList ++ keptOf is := by
  rw [keptOf, List.filterMap_cons]
  cases i.kept with
  | none => rfl
  | some instr => rfl

/-- What `cacheSeq` makes of some encodings. -/
lemma parse_encodings (is : List SentInstruction) :
    Instruction.parse is.length (is.map SentInstruction.encoding).flatten = keptOf is := by
  induction is with
  | nil => rfl
  | cons i is ih =>
    obtain ⟨nargs, args, encoded, six, made⟩ := encoding_eq i
    have long : ¬ (args ++ (is.map SentInstruction.encoding).flatten).length < 6 := by
      rw [List.length_append, six]
      exact Nat.not_lt.mpr (Nat.le_add_right 6 _)
    rw [List.map_cons, List.flatten_cons, encoded, List.cons_append, List.length_cons, Instruction.parse, if_neg long,
      ← six, List.take_left, List.drop_left, made, ih, keptOf_cons]

/-- The sequence to be committed. -/
lemma cached_seq (e : Engine) (is : List SentInstruction) : (e.cached is).seq = keptOf is := by
  show Instruction.parse (is.length : Int).toNat _ = _
  rw [Int.toNat_natCast]
  exact parse_encodings is

/-- The word of an instruction that fits means the instruction. -/
lemma decodeWord_stored {i : SentInstruction} {instr : Instruction} (kept : i.kept = some instr)
    (fits : i.Fits n start) : decodeWord (instr.stored start) = some (i.meaning start) := by
  cases i with
  | beamRequest charge => cases kept
  | made i =>
    cases i with
    | fixedRateSync marker occ =>
      cases kept
      exact decodeWord_fixedRateSync fits.1 fits.2
    | acRateSync timeslotm marker occ =>
      cases kept
      exact decodeWord_acRateSync fits.1 fits.2.1 fits.2.2
    | branch line test =>
      cases kept
      rw [Instruction.stored, Int.add_comm]
      cases test with
      | none =>
        have nonneg := fits.1.1
        exact decodeWord_branch ⟨by omega, fits.2⟩
      | some test =>
        have nonneg := fits.1.1.1
        exact decodeWord_conditional fits.2.1 fits.2.2 ⟨by omega, fits.1.2⟩
    | checkPoint word =>
      cases kept
      exact decodeWord_cast 1 (by decide)
    | controlRequest word =>
      cases kept
      exact decodeWord_controlRequest fits

/-- An instruction fits where its meaning is that of a word and its line is one of the list. -/
lemma fits_of_inRange {i : SentInstruction} {instr : Instruction} (kept : i.kept = some instr)
    (range : (i.meaning start).InRange) (lines : ∀ line ∈ i.line, 0 ≤ line ∧ line < n) : i.Fits n start := by
  cases i with
  | beamRequest charge => cases kept
  | made i =>
    cases i with
    | fixedRateSync marker occ => exact range
    | acRateSync timeslotm marker occ => exact range
    | branch line test =>
      cases test with
      | none => exact ⟨lines line rfl, range.2⟩
      | some test => exact ⟨⟨lines line rfl, range.1.2⟩, range.2⟩
    | checkPoint word => trivial
    | controlRequest word => exact range

/-- The line of a branch. -/
lemma isLine_of {i : SentInstruction} {instr : Instruction} (kept : i.kept = some instr)
    (lines : ∀ line ∈ i.line, 0 ≤ line ∧ line < n) : instr.IsLine n := by
  cases i with
  | beamRequest charge => cases kept
  | made i =>
    cases i with
    | branch line test =>
      cases kept
      exact ⟨(lines line rfl).1, (lines line rfl).2.le⟩
    | fixedRateSync marker occ =>
      cases kept
      trivial
    | acRateSync timeslotm marker occ =>
      cases kept
      trivial
    | checkPoint word =>
      cases kept
      trivial
    | controlRequest word =>
      cases kept
      trivial

/-- An instruction that fits is kept, and its line is one of the list. -/
lemma kept_of_fits {i : SentInstruction} (fits : i.Fits n start) :
    (∃ instr, i.kept = some instr) ∧ ∀ line ∈ i.line, 0 ≤ line ∧ line < n := by
  cases i with
  | beamRequest charge => cases fits
  | made i =>
    cases i with
    | branch line test =>
      refine ⟨⟨_, rfl⟩, ?_⟩
      intro line' mem
      cases mem
      cases test with
      | none => exact fits.1
      | some test => exact fits.1.1
    | fixedRateSync marker occ => exact ⟨⟨_, rfl⟩, nofun⟩
    | acRateSync timeslotm marker occ => exact ⟨⟨_, rfl⟩, nofun⟩
    | checkPoint word => exact ⟨⟨_, rfl⟩, nofun⟩
    | controlRequest word => exact ⟨⟨_, rfl⟩, nofun⟩

/-- Where all instructions are kept, each has its place. -/
lemma kept_getElem (all : ∀ i ∈ is, ∃ instr, i.kept = some instr) :
    (keptOf is).length = is.length ∧
      ∀ k, (h : k < is.length) → (h' : k < (keptOf is).length) → is[k].kept = some (keptOf is)[k] := by
  induction is with
  | nil => exact ⟨rfl, fun k h => absurd h (Nat.not_lt_zero k)⟩
  | cons i is ih =>
    obtain ⟨instr, kept⟩ := all i List.mem_cons_self
    obtain ⟨length, places⟩ := ih fun i mem => all i (List.mem_cons_of_mem _ mem)
    have whole : keptOf (i :: is) = instr :: keptOf is := by
      rw [keptOf_cons, kept]
      rfl
    simp only [whole]
    refine ⟨congrArg Nat.succ length, ?_⟩
    intro k h h'
    cases k with
    | zero => exact kept
    | succ k => exact places k (Nat.lt_of_succ_lt_succ h) (Nat.lt_of_succ_lt_succ h')

/-- Where a list has not become shorter, all instructions are kept. -/
lemma all_kept (length : (keptOf is).length = is.length) : ∀ i ∈ is, ∃ instr, i.kept = some instr := by
  intro i mem
  have some_ := List.filterMap_length_eq_length.mp length i mem
  exact Option.isSome_iff_exists.mp some_

end sending

section caches
variable {caches : List (Nat × SeqCache)} {key : Nat} {cache c : SeqCache}

/-- What is set is there. -/
lemma mem_setCache : (key, cache) ∈ setCache caches key cache := by
  rw [setCache]
  split
  · rename_i there
    obtain ⟨entry, mem, same⟩ := List.any_eq_true.mp there
    have same : entry.1 = key := of_decide_eq_true same
    exact List.mem_map.mpr ⟨entry, mem, if_pos same⟩
  · exact List.mem_append_right _ (List.mem_singleton.mpr rfl)

/-- And nothing else with its key. -/
lemma eq_of_mem_setCache (h : (key, c) ∈ setCache caches key cache) : c = cache := by
  rw [setCache] at h
  split at h
  · obtain ⟨entry, -, e⟩ := List.mem_map.mp h
    split at e
    · cases e
      rfl
    · rename_i other
      cases e
      exact absurd rfl other
  · rename_i absent
    cases List.mem_append.mp h with
    | inl old => exact absurd (List.any_eq_true.mpr ⟨_, old, decide_eq_true rfl⟩) absent
    | inr new =>
      cases List.mem_singleton.mp new
      rfl

end caches

namespace Engine

section commit
variable {e : Engine} {is : List SentInstruction} {start i : Nat}

/-- The engine with a sequence that has been committed with an index. -/
def withSequence (e : Engine) (start i : Nat) : Engine :=
  { e with
    indices := e.indices ||| 1 <<< i
    caches := setCache e.caches start ⟨i, e.nwords, e.seq⟩
    ram := (translate e.seq start start e.ram 0 e.seq).1 }

/-- Where there is an index and no branch goes beyond the end, the sequence is committed. -/
lemma commit_within (index : e.freeIndex = some i) (within : ∀ j ∈ e.seq, j.IsWithin e.seq.length) :
    e.commit start = (some (i : Int), e.withSequence start i) := by
  have fine := @translate_ok e.seq e.seq start start e.ram 0 within
  rw [commit, index]
  simp only [Option.elim_some, fine, if_true]
  rfl

/-- Without an index there is an error. -/
lemma commit_no_index (none_ : e.freeIndex = none) (within : ∀ j ∈ e.seq, j.IsWithin e.seq.length) :
    (e.commit start).1 = some (-3) := by
  have fine := @translate_ok e.seq e.seq start start e.ram 0 within
  rw [commit, none_]
  simp only [Option.elim_none, fine, if_true]

/-- With an index that is none below 0, `removeSeq` returns. -/
lemma removeSeq_returns {e : Engine} {index : Int} (nonneg : 0 ≤ index) : ∃ v, (e.removeSeq index).1 = some v := by
  rw [removeSeq, if_neg (Int.not_lt.mpr nonneg)]
  split
  · exact ⟨_, rfl⟩
  · simp only
    split
    · exact ⟨_, rfl⟩
    · exact ⟨_, rfl⟩

/-- So is there where a branch goes beyond the end; without an index it ends with an exception. -/
lemma commit_beyond (beyond : ∃ j ∈ e.seq, ¬ j.IsWithin e.seq.length) :
    (e.commit start).1 = if e.freeIndex = none then none else some (-3) := by
  have wrong := @translate_beyond e.seq e.seq start start e.ram 0 beyond
  have some_ : ¬ (-3 : Int) = 0 := by decide
  rw [commit]
  simp only [wrong, if_neg some_]
  cases index : e.freeIndex with
  | none => rfl
  | some i =>
    obtain ⟨v, removed⟩ := removeSeq_returns (Int.natCast_nonneg i)
    exact congrArg (Option.map fun _ => (-3 : Int)) removed

/-- Where the lines of the branches are lines of the list, so are they in what is made of it. -/
lemma seq_lines (made : e.seq = keptOf is) (size : e.seq.length = is.length)
    (lines : ∀ j ∈ is, ∀ line ∈ j.line, 0 ≤ line ∧ line < is.length) : ∀ j ∈ e.seq, j.IsLine e.seq.length := by
  intro instr mem
  rw [made] at mem
  obtain ⟨j, there, kept⟩ := List.mem_filterMap.mp mem
  rw [size]
  exact isLine_of kept (lines j there)

/-- The words of the list, where all its instructions are kept and its lines are lines. -/
lemma withSequence_word (made : e.seq = keptOf is)
    (all : ∀ j ∈ is, ∃ instr, j.kept = some instr)
    (lines : ∀ j ∈ is, ∀ line ∈ j.line, 0 ≤ line ∧ line < is.length) {k : Nat} (lt : k < is.length) :
    ∃ instr, is[k].kept = some instr ∧ (e.withSequence start i).ram (start + k) = instr.stored start := by
  obtain ⟨length, places⟩ := kept_getElem all
  have size : e.seq.length = is.length := (congrArg List.length made).trans length
  have there : k < e.seq.length := size ▸ lt
  have written := @translate_words e.seq e.seq start start e.ram 0 (seq_lines made size lines) k there
  refine ⟨e.seq[k], ?_, written⟩
  have place := places k lt (length ▸ lt)
  simpa only [made] using place

/-- The list is committed exactly where all instructions fit. -/
lemma withSequence_iff (made : e.seq = keptOf is) :
    Committed e (e.withSequence start i) is start i ↔ ∀ j ∈ is, j.Fits is.length start := by
  constructor
  · intro committed
    obtain ⟨cache, mem, -, size⟩ := committed.range
    cases eq_of_mem_setCache mem
    have size : e.seq.length = is.length := (e.nwords_eq).symm.trans size
    have all := all_kept ((congrArg List.length made).symm.trans size)
    intro j mem
    obtain ⟨k, lt, rfl⟩ := List.getElem_of_mem mem
    obtain ⟨instr, kept⟩ := all _ mem
    exact fits_of_inRange kept (decodeWord_inRange (committed.words k lt)) (committed.lines _ mem)
  · intro fits
    have all : ∀ j ∈ is, ∃ instr, j.kept = some instr := fun j mem => (kept_of_fits (fits j mem)).1
    have lines : ∀ j ∈ is, ∀ line ∈ j.line, 0 ≤ line ∧ line < is.length := fun j mem =>
      (kept_of_fits (fits j mem)).2
    have size : e.seq.length = is.length := (congrArg List.length made).trans (kept_getElem all).1
    refine ⟨⟨_, mem_setCache, rfl, e.nwords_eq.trans size⟩, ?_, lines, ?_⟩
    · intro k lt
      obtain ⟨instr, kept, word⟩ := @withSequence_word e is start i made all lines k lt
      rw [word]
      exact decodeWord_stored kept (fits _ (List.getElem_mem lt))
    · intro a outside
      rw [← size] at outside
      exact translate_outside outside

/-- Where no range is found there is an error. -/
lemma insertSeq_no_room (room : e.gap.1 = (2 ^ e.seqAddrLen : Nat)) : e.insertSeq = (some (-1), e) := if_pos room

/-- Elsewhere the sequence is committed there. -/
lemma insertSeq_room (room : e.gap.1 ≠ (2 ^ e.seqAddrLen : Nat)) : e.insertSeq = e.commit e.gap.2 := by
  have set : (e.indices : Int) ≠ -1 := by omega
  exact (if_neg room).trans (if_neg set)

/-- Where it is committed with an index the list is settled where it fits. -/
lemma settles_index (made : e.seq = keptOf is)
    (room : e.gap.1 ≠ (2 ^ e.seqAddrLen : Nat)) (within : ∀ j ∈ e.seq, j.IsWithin e.seq.length)
    (index : e.freeIndex = some i) : e.Settles is ↔ ∀ j ∈ is, j.Fits is.length e.gap.2 := by
  rw [← withSequence_iff made, Settles, insertSeq_room room, commit_within index within]
  constructor
  · intro result
    obtain ⟨v, same, settled⟩ := result
    cases same
    cases settled with
    | inl negative => exact absurd negative (Int.not_lt.mpr (Int.natCast_nonneg i))
    | inr committed => exact committed.2
  · intro committed
    exact ⟨i, rfl, .inr ⟨Int.natCast_nonneg i, committed⟩⟩

/-- An error settles it. -/
lemma settles_error {v : Int} (error : e.insertSeq.1 = some v) (negative : v < 0) : e.Settles is :=
  ⟨v, error, .inl negative⟩

/-- So does an index where the list is committed. -/
lemma Settles.committed {v : Int} (settles : e.Settles is) (result : e.insertSeq.1 = some v) (nonneg : 0 ≤ v) :
    Committed e e.insertSeq.2 is e.gap.2 v := by
  obtain ⟨v', same, settled⟩ := settles
  cases result.symm.trans same
  cases settled with
  | inl negative => exact absurd nonneg (Int.not_le.mpr negative)
  | inr committed => exact committed.2

/-- And an exception does not. -/
lemma not_settles (raised : e.insertSeq.1 = none) : ¬ e.Settles is := by
  intro settles
  obtain ⟨v, same, -⟩ := settles
  cases raised.symm.trans same

end commit

/-- A list that is sent is committed, or there is an error, exactly where no range is found, or a branch goes beyond the
    end and there is an index, or there is none, or all its instructions fit. -/
theorem committed_iff (e : Engine) (is : List SentInstruction) :
    (e.cached is).Settles is ↔ (e.cached is).Fitting is := by
  have made : (e.cached is).seq = keptOf is := cached_seq e is
  generalize e.cached is = e at made
  by_cases room : e.gap.1 = (2 ^ e.seqAddrLen : Nat)
  · have error : e.insertSeq.1 = some (-1) := by rw [insertSeq_no_room room]
    exact iff_of_true (settles_error error (by decide)) (.inl room)
  · rw [Fitting, or_iff_right room, ← made]
    by_cases within : ∀ j ∈ e.seq, j.IsWithin e.seq.length
    · have not : ¬ ((∃ j ∈ e.seq, ¬ j.IsWithin e.seq.length) ∧ e.freeIndex ≠ none) := by
        rintro ⟨⟨j, mem, out⟩, -⟩
        exact out (within j mem)
      rw [or_iff_right not, and_iff_right within]
      cases index : e.freeIndex with
      | none =>
        have error : e.insertSeq.1 = some (-3) := by
          rw [insertSeq_room room]
          exact commit_no_index index within
        exact iff_of_true (settles_error error (by decide)) (.inl rfl)
      | some i =>
        rw [or_iff_right nofun]
        exact settles_index made room within index
    · have beyond : ∃ j ∈ e.seq, ¬ j.IsWithin e.seq.length := by
        obtain ⟨j, out⟩ := not_forall.mp within
        obtain ⟨mem, out⟩ := Classical.not_imp.mp out
        exact ⟨j, mem, out⟩
      have result := @commit_beyond e e.gap.2 beyond
      rw [← insertSeq_room room] at result
      rw [or_iff_left fun both => within both.1, and_iff_right beyond]
      cases index : e.freeIndex with
      | none =>
        rw [index, if_pos rfl] at result
        exact iff_of_false (not_settles result) fun free => free rfl
      | some i =>
        rw [index, if_neg nofun] at result
        exact iff_of_true (settles_error result (by decide)) nofun

/-- A new engine that has been sent a list. -/
def sentTo (is : List SentInstruction) : Engine := (Engine.new 11 fun _ => 0).cached is

/-- A `BeamRequest` is dropped, and a branch to the line after the last one, or to one before the first, is no error. -/
theorem beam_dropped :
    (¬ (sentTo [.beamRequest 7, .made (.checkPoint 0)]).Settles [.beamRequest 7, .made (.checkPoint 0)] ∧
        (sentTo [.beamRequest 7, .made (.checkPoint 0)]).insertSeq.1 = some 2) ∧
      (¬ (sentTo [.made (.branch 1 none)]).Settles [.made (.branch 1 none)] ∧
        (sentTo [.made (.branch 1 none)]).insertSeq.1 = some 2) ∧
      ¬ (sentTo [.made (.branch (-1) none)]).Settles [.made (.branch (-1) none)] ∧
        (sentTo [.made (.branch (-1) none)]).insertSeq.1 = some 2 := by
  have beam : (sentTo [.beamRequest 7, .made (.checkPoint 0)]).insertSeq.1 = some 2 := by decide +kernel
  have after : (sentTo [.made (.branch 1 none)]).insertSeq.1 = some 2 := by decide +kernel
  have before : (sentTo [.made (.branch (-1) none)]).insertSeq.1 = some 2 := by decide +kernel
  refine ⟨⟨?_, beam⟩, ⟨?_, after⟩, ?_, before⟩
  · intro settles
    obtain ⟨cache, mem, index, size⟩ := (settles.committed beam (by decide)).range
    have short : ∀ c ∈ (sentTo [.beamRequest 7, .made (.checkPoint 0)]).insertSeq.2.caches,
        c.2.index = 2 → c.2.size ≠ 2 := by
      decide +kernel
    exact short _ mem index size
  · intro settles
    have line := (settles.committed after (by decide)).lines _ (List.mem_singleton.mpr rfl) 1 rfl
    exact absurd line.2 (by decide)
  · intro settles
    have line := (settles.committed before (by decide)).lines _ (List.mem_singleton.mpr rfl) (-1) rfl
    exact absurd line.1 (by decide)

end Engine

end Lcls2.Xpm
