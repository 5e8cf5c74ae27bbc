import Mathlib

/-!
# The sequence engine

Model of `Engine` (`psdaq/pyxpm/pvseq.py`) and of the instructions of `psdaq/cas/seq.py`. The `dict`
`_caches` is the list of its items in the order of their insertion. An index that `1<<index` does not take
raises a `ValueError`, which is `none`.
-/

namespace Lcls2.Xpm

/-- `NSubSeq`. -/
def nSubSeq : Nat := 64

/-- `a & (2**bits - 1)`. -/
def mask (a : Int) (bits : Nat) : Nat := (a % 2 ^ bits).toNat

/-- The instructions that `cacheSeq` makes, with their arguments; a conditional `Branch` has a counter and
    a value. -/
inductive Instruction where
  | fixedRateSync (marker occ : Int)
  | acRateSync (timeslotm marker occ : Int)
  | branch (line : Int) (test : Option (Int × Int))
  | checkPoint (word : Int)
  | controlRequest (word : Int)
  deriving DecidableEq

namespace Instruction

/-- `_word`; only that of a `Branch` looks at the address. -/
def word (a : Int) : Instruction → Int
  | .fixedRateSync marker occ => ((2 <<< 29 ||| mask marker 4 <<< 16 ||| mask occ 12 : Nat) : Int)
  | .acRateSync timeslotm marker occ =>
    ((3 <<< 29 ||| mask timeslotm 6 <<< 23 ||| mask marker 4 <<< 16 ||| mask occ 12 : Nat) : Int)
  | .branch _ none => (mask a 11 : Nat)
  | .branch _ (some test) =>
    ((mask test.1 2 <<< 27 ||| 1 <<< 24 ||| mask test.2 8 <<< 16 ||| mask a 11 : Nat) : Int)
  | .checkPoint _ => ((1 <<< 29 : Nat) : Int)
  | .controlRequest word => Int.lor ((4 <<< 29 : Nat) : Int) word

/-- `_nwords`. -/
def nwords (_ : Instruction) : Nat := 1

/-- The instruction of an opcode, if `cacheSeq` knows it. -/
def ofArgs (nargs : Int) (args : List Int) : List Instruction :=
  let arg (i : Nat) : Int := args.getD i 0
  if arg 0 = 0 then [.fixedRateSync (arg 1) (arg 2)]
  else if arg 0 = 1 then [.acRateSync (arg 1) (arg 2) (arg 3)]
  else if arg 0 = 2 then
    if nargs = 1 then [.branch (arg 1) none] else [.branch (arg 1) (some (arg 2, arg 3))]
  else if arg 0 = 3 then [.checkPoint 0]
  else if arg 0 = 5 then [.controlRequest (arg 1)]
  else []

/-- The loop of `cacheSeq`, up to the end of the values. -/
def parse : Nat → List Int → List Instruction
  | 0, _ => []
  | n + 1, nargs :: vals =>
    if vals.length < 6 then [] else ofArgs nargs (vals.take 6) ++ parse n (vals.drop 6)
  | _ + 1, [] => []

end Instruction

/-- `SeqCache`. -/
structure SeqCache where
  index : Int
  size : Nat
  instr : List Instruction
  deriving DecidableEq

/-- `Engine`, with `seqAddrLen` and the words of `_ram`. -/
structure Engine where
  seqAddrLen : Nat
  ram : Nat → Int
  caches : List (Nat × SeqCache)
  indices : Nat
  seq : List Instruction

/-- `_caches[key] = cache`. -/
def setCache (caches : List (Nat × SeqCache)) (key : Nat) (cache : SeqCache) : List (Nat × SeqCache) :=
  if caches.any (·.1 = key) then caches.map fun entry => if entry.1 = key then (key, cache) else entry
  else caches ++ [(key, cache)]

/-- The loop of `insertSeq` for a memory range that is just large enough: `best_size` and `best_ram`. -/
def searchGap (nwords : Nat) (addr : Nat) (bestSize : Int) (bestRam : Nat) :
    List (Nat × SeqCache) → Int × Nat
  | [] => (bestSize, bestRam)
  | entry :: caches =>
    let isize : Int := entry.1 - addr
    if isize = nwords then (isize, addr)
    else if nwords < isize ∧ isize < bestSize then
      searchGap nwords (entry.1 + entry.2.size) isize addr caches
    else searchGap nwords (entry.1 + entry.2.size) bestSize bestRam caches

/-- The loop of `insertSeq` that writes the words from an address on: the words and `rval`. -/
def translate (seq : List Instruction) (bestRam : Nat) (addr : Nat) (ram : Nat → Int) (rval : Int) :
    List Instruction → (Nat → Int) × Int
  | [] => (ram, rval)
  | .branch line test :: rest =>
    if (seq.length : Int) < line then translate seq bestRam addr ram (-3) rest
    else if 0 ≤ line then
      let jaddr := ((seq.take line.toNat).map Instruction.nwords).sum
      let word := Instruction.word (jaddr + bestRam) (.branch line test)
      translate seq bestRam (addr + 1) (Function.update ram addr word) rval rest
    else translate seq bestRam addr ram rval rest
  | instr :: rest =>
    translate seq bestRam (addr + 1) (Function.update ram addr (instr.word 0)) rval rest

namespace Engine

/-- `Engine.__init__`, on memory that holds any words. -/
def new (seqAddrLen : Nat) (ram : Nat → Int) : Engine :=
  let sync := Instruction.fixedRateSync 5 1
  let last := 2 ^ seqAddrLen - 1
  let ram := Function.update ram 0 (sync.word 0)
  let ram := Function.update ram 1 (sync.word 0)
  let ram := Function.update ram 2 (Instruction.word 0 (.branch 0 none))
  let ram := Function.update ram last (Instruction.word last (.branch last none))
  { seqAddrLen
    ram
    caches := setCache [(0, ⟨0, 3, [sync, sync, .branch 0 none]⟩)] last ⟨1, 1, [.branch 0 none]⟩
    indices := 3
    seq := [] }

/-- `Engine.cacheSeq`. -/
def cacheSeq (e : Engine) (val : List Int) : Int × Engine :=
  let seq :=
    match val with
    | [] => []
    | ninstr :: vals => Instruction.parse ninstr.toNat vals
  (seq.length, { e with seq })

/-- `Engine.removeSeq`. -/
def removeSeq (e : Engine) (index : Int) : Option Int × Engine :=
  if index < 0 then (none, e)
  else if e.indices.testBit index.toNat = false then (some (-1), e)
  else
    let e := { e with indices := e.indices.ldiff (1 <<< index.toNat) }
    match e.caches.find? (·.2.index = index) with
    | none => (some (-2), e)
    | some entry =>
      (some 0, { e with
        ram := Function.update e.ram entry.1 entry.1
        caches := e.caches.filter (·.1 ≠ entry.1) })

/-- The first index whose bit is not set. -/
def freeIndex (e : Engine) : Option Nat := (List.range nSubSeq).find? fun i => !e.indices.testBit i

/-- The memory needed for the sequence to be committed. -/
def nwords (e : Engine) : Nat := (e.seq.map Instruction.nwords).sum

/-- `Engine.insertSeq` from where the memory range is found. -/
def commit (e : Engine) (bestRam : Nat) : Option Int × Engine :=
  let aindex : Int := e.freeIndex.elim (-3) Int.ofNat
  let indices := e.freeIndex.elim e.indices fun i => e.indices ||| 1 <<< i
  let caches := setCache e.caches bestRam ⟨aindex, e.nwords, e.seq⟩
  let written := translate e.seq bestRam bestRam e.ram 0 e.seq
  let e := { e with indices, caches, ram := written.1 }
  if written.2 = 0 then (some aindex, e)
  else
    let removed := e.removeSeq aindex
    (removed.1.map fun _ => written.2, removed.2)

/-- `Engine.insertSeq`. -/
def insertSeq (e : Engine) : Option Int × Engine :=
  let noneFound : Nat := 2 ^ e.seqAddrLen
  let best := searchGap e.nwords 0 noneFound 0 e.caches
  if best.1 = noneFound then (some (-1), e)
  else if (e.indices : Int) = -1 then (some (-2), e)
  else e.commit best.2

end Engine

/-- A call of the engine. -/
inductive SeqOp where
  | cacheSeq (val : List Int)
  | insertSeq
  | removeSeq (index : Int)

/-- The engine after a call. -/
def Engine.step (e : Engine) : SeqOp → Except Empty Engine
  | .cacheSeq val => .ok (e.cacheSeq val).2
  | .insertSeq => .ok e.insertSeq.2
  | .removeSeq index => .ok (e.removeSeq index).2

end Lcls2.Xpm
