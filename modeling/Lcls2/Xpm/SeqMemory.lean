import Lcls2.Lib.Run
import Lcls2.Xpm.PvSeq

/-!
# The memory of the sequences

The walk of `insertSeq` over the committed sequences finds a range that is free when it meets them in the
order of their addresses.
-/

namespace Lcls2.Xpm
open Lib

/-- A committed sequence ends before another one starts. -/
def Before (a b : Nat × SeqCache) : Prop := a.1 + a.2.size ≤ b.1

instance (a b : Nat × SeqCache) : Decidable (Before a b) :=
  inferInstanceAs (Decidable (a.1 + a.2.size ≤ b.1))

/-- Nothing of a range is in a committed sequence. -/
def IsFree (caches : List (Nat × SeqCache)) (start n : Nat) : Prop :=
  ∀ c ∈ caches, c.1 + c.2.size ≤ start ∨ start + n ≤ c.1

/-- What is kept of the committed sequences and their indices. -/
structure Engine.Sound (e : Engine) : Prop where
  apart : e.caches.Pairwise fun a b => Before a b ∨ Before b a
  inside : ∀ c ∈ e.caches, c.1 + c.2.size ≤ 2 ^ e.seqAddrLen
  distinct : (e.caches.map (·.2.index)).Nodup
  bits : ∀ i : Int, (∃ c ∈ e.caches, c.2.index = i) ↔ ∃ n : Nat, i = n ∧ e.indices.testBit n = true

/-- A committed sequence, with its words, is the same in another state. -/
structure Engine.Keeps (e e' : Engine) (c : Nat × SeqCache) : Prop where
  entry : c ∈ e'.caches
  words : ∀ a, c.1 ≤ a → a < c.1 + c.2.size → e'.ram a = e.ram a

section search
variable {caches : List (Nat × SeqCache)} {n addr bestRam start : Nat} {bestSize noneFound : Int}

/-- A range that the walk finds is free. -/
lemma searchGap_spec (laid : caches.Pairwise Before) (low : ∀ c ∈ caches, addr ≤ c.1) :
    searchGap n addr bestSize bestRam caches = (bestSize, bestRam) ∨
      (IsFree caches (searchGap n addr bestSize bestRam caches).2 n ∧
        addr ≤ (searchGap n addr bestSize bestRam caches).2 ∧
        ∃ c ∈ caches, (searchGap n addr bestSize bestRam caches).2 + n ≤ c.1) := by
  induction caches generalizing addr bestSize bestRam with
  | nil => exact .inl rfl
  | cons c caches ih =>
    obtain ⟨first, laid⟩ := List.pairwise_cons.mp laid
    have lowest : addr ≤ c.1 := low c List.mem_cons_self
    -- the stretch before the first sequence is free if it is long enough
    have here : addr + n ≤ c.1 → IsFree (c :: caches) addr n := by
      intro fits c' hc
      cases List.mem_cons.mp hc with
      | inl same => exact .inr (by rwa [same])
      | inr later =>
        have := first c' later
        rw [Before] at this
        exact .inr (by omega)
    have next := fun bestSize bestRam => @ih (c.1 + c.2.size) bestRam bestSize laid fun c' hc => first c' hc
    have behind : ∀ start, c.1 + c.2.size ≤ start → IsFree caches start n → IsFree (c :: caches) start n := by
      intro start before free c' hc
      cases List.mem_cons.mp hc with
      | inl same => exact .inl (by rwa [same])
      | inr later => exact free c' later
    rw [searchGap]
    split
    · rename_i fits
      have fits : addr + n ≤ c.1 := by omega
      exact .inr ⟨here fits, Nat.le_refl addr, c, List.mem_cons_self, fits⟩
    · split
      · rename_i better
        have fits : addr + n ≤ c.1 := by omega
        cases next ((c.1 : Int) - addr) addr with
        | inl same =>
          rw [same]
          exact .inr ⟨here fits, Nat.le_refl addr, c, List.mem_cons_self, fits⟩
        | inr found =>
          obtain ⟨free, above, c', hc, below⟩ := found
          exact .inr ⟨behind _ above free, by omega, c', List.mem_cons_of_mem c hc, below⟩
      · cases next bestSize bestRam with
        | inl same => exact .inl same
        | inr found =>
          obtain ⟨free, above, c', hc, below⟩ := found
          exact .inr ⟨behind _ above free, by omega, c', List.mem_cons_of_mem c hc, below⟩

/-- What has been found is not lost. -/
lemma searchGap_lt (high : ∀ c ∈ caches, (c.1 : Int) < noneFound) (found : bestSize < noneFound) :
    (searchGap n addr bestSize bestRam caches).1 < noneFound := by
  induction caches generalizing addr bestSize bestRam with
  | nil => exact found
  | cons c caches ih =>
    have highest := high c List.mem_cons_self
    have high := fun c' hc => high c' (List.mem_cons_of_mem c hc)
    rw [searchGap]
    split
    · show ((c.1 : Int) - addr) < noneFound
      omega
    · split
      · exact ih high (by omega)
      · exact ih high found

/-- A free range before a committed sequence is found. -/
lemma searchGap_found (laid : caches.Pairwise Before) (high : ∀ c ∈ caches, (c.1 : Int) < noneFound)
    (positive : 0 < n) (free : IsFree caches start n) (above : addr ≤ start)
    (before : ∃ c ∈ caches, start + n ≤ c.1) (best : bestSize ≤ noneFound) :
    (searchGap n addr bestSize bestRam caches).1 < noneFound := by
  induction caches generalizing addr bestSize bestRam with
  | nil =>
    obtain ⟨c, hc, -⟩ := before
    cases hc
  | cons c caches ih =>
    obtain ⟨-, laid'⟩ := List.pairwise_cons.mp laid
    have highest := high c List.mem_cons_self
    have high := fun c' hc => high c' (List.mem_cons_of_mem c hc)
    rw [searchGap]
    cases free c List.mem_cons_self with
    | inr fits =>
      split
      · show ((c.1 : Int) - addr) < noneFound
        omega
      · split
        · exact searchGap_lt high (by omega)
        · exact searchGap_lt high (by omega)
    | inl ends =>
      have free : IsFree caches start n := fun c' hc => free c' (List.mem_cons_of_mem c hc)
      have before : ∃ c ∈ caches, start + n ≤ c.1 := by
        obtain ⟨c', hc, fits⟩ := before
        cases List.mem_cons.mp hc with
        | inl same =>
          rw [same] at fits
          omega
        | inr later => exact ⟨c', later, fits⟩
      split
      · show ((c.1 : Int) - addr) < noneFound
        omega
      · split
        · exact ih laid' high free ends before (by omega)
        · exact ih laid' high free ends before best

end search

section translate
variable {seq rest : List Instruction} {bestRam addr : Nat} {ram : Nat → Int} {rval : Int}

/-- The branches that do not jump beyond the end. -/
def Instruction.IsWithin (n : Nat) : Instruction → Prop
  | .branch line _ => line ≤ n
  | _ => True

instance (n : Nat) : (i : Instruction) → Decidable (i.IsWithin n)
  | .branch line _ => inferInstanceAs (Decidable (line ≤ n))
  | .fixedRateSync _ _ => .isTrue trivial
  | .acRateSync _ _ _ => .isTrue trivial
  | .checkPoint _ => .isTrue trivial
  | .controlRequest _ => .isTrue trivial

/-- The words that are written are in the range of the sequence. -/
lemma translate_outside {a : Nat} (outside : a < addr ∨ addr + rest.length ≤ a) :
    (translate seq bestRam addr ram rval rest).1 a = ram a := by
  induction rest generalizing addr ram rval with
  | nil => rfl
  | cons instr rest ih =>
    rw [List.length_cons] at outside
    have same : ∀ word, Function.update ram addr word a = ram a := by
      intro word
      exact Function.update_of_ne (by omega) _ _
    cases instr with
    | branch line test =>
      rw [translate]
      split
      · exact ih (by omega)
      · split
        · exact (ih (by omega)).trans (same _)
        · exact ih (by omega)
    | fixedRateSync marker occ => exact (ih (by omega)).trans (same _)
    | acRateSync timeslotm marker occ => exact (ih (by omega)).trans (same _)
    | checkPoint word => exact (ih (by omega)).trans (same _)
    | controlRequest word => exact (ih (by omega)).trans (same _)

/-- The result is an error or what it was before. -/
lemma translate_rval :
    (translate seq bestRam addr ram rval rest).2 = rval ∨
      (translate seq bestRam addr ram rval rest).2 = -3 := by
  induction rest generalizing addr ram rval with
  | nil => exact .inl rfl
  | cons instr rest ih =>
    cases instr with
    | branch line test =>
      rw [translate]
      split
      · exact .inr ((ih).elim id id)
      · split
        · exact ih
        · exact ih
    | fixedRateSync marker occ => exact ih
    | acRateSync timeslotm marker occ => exact ih
    | checkPoint word => exact ih
    | controlRequest word => exact ih

/-- Without a branch beyond the end there is no error. -/
lemma translate_ok (within : ∀ i ∈ rest, i.IsWithin seq.length) :
    (translate seq bestRam addr ram rval rest).2 = rval := by
  induction rest generalizing addr ram rval with
  | nil => rfl
  | cons instr rest ih =>
    have first := within instr List.mem_cons_self
    have ih := fun addr ram rval => @ih addr ram rval fun i hi => within i (List.mem_cons_of_mem instr hi)
    cases instr with
    | branch line test =>
      rw [translate, if_neg (Int.not_lt.mpr first)]
      split
      · exact ih _ _ _
      · exact ih _ _ _
    | fixedRateSync marker occ => exact ih _ _ _
    | acRateSync timeslotm marker occ => exact ih _ _ _
    | checkPoint word => exact ih _ _ _
    | controlRequest word => exact ih _ _ _

end translate

/-- The committed sequences have words. -/
structure Engine.Good (e : Engine) : Prop extends e.Sound where
  positive : ∀ c ∈ e.caches, 0 < c.2.size

/-- When `insertSeq` may be called: the walk over the table is in the order of the addresses, the sequence
    to be committed is not empty, and an index is free. -/
structure Engine.Ready (e : Engine) : Prop where
  ordered : e.caches.Pairwise fun a b => a.1 < b.1
  some_ : e.seq ≠ []
  index : ∃ i < nSubSeq, e.indices.testBit i = false

section engine
variable {e : Engine} {i : Nat} {start : Nat}

/-- Every instruction is one word. -/
lemma nwords_sum (is : List Instruction) : (is.map Instruction.nwords).sum = is.length := by
  induction is with
  | nil => rfl
  | cons i is ih =>
    rw [List.map_cons, List.sum_cons, ih, List.length_cons, Nat.add_comm]
    rfl

lemma Engine.nwords_eq (e : Engine) : e.nwords = e.seq.length := nwords_sum e.seq

/-- In the order of the addresses the sequences end before the next one starts. -/
lemma Engine.Good.laid (good : e.Good) (ordered : e.caches.Pairwise fun a b => a.1 < b.1) :
    e.caches.Pairwise Before := by
  have both := ordered.and good.apart
  refine both.imp_of_mem ?_
  intro a b _ hb h
  obtain ⟨lt, apart⟩ := h
  cases apart with
  | inl before => exact before
  | inr after =>
    have positive := good.positive b hb
    rw [Before] at after
    omega

/-- Two committed sequences are apart. -/
lemma Engine.Good.separate (good : e.Good) {c c' : Nat × SeqCache} (hc : c ∈ e.caches)
    (hc' : c' ∈ e.caches) (differs : c ≠ c') : Before c c' ∨ Before c' c := by
  have symm : Std.Symm fun a b : Nat × SeqCache => Before a b ∨ Before b a := ⟨fun _ _ => Or.symm⟩
  exact good.apart.forall hc hc' differs

/-- A committed sequence is the only one at its address. -/
lemma Engine.Good.unique (good : e.Good) {c c' : Nat × SeqCache} (hc : c ∈ e.caches)
    (hc' : c' ∈ e.caches) (same : c.1 = c'.1) : c = c' := by
  by_contra differs
  have words := good.positive c hc
  have words' := good.positive c' hc'
  cases good.separate hc hc' differs with
  | inl before =>
    rw [Before] at before
    omega
  | inr after =>
    rw [Before] at after
    omega

/-- A free range does not start at a committed sequence. -/
lemma Engine.Good.fresh (good : e.Good) {n : Nat} (positive : 0 < n) (free : IsFree e.caches start n) :
    ∀ c ∈ e.caches, c.1 ≠ start := by
  intro c hc same
  have words := good.positive c hc
  cases free c hc with
  | inl before => omega
  | inr after => omega

lemma setCache_fresh {caches : List (Nat × SeqCache)} (cache : SeqCache) (fresh : ∀ c ∈ caches, c.1 ≠ start) :
    setCache caches start cache = caches ++ [(start, cache)] := by
  rw [setCache, if_neg]
  intro some_
  obtain ⟨c, hc, same⟩ := List.any_eq_true.mp some_
  exact fresh c hc (of_decide_eq_true same)

/-- The index that is taken is free. -/
lemma Engine.freeIndex_spec (index : ∃ i < nSubSeq, e.indices.testBit i = false) :
    ∃ i, e.freeIndex = some i ∧ i < nSubSeq ∧ e.indices.testBit i = false := by
  cases h : e.freeIndex with
  | none =>
    obtain ⟨i, hi, free⟩ := index
    have none_ := List.find?_eq_none.mp h i (List.mem_range.mpr hi)
    rw [free] at none_
    exact absurd rfl none_
  | some i =>
    have free := List.find?_some h
    refine ⟨i, rfl, List.mem_range.mp (List.mem_of_find?_eq_some h), ?_⟩
    simpa using free

/-- No committed sequence has a free index. -/
lemma Engine.Good.unused (good : e.Good) (free : e.indices.testBit i = false) :
    ∀ c ∈ e.caches, c.2.index ≠ i := by
  intro c hc same
  obtain ⟨n, hn, set⟩ := (good.bits i).mp ⟨c, hc, same⟩
  have e : i = n := Int.ofNat.inj hn
  rw [e, set] at free
  cases free

lemma testBit_or_shift (bits i n : Nat) :
    (bits ||| 1 <<< i).testBit n = (bits.testBit n || decide (i = n)) := by
  rw [Nat.testBit_or, Nat.shiftLeft_eq, Nat.one_mul, Nat.testBit_two_pow]

lemma testBit_ldiff_shift (bits i n : Nat) :
    (bits.ldiff (1 <<< i)).testBit n = (bits.testBit n && !decide (i = n)) := by
  rw [Nat.testBit_ldiff, Nat.shiftLeft_eq, Nat.one_mul, Nat.testBit_two_pow]

/-- Removing a sequence. -/
lemma Engine.Good.removeSeq (good : e.Good) (index : Int) :
    (e.removeSeq index).2.Good ∧ (e.removeSeq index).2.seqAddrLen = e.seqAddrLen ∧
      ∀ c ∈ e.caches, c.2.index ≠ index → e.Keeps (e.removeSeq index).2 c := by
  have idle : e.Good ∧ e.seqAddrLen = e.seqAddrLen ∧ ∀ c ∈ e.caches, c.2.index ≠ index → e.Keeps e c :=
    ⟨good, rfl, fun c hc _ => ⟨hc, fun _ _ _ => rfl⟩⟩
  rw [Engine.removeSeq]
  split
  · exact idle
  · rename_i nonneg
    split
    · exact idle
    · rename_i set
      have set : e.indices.testBit index.toNat = true := by simpa using set
      have cast : index = index.toNat := (Int.toNat_of_nonneg (Int.not_lt.mp nonneg)).symm
      obtain ⟨c₀, hc₀, has⟩ := (good.bits index).mpr ⟨index.toNat, cast, set⟩
      simp only
      cases found : e.caches.find? (·.2.index = index) with
      | none =>
        have none_ := List.find?_eq_none.mp found c₀ hc₀
        exact absurd (decide_eq_true has) none_
      | some entry => ?_
      have same : entry.2.index = index := by simpa using List.find?_some found
      have among := List.mem_of_find?_eq_some found
      have left : ∀ c, c ∈ e.caches.filter (·.1 ≠ entry.1) ↔ c ∈ e.caches ∧ c.2.index ≠ index := by
        intro c
        rw [List.mem_filter, decide_eq_true_iff]
        refine and_congr_right fun hc => not_congr ⟨?_, ?_⟩
        · intro key
          rw [good.unique hc among key, same]
        · intro hi
          rw [List.inj_on_of_nodup_map good.distinct hc among (hi.trans same.symm)]
      refine ⟨⟨⟨?_, ?_, ?_, ?_⟩, ?_⟩, rfl, ?_⟩
      · exact good.apart.sublist List.filter_sublist
      · intro c hc
        exact good.inside c (List.mem_of_mem_filter hc)
      · exact good.distinct.sublist (List.filter_sublist.map _)
      · intro i
        constructor
        · rintro ⟨c, hc, rfl⟩
          obtain ⟨hc, differs⟩ := (left c).mp hc
          obtain ⟨n, hn, set⟩ := (good.bits _).mp ⟨c, hc, rfl⟩
          refine ⟨n, hn, ?_⟩
          show (e.indices.ldiff (1 <<< index.toNat)).testBit n = true
          rw [testBit_ldiff_shift, set]
          have : index.toNat ≠ n := by omega
          simpa using this
        · rintro ⟨n, rfl, set⟩
          have set : (e.indices.ldiff (1 <<< index.toNat)).testBit n = true := set
          rw [testBit_ldiff_shift, Bool.and_eq_true] at set
          obtain ⟨c, hc, hi⟩ := (good.bits n).mpr ⟨n, rfl, set.1⟩
          have differs : index.toNat ≠ n := by simpa using set.2
          exact ⟨c, (left c).mpr ⟨hc, by omega⟩, hi⟩
      · intro c hc
        exact good.positive c (List.mem_of_mem_filter hc)
      · intro c hc differs
        refine ⟨(left c).mpr ⟨hc, differs⟩, ?_⟩
        intro a low high
        apply Function.update_of_ne
        intro trap
        -- the trap is in the range of the sequence that is removed
        have positive := good.positive entry among
        have other : c ≠ entry := by
          rintro rfl
          exact differs same
        cases good.separate hc among other with
        | inl before =>
          rw [Before] at before
          omega
        | inr after =>
          rw [Before] at after
          omega

/-- The state in which the words of a sequence are written. -/
def Engine.reserved (e : Engine) (start i : Nat) : Engine :=
  { e with
    indices := e.indices ||| 1 <<< i
    caches := e.caches ++ [(start, ⟨i, e.nwords, e.seq⟩)]
    ram := (translate e.seq start start e.ram 0 e.seq).1 }

/-- Reserving a free range and a free index. -/
lemma Engine.Good.reserved (good : e.Good) (some_ : e.seq ≠ []) (free : IsFree e.caches start e.nwords)
    (inside : start + e.nwords ≤ 2 ^ e.seqAddrLen) (unset : e.indices.testBit i = false) :
    (e.reserved start i).Good ∧ ∀ c ∈ e.caches, e.Keeps (e.reserved start i) c := by
  have positive : 0 < e.nwords := by
    rw [e.nwords_eq]
    exact List.length_pos_iff.mpr some_
  have unused := good.unused unset
  refine ⟨⟨⟨?_, ?_, ?_, ?_⟩, ?_⟩, ?_⟩
  · refine List.pairwise_append.mpr ⟨good.apart, List.pairwise_singleton _ _, ?_⟩
    intro c hc c' hc'
    rw [List.mem_singleton.mp hc', Before, Before]
    exact free c hc
  · intro c hc
    cases List.mem_append.mp hc with
    | inl old => exact good.inside c old
    | inr new =>
      rw [List.mem_singleton.mp new]
      exact inside
  · show ((e.caches ++ _).map _).Nodup
    rw [List.map_append, List.nodup_append]
    refine ⟨good.distinct, List.nodup_singleton _, ?_⟩
    intro j hj j' hj'
    obtain ⟨c, hc, rfl⟩ := List.mem_map.mp hj
    rw [List.mem_singleton.mp hj']
    exact unused c hc
  · intro j
    constructor
    · rintro ⟨c, hc, rfl⟩
      cases List.mem_append.mp hc with
      | inl old =>
        obtain ⟨n, hn, set⟩ := (good.bits _).mp ⟨c, old, rfl⟩
        refine ⟨n, hn, ?_⟩
        show (e.indices ||| 1 <<< i).testBit n = true
        rw [testBit_or_shift, set, Bool.true_or]
      | inr new =>
        rw [List.mem_singleton.mp new]
        refine ⟨i, rfl, ?_⟩
        show (e.indices ||| 1 <<< i).testBit i = true
        rw [testBit_or_shift, decide_eq_true rfl, Bool.or_true]
    · rintro ⟨n, rfl, set⟩
      have set : (e.indices ||| 1 <<< i).testBit n = true := set
      rw [testBit_or_shift, Bool.or_eq_true] at set
      cases set with
      | inl old =>
        obtain ⟨c, hc, hi⟩ := (good.bits n).mpr ⟨n, rfl, old⟩
        exact ⟨c, List.mem_append_left _ hc, hi⟩
      | inr new =>
        have new : i = n := of_decide_eq_true new
        refine ⟨_, List.mem_append_right _ (List.mem_singleton_self _), ?_⟩
        show (i : Int) = n
        rw [new]
  · intro c hc
    cases List.mem_append.mp hc with
    | inl old => exact good.positive c old
    | inr new =>
      rw [List.mem_singleton.mp new]
      exact positive
  · intro c hc
    refine ⟨List.mem_append_left _ hc, ?_⟩
    intro a low high
    apply translate_outside
    rw [← e.nwords_eq]
    cases free c hc with
    | inl before => exact .inl (by omega)
    | inr after => exact .inr (by omega)

/-- Freeing what has been reserved: all but the words is as before. -/
lemma Engine.Good.free (good : e.Good) (positive : 0 < e.nwords) (free : IsFree e.caches start e.nwords)
    (unset : e.indices.testBit i = false) :
    (e.reserved start i).removeSeq i = (some 0,
      { e with ram := Function.update (e.reserved start i).ram start start }) := by
  have set : (e.reserved start i).indices.testBit i = true := by
    show (e.indices ||| 1 <<< i).testBit i = true
    rw [testBit_or_shift, decide_eq_true rfl, Bool.or_true]
  have found : (e.reserved start i).caches.find? (·.2.index = (i : Int)) =
      some (start, ⟨i, e.nwords, e.seq⟩) := by
    show (e.caches ++ _).find? _ = _
    rw [List.find?_append, List.find?_eq_none.mpr]
    · simp
    · intro c hc same
      exact good.unused unset c hc (of_decide_eq_true same)
  have indices : (e.reserved start i).indices.ldiff (1 <<< i) = e.indices := by
    apply Nat.eq_of_testBit_eq
    intro n
    show ((e.indices ||| 1 <<< i).ldiff (1 <<< i)).testBit n = _
    rw [testBit_ldiff_shift, testBit_or_shift]
    by_cases same : i = n
    · rw [← same, unset]
      simp
    · simp [same]
  have caches : (e.reserved start i).caches.filter (·.1 ≠ start) = e.caches := by
    show (e.caches ++ _).filter _ = _
    rw [List.filter_append, List.filter_eq_self.mpr]
    · simp
    · intro c hc
      exact decide_eq_true (good.fresh positive free c hc)
  have nonneg : ¬ (i : Int) < 0 := Int.not_lt.mpr (Int.natCast_nonneg i)
  have isSet : ¬ (e.reserved start i).indices.testBit (i : Int).toNat = false := by
    rw [Int.toNat_natCast, set]
    exact Bool.noConfusion
  rw [Engine.removeSeq, if_neg nonneg, if_neg isSet]
  simp only [found, caches, Int.toNat_natCast, indices]
  rfl

/-- What `insertSeq` does where it may be called: a sequence is committed behind the others, or nothing of
    the others changes. -/
lemma Engine.Good.insertSeq (good : e.Good) (ready : e.Ready) :
    e.insertSeq.2.Good ∧ e.insertSeq.2.seqAddrLen = e.seqAddrLen ∧
      (∀ c ∈ e.caches, e.Keeps e.insertSeq.2 c) ∧
      ((∃ i : Nat, e.insertSeq.1 = some i) ∨
        (∃ rval : Int, e.insertSeq.1 = some rval ∧ rval < 0 ∧ e.insertSeq.2.caches = e.caches ∧
          e.insertSeq.2.indices = e.indices)) ∧
      ((∀ i ∈ e.seq, i.IsWithin e.seq.length) →
        (∃ start, IsFree e.caches start e.nwords ∧ ∃ c ∈ e.caches, start + e.nwords ≤ c.1) →
        ∃ i : Nat, e.insertSeq.1 = some i) := by
  have laid := good.laid ready.ordered
  have positive : 0 < e.nwords := by
    rw [e.nwords_eq]
    exact List.length_pos_iff.mpr ready.some_
  have high : ∀ c ∈ e.caches, (c.1 : Int) < (2 ^ e.seqAddrLen : Nat) := by
    intro c hc
    have inside := good.inside c hc
    have words := good.positive c hc
    omega
  have kept : ∀ c ∈ e.caches, e.Keeps e c := fun c hc => ⟨hc, fun _ _ _ => rfl⟩
  rw [Engine.insertSeq]
  split
  · rename_i noneFound
    refine ⟨good, rfl, kept, .inr ⟨-1, rfl, by decide, rfl, rfl⟩, ?_⟩
    intro _ gap
    obtain ⟨start, free, before⟩ := gap
    have found := @searchGap_found e.caches e.nwords 0 0 start (2 ^ e.seqAddrLen : Nat) (2 ^ e.seqAddrLen : Nat) laid
      high positive free (Nat.zero_le _) before (Int.le_refl _)
    rw [noneFound] at found
    exact absurd found (Int.lt_irrefl _)
  · rename_i found
    have notFull : ¬ (e.indices : Int) = -1 := by omega
    rw [if_neg notFull]
    cases @searchGap_spec e.caches e.nwords 0 0 (2 ^ e.seqAddrLen : Nat) laid (fun _ _ => Nat.zero_le _) with
    | inl none_ =>
      rw [none_] at found
      exact absurd rfl found
    | inr gap =>
      obtain ⟨free, -, c₀, hc₀, below⟩ := gap
      generalize (searchGap e.nwords 0 (2 ^ e.seqAddrLen : Nat) 0 e.caches).2 = start at free below
      obtain ⟨i, hi, -, unset⟩ := Engine.freeIndex_spec ready.index
      have inside : start + e.nwords ≤ 2 ^ e.seqAddrLen := by
        have := good.inside c₀ hc₀
        omega
      obtain ⟨goodReserved, keepsReserved⟩ := good.reserved ready.some_ free inside unset
      have committed : e.commit start =
          if (translate e.seq start start e.ram 0 e.seq).2 = 0 then (some (i : Int), e.reserved start i)
          else (((e.reserved start i).removeSeq i).1.map fun _ => (translate e.seq start start e.ram 0 e.seq).2,
            ((e.reserved start i).removeSeq i).2) := by
        rw [Engine.commit, hi]
        simp only [Option.elim_some]
        rw [setCache_fresh _ (good.fresh positive free)]
        rfl
      rw [committed]
      split
      · exact ⟨goodReserved, rfl, keepsReserved, .inl ⟨i, rfl⟩, fun _ _ => ⟨i, rfl⟩⟩
      · rename_i error
        have freed := good.free positive free unset
        have rval := @translate_rval e.seq e.seq start start e.ram 0
        have rval : (translate e.seq start start e.ram 0 e.seq).2 = -3 := rval.resolve_left error
        rw [freed, rval]
        refine ⟨⟨⟨good.apart, good.inside, good.distinct, good.bits⟩, good.positive⟩, rfl, ?_,
          .inr ⟨-3, rfl, by decide, rfl, rfl⟩, ?_⟩
        · intro c hc
          refine ⟨hc, ?_⟩
          intro a low high
          have apart : a ≠ start := by
            cases free c hc with
            | inl before => omega
            | inr after => omega
          show Function.update (e.reserved start i).ram start start a = e.ram a
          rw [Function.update_of_ne apart]
          exact (keepsReserved c hc).words a low high
        · intro within
          rw [translate_ok within] at rval
          cases rval

end engine

namespace Engine

/-- Calls of which an `insertSeq` finds the engine ready. -/
def Orderly (_ : List SeqOp) (e : Engine) : SeqOp → Prop
  | .insertSeq => e.Ready
  | _ => True

instance (e : Engine) : Decidable e.Ready :=
  decidable_of_iff ((e.caches.Pairwise fun a b => a.1 < b.1) ∧ e.seq ≠ [] ∧
    ∃ i < nSubSeq, e.indices.testBit i = false)
    ⟨fun h => ⟨h.1, h.2.1, h.2.2⟩, fun h => ⟨h.ordered, h.some_, h.index⟩⟩

instance (ops : List SeqOp) (e : Engine) : (op : SeqOp) → Decidable (Orderly ops e op)
  | .insertSeq => inferInstanceAs (Decidable e.Ready)
  | .cacheSeq _ => .isTrue trivial
  | .removeSeq _ => .isTrue trivial

/-- The two sequences of a new engine. -/
lemma new_good {seqAddrLen : Nat} (ram : Nat → Int) (room : 2 ≤ seqAddrLen) : (new seqAddrLen ram).Good := by
  have four : 2 ^ 2 ≤ 2 ^ seqAddrLen := Nat.pow_le_pow_right (by decide) room
  have fresh : ∀ c ∈ [(0, (⟨0, 3, [.fixedRateSync 5 1, .fixedRateSync 5 1, .branch 0 none]⟩ : SeqCache))],
      c.1 ≠ 2 ^ seqAddrLen - 1 := by
    intro c hc
    rw [List.mem_singleton.mp hc]
    show 0 ≠ 2 ^ seqAddrLen - 1
    omega
  have caches : (new seqAddrLen ram).caches =
      [(0, ⟨0, 3, [.fixedRateSync 5 1, .fixedRateSync 5 1, .branch 0 none]⟩),
        (2 ^ seqAddrLen - 1, ⟨1, 1, [.branch 0 none]⟩)] := setCache_fresh _ fresh
  refine ⟨⟨?_, ?_, ?_, ?_⟩, ?_⟩
  · rw [caches]
    refine List.pairwise_pair.mpr (.inl ?_)
    show 0 + 3 ≤ 2 ^ seqAddrLen - 1
    omega
  · rw [caches]
    intro c hc
    show c.1 + c.2.size ≤ 2 ^ seqAddrLen
    cases List.mem_pair.mp hc with
    | inl first =>
      rw [first]
      show 0 + 3 ≤ 2 ^ seqAddrLen
      omega
    | inr last =>
      rw [last]
      show 2 ^ seqAddrLen - 1 + 1 ≤ 2 ^ seqAddrLen
      omega
  · rw [caches]
    show ([0, 1] : List Int).Nodup
    decide
  · rw [caches]
    intro i
    constructor
    · rintro ⟨c, hc, rfl⟩
      cases List.mem_pair.mp hc with
      | inl first =>
        rw [first]
        exact ⟨0, rfl, (by decide : (3 : Nat).testBit 0 = true)⟩
      | inr last =>
        rw [last]
        exact ⟨1, rfl, (by decide : (3 : Nat).testBit 1 = true)⟩
    · rintro ⟨n, rfl, set⟩
      have set : (3 : Nat).testBit n = true := set
      have few : n < 2 := by
        by_contra many
        have small : 3 < 2 ^ n := Nat.lt_of_lt_of_le (by decide : 3 < 2 ^ 2)
          (Nat.pow_le_pow_right (by decide) (Nat.le_of_not_lt many))
        rw [Nat.testBit_lt_two_pow small] at set
        cases set
      cases n with
      | zero => exact ⟨_, List.mem_cons_self, rfl⟩
      | succ n =>
        cases n with
        | zero => exact ⟨_, List.mem_cons_of_mem _ List.mem_cons_self, rfl⟩
        | succ n => omega
  · rw [caches]
    intro c hc
    cases List.mem_pair.mp hc with
    | inl first =>
      rw [first]
      exact Nat.zero_lt_succ 2
    | inr last =>
      rw [last]
      exact Nat.zero_lt_one

/-- What holds after any run of such calls. -/
lemma good_run {seqAddrLen : Nat} {ram : Nat → Int} {ops : List SeqOp} {e : Engine}
    (room : 2 ≤ seqAddrLen) (run : Run Engine.step Orderly (.new seqAddrLen ram) ops e) : e.Good := by
  refine Run.invariant (P := fun _ e => e.Good) (new_good ram room) ?_ run
  intro _ e op e' good orderly step
  cases op with
  | cacheSeq val =>
    cases step
    exact ⟨⟨good.apart, good.inside, good.distinct, good.bits⟩, good.positive⟩
  | insertSeq =>
    cases step
    exact (good.insertSeq orderly).1
  | removeSeq index =>
    cases step
    exact (good.removeSeq index).1

end Engine

/-- In every run whose `insertSeq`s find the engine ready: the committed sequences are apart, in the memory,
    and have the indices whose bits are set; an `insertSeq` succeeds when there is a free range before a
    committed sequence and no branch beyond the end; and neither `insertSeq` nor `removeSeq` changes the
    words, range or index of another committed sequence. -/
theorem sequences_apart (seqAddrLen : Nat) (ram : Nat → Int) (room : 2 ≤ seqAddrLen) (ops : List SeqOp)
    (e : Engine) (run : Run Engine.step Engine.Orderly (.new seqAddrLen ram) ops e) :
    e.Sound ∧
    (e.Ready →
      ((∀ i ∈ e.seq, i.IsWithin e.seq.length) →
        (∃ start, IsFree e.caches start e.nwords ∧ ∃ c ∈ e.caches, start + e.nwords ≤ c.1) →
        ∃ i : Nat, e.insertSeq.1 = some i) ∧
      ((∃ i : Nat, e.insertSeq.1 = some i) ∨
        ∃ rval : Int, e.insertSeq.1 = some rval ∧ rval < 0 ∧ e.insertSeq.2.caches = e.caches ∧
          e.insertSeq.2.indices = e.indices) ∧
      ∀ c ∈ e.caches, e.Keeps e.insertSeq.2 c) ∧
    ∀ index, ∀ c ∈ e.caches, c.2.index ≠ index → e.Keeps (e.removeSeq index).2 c := by
  have good := Engine.good_run room run
  refine ⟨good.toSound, ?_, ?_⟩
  · intro ready
    obtain ⟨-, -, kept, outcome, succeeds⟩ := good.insertSeq ready
    exact ⟨succeeds, outcome, kept⟩
  · intro index
    exact (good.removeSeq index).2.2

/-- The second of two sequences is committed over the first one. -/
theorem sequence_overwritten :
    ∃ e, Run Engine.step (fun _ _ _ => True) (.new 11 fun _ => 0)
      [.cacheSeq [1, 1, 3, 0, 0, 0, 0, 0], .insertSeq, .insertSeq] e ∧ ¬ e.Sound := by
  obtain ⟨e, run, test⟩ := Run.of_replay_any Engine.step (fun _ _ _ => True) (.new 11 fun _ => 0)
    [.cacheSeq [1, 1, 3, 0, 0, 0, 0, 0], .insertSeq, .insertSeq]
    (fun e => e.indices.testBit 2 ∧ ∀ c ∈ e.caches, c.2.index ≠ 2) (by decide +kernel)
  obtain ⟨set, none_⟩ := of_decide_eq_true test
  refine ⟨e, run, ?_⟩
  intro sound
  obtain ⟨c, hc, index⟩ := (sound.bits 2).mpr ⟨2, rfl, set⟩
  exact none_ c hc index

/-- A sequence is committed, removed and committed again. -/
theorem sequences_apart_again :
    ∃ e, Run Engine.step Engine.Orderly (.new 11 fun _ => 0)
      [.cacheSeq [1, 1, 3, 0, 0, 0, 0, 0], .insertSeq, .removeSeq 2, .insertSeq] e ∧ e.Sound := by
  obtain ⟨e, run, -⟩ := Run.of_replay_any Engine.step Engine.Orderly (.new 11 fun _ => 0)
    [.cacheSeq [1, 1, 3, 0, 0, 0, 0, 0], .insertSeq, .removeSeq 2, .insertSeq] (fun _ => true)
    (by decide +kernel)
  exact ⟨e, run, (sequences_apart 11 (fun _ => 0) (by decide) _ e run).1⟩

end Lcls2.Xpm
