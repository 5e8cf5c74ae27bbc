import Lcls2.Lib.Run
import Lcls2.Shmem.TransitionCache

/-!
# Safety of the transition cache

The free list and the stack of the cache share out the buffers, the stack holds the begin
transitions that are open, and a buffer is allocated only when no client holds it. All of this rests
on one description of `allocate`: it pops a part of the stack onto the free list and may push the
buffer it chose.

The do-while that rolls back to a begin transition has no test for the empty stack, where the loop
for the end transitions has one. It runs over the bottom of the stack on a `ClearReadout`, and on
nothing else.
-/

namespace Lcls2.Shmem
open Eb (TransitionId)
open Lib

/-- The transitions that are cached, in the order they come. -/
def stages : List TransitionId := [.Configure, .BeginRun, .BeginStep, .Enable]

/-- The transitions other than `L1Accept`. -/
def isTransition : TransitionId → Bool
  | .L1Accept | .other _ => false
  | _ => true

/-- A transition is known by its number. -/
lemma eq_ofNat {id : TransitionId} {n : Nat} (hid : isTransition id = true) (h : id.toNat = n) :
    id = .ofNat n := by
  subst h
  cases id with
  | L1Accept => cases hid
  | other n => cases hid
  | _ => rfl

/-- A stack, its top first, on which the service at height `k` is the `k`th begin transition. -/
def Staged (service : Nat → TransitionId) : List Nat → Prop
  | [] => True
  | ib :: rest =>
    service ib = .ofNat (2 * (rest.length + 1)) ∧ rest.length < 4 ∧ Staged service rest

namespace Staged

variable {service service' : Nat → TransitionId} {cached popped rest free : List Nat} {ib : Nat}

/-- The number of the service on top. -/
lemma top (staged : Staged service (ib :: rest)) :
    (service ib).toNat = 2 * (rest.length + 1) := by
  rw [staged.1, TransitionId.toNat_ofNat]

/-- What is left of a stack after some pops. -/
lemma tail (staged : Staged service (popped ++ rest)) : Staged service rest := by
  induction popped with
  | nil => exact staged
  | cons ib popped ih => exact ih staged.2.2

/-- Only the services of the buffers on the stack matter. -/
lemma congr (staged : Staged service cached) (same : ∀ i ∈ cached, service' i = service i) :
    Staged service' cached := by
  induction cached with
  | nil => trivial
  | cons ib rest ih =>
    obtain ⟨top, low, staged⟩ := staged
    have same' : ∀ i ∈ rest, service' i = service i :=
      fun i hi => same i (List.mem_cons_of_mem ib hi)
    exact ⟨(same ib List.mem_cons_self).trans top, low, ih staged same'⟩

/-- The services of a stack, from its bottom, are the first stages. -/
lemma isPrefix (staged : Staged service cached) : (cached.map service).reverse <+: stages := by
  have stage : ∀ k < 4, stages[k]? = some (TransitionId.ofNat (2 * (k + 1))) := by decide
  suffices h : (cached.map service).reverse = stages.take cached.length by
    rw [h]
    exact List.take_prefix _ _
  induction cached with
  | nil => rfl
  | cons ib rest ih =>
    obtain ⟨top, low, staged⟩ := staged
    rw [List.map_cons, List.reverse_cons, ih staged, List.length_cons, List.take_add_one,
      stage _ low, top]
    rfl

/-- The do-while stops at a begin transition on the stack and keeps what is below. -/
lemma rollBackBegin {id : TransitionId} {k : Nat} (free : List Nat) (staged : Staged service cached)
    (hid : id.toNat = 2 * (k + 1)) (low : k < cached.length) :
    ∃ popped rest, cached = popped ++ rest ∧ rest.length = k ∧
      TransitionCache.rollBackBegin service id cached free = .ok (rest, free ++ popped) := by
  induction cached generalizing free with
  | nil => cases low
  | cons ib rest ih =>
    have top := staged.top
    simp only [TransitionCache.rollBackBegin]
    split
    · have low : k < rest.length := by omega
      obtain ⟨popped, left, split, height, h⟩ := ih (free ++ [ib]) staged.2.2 low
      refine ⟨ib :: popped, left, by rw [split, List.cons_append], height, ?_⟩
      rw [h, List.append_assoc, List.singleton_append]
    · rw [List.length_cons] at low
      exact ⟨[ib], rest, rfl, by omega, rfl⟩

/-- On a `ClearReadout` the do-while pops everything and asks for one more. -/
lemma rollBackBegin_clearReadout (staged : Staged service cached) :
    TransitionCache.rollBackBegin service .ClearReadout cached free = .error .topOfEmpty := by
  induction cached generalizing free with
  | nil => rfl
  | cons ib rest ih =>
    have top := staged.top
    have above : TransitionId.ClearReadout.toNat < (service ib).toNat := by
      show 0 < _
      omega
    rw [TransitionCache.rollBackBegin, if_pos above]
    exact ih staged.2.2

/-- The loop for the end transitions stops at the empty stack at the latest. -/
lemma rollBackEnd (id : TransitionId) (ib : Nat) (rest free : List Nat) :
    ∃ popped left, ib :: rest = popped ++ left ∧
      TransitionCache.rollBackEnd service id (service ib) (ib :: rest) free =
        .ok (left, free ++ popped) := by
  induction rest generalizing ib free with
  | nil =>
    simp only [TransitionCache.rollBackEnd]
    split
    · exact ⟨[ib], [], rfl, rfl⟩
    · exact ⟨[], [ib], rfl, by rw [List.append_nil]⟩
  | cons top rest ih =>
    rw [TransitionCache.rollBackEnd]
    split
    · obtain ⟨popped, left, split, h⟩ := ih top (free ++ [ib])
      refine ⟨ib :: popped, left, by rw [split, List.cons_append], ?_⟩
      rw [h, List.append_assoc, List.singleton_append]
    · exact ⟨[], ib :: top :: rest, rfl, by rw [List.append_nil]⟩

end Staged

namespace TransitionCache

variable {s t : TransitionCache} {id : TransitionId} {ibuffer client : Nat}

/-- What `allocate` does with the buffer it chose: it pops a part of the stack onto the free list,
    and where the transition is the next stage above the rest, it pushes the buffer. -/
def Outcome (s t : TransitionCache) (id : TransitionId) (ibuffer : Nat) : Prop :=
  (t.numberofTrBuffers = s.numberofTrBuffers ∧ t.allocated = s.allocated ∧
    t.service = s.service) ∧
  ∃ popped rest, s.cachedTr = popped ++ rest ∧
    ((t.cachedTr = rest ∧ t.freeTr = s.freeTr ++ popped) ∨
      (t.cachedTr = ibuffer :: rest ∧ t.freeTr = (s.freeTr ++ popped).filter (· ≠ ibuffer) ∧
        id = .ofNat (2 * (rest.length + 1)) ∧ rest.length < 4))

/-- Where nothing moves. -/
lemma Outcome.keep (frame : t.numberofTrBuffers = s.numberofTrBuffers ∧
      t.allocated = s.allocated ∧ t.service = s.service)
    (cached : t.cachedTr = s.cachedTr) (free : t.freeTr = s.freeTr) : Outcome s t id ibuffer :=
  ⟨frame, [], s.cachedTr, rfl, .inl ⟨cached, by rw [free, List.append_nil]⟩⟩

/-- Where the transition is the next stage. -/
lemma Outcome.push (next : id = .ofNat (2 * (s.cachedTr.length + 1)))
    (low : s.cachedTr.length < 4) : Outcome s (s.push ibuffer) id ibuffer :=
  ⟨⟨rfl, rfl, rfl⟩, [], s.cachedTr, rfl, .inr ⟨rfl, by rw [List.append_nil]; rfl, next, low⟩⟩

section cache
variable {top : Nat} {rest : List Nat} (hcached : s.cachedTr = top :: rest)
  (staged : Staged s.service (top :: rest)) (hid : isTransition id = true)
include hcached staged

/-- On a `ClearReadout` an unexpected transition is rolled back beyond the bottom. -/
lemma rollBack_clearReadout :
    s.rollBack .ClearReadout (s.service top) ibuffer = .error .topOfEmpty := by
  have h : ¬ (s.service top).toNat < TransitionId.ClearReadout.toNat := Nat.not_lt_zero _
  have even : TransitionId.ClearReadout.toNat % 2 = 0 := rfl
  rw [rollBack, if_pos even, if_neg h, hcached, staged.rollBackBegin_clearReadout]
  rfl

include hid in
/-- Any other unexpected transition aborts the process or has an outcome. -/
lemma rollBack_spec (hclear : id ≠ .ClearReadout) :
    s.rollBack id (s.service top) ibuffer = .error .aborted ∨
      ∃ t, s.rollBack id (s.service top) ibuffer = .ok t ∧ Outcome s t id ibuffer := by
  have height := staged.2.1
  have htop := staged.top
  rw [rollBack]
  split
  · split
    · exact .inl rfl
    · obtain ⟨k, hk⟩ : ∃ k, id.toNat = 2 * (k + 1) := by
        have pos : id.toNat ≠ 0 := fun h => hclear (eq_ofNat hid h)
        exact ⟨id.toNat / 2 - 1, by omega⟩
      have low : k < rest.length + 1 := by omega
      obtain ⟨popped, left, split, hleft, h⟩ :=
        staged.rollBackBegin s.freeTr hk low
      have next : id = .ofNat (2 * (left.length + 1)) := by
        rw [hleft]
        exact eq_ofNat hid hk
      refine .inr ⟨push { s with cachedTr := left, freeTr := s.freeTr ++ popped } ibuffer, ?_,
        ⟨rfl, rfl, rfl⟩, popped, left, hcached.trans split, .inr ⟨rfl, rfl, next, by omega⟩⟩
      rw [hcached, h]
      rfl
  · obtain ⟨popped, left, split, h⟩ :=
      @Staged.rollBackEnd s.service id top rest s.freeTr
    refine .inr ⟨{ s with cachedTr := left, freeTr := s.freeTr ++ popped }, ?_,
      ⟨rfl, rfl, rfl⟩, popped, left, hcached.trans split, .inl ⟨rfl, rfl⟩⟩
    rw [hcached, h]
    rfl

omit hcached in
/-- `Disable` right above an `Enable` is its end transition; lower down it frees nothing. -/
lemma freeEnable_spec {n : Int} (hne : id.toNat ≠ (s.service top).toNat + 1)
    (hid : id = .Disable) :
    freeEnable s.service s.allocated (s.service top) (top :: rest) s.freeTr n =
      .ok (top :: rest, s.freeTr, n) := by
  have low : ¬ TransitionId.BeginStep.toNat < (s.service top).toNat := by
    have height := staged.2.1
    have htop := staged.top
    subst hid
    have hne : 9 ≠ (s.service top).toNat + 1 := hne
    show ¬ 6 < _
    omega
  rw [freeEnable, if_neg low]

end cache

/-- A `ClearReadout` that finds something cached runs over the bottom of the stack. -/
lemma cache_clearReadout (staged : Staged s.service s.cachedTr) (hne : s.cachedTr ≠ []) :
    s.cache .ClearReadout ibuffer = .error .topOfEmpty := by
  cases hcached : s.cachedTr with
  | nil => exact absurd hcached hne
  | cons top rest =>
    rw [hcached] at staged
    rw [cache, hcached]
    exact rollBack_clearReadout hcached staged

/-- On a staged stack every other transition aborts the process or has an outcome. -/
lemma cache_spec (ibuffer : Nat) (staged : Staged s.service s.cachedTr) (hid : isTransition id = true)
    (hclear : id = .ClearReadout → s.cachedTr = []) :
    s.cache id ibuffer = .error .aborted ∨
      ∃ t, s.cache id ibuffer = .ok t ∧ Outcome s t id ibuffer := by
  rw [cache]
  cases hcached : s.cachedTr with
  | nil =>
    refine .inr ⟨_, rfl, ?_⟩
    split
    · rename_i configure
      have next : id = .ofNat (2 * (s.cachedTr.length + 1)) := by
        rw [hcached]
        exact configure
      exact .push next (by rw [hcached]; exact Nat.zero_lt_succ 3)
    · exact .keep ⟨rfl, rfl, rfl⟩ rfl rfl
  | cons top rest =>
    rw [hcached] at staged
    have height := staged.2.1
    have htop := staged.top
    have hlen : s.cachedTr.length = rest.length + 1 := by rw [hcached, List.length_cons]
    have hclear : id ≠ .ClearReadout := by
      intro h
      have := hclear h
      rw [hcached] at this
      cases this
    simp only
    split
    · refine .inr ⟨_, rfl, ?_⟩
      split
      · exact .keep ⟨rfl, rfl, rfl⟩ hcached.symm rfl
      · exact .keep ⟨rfl, rfl, rfl⟩ rfl rfl
    · rename_i hslow
      split
      · -- above an `Enable` this would be the number of a `SlowUpdate`
        rename_i hnext
        have low : rest.length ≠ 3 := by
          intro h
          have slow : id.toNat = 10 := by omega
          exact hslow (eq_ofNat hid slow)
        have next : id = .ofNat (2 * (s.cachedTr.length + 1)) := eq_ofNat hid (by omega)
        exact .inr ⟨_, rfl, .push next (by omega)⟩
      · split
        · exact .inr ⟨_, rfl, ⟨rfl, rfl, rfl⟩, [top], rest, hcached, .inl ⟨rfl, rfl⟩⟩
        · rename_i hend
          split
          · rename_i hdisable
            rw [freeEnable_spec staged hend hdisable]
            exact .inr ⟨_, rfl, .keep ⟨rfl, rfl, rfl⟩ hcached.symm rfl⟩
          · exact rollBack_spec hcached staged hid hclear

/-- The bits of a client mask after a client is added. -/
lemma getLsbD_add (mask : BitVec 32) {c j : Nat} (hc : c < 32) :
    (mask ||| 1#32 <<< c).getLsbD j = (mask.getLsbD j || decide (j = c)) := by
  rw [BitVec.getLsbD_or, BitVec.getLsbD_shiftLeft, BitVec.getLsbD_one]
  by_cases h : j = c
  · subst h
    simp [hc]
  · have : ¬ (j < 32 ∧ c ≤ j ∧ j - c = 0) := by omega
    simp [h]
    omega

/-- The bits of a client mask after a client is removed. -/
lemma getLsbD_remove (mask : BitVec 32) {c j : Nat} (hj : j < 32) :
    (mask &&& ~~~(1#32 <<< c)).getLsbD j = (mask.getLsbD j && decide (j ≠ c)) := by
  rw [BitVec.getLsbD_and, BitVec.getLsbD_not, BitVec.getLsbD_shiftLeft, BitVec.getLsbD_one]
  by_cases h : j = c
  · subst h
    simp [hj]
  · simp [h, hj]
    omega

/-- `deallocate` in terms of the masks of the buffers. -/
lemma deallocate_frame (s : TransitionCache) (ibuffer client : Nat) :
    (s.deallocate ibuffer client).1.numberofTrBuffers = s.numberofTrBuffers ∧
      (s.deallocate ibuffer client).1.cachedTr = s.cachedTr ∧
      (s.deallocate ibuffer client).1.freeTr = s.freeTr ∧
      (s.deallocate ibuffer client).1.service = s.service ∧
      (s.deallocate ibuffer client).1.allocated =
        Function.update s.allocated ibuffer (s.allocated ibuffer &&& ~~~(1#32 <<< client)) := by
  simp only [deallocate]
  split
  · exact ⟨rfl, rfl, rfl, rfl, rfl⟩
  · split
    · exact ⟨rfl, rfl, rfl, rfl, rfl⟩
    · exact ⟨rfl, rfl, rfl, rfl, rfl⟩

end TransitionCache

namespace TransitionServer

variable {nbuff : Nat} {s t : TransitionServer} {id : TransitionId}

/-- What the server keeps: the free list and the stack share out the buffers, the stack is staged,
    and the masks say which clients hold a buffer. -/
structure Inv (nbuff : Nat) (s : TransitionServer) : Prop where
  size : s.cache.numberofTrBuffers = nbuff
  free_nodup : s.cache.freeTr.Nodup
  cached_nodup : s.cache.cachedTr.Nodup
  free_iff : ∀ i, i ∈ s.cache.freeTr ↔ i < s.cache.numberofTrBuffers ∧ i ∉ s.cache.cachedTr
  cached_lt : ∀ i ∈ s.cache.cachedTr, i < s.cache.numberofTrBuffers
  staged : Staged s.serviceOf s.cache.cachedTr
  masks : ∀ i < s.cache.numberofTrBuffers, ∀ c < 32, (s.cache.allocated i).getLsbD c = s.held i c
  clients : ∀ i c, s.held i c = true → c < 32

/-- The steps the threads can take: `events` handles one transition at a time, and buffers and
    clients are in range. -/
def Allowed (_ : List CacheOp) (s : TransitionServer) : CacheOp → Prop
  | .allocate id => isTransition id = true ∧ s.copying = none
  | .copy => True
  | .queue ibuffer client | .deallocate ibuffer client =>
    ibuffer < s.cache.numberofTrBuffers ∧ client < 32
  | .retire client => client < 32

/-- No client holds a buffer when its mask is clear. -/
lemma Inv.unheld (inv : Inv nbuff s) {i : Nat} (hi : i < s.cache.numberofTrBuffers) :
    s.cache.allocated i = 0#32 ↔ ∀ c, s.held i c = false := by
  constructor
  · intro h c
    cases held : s.held i c with
    | false => rfl
    | true =>
      have bit := inv.masks i hi c (inv.clients i c held)
      rw [h, held, BitVec.getLsbD_zero] at bit
      cases bit
  · intro h
    apply BitVec.eq_of_getLsbD_eq
    intro c hc
    rw [inv.masks i hi c hc, h c, BitVec.getLsbD_zero]

/-- A buffer is available when it is free and no client holds it. -/
lemma Inv.available_isSome (inv : Inv nbuff s) :
    s.cache.available.isSome = true ↔ ∃ i ∈ s.cache.freeTr, ∀ c, s.held i c = false := by
  rw [TransitionCache.available, List.find?_isSome]
  constructor
  · rintro ⟨i, hi, h⟩
    exact ⟨i, hi, (inv.unheld ((inv.free_iff i).mp hi).1).mp (of_decide_eq_true h)⟩
  · rintro ⟨i, hi, h⟩
    exact ⟨i, hi, decide_eq_true ((inv.unheld ((inv.free_iff i).mp hi).1).mpr h)⟩

/-- The buffer that is chosen is free, so not cached, and no client holds it. -/
lemma Inv.chosen (inv : Inv nbuff s) {i : Nat} (h : s.cache.available = some i) :
    i ∈ s.cache.freeTr ∧ i < s.cache.numberofTrBuffers ∧ i ∉ s.cache.cachedTr ∧
      ∀ c, s.held i c = false := by
  have hi := List.mem_of_find?_eq_some h
  have clear : decide (s.cache.allocated i = 0#32) = true :=
    List.find?_some (p := fun i => decide (s.cache.allocated i = 0#32)) h
  obtain ⟨lt, fresh⟩ := (inv.free_iff i).mp hi
  exact ⟨hi, lt, fresh, (inv.unheld lt).mp (of_decide_eq_true clear)⟩

/-- Without a copy under way the services are those in the buffers. -/
lemma serviceOf_none (h : s.copying = none) : s.serviceOf = s.cache.service := by
  funext i
  simp only [serviceOf, h]

variable (nbuff) in
lemma inv_start : Inv nbuff (start nbuff) where
  size := rfl
  free_nodup := List.nodup_range
  cached_nodup := List.nodup_nil
  free_iff i := by simp [start, TransitionCache.new]
  cached_lt := nofun
  staged := trivial
  masks _ _ _ _ := BitVec.getLsbD_zero
  clients := nofun

/-- The free list and the stack still share out the buffers after an outcome of `allocate`. -/
lemma Inv.outcome (inv : Inv nbuff s) {cache : TransitionCache} {i : Nat}
    (h : s.cache.available = some i) (out : s.cache.Outcome cache id i)
    (hcopy : s.copying = none) :
    Inv nbuff { s with cache := cache, copying := some (i, id) } := by
  obtain ⟨⟨hn, halloc, hservice⟩, popped, rest, split, out⟩ := out
  obtain ⟨hfree, lt, fresh, -⟩ := inv.chosen h
  have staged := inv.staged
  have nodup := inv.cached_nodup
  rw [split] at fresh nodup staged
  rw [serviceOf_none hcopy] at staged
  have hrest : ∀ j ∈ rest, j ≠ i := fun j hj e =>
    fresh (List.mem_append_right popped (e ▸ hj))
  have hpopped : ∀ j ∈ popped, j < s.cache.numberofTrBuffers := fun j hj =>
    inv.cached_lt j (by rw [split]; exact List.mem_append_left rest hj)
  have hleft : ∀ j ∈ rest, j < s.cache.numberofTrBuffers := fun j hj =>
    inv.cached_lt j (by rw [split]; exact List.mem_append_right popped hj)
  obtain ⟨-, rest_nodup, apart⟩ := List.nodup_append.mp nodup
  -- What is rolled back goes to the free list, and it was not there.
  have grown : (s.cache.freeTr ++ popped).Nodup := by
    refine List.nodup_append.mpr ⟨inv.free_nodup, (List.nodup_append.mp nodup).1, ?_⟩
    intro a ha b hb e
    subst e
    exact ((inv.free_iff a).mp ha).2 (by rw [split]; exact List.mem_append_left rest hb)
  have grown_iff : ∀ j, j ∈ s.cache.freeTr ++ popped ↔
      j < s.cache.numberofTrBuffers ∧ j ∉ rest := by
    intro j
    rw [List.mem_append, inv.free_iff, split, List.mem_append]
    constructor
    · rintro (⟨lt, h⟩ | h)
      · exact ⟨lt, fun hj => h (.inr hj)⟩
      · exact ⟨hpopped j h, fun hj => apart j h j hj rfl⟩
    · rintro ⟨lt, h⟩
      by_cases hp : j ∈ popped
      · exact .inr hp
      · exact .inl ⟨lt, fun hj => hj.elim hp h⟩
  have same : ∀ j ∈ rest,
      serviceOf { s with cache := cache, copying := some (i, id) } j = s.cache.service j := by
    intro j hj
    simp only [serviceOf, if_neg (hrest j hj), hservice]
  have masks : ∀ j < cache.numberofTrBuffers, ∀ c < 32,
      (cache.allocated j).getLsbD c = s.held j c := by
    rw [hn, halloc]
    exact inv.masks
  -- The new one is not cached, or it is put on top.
  obtain ⟨hcached, hfreeTr⟩ | ⟨hcached, hfreeTr, next, low⟩ := out
  · constructor
    · exact hn.trans inv.size
    · show cache.freeTr.Nodup
      rw [hfreeTr]
      exact grown
    · show cache.cachedTr.Nodup
      rw [hcached]
      exact rest_nodup
    · show ∀ j, j ∈ cache.freeTr ↔ j < cache.numberofTrBuffers ∧ j ∉ cache.cachedTr
      rw [hfreeTr, hn, hcached]
      exact grown_iff
    · show ∀ j ∈ cache.cachedTr, j < cache.numberofTrBuffers
      rw [hcached, hn]
      exact hleft
    · show Staged _ cache.cachedTr
      rw [hcached]
      exact staged.tail.congr same
    · exact masks
    · exact inv.clients
  · constructor
    · exact hn.trans inv.size
    · show cache.freeTr.Nodup
      rw [hfreeTr]
      exact grown.filter _
    · show cache.cachedTr.Nodup
      rw [hcached]
      exact List.nodup_cons.mpr ⟨fun hi => hrest i hi rfl, rest_nodup⟩
    · show ∀ j, j ∈ cache.freeTr ↔ j < cache.numberofTrBuffers ∧ j ∉ cache.cachedTr
      intro j
      rw [hfreeTr, hn, hcached, List.mem_filter, grown_iff, List.mem_cons, decide_eq_true_iff]
      tauto
    · show ∀ j ∈ cache.cachedTr, j < cache.numberofTrBuffers
      intro j hj
      rw [hcached] at hj
      rw [hn]
      cases List.mem_cons.mp hj with
      | inl e =>
        subst e
        exact lt
      | inr hj => exact hleft j hj
    · show Staged _ cache.cachedTr
      rw [hcached]
      refine ⟨?_, low, staged.tail.congr same⟩
      simp only [serviceOf, if_true]
      exact next
    · exact masks
    · exact inv.clients

/-- `allocate` marks clients only. -/
lemma Inv.markNotReady {i : Nat} (inv : Inv nbuff s) :
    Inv nbuff { s with cache := s.cache.markNotReady id i } := by
  rw [TransitionCache.markNotReady]
  split
  · exact ⟨inv.size, inv.free_nodup, inv.cached_nodup, inv.free_iff, inv.cached_lt, inv.staged, inv.masks,
      inv.clients⟩
  · exact inv

/-- The calls of `allocate` that take the top of an empty stack. -/
lemma Inv.topOfEmpty_iff (inv : Inv nbuff s) (hid : isTransition id = true) (hcopy : s.copying = none) :
    s.cache.allocate id = .error .topOfEmpty ↔
      id = .ClearReadout ∧ s.cache.cachedTr ≠ [] ∧ s.cache.available.isSome = true := by
  have staged := inv.staged
  rw [serviceOf_none hcopy] at staged
  rw [TransitionCache.allocate]
  cases h : s.cache.available with
  | none => simp
  | some i =>
    simp only
    by_cases hclear : id = .ClearReadout ∧ s.cache.cachedTr ≠ []
    · obtain ⟨rfl, hne⟩ := hclear
      rw [TransitionCache.cache_clearReadout staged hne]
      exact ⟨fun _ => ⟨rfl, hne, rfl⟩, fun _ => rfl⟩
    · have hclear' : id = .ClearReadout → s.cache.cachedTr = [] :=
        fun e => Classical.byContradiction fun hne => hclear ⟨e, hne⟩
      constructor
      · intro fault
        obtain e | ⟨t, e, -⟩ := TransitionCache.cache_spec i staged hid hclear'
        · rw [e] at fault
          cases fault
        · rw [e] at fault
          cases fault
      · rintro ⟨e, hne, -⟩
        exact absurd ⟨e, hne⟩ hclear

/-- `allocate` returns without a buffer and without a change, or with the buffer it chose. -/
lemma Inv.allocate (inv : Inv nbuff s) (hid : isTransition id = true) (hcopy : s.copying = none)
    {cache : TransitionCache} {result : Option Nat} (h : s.cache.allocate id = .ok (cache, result)) :
    result = s.cache.available ∧
      Inv nbuff { s with cache := cache, copying := result.map (·, id) } := by
  have nofault : s.cache.allocate id ≠ .error .topOfEmpty := by
    rw [h]
    exact nofun
  have staged := inv.staged
  rw [serviceOf_none hcopy] at staged
  have hclear := mt (inv.topOfEmpty_iff hid hcopy).mpr nofault
  rw [TransitionCache.allocate] at h
  cases havail : s.cache.available with
  | none =>
    rw [havail] at h
    cases h
    refine ⟨rfl, ?_⟩
    show Inv nbuff { s with copying := none }
    rw [← hcopy]
    exact inv
  | some i =>
    rw [havail] at h hclear
    have hclear : id = .ClearReadout → s.cache.cachedTr = [] :=
      fun e => Classical.byContradiction fun hne => hclear ⟨e, hne, rfl⟩
    obtain ⟨u, e, h⟩ := bind_ok h
    cases h
    obtain abort | ⟨v, e', out⟩ := TransitionCache.cache_spec i staged hid hclear
    · rw [abort] at e
      cases e
    · rw [e'] at e
      cases e
      exact ⟨rfl, (inv.outcome havail out hcopy).markNotReady⟩

/-- Copying the transition at hand leaves every service as it was announced. -/
lemma Inv.copy (inv : Inv nbuff s) {i : Nat} (hcopy : s.copying = some (i, id)) :
    Inv nbuff { s with
      cache := { s.cache with service := Function.update s.cache.service i id }
      copying := none } := by
  have same : ∀ j ∈ s.cache.cachedTr, Function.update s.cache.service i id j = s.serviceOf j := by
    intro j _
    simp only [serviceOf, hcopy, Function.update_apply]
  exact ⟨inv.size, inv.free_nodup, inv.cached_nodup, inv.free_iff, inv.cached_lt, inv.staged.congr same,
    inv.masks, inv.clients⟩

/-- Queueing a buffer for a client adds the client to those that hold it. -/
lemma Inv.queue (inv : Inv nbuff s) {ibuffer client : Nat} (hc : client < 32) :
    Inv nbuff { s with
      cache := (s.cache.queue ibuffer client).1
      held := fun i c =>
        s.held i c || (s.cache.queue ibuffer client).2 && i = ibuffer && c = client } := by
  rw [TransitionCache.queue]
  split
  · refine ⟨inv.size, inv.free_nodup, inv.cached_nodup, inv.free_iff, inv.cached_lt, inv.staged, ?_, ?_⟩
    · intro i hi c hc'
      simp only [Function.update_apply]
      split
      · rename_i e
        subst e
        rw [TransitionCache.getLsbD_add _ hc, inv.masks i hi c hc']
        simp
      · rename_i e
        rw [inv.masks i hi c hc']
        simp [e]
    · intro i c held
      cases h : s.held i c with
      | true => exact inv.clients i c h
      | false =>
        simp only [h, Bool.false_or, Bool.true_and, Bool.and_eq_true, decide_eq_true_eq] at held
        rw [held.2]
        exact hc
  · simp only [Bool.false_and, Bool.or_false]
    exact inv

/-- A client that returns a buffer does not hold it any more. -/
lemma Inv.deallocate (inv : Inv nbuff s) (ibuffer client : Nat) :
    Inv nbuff { s with
      cache := (s.cache.deallocate ibuffer client).1
      held := fun i c => s.held i c && !(i = ibuffer && c = client) } := by
  obtain ⟨hn, hcached, hfree, hservice, halloc⟩ := s.cache.deallocate_frame ibuffer client
  constructor
  · exact hn.trans inv.size
  · show (TransitionCache.freeTr _).Nodup
    rw [hfree]
    exact inv.free_nodup
  · show (TransitionCache.cachedTr _).Nodup
    rw [hcached]
    exact inv.cached_nodup
  · simp only [hn, hcached, hfree]
    exact inv.free_iff
  · simp only [hn, hcached]
    exact inv.cached_lt
  · simp only [hcached]
    refine inv.staged.congr fun i _ => ?_
    simp only [serviceOf, hservice]
  · simp only [hn, halloc, Function.update_apply]
    intro i hi c hc
    split
    · rename_i e
      subst e
      rw [TransitionCache.getLsbD_remove _ hc, inv.masks i hi c hc]
      simp
    · rename_i e
      rw [inv.masks i hi c hc]
      simp [e]
  · intro i c held
    exact inv.clients i c (Bool.and_eq_true_iff.mp held).1

/-- A retired client holds nothing. -/
lemma Inv.retire (inv : Inv nbuff s) (client : Nat) :
    Inv nbuff { s with
      cache := s.cache.retire client
      held := fun i c => s.held i c && c ≠ client } := by
  refine ⟨inv.size, inv.free_nodup, inv.cached_nodup, inv.free_iff, inv.cached_lt, inv.staged, ?_, ?_⟩
  · intro i hi c hc
    have hi : i < s.cache.numberofTrBuffers := hi
    simp only [TransitionCache.retire, if_pos hi]
    rw [TransitionCache.getLsbD_remove _ hc, inv.masks i hi c hc]
  · intro i c held
    exact inv.clients i c (Bool.and_eq_true_iff.mp held).1

/-- Every step keeps the invariant. -/
lemma Inv.step {as : List CacheOp} (inv : Inv nbuff s) {op : CacheOp} (ok : Allowed as s op)
    (h : s.step op = .ok t) : Inv nbuff t := by
  cases op with
  | allocate id =>
    obtain ⟨⟨cache, result⟩, e, h⟩ := bind_ok h
    cases h
    exact (inv.allocate ok.1 ok.2 e).2
  | copy =>
    rw [TransitionServer.step] at h
    cases hcopy : s.copying with
    | none =>
      rw [hcopy] at h
      cases h
      exact inv
    | some p =>
      rw [hcopy] at h
      cases h
      exact inv.copy hcopy
  | queue ibuffer client =>
    cases h
    exact inv.queue ok.2
  | deallocate ibuffer client =>
    cases h
    exact inv.deallocate ibuffer client
  | retire client =>
    cases h
    exact inv.retire client

/-- The invariant holds in every reachable state. -/
lemma inv_of_run {as : List CacheOp} (run : Run step Allowed (start nbuff) as s) :
    Inv nbuff s := by
  have next : ∀ as s op t, Inv nbuff s → Allowed as s op → s.step op = .ok t → Inv nbuff t :=
    fun _ _ _ _ inv ok h => inv.step ok h
  exact run.invariant (P := fun _ s => Inv nbuff s) (inv_start nbuff) next

/-- In every reachable state the free list and the stack share out the buffers and the cached
    transitions are the first stages; the next `allocate` returns no buffer that is cached or that a
    client holds, and it takes the top of an empty stack exactly on a `ClearReadout` that finds a
    cached transition and an available buffer. -/
theorem cache_safe {as : List CacheOp}
    (run : Run step Allowed (start nbuff) as s) :
    s.cache.freeTr.Nodup ∧
      (∀ i, i ∈ s.cache.freeTr ↔ i < nbuff ∧ i ∉ s.cache.cachedTr) ∧
      (s.cache.cachedTr.map s.serviceOf).reverse <+: stages ∧
      ∀ id, isTransition id = true → s.copying = none →
        (∀ cache i, s.cache.allocate id = .ok (cache, some i) →
          i ∉ s.cache.cachedTr ∧ ∀ c, s.held i c = false) ∧
        (s.cache.allocate id ≠ .error .topOfEmpty ↔
          ¬ (id = .ClearReadout ∧ s.cache.cachedTr ≠ [] ∧
            ∃ i ∈ s.cache.freeTr, ∀ c, s.held i c = false)) := by
  have inv := inv_of_run run
  refine ⟨inv.free_nodup, ?_, inv.staged.isPrefix, ?_⟩
  · rw [← inv.size]
    exact inv.free_iff
  · intro id hid hcopy
    constructor
    · intro cache i h
      obtain ⟨-, -, fresh, unheld⟩ := inv.chosen (inv.allocate hid hcopy h).1.symm
      exact ⟨fresh, unheld⟩
    · rw [ne_eq, inv.topOfEmpty_iff hid hcopy, inv.available_isSome]

instance (as : List CacheOp) (s : TransitionServer) : (op : CacheOp) → Decidable (Allowed as s op)
  | .allocate id => inferInstanceAs (Decidable (isTransition id = true ∧ s.copying = none))
  | .copy => .isTrue trivial
  | .queue ibuffer client | .deallocate ibuffer client =>
    inferInstanceAs (Decidable (ibuffer < s.cache.numberofTrBuffers ∧ client < 32))
  | .retire client => inferInstanceAs (Decidable (client < 32))

/-- A client that still holds the `Configure` does not keep the next run from being cached. -/
theorem cache_safe_begun :
    ∃ s, Run step Allowed (start 18)
        [.allocate .Configure, .copy, .queue 0 3, .allocate .BeginRun, .copy] s ∧
      s.cache.cachedTr = [1, 0] ∧ s.held 0 3 = true ∧
      (s.cache.cachedTr.map s.serviceOf).reverse <+: stages := by
  obtain ⟨s, run, h⟩ := Run.of_replay_any step Allowed (start 18)
    [.allocate .Configure, .copy, .queue 0 3, .allocate .BeginRun, .copy]
    (fun s => s.cache.cachedTr = [1, 0] ∧ s.held 0 3 = true) (by decide +kernel)
  obtain ⟨cached, held⟩ := of_decide_eq_true h
  exact ⟨s, run, cached, held, (cache_safe run).2.2.1⟩

/-- A `ClearReadout` after the `Configure`, as it comes before a `BeginRun`. -/
theorem clearReadout_unsafe :
    ∃ s, Run step Allowed (start 18) [.allocate .Configure, .copy] s ∧
      isTransition .ClearReadout = true ∧ s.copying = none ∧
      s.cache.allocate .ClearReadout = .error .topOfEmpty := by
  obtain ⟨s, run, h⟩ := Run.of_replay_any step Allowed (start 18) [.allocate .Configure, .copy]
    (fun s => s.copying = none ∧ s.cache.allocate .ClearReadout = .error .topOfEmpty)
    (by decide +kernel)
  obtain ⟨hcopy, h⟩ := of_decide_eq_true h
  exact ⟨s, run, rfl, hcopy, h⟩

end TransitionServer

end Lcls2.Shmem
