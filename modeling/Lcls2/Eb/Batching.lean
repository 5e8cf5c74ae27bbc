import Lcls2.Eb.TebContributor

/-!
# Contributor batches are read back as they were made

The end-of-list bit is set by the post of a batch, by the bypass and by the forwarding of non-events.
Only the last reaches a datagram of a batch that stays open: a `SlowUpdate` that is forwarded and
that another datagram follows in its batch. `Safe` excludes just that.

* `Open` is what holds of the open batch, `Inv` of the whole contributor between two calls.
* `Inv.write`, `Inv.post`, `Inv.start` and `Inv.append` are the moves that `process` is made of.
* `batches_lossless` is the result for runs.
-/

namespace Lcls2.Eb
open Lcls2.Lib

namespace TebCtrbParams

/-- The non-event is forwarded with the end-of-list bit while its batch stays open. -/
def taints (p : TebCtrbParams) (d : EbDgram) : Prop :=
  p.common d = true ∧ p.provides d = true ∧ d.service = .SlowUpdate

/-- The datagram in `slot` is not put behind a forwarded `SlowUpdate`: there is one TEB, or the slot
    is the first of the region, or the datagram bypasses the TEB or belongs to another epoch. -/
def Safe (p : TebCtrbParams) (prev : Option EbDgram) (slot : Nat) (d : EbDgram) : Prop :=
  p.links < 2 ∨ slot = 0 ∨ p.common d = false ∨
    ∀ e, prev = some e → p.taints e → p.batMan.expired d.pulseId e.pulseId = true

end TebCtrbParams

namespace TebContributor

variable {net : Transport} {p : TebCtrbParams} {s t : TebContributor} {b : Batch}
  {ins : List EbDgram} {front slot : Nat} {d : EbDgram}

@[simp] lemma setEOL_batch : (s.setEOL slot).batch = s.batch := rfl
@[simp] lemma setEOL_pending : (s.setEOL slot).pending = s.pending := rfl
@[simp] lemma setEOL_delivered : (s.setEOL slot).delivered = s.delivered := rfl
@[simp] lemma setEOL_posts : (s.setEOL slot).posts = s.posts := rfl

lemma setEOL_mem_of_ne {i : Nat} (ne : i ≠ slot) : (s.setEOL slot).mem i = s.mem i :=
  Function.update_of_ne ne _ _

lemma setEOL_mem : (s.setEOL slot).mem slot = (s.mem slot).setEOL :=
  Function.update_self slot _ _

/-- The bit is the only thing that setting it changes. -/
lemma setEOL_copy (i : Nat) : ((s.setEOL slot).mem i).copy = (s.mem i).copy := by
  cases decEq i slot with
  | isTrue e =>
    subst e
    rw [setEOL_mem, EbDgram.setEOL_copy]
  | isFalse ne => rw [setEOL_mem_of_ne ne]

lemma setEOL_marked : ((s.setEOL slot).mem slot).isEOL = true := by
  rw [setEOL_mem]
  exact EbDgram.setEOL_isEOL (s.mem slot)

/-- What the open batch is: its datagrams lie from its start to its end, which is right before the
    front; they are of one epoch, only a forwarded `SlowUpdate` at the end has the bit, and only the end may
    flush. -/
structure Open (p : TebCtrbParams) (mem : Nat → EbDgram) (front : Nat) (b : Batch) : Prop where
  laid : Laid EbDgram.isEOL EbDgram.copy mem b.start b.appended
  len : b.end_ + 1 = b.start + b.appended.length
  fits : b.end_ < p.numBuffers
  front : (b.end_ + 1) % p.numBuffers = front
  epoch : p.batMan.epoch (mem b.end_).pulseId = p.batMan.epoch (mem b.start).pulseId
  taint : (mem b.end_).isEOL = true → 2 ≤ p.links ∧ p.taints (mem b.end_)
  keeps : ∀ e ∈ b.appended.dropLast, flushes e = false

/-- What a reader of `_pending` needs of a batch. -/
structure Queued (p : TebCtrbParams) (mem : Nat → EbDgram) (c : Pushed) : Prop where
  laid : Laid EbDgram.isEOL EbDgram.copy mem c.start c.appended
  fits : c.start + c.appended.length ≤ p.numBuffers
  marked : (mem (c.start + c.appended.length - 1)).isEOL = true

/-- What is kept of a posted batch. -/
def PostOk (closed : List Pushed) : Post → Prop
  | .batch _ start entries c =>
    start = c.start ∧ c ∈ closed ∧ walk EbDgram.isEOL EbDgram.copy entries = some c.appended
  | .transition _ _ _ _ => True

/-- The datagrams of the open batch. -/
def opened (s : TebContributor) : List EbDgram := s.batch.elim [] (·.appended)

/-- What holds between two calls of `process`; the next datagram goes into the slot `front`. -/
structure Inv (p : TebCtrbParams) (ins : List EbDgram) (front : Nat) (s : TebContributor) :
    Prop where
  batch : ∀ b, s.batch = some b → Open p s.mem front b
  apart : ∀ b, s.batch = some b → ∀ c ∈ s.pending,
    c.start + c.appended.length ≤ b.start ∨ b.end_ < c.start
  queued : ∀ c ∈ s.pending, Queued p s.mem c
  posts : ∀ x ∈ s.posts, PostOk s.closed x
  parts : s.closed.flatMap (·.appended) ++ s.opened = ins

/-- The slot is of no batch that is open or pending. -/
def Free (s : TebContributor) (slot : Nat) : Prop :=
  (∀ c ∈ s.pending, ¬ c.has slot) ∧
  ∀ b, s.batch = some b → slot < b.start ∨ b.end_ < slot

/-- A queued batch does not see a change elsewhere. -/
lemma Queued.update {c : Pushed} {mem mem' : Nat → EbDgram} (q : Queued p mem c)
    (same : ∀ i, c.has i → mem' i = mem i) : Queued p mem' c where
  laid := by
    apply q.laid.update
    · intro i lo hi
      rw [same i ⟨lo, hi⟩]
    · intro i lo hi
      rw [same i ⟨lo, by omega⟩]
  fits := q.fits
  marked := by
    have pos := q.laid.pos
    rw [same _ ⟨by omega, by omega⟩]
    exact q.marked

/-- An open batch does not see a change elsewhere. -/
lemma Open.update {mem mem' : Nat → EbDgram} (o : Open p mem front b)
    (same : ∀ i, b.start ≤ i → i ≤ b.end_ → mem' i = mem i) : Open p mem' front b := by
  have pos := o.laid.pos
  have len := o.len
  have hs := same b.start (by omega) (by omega)
  have he := same b.end_ (by omega) (by omega)
  refine ⟨?_, o.len, o.fits, o.front, ?_, ?_, o.keeps⟩
  · apply o.laid.update
    · intro i lo hi
      rw [same i lo (by omega)]
    · intro i lo hi
      rw [same i lo (by omega)]
  · rw [hs, he]
    exact o.epoch
  · rw [he]
    exact o.taint

/-- A write to a free slot is seen by no batch. -/
lemma Inv.write (inv : Inv p ins front s) (free : s.Free slot) (x : EbDgram) :
    Inv p ins front { s with mem := Function.update s.mem slot x } where
  batch b hb := by
    apply (inv.batch b hb).update
    intro i lo hi
    apply Function.update_of_ne
    rcases free.2 b hb with h | h <;> omega
  apart := inv.apart
  queued c hc := by
    apply (inv.queued c hc).update
    intro i hi
    apply Function.update_of_ne
    intro e
    subst e
    exact free.1 c hc hi
  posts := inv.posts
  parts := inv.parts

/-- What a push leaves. -/
lemma push_ok {c : Pushed} (h : s.push p c = .ok t) :
    t = { s with pending := s.pending ++ [c] } := by
  simp only [push] at h
  split at h
  · exact (Except.ok.inj h).symm
  · cases h

/-- What sending a batch leaves. -/
lemma send_ok (h : s.send net p b = .ok t) :
    ∃ new, t = { s with posts := s.posts ++ new } ∧ ∀ x ∈ new, ∃ dst, x =
      .batch dst b.start (slots s.mem b.start (b.end_ - b.start + 1)) ⟨b.start, b.appended⟩ := by
  simp only [send] at h
  split at h
  · cases h
    exact ⟨[], by simp, by simp⟩
  · split at h
    · cases h
    · split at h
      · cases h
      · split at h
        · cases h
        · refine ⟨_, (Except.ok.inj h).symm, ?_⟩
          intro x hx
          exact ⟨_, List.mem_singleton.mp hx⟩

/-- What the post of a batch leaves: the bit at its end, the batch on the queue, and what is sent. -/
lemma postBatch_ok (h : s.postBatch net p b = .ok t) :
    ∃ new n,
      t = { s.setEOL b.end_ with
        pending := s.pending ++ [⟨b.start, b.appended⟩], posts := s.posts ++ new, batchCount := n } ∧
      ∀ x ∈ new, ∃ dst, x = .batch dst b.start
        (slots (s.setEOL b.end_).mem b.start (b.end_ - b.start + 1)) ⟨b.start, b.appended⟩ := by
  obtain ⟨u, hpush, h⟩ := bind_ok h
  have hu := push_ok hpush
  subst hu
  obtain ⟨v, hsend, h⟩ := bind_ok h
  obtain ⟨new, rfl, sent⟩ := send_ok hsend
  exact ⟨new, _, (Except.ok.inj h).symm, sent⟩

/-- Once the bit is set at its end, the open batch is read from its slots as it was made. -/
lemma Open.walk (o : Open p s.mem front b) {n : Nat} (fits : b.end_ < b.start + n) :
    walk EbDgram.isEOL EbDgram.copy (slots (s.setEOL b.end_).mem b.start n) = some b.appended := by
  have len := o.len
  apply Laid.walk _ len fits setEOL_marked
  apply o.laid.update
  · intro i _ _
    exact setEOL_copy i
  · intro i _ hi
    rw [setEOL_mem_of_ne (by omega)]

/-- Once the bit is set at its end, the open batch can be queued. -/
lemma Open.queued (o : Open p s.mem front b) :
    Queued p (s.setEOL b.end_).mem ⟨b.start, b.appended⟩ where
  laid := by
    have len := o.len
    apply o.laid.update
    · intro i _ _
      exact setEOL_copy i
    · intro i _ hi
      rw [setEOL_mem_of_ne (by omega)]
  fits := by
    have len := o.len
    have fits := o.fits
    show b.start + b.appended.length ≤ p.numBuffers
    omega
  marked := by
    have len := o.len
    show ((s.setEOL b.end_).mem (b.start + b.appended.length - 1)).isEOL = true
    rw [show b.start + b.appended.length - 1 = b.end_ by omega]
    exact setEOL_marked

/-- What was true of a post stays true when batches are queued. -/
lemma PostOk.mono {cs cs' : List Pushed} {x : Post} (sub : cs ⊆ cs') (h : PostOk cs x) :
    PostOk cs' x := by
  cases x with
  | batch dst start entries c => exact ⟨h.1, sub h.2.1, h.2.2⟩
  | transition dst idx d rc => trivial

/-- The post of the open batch closes it. -/
lemma Inv.post (inv : Inv p ins front { s with batch := some b })
    (h : s.postBatch net p b = .ok t) : Inv p ins front { t with batch := none } := by
  obtain ⟨new, n, rfl, sent⟩ := postBatch_ok h
  have o : Open p s.mem front b := inv.batch b rfl
  have len := o.len
  refine ⟨nofun, nofun, ?_, ?_, ?_⟩
  · intro c hc
    rcases List.mem_append.mp hc with hc | hc
    · apply (inv.queued c hc).update
      intro i hi
      apply setEOL_mem_of_ne
      have apart := inv.apart b rfl c hc
      have pos := o.laid.pos
      obtain ⟨lo, hi⟩ := hi
      rcases apart with h | h <;> omega
    · cases List.mem_singleton.mp hc
      exact o.queued
  · intro x hx
    rcases List.mem_append.mp hx with hx | hx
    · apply (inv.posts x hx).mono
      intro c hc
      show c ∈ s.delivered ++ (s.pending ++ [⟨b.start, b.appended⟩])
      rw [← List.append_assoc]
      exact List.mem_append_left _ hc
    · obtain ⟨dst, rfl⟩ := sent x hx
      have pos := o.laid.pos
      exact ⟨rfl, by simp [closed], o.walk (by omega)⟩
  · have parts := inv.parts
    simp only [closed, opened, Option.elim_some, Option.elim_none] at parts ⊢
    rw [← parts]
    simp [List.flatMap_append]

/-- A free slot behind the open batch is free and untouched when the batch is closed. -/
lemma Free.post (free : Free { s with batch := some b } slot) (o : Open p s.mem front b)
    (h : s.postBatch net p b = .ok t) :
    Free { t with batch := none } slot ∧ t.mem slot = s.mem slot := by
  obtain ⟨new, n, rfl, _⟩ := postBatch_ok h
  have len := o.len
  have apart := free.2 b rfl
  have pos := o.laid.pos
  refine ⟨⟨?_, nofun⟩, setEOL_mem_of_ne (by omega)⟩
  intro c hc
  rcases List.mem_append.mp hc with hc | hc
  · exact free.1 c hc
  · cases List.mem_singleton.mp hc
    intro has
    have lo : b.start ≤ slot := has.1
    have hi : slot < b.start + b.appended.length := has.2
    omega

/-- A datagram in a free slot starts a batch. -/
lemma Inv.start (inv : Inv p ins slot { s with batch := none }) (free : ∀ c ∈ s.pending, ¬ c.has slot)
    (fits : slot < p.numBuffers) (fresh : (s.mem slot).isEOL = false) :
    Inv p (ins ++ [(s.mem slot).copy]) ((slot + 1) % p.numBuffers)
      { s with batch := some (s.newBatch p slot) } where
  batch b hb := by
    cases hb
    refine ⟨.single slot, rfl, fits, rfl, rfl, ?_, ?_⟩
    · intro h
      exact absurd (fresh.symm.trans h) (by simp)
    · intro e he
      cases he
  apart b hb c hc := by
    cases hb
    have h := free c hc
    show c.start + c.appended.length ≤ slot ∨ slot < c.start
    simp only [Pushed.has, not_and_or, not_le, not_lt] at h
    exact h.symm
  queued := inv.queued
  posts := inv.posts
  parts := by
    have parts := inv.parts
    simp only [opened, Option.elim_none, List.append_nil] at parts
    rw [← parts]
    rfl

/-- If its end does not flush, nothing in an open batch does. -/
lemma Open.all_keep {mem : Nat → EbDgram} (o : Open p mem front b)
    (last : flushes (mem b.end_) = false) : ∀ e ∈ b.appended, flushes e = false := by
  intro e he
  have split := List.dropLast_append_getLast? _ (o.laid.getLast o.len)
  rw [← split] at he
  rcases List.mem_append.mp he with he | he
  · exact o.keeps e he
  · rw [List.mem_singleton.mp he]
    exact last

/-- A datagram right behind a batch whose end has no bit is appended. -/
lemma Inv.append (inv : Inv p ins slot { s with batch := some b }) (next : b.end_ + 1 = slot)
    (free : ∀ c ∈ s.pending, ¬ c.has slot) (fits : slot < p.numBuffers)
    (clear : (s.mem b.end_).isEOL = false) (keeps : flushes (s.mem b.end_) = false)
    (fresh : (s.mem slot).isEOL = false)
    (epoch : p.batMan.epoch (s.mem slot).pulseId = p.batMan.epoch (s.mem b.start).pulseId) :
    Inv p (ins ++ [(s.mem slot).copy]) ((slot + 1) % p.numBuffers)
      { s with batch := some (s.append p b slot) } := by
  have o : Open p s.mem slot b := inv.batch b rfl
  have len := o.len
  have grown : (s.append p b slot).appended = b.appended ++ [(s.mem slot).copy] := by
    simp [TebContributor.append, show b.end_ ≠ slot by omega]
  refine ⟨?_, ?_, inv.queued, inv.posts, ?_⟩
  · intro b' hb
    cases hb
    refine ⟨?_, ?_, fits, rfl, epoch, ?_, ?_⟩
    · rw [grown, ← next]
      exact o.laid.snoc len clear
    · rw [grown, List.length_append, List.length_singleton]
      show slot + 1 = b.start + (b.appended.length + 1)
      omega
    · intro h
      exact absurd (fresh.symm.trans h) (by simp)
    · rw [grown, List.dropLast_concat]
      exact o.all_keep keeps
  · intro b' hb c hc
    cases hb
    have h := free c hc
    have apart := inv.apart b rfl c hc
    have pos := (inv.queued c hc).laid.pos
    show c.start + c.appended.length ≤ b.start ∨ slot < c.start
    simp only [Pushed.has, not_and_or, not_le, not_lt] at h
    omega
  · have parts := inv.parts
    simp only [closed, opened, Option.elim_some, grown] at parts ⊢
    rw [← parts, List.append_assoc]

/-- The end of a posted batch has the bit, and is otherwise what it was. -/
lemma postBatch_end (h : s.postBatch net p b = .ok t) :
    (t.mem b.end_).setEOL = t.mem b.end_ ∧ (t.mem b.end_).copy = (s.mem b.end_).copy := by
  obtain ⟨new, n, rfl, _⟩ := postBatch_ok h
  refine ⟨?_, setEOL_copy b.end_⟩
  show ((s.setEOL b.end_).mem b.end_).setEOL = (s.setEOL b.end_).mem b.end_
  rw [setEOL_mem, EbDgram.setEOL_setEOL]

/-- Appending the datagram a batch was started with changes nothing. -/
lemma append_newBatch : s.append p (s.newBatch p slot) slot = s.newBatch p slot := by
  simp [TebContributor.append, newBatch]

/-- The last datagram given to the contributor is the end of the open batch. -/
lemma Inv.getLast (inv : Inv p ins front s) (hb : s.batch = some b) :
    ins.getLast? = some (s.mem b.end_).copy := by
  have o := inv.batch b hb
  rw [← inv.parts, opened, hb, Option.elim_some]
  rw [List.getLast?_append, o.laid.getLast o.len, Option.some_or]

/-- What `place` leaves: the datagram is in a batch, which is closed and has the bit, or open and
    ends with it. -/
structure Placed (p : TebCtrbParams) (ins : List EbDgram) (front slot : Nat) (d : EbDgram)
    (t : TebContributor) : Prop where
  inv : Inv p ins front t
  copy : (t.mem slot).copy = d.copy
  ends : (t.batch = none ∧ (t.mem slot).setEOL = t.mem slot) ∨
    ∃ b, t.batch = some b ∧ b.end_ = slot ∧ p.common d = true ∧ flushes d = false

/-- A batch is kept open, or posted if its last datagram flushes. -/
def Kept (net : Transport) (p : TebCtrbParams) (s : TebContributor) (b : Batch) (flush : Bool)
    (t : TebContributor) : Prop :=
  (flush = false ∧ t = { s with batch := some b }) ∨
    (flush = true ∧ ∃ u, s.postBatch net p b = .ok u ∧ t = { u with batch := none })

/-- What `addToBatch` can do. -/
lemma addToBatch_ok (h : s.addToBatch net p b slot = .ok t) :
    (p.batMan.expired (s.mem slot).pulseId (s.mem b.start).pulseId = false ∧
      Kept net p s (s.append p b slot) (flushes (s.mem slot)) t) ∨
    (p.batMan.expired (s.mem slot).pulseId (s.mem b.start).pulseId = true ∧
      ∃ u, s.postBatch net p b = .ok u ∧
        Kept net p u (u.newBatch p slot) (flushes (s.mem slot)) t) := by
  simp only [addToBatch] at h
  cases he : p.batMan.expired (s.mem slot).pulseId (s.mem b.start).pulseId with
  | false =>
    left
    refine ⟨rfl, ?_⟩
    cases hf : flushes (s.mem slot) with
    | false =>
      rw [he, hf] at h
      exact .inl ⟨rfl, (Except.ok.inj h).symm⟩
    | true =>
      rw [he, hf] at h
      obtain ⟨⟨u, b'⟩, hexp, h⟩ := bind_ok h
      cases hexp
      obtain ⟨v, hpost, h⟩ := bind_ok h
      exact .inr ⟨rfl, v, hpost, (Except.ok.inj h).symm⟩
  | true =>
    right
    rw [he] at h
    simp only [Bool.not_true, Bool.false_and] at h
    obtain ⟨⟨u, b'⟩, hexp, h⟩ := bind_ok h
    obtain ⟨v, hpost, hexp⟩ := bind_ok hexp
    cases hexp
    refine ⟨rfl, u, hpost, ?_⟩
    cases hf : flushes (s.mem slot) with
    | false =>
      rw [hf] at h
      exact .inl ⟨rfl, (Except.ok.inj h).symm⟩
    | true =>
      rw [hf] at h
      obtain ⟨w, hpost', h⟩ := bind_ok h
      rw [append_newBatch] at hpost'
      exact .inr ⟨rfl, w, hpost', (Except.ok.inj h).symm⟩

/-- A batch that ends with the datagram is kept open or posted. -/
lemma Inv.placed (inv : Inv p ins front { s with batch := some b }) (ends : b.end_ = slot)
    (copy : (s.mem slot).copy = d.copy) (common : p.common d = true)
    (h : Kept net p s b (flushes d) t) : Placed p ins front slot d t := by
  obtain ⟨hf, rfl⟩ | ⟨hf, u, hpost, rfl⟩ := h
  · exact ⟨inv, copy, .inr ⟨b, rfl, ends, common, hf⟩⟩
  · subst ends
    obtain ⟨marked, same⟩ := postBatch_end hpost
    exact ⟨inv.post hpost, same.trans copy, .inl ⟨rfl, marked⟩⟩

/-- What a call finds: the slot is free and holds a fresh datagram, and the open batch does not end
    with a flushing one. -/
structure Fed (p : TebCtrbParams) (slot : Nat) (s : TebContributor) : Prop where
  free : s.Free slot
  fits : slot < p.numBuffers
  fresh : (s.mem slot).isEOL = false
  keeps : ∀ b, s.batch = some b → flushes (s.mem b.end_) = false

/-- Adding a datagram when no batch is open. -/
lemma Inv.addFirst (inv : Inv p ins slot { s with batch := none })
    (fed : Fed p slot { s with batch := none }) (common : p.common (s.mem slot) = true)
    (h : Kept net p s (s.newBatch p slot) (flushes (s.mem slot)) t) :
    Placed p (ins ++ [(s.mem slot).copy]) ((slot + 1) % p.numBuffers) slot (s.mem slot) t :=
  (inv.start fed.free.1 fed.fits fed.fresh).placed rfl rfl common h

/-- Adding a datagram right behind the open batch. -/
lemma Inv.addNext (inv : Inv p ins slot { s with batch := some b })
    (fed : Fed p slot { s with batch := some b }) (ne : slot ≠ 0)
    (common : p.common (s.mem slot) = true) (safe : p.Safe ins.getLast? slot (s.mem slot))
    (h : s.addToBatch net p b slot = .ok t) :
    Placed p (ins ++ [(s.mem slot).copy]) ((slot + 1) % p.numBuffers) slot (s.mem slot) t := by
  have o : Open p s.mem slot b := inv.batch b rfl
  have next : b.end_ + 1 = slot := by
    have front := o.front
    have fits := o.fits
    rcases Nat.lt_or_eq_of_le (Nat.succ_le_of_lt fits) with lt | eq
    · rwa [Nat.mod_eq_of_lt lt] at front
    · rw [show b.end_ + 1 = p.numBuffers from eq, Nat.mod_self] at front
      exact absurd front.symm ne
  obtain ⟨fresh, h⟩ | ⟨_, u, hpost, h⟩ := addToBatch_ok h
  · have epoch := BatchManager.not_expired_iff.mp fresh
    -- a bit at the end would be that of a forwarded `SlowUpdate`, which `Safe` has expire here
    have clear : (s.mem b.end_).isEOL = false := by
      rw [← Bool.not_eq_true]
      intro marked
      obtain ⟨many, taints⟩ := o.taint marked
      obtain safe | safe | safe | safe := safe
      · omega
      · exact ne safe
      · rw [common] at safe
        cases safe
      · have h := safe _ (inv.getLast rfl) taints
        rw [EbDgram.copy_pulseId] at h
        exact BatchManager.expired_iff.mp h (epoch.trans o.epoch.symm)
    have inv := inv.append next fed.free.1 fed.fits clear (fed.keeps b rfl) fed.fresh epoch
    exact inv.placed rfl rfl common h
  · obtain ⟨free, same⟩ := fed.free.post o hpost
    rw [← same] at common h ⊢
    have fresh : (u.mem slot).isEOL = false := by
      rw [same]
      exact fed.fresh
    exact (inv.post hpost).addFirst ⟨free, fed.fits, fresh, nofun⟩ common h

/-- Adding a datagram when no batch is open, as `batchDgram` does it. -/
lemma addToBatch_newBatch (h : s.addToBatch net p (s.newBatch p slot) slot = .ok t) :
    Kept net p s (s.newBatch p slot) (flushes (s.mem slot)) t := by
  obtain ⟨_, h⟩ | ⟨expired, _⟩ := addToBatch_ok h
  · rwa [append_newBatch] at h
  · exact absurd rfl (BatchManager.expired_iff.mp expired)

/-- Closing the open batch, if there is one. -/
lemma Inv.close (inv : Inv p ins slot s) (fed : Fed p slot s) (h : s.closeBatch net p = .ok t) :
    Inv p ins slot t ∧ Fed p slot t ∧ t.batch = none ∧ t.mem slot = s.mem slot := by
  simp only [closeBatch] at h
  cases hb : s.batch with
  | none =>
    rw [hb] at h
    cases h
    exact ⟨inv, fed, hb, rfl⟩
  | some b =>
    rw [hb] at h
    obtain ⟨u, hpost, h⟩ := bind_ok h
    cases h
    have hs : s = { s with batch := some b } := by rw [← hb]
    obtain ⟨free, same⟩ := Free.post (hs ▸ fed.free) (inv.batch b hb) hpost
    refine ⟨Inv.post (hs ▸ inv) hpost, ⟨free, fed.fits, ?_, nofun⟩, rfl, same⟩
    show (u.mem slot).isEOL = false
    rw [same]
    exact fed.fresh

/-- A datagram of the common group is put into a batch. -/
lemma Inv.batchDgram (inv : Inv p ins slot s) (fed : Fed p slot s)
    (common : p.common (s.mem slot) = true) (safe : p.Safe ins.getLast? slot (s.mem slot))
    (h : s.batchDgram net p slot = .ok t) :
    Placed p (ins ++ [(s.mem slot).copy]) ((slot + 1) % p.numBuffers) slot (s.mem slot) t := by
  obtain ⟨u, hwrap, h⟩ := bind_ok h
  have wrapped : Inv p ins slot u ∧ Fed p slot u ∧ (slot = 0 → u.batch = none) ∧
      u.mem slot = s.mem slot := by
    simp only [wrap] at hwrap
    split at hwrap
    · obtain ⟨inv, fed, shut, same⟩ := inv.close fed hwrap
      exact ⟨inv, fed, fun _ => shut, same⟩
    · cases hwrap
      exact ⟨inv, fed, fun e => absurd e ‹_›, rfl⟩
  obtain ⟨inv, fed, shut, same⟩ := wrapped
  rw [← same] at common safe ⊢
  cases hb : u.batch with
  | none =>
    rw [hb] at h
    have hu : u = { u with batch := none } := by rw [← hb]
    exact Inv.addFirst (hu ▸ inv) (hu ▸ fed) common (addToBatch_newBatch h)
  | some b =>
    rw [hb] at h
    have hu : u = { u with batch := some b } := by rw [← hb]
    have ne : slot ≠ 0 := by
      intro e
      rw [shut e] at hb
      cases hb
    exact Inv.addNext (hu ▸ inv) (hu ▸ fed) ne common safe h

/-- A batch pushed on its own: the datagram, with the bit, in a free slot. -/
lemma Inv.push (inv : Inv p ins slot s) (fed : Fed p slot s) (shut : s.batch = none)
    (h : (s.setEOL slot).push p ⟨slot, [((s.setEOL slot).mem slot).copy]⟩ = .ok t) :
    Placed p (ins ++ [(s.mem slot).copy]) ((slot + 1) % p.numBuffers) slot (s.mem slot) t := by
  have ht := push_ok h
  subst ht
  refine ⟨⟨?_, ?_, ?_, ?_, ?_⟩, setEOL_copy slot, .inl ⟨shut, ?_⟩⟩
  · intro b hb
    exact absurd (shut.symm.trans hb) (by simp)
  · intro b hb
    exact absurd (shut.symm.trans hb) (by simp)
  · intro c hc
    rcases List.mem_append.mp hc with hc | hc
    · apply (inv.queued c hc).update
      intro i hi
      apply setEOL_mem_of_ne
      intro e
      subst e
      exact fed.free.1 c hc hi
    · cases List.mem_singleton.mp hc
      exact ⟨.single slot, fed.fits, setEOL_marked⟩
  · intro x hx
    apply (inv.posts x hx).mono
    intro c hc
    show c ∈ s.delivered ++ (s.pending ++ [_])
    rw [← List.append_assoc]
    exact List.mem_append_left _ hc
  · have parts := inv.parts
    simp only [opened, shut, Option.elim_none, List.append_nil] at parts
    rw [← parts]
    simp only [closed, opened, setEOL_batch, setEOL_pending, setEOL_delivered, shut,
      Option.elim_none, List.append_nil, List.flatMap_append, List.flatMap_singleton,
      setEOL_copy, List.append_assoc]
  · show ((s.setEOL slot).mem slot).setEOL = (s.setEOL slot).mem slot
    rw [setEOL_mem, EbDgram.setEOL_setEOL]

/-- Every datagram is put into a batch. -/
lemma Inv.place (inv : Inv p ins slot s) (fed : Fed p slot s)
    (safe : p.Safe ins.getLast? slot (s.mem slot)) (h : s.place net p slot = .ok t) :
    Placed p (ins ++ [(s.mem slot).copy]) ((slot + 1) % p.numBuffers) slot (s.mem slot) t := by
  simp only [TebContributor.place] at h
  split at h
  · exact inv.batchDgram fed ‹_› safe h
  · obtain ⟨u, hclose, h⟩ := bind_ok h
    obtain ⟨inv, fed, shut, same⟩ := inv.close fed hclose
    rw [← same]
    exact inv.push fed shut h

/-- Forwarding only posts. -/
lemma forward_ok {dst : Nat} {links : List Nat} (h : forward net dst slot links s = .ok t) :
    ∃ polls trBuffers new, t = { s with polls, trBuffers, posts := s.posts ++ new } ∧
      ∀ cs, ∀ x ∈ new, PostOk cs x := by
  induction links generalizing s with
  | nil =>
    cases h
    exact ⟨t.polls, t.trBuffers, [], by simp, by simp⟩
  | cons src links ih =>
    simp only [forward] at h
    split at h
    · split at h
      · cases h
      · rename_i idx lst _
        obtain ⟨polls, trBuffers, new, rfl, ok⟩ := ih h
        refine ⟨polls, trBuffers,
          [.transition src idx (s.mem slot) (net.postRc s.posts.length)] ++ new, ?_, ?_⟩
        · rw [← List.append_assoc]
        · intro cs x hx
          rcases List.mem_cons.mp hx with rfl | hx
          · trivial
          · exact ok cs x hx
    · exact ih h

/-- A post that is no batch is kept. -/
lemma Inv.posted {polls : Nat} {trBuffers : Nat → List Nat} {new : List Post}
    (inv : Inv p ins front s) (ok : ∀ x ∈ new, PostOk s.closed x) :
    Inv p ins front { s with polls, trBuffers, posts := s.posts ++ new } where
  batch := inv.batch
  apart := inv.apart
  queued := inv.queued
  posts x hx := by
    rcases List.mem_append.mp hx with hx | hx
    · exact inv.posts x hx
    · exact ok x hx
  parts := inv.parts

/-- The end of an open batch may get the bit when it is a forwarded `SlowUpdate`. -/
lemma Inv.mark (inv : Inv p ins front s) (hb : s.batch = some b) (many : 2 ≤ p.links)
    (taints : p.taints (s.mem b.end_)) : Inv p ins front (s.setEOL b.end_) where
  batch b' hb' := by
    cases hb.symm.trans hb'
    have o := inv.batch b hb
    have len := o.len
    have pid : ∀ i, ((s.setEOL b.end_).mem i).pulseId = (s.mem i).pulseId := by
      intro i
      rw [← EbDgram.copy_pulseId, setEOL_copy, EbDgram.copy_pulseId]
    refine ⟨?_, len, o.fits, o.front, ?_, fun _ => ⟨many, ?_⟩, o.keeps⟩
    · apply o.laid.update
      · intro i _ _
        exact setEOL_copy i
      · intro i _ hi
        rw [setEOL_mem_of_ne (by omega)]
    · rw [pid, pid]
      exact o.epoch
    · rw [setEOL_mem]
      exact taints
  apart := inv.apart
  queued c hc := by
    apply (inv.queued c hc).update
    intro i hi
    apply setEOL_mem_of_ne
    have pos := (inv.batch b hb).laid.pos
    have len := (inv.batch b hb).len
    obtain ⟨lo, hi⟩ := hi
    rcases inv.apart b hb c hc with h | h <;> omega
  posts := inv.posts
  parts := inv.parts

/-- Setting a bit that is set changes nothing. -/
lemma setEOL_of_marked (h : (s.mem slot).setEOL = s.mem slot) : s.setEOL slot = s := by
  show { s with mem := Function.update s.mem slot (s.mem slot).setEOL } = s
  rw [h, Function.update_eq_self]

/-- Forwarding a non-event keeps the invariant. -/
lemma Placed.postDgram (placed : Placed p ins front slot d t) (ev : d.isEvent = false)
    (provides : p.provides d = true) {u : TebContributor} (h : t.postDgram net p slot = .ok u) :
    Placed p ins front slot d u := by
  simp only [TebContributor.postDgram] at h
  split at h
  · cases h
    exact placed
  · rename_i many
    split at h
    · cases h
    · split at h
      · cases h
      · obtain ⟨polls, trBuffers, new, rfl, ok⟩ := forward_ok h
        have copy : ((t.setEOL slot).mem slot).copy = d.copy := (setEOL_copy slot).trans placed.copy
        obtain ⟨shut, marked⟩ | ⟨b, hb, rfl, common, keeps⟩ := placed.ends
        · have same := setEOL_of_marked marked
          refine ⟨Inv.posted ?_ (ok _), copy, .inl ⟨shut, ?_⟩⟩
          · rw [same]
            exact placed.inv
          · rw [same]
            exact marked
        · have env : (t.mem b.end_).env = d.env := by
            have h := congrArg EbDgram.env placed.copy
            exact h
          have slow : d.service = .SlowUpdate := by
            simp only [flushes, EbDgram.isEvent, decide_eq_false_iff_not, not_and, not_not] at keeps ev
            exact keeps ev
          have taints : p.taints (t.mem b.end_) := by
            simp only [TebCtrbParams.taints, TebCtrbParams.common, TebCtrbParams.provides,
              EbDgram.readoutGroups, EbDgram.service, EbDgram.control, env] at common provides slow ⊢
            exact ⟨common, provides, slow⟩
          have inv := placed.inv.mark hb (by omega) taints
          exact ⟨inv.posted (ok _), copy, .inr ⟨b, hb, rfl, common, keeps⟩⟩

/-- `process` keeps the invariant. -/
lemma Inv.process (inv : Inv p ins slot s) (fed : Fed p slot s)
    (safe : p.Safe ins.getLast? slot (s.mem slot)) (h : s.process net p slot = .ok t) :
    Placed p (ins ++ [(s.mem slot).copy]) ((slot + 1) % p.numBuffers) slot (s.mem slot) t := by
  obtain ⟨u, hplace, h⟩ := bind_ok h
  obtain ⟨inv, copy, ends⟩ := inv.place fed safe hplace
  have placed : Placed p (ins ++ [(s.mem slot).copy]) ((slot + 1) % p.numBuffers) slot (s.mem slot)
      { u with eventCount := u.eventCount + 1 } :=
    ⟨⟨inv.batch, inv.apart, inv.queued, inv.posts, inv.parts⟩, copy, ends⟩
  simp only at h
  split at h
  · rename_i forwards
    rw [Bool.and_eq_true, Bool.not_eq_true'] at forwards
    exact placed.postDgram forwards.1 forwards.2 h
  · cases h
    exact placed

/-- What the DRP promises: pulse IDs increase, and a slot is reused after its batch was popped. -/
def Promised (as : List Op) (s : TebContributor) : Op → Prop
  | .process d => (∀ e ∈ inputs as, e.pulseId < d.pulseId) ∧ s.Free s.next
  | .release => True

/-- The promise, with no datagram behind a forwarded `SlowUpdate` in its batch. -/
def Allowed (p : TebCtrbParams) (as : List Op) (s : TebContributor) : Op → Prop
  | .process d => Promised as s (.process d) ∧ p.Safe (inputs as).getLast? s.next d.copy
  | .release => True

lemma inputs_append (as : List Op) (a : Op) : inputs (as ++ [a]) = inputs as ++ inputs [a] :=
  List.filterMap_append

/-- Popping a batch keeps the invariant. -/
lemma Inv.release (inv : Inv p ins front s) {c : Pushed} {pending : List Pushed}
    (h : s.pending = c :: pending) :
    Inv p ins front { s with pending, delivered := s.delivered ++ [c] } := by
  have same : s.delivered ++ [c] ++ pending = s.closed := by
    rw [closed, h, List.append_assoc]
    rfl
  have sub : ∀ x ∈ pending, x ∈ s.pending := by
    intro x hx
    rw [h]
    exact List.mem_cons_of_mem c hx
  refine ⟨inv.batch, fun b hb x hx => inv.apart b hb x (sub x hx),
    fun x hx => inv.queued x (sub x hx), ?_, ?_⟩
  · show ∀ x ∈ s.posts, PostOk (s.delivered ++ [c] ++ pending) x
    rw [same]
    exact inv.posts
  · show (s.delivered ++ [c] ++ pending).flatMap _ ++ s.opened = ins
    rw [same]
    exact inv.parts

/-- What holds after every action. -/
structure Between (p : TebCtrbParams) (as : List Op) (s : TebContributor) : Prop where
  inv : Inv p (inputs as) s.next s
  fits : s.next < p.numBuffers
  keeps : ∀ b, s.batch = some b → flushes (s.mem b.end_) = false
  sorted : (inputs as).Pairwise (·.pulseId < ·.pulseId)

/-- Every allowed action keeps what holds between calls. -/
lemma Between.step {as : List Op} {a : Op} (between : Between p as s) (ok : Allowed p as s a)
    (h : s.step net p a = .ok t) : Between p (as ++ [a]) t := by
  cases a with
  | release =>
    simp only [TebContributor.step] at h
    have same : inputs (as ++ [.release]) = inputs as := by
      rw [inputs_append]
      exact List.append_nil _
    split at h
    · cases h
      exact ⟨same ▸ between.inv, between.fits, between.keeps, same ▸ between.sorted⟩
    · cases h
      exact ⟨same ▸ between.inv.release ‹_›, between.fits, between.keeps, same ▸ between.sorted⟩
  | process d =>
    obtain ⟨⟨later, free⟩, safe⟩ := ok
    have grown : inputs (as ++ [.process d]) = inputs as ++ [d.copy] := inputs_append as _
    obtain ⟨u, hprocess, h⟩ := bind_ok h
    cases h
    generalize hw : ({ s with mem := Function.update s.mem s.next d.copy } : TebContributor) = w
      at hprocess
    have written : w.mem s.next = d.copy := by
      rw [← hw]
      exact Function.update_self s.next d.copy s.mem
    -- The new datagram is not in a slot of the open batch.
    have elsewhere : ∀ b, s.batch = some b → w.mem b.end_ = s.mem b.end_ := by
      intro b hb
      rw [← hw]
      apply Function.update_of_ne
      have len := (between.inv.batch b hb).len
      have pos := (between.inv.batch b hb).laid.pos
      rcases free.2 b hb with h | h <;> omega
    have inv : Inv p (inputs as) s.next w := hw ▸ between.inv.write free d.copy
    have fed : Fed p s.next w := by
      refine ⟨hw ▸ free, between.fits, ?_, ?_⟩
      · rw [written]
        exact EbDgram.copy_isEOL d
      · intro b hb
        have hb : s.batch = some b := by
          rw [← hw] at hb
          exact hb
        rw [elsewhere b hb]
        exact between.keeps b hb
    obtain ⟨inv, copy, ends⟩ := inv.process fed (written.symm ▸ safe) hprocess
    rw [written, EbDgram.copy_copy] at inv
    rw [written] at copy ends
    have pos : 0 < p.numBuffers := Nat.zero_lt_of_lt between.fits
    refine ⟨⟨?_, inv.apart, inv.queued, inv.posts, ?_⟩, Nat.mod_lt _ pos, ?_, ?_⟩
    · exact inv.batch
    · rw [grown]
      exact inv.parts
    · intro b hb
      obtain ⟨shut, _⟩ | ⟨b', hb', ends, _, keeps⟩ := ends
      · exact absurd (shut.symm.trans hb) (by simp)
      · cases hb'.symm.trans hb
        have env : (u.mem b.end_).env = d.env := by
          have h := congrArg EbDgram.env copy
          rw [ends]
          exact h
        simp only [flushes, EbDgram.service, EbDgram.control, env] at keeps ⊢
        exact keeps
    · rw [grown]
      apply List.pairwise_append.mpr
      refine ⟨between.sorted, List.pairwise_singleton _ _, ?_⟩
      intro e he x hx
      rw [List.mem_singleton.mp hx, EbDgram.copy_pulseId]
      exact later e he

/-- The contributor's runs. -/
abbrev ContributorRun (net : Transport) (p : TebCtrbParams) (s₀ : TebContributor) :=
  Run (step net p) (Allowed p) s₀

/-- What holds in every reachable state. -/
lemma between_of_run {mem : Nat → EbDgram} {next : Nat} {trBuffers : Nat → List Nat} {as : List Op}
    (fits : next < p.numBuffers)
    (run : ContributorRun net p (.startup mem next trBuffers) as s) : Between p as s := by
  apply run.invariant (P := fun as s => Between p as s)
  · exact ⟨⟨nofun, nofun, nofun, nofun, rfl⟩, fits, nofun, .nil⟩
  · intro as s a t between ok h
    exact between.step ok h

/-- Nothing in the open batch flushes. -/
lemma Between.opened_keeps {as : List Op} (between : Between p as s) :
    ∀ e ∈ s.opened, flushes e = false := by
  intro e he
  cases hb : s.batch with
  | none =>
    rw [opened, hb] at he
    cases he
  | some b =>
    rw [opened, hb] at he
    exact (between.inv.batch b hb).all_keep (between.keeps b hb) e he

/-- A flushing datagram and what was processed before it are in closed batches. -/
lemma Between.flushed {as before after : List Op} (between : Between p as s)
    (split : as = before ++ .process d :: after) (hf : flushes d = true) {e : EbDgram}
    (he : e ∈ inputs (before ++ [.process d])) : e ∈ s.closed.flatMap (·.appended) := by
  have grown : inputs as = inputs (before ++ [.process d]) ++ inputs after := by
    rw [split, List.append_cons]
    exact List.filterMap_append
  have parts := between.inv.parts
  rw [grown] at parts
  obtain ⟨rest, sofar, opened⟩ | ⟨rest, closed, _⟩ := List.append_eq_append_iff.mp parts
  · cases rest using List.reverseRecOn with
    | nil =>
      rw [List.append_nil] at sofar
      rwa [← sofar]
    | append_singleton rest x =>
      have last : x = d.copy := by
        have grown : inputs before ++ [d.copy] = (s.closed.flatMap (·.appended) ++ rest) ++ [x] := by
          rw [List.append_assoc, ← sofar]
          exact (inputs_append before (.process d)).symm
        exact (List.append_inj' grown rfl).2 |> List.singleton_inj.mp |>.symm
      have keeps := between.opened_keeps x (by simp [opened])
      rw [last] at keeps
      exact absurd (keeps.symm.trans hf) (by simp)
  · rw [closed]
    exact List.mem_append_left rest he

/-- Contributor batches are lossless for their readers. In every run in which no datagram of the same
    epoch is put behind a forwarded `SlowUpdate`, a pending batch is read from the region as it was
    made, and so is what was posted to a TEB; the batches, closed and open, partition the input in
    order; and what was processed up to a flushing datagram is in exactly one closed batch. -/
theorem batches_lossless {mem : Nat → EbDgram} {next : Nat} {trBuffers : Nat → List Nat}
    {as : List Op} (fits : next < p.numBuffers)
    (run : ContributorRun net p (.startup mem next trBuffers) as s) :
    (∀ c ∈ s.pending, s.read p c.start = some c.appended) ∧
    (∀ dst start entries c, .batch dst start entries c ∈ s.posts →
      start = c.start ∧ c ∈ s.closed ∧
        walk EbDgram.isEOL EbDgram.copy entries = some c.appended) ∧
    s.closed.flatMap (·.appended) ++ s.opened = inputs as ∧
    ∀ before d after, as = before ++ .process d :: after → flushes d = true →
      ∀ e ∈ inputs (before ++ [.process d]),
        ∃! i : ℕ, ∃ c, s.closed[i]? = some c ∧ e ∈ c.appended := by
  have between := between_of_run fits run
  refine ⟨?_, ?_, between.inv.parts, ?_⟩
  · intro c hc
    have q := between.inv.queued c hc
    have pos := q.laid.pos
    have fits := q.fits
    exact q.laid.walk (by omega) (by omega) q.marked
  · intro dst start entries c hx
    exact between.inv.posts _ hx
  · intro before d after split hf e he
    have nodup : (inputs as).Nodup := between.sorted.imp fun lt e => by
      rw [e] at lt
      exact Nat.lt_irrefl _ lt
    rw [← between.inv.parts] at nodup
    exact existsUnique_part (List.nodup_append.mp nodup).1 (between.flushed split hf he)

instance : Decidable (s.Free slot) :=
  inferInstanceAs (Decidable
    ((∀ c ∈ s.pending, ¬ (c.start ≤ slot ∧ slot < c.start + c.appended.length)) ∧
      ∀ b ∈ s.batch, slot < b.start ∨ b.end_ < slot))

instance {prev : Option EbDgram} : Decidable (p.Safe prev slot d) :=
  inferInstanceAs (Decidable
    (p.links < 2 ∨ slot = 0 ∨ p.common d = false ∨
      ∀ e ∈ prev, (p.common e = true ∧ p.provides e = true ∧ e.service = .SlowUpdate) →
        p.batMan.expired d.pulseId e.pulseId = true))

instance (as : List Op) (s : TebContributor) : (a : Op) → Decidable (Promised as s a)
  | .process d => inferInstanceAs (Decidable ((∀ e ∈ inputs as, e.pulseId < d.pulseId) ∧ s.Free s.next))
  | .release => .isTrue trivial

instance (as : List Op) (s : TebContributor) : (a : Op) → Decidable (Allowed p as s a)
  | .process d => inferInstanceAs (Decidable
      (Promised as s (.process d) ∧ p.Safe (inputs as).getLast? s.next d.copy))
  | .release => .isTrue trivial

end TebContributor

/-- A contractor with two TEBs, epochs of eight pulse IDs and a region of sixteen slots. -/
def twoTebs : TebCtrbParams where
  partition := 0
  readoutGroup := 1#16
  contractor := 1#16
  maxInputSize := 64
  maxEntries := 8#32
  builders := 3#64
  links := 2
  numBuffers := 16

/-- Links that always have a transition buffer. -/
def quietNet : Transport where
  polled _ := [0]
  waited _ := none
  postRc _ := 0

/-- A datagram of readout group 0 without payload. -/
def triggerDgram (service : BitVec 8) (pid : Nat) : EbDgram where
  pulseIdAndControl := BitVec.ofNat 64 pid
  env := service.setWidth 32 <<< 24 ||| 1#32
  src := 0
  sizeofPayload := 0

/-- A `SlowUpdate`, an `L1Accept` and a `Disable`. -/
def slowUpdate (pid : Nat) : EbDgram := triggerDgram 10#8 pid
def l1Accept (pid : Nat) : EbDgram := triggerDgram 12#8 pid
def disable (pid : Nat) : EbDgram := triggerDgram 9#8 pid

namespace TebContributor

/-- A contributor that starts with a cleared region, at its last slot. -/
def atLastSlot : TebContributor := .startup (fun _ => triggerDgram 0#8 0) 15 fun _ => []

/-- Around the wrap and across epochs every batch is read as it was made. -/
theorem batches_lossless_wrap :
    ∃ s, ContributorRun quietNet twoTebs atLastSlot
        [.process (l1Accept 8), .process (slowUpdate 9), .process (l1Accept 16), .release,
          .process (disable 17)] s ∧
      s.pending.map (·.appended) = [[slowUpdate 9], [l1Accept 16, disable 17]] ∧
      ∀ c ∈ s.pending, s.read twoTebs c.start = some c.appended := by
  obtain ⟨s, run, h⟩ := Run.of_replay_any (step quietNet twoTebs) (Allowed twoTebs) atLastSlot
    [.process (l1Accept 8), .process (slowUpdate 9), .process (l1Accept 16), .release,
      .process (disable 17)]
    (fun s => s.pending.map (·.appended) = [[slowUpdate 9], [l1Accept 16, disable 17]])
    (by decide +kernel)
  exact ⟨s, run, of_decide_eq_true h, (batches_lossless (by decide) run).1⟩

/-- A `SlowUpdate` that is forwarded while its batch is open hides the rest of the batch. -/
theorem batches_lost :
    ∃ s, Run (step quietNet twoTebs) Promised atLastSlot
        [.process (l1Accept 7), .process (slowUpdate 8), .process (l1Accept 9),
          .process (disable 10)] s ∧
      ∃ c ∈ s.pending, c.appended = [slowUpdate 8, l1Accept 9, disable 10] ∧
        s.read twoTebs c.start = some [slowUpdate 8] := by
  obtain ⟨s, run, h⟩ := Run.of_replay_any (step quietNet twoTebs) Promised atLastSlot
    [.process (l1Accept 7), .process (slowUpdate 8), .process (l1Accept 9), .process (disable 10)]
    (fun s => decide (∃ c ∈ s.pending, c.appended = [slowUpdate 8, l1Accept 9, disable 10] ∧
      s.read twoTebs c.start = some [slowUpdate 8]))
    (by decide +kernel)
  exact ⟨s, run, of_decide_eq_true h⟩

end TebContributor

end Lcls2.Eb
