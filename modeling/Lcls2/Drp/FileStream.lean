import Lcls2.Lib.Run
import Lcls2.Drp.FileWriter

/-!
# The file holds the stream

At every moment the file, the buffers and the event at hand hold the events that were given, in
order. The buffers form one chain: the pending ones, the one that the calling thread moves from
`m_free` to `m_pend`, and the free ones, of which the first is being filled. Moving a buffer from one
part of the chain to the next leaves the chain as it is; the `run` thread takes buffers off its front
and puts them back, empty, at its end.
-/

namespace Lcls2.Drp
open Lib

/-- The event that a call has not copied yet. -/
def Caller.data : Caller → List UInt8
  | .pend data _ | .test data _ | .pop data _ | .push _ data _ | .pendNext data | .fill data => data
  | _ => []

/-- The buffer that is neither free nor pending. -/
def Caller.held : Caller → List Buffer
  | .push b _ _ | .flushPush b _ => [b]
  | _ => []

/-- Where the calling thread can be when no file is open. -/
def Caller.resting : Caller → Bool
  | .idle | .flush false | .pendn false => true
  | _ => false

/-- The bytes of the front buffer that are written. -/
def Runner.done : Runner → Nat
  | .writing _ done => done
  | _ => 0

/-- Buffers without bytes. -/
def Clean (bs : List Buffer) : Prop := ∀ b ∈ bs, b.count = 0

namespace BufferedFileWriterMT

variable {p : FileWriterParams} {s t : BufferedFileWriterMT} {mem : Nat → Nat → UInt8} {b : Buffer}
  {bs : List Buffer} {data : List UInt8} {ts : BitVec 64} {closing : Bool}

/-- The buffers in the order of the stream. -/
def chain (s : BufferedFileWriterMT) : List Buffer :=
  s.pend.toList ++ s.caller.held ++ s.free.toList

/-- The buffer that the `run` thread is recycling. -/
def recycled (s : BufferedFileWriterMT) : List Buffer :=
  match s.runner with
  | .popped slot => [s.pend.array slot]
  | _ => []

/-- The bytes that are not written. -/
def buffered (s : BufferedFileWriterMT) : List UInt8 :=
  (s.chain.flatMap (contents s.mem)).drop s.runner.done

/-- What the calling thread knows before its next operation. -/
def AtCaller (p : FileWriterParams) (s : BufferedFileWriterMT) : Prop :=
  match s.caller with
  | .idle | .flush _ => True
  | .pend data _ => data.length ≤ p.bufferSize
  | .test data _ | .pop data _ => data.length ≤ p.bufferSize ∧ s.free.toList ≠ []
  | .push _ data _ | .pendNext data => data.length ≤ p.bufferSize ∧ Clean s.free.toList
  | .fill data => ∃ b bs, s.free.toList = b :: bs ∧ data.length ≤ p.bufferSize - b.count
  | .flushPop _ => s.free.toList ≠ []
  | .flushPush _ _ | .pendn _ => Clean s.free.toList

/-- What the `run` thread knows. -/
def AtRunner (s : BufferedFileWriterMT) : Prop :=
  match s.runner with
  | .pend => True
  | .writing b done => (∃ bs, s.pend.toList = b :: bs) ∧ done ≤ b.count
  | .popped slot => s.pend.Vacated slot

/-- With no file open there is nothing to write. -/
def AtRest (s : BufferedFileWriterMT) : Prop :=
  s.pend.toList = [] ∧ Clean s.free.toList ∧ s.caller.resting = true

/-- What the two threads keep. -/
structure Inv (p : FileWriterParams) (s : BufferedFileWriterMT) : Prop where
  free_size : s.free.size = p.depth
  pend_size : s.pend.size = p.depth
  nodup : ((s.recycled ++ s.chain).map Buffer.p).Nodup
  all : (s.recycled ++ s.chain).length = p.depth
  fits : ∀ b ∈ s.chain, b.count ≤ p.bufferSize
  clean : Clean s.free.toList.tail
  caller : s.AtCaller p
  runner : s.AtRunner
  stream : s.file ++ s.buffered ++ s.caller.data = s.given
  rest : s.fd = 0 → s.AtRest

/-- Calls come one at a time, `open` when no file is open and `writeEvent` when one is, with an event
    that fits a buffer. -/
def Allowed (p : FileWriterParams) (_ : List WriterOp) (s : BufferedFileWriterMT) : WriterOp → Prop
  | .call (.open_ fd) => s.fd = 0 ∧ 0 < fd
  | .call (.writeEvent data _) => 0 < s.fd ∧ data.length ≤ p.bufferSize
  | _ => True

lemma contents_length (mem : Nat → Nat → UInt8) (b : Buffer) : (contents mem b).length = b.count := by
  simp [contents]

/-- Buffers without bytes add nothing to the stream. -/
lemma flatMap_clean (clean : Clean bs) : bs.flatMap (contents mem) = [] := by
  rw [List.flatMap_eq_nil_iff]
  intro b hb
  rw [contents, clean b hb]
  rfl

/-- Filling a buffer leaves the others alone. -/
lemma flatMap_memcpy_of_ne (h : ∀ b' ∈ bs, b'.p ≠ b.p) :
    bs.flatMap (contents (memcpy mem b data)) = bs.flatMap (contents mem) := by
  apply List.flatMap_congr
  intro b' hb'
  apply List.map_congr_left
  intro i _
  rw [memcpy, if_neg fun e => h b' hb' e.1]

/-- Filling a buffer adds the event at its end. -/
lemma contents_memcpy :
    contents (memcpy mem b data) { b with count := b.count + data.length } =
      contents mem b ++ data := by
  rw [contents, List.range_add, List.map_append, List.map_map]
  congr 1
  · apply List.map_congr_left
    intro i hi
    have hi : i < b.count := List.mem_range.mp hi
    show memcpy mem b data b.p i = mem b.p i
    rw [memcpy, if_neg fun e => absurd hi (Nat.not_lt_of_le e.2.1)]
  · apply List.ext_getElem
    · simp
    · intro i h1 h2
      rw [List.getElem_map, List.getElem_range]
      show memcpy mem b data b.p (b.count + i) = data[i]
      have inside : b.p = b.p ∧ b.count ≤ b.count + i ∧ b.count + i < b.count + data.length :=
        ⟨rfl, Nat.le_add_right _ _, Nat.add_lt_add_left h2 _⟩
      rw [memcpy, if_pos inside, Nat.add_sub_cancel_left, List.getD_eq_getElem _ _ h2]

lemma empty_iff {f : Fifo Buffer} : f.empty = true ↔ f.toList = [] := by
  rw [Fifo.empty, decide_eq_true_iff, ← Fifo.toList_length, List.length_eq_zero_iff]

lemma Clean.tail {f : List Buffer} (h : Clean f) : Clean f.tail :=
  fun b hb => h b (List.mem_of_mem_tail hb)

lemma not_empty {f : Fifo Buffer} (h : ¬ f.empty = true) : ∃ b bs, f.toList = b :: bs :=
  List.exists_cons_of_ne_nil fun e => h (empty_iff.mpr e)

/-- The numbers of buffers in each place. -/
lemma Inv.total (inv : Inv p s) :
    s.recycled.length + s.pend.count + s.caller.held.length + s.free.count = p.depth := by
  rw [← inv.all, chain]
  simp only [List.length_append, Fifo.toList_length]
  omega

/-- While the calling thread is where it cannot be at rest, a file is open. -/
lemma Inv.open_ (inv : Inv p s) (h : s.caller.resting = false) : s.fd ≠ 0 := by
  intro e
  have rest := (inv.rest e).2.2
  rw [h] at rest
  cases rest

/-- A step of the calling thread that moves no buffer. -/
lemma Inv.advance (inv : Inv p s) (c : Caller) (held : c.held = s.caller.held)
    (data : c.data = s.caller.data) (at_ : AtCaller p { s with caller := c })
    (rest : s.fd = 0 → c.resting = true) : Inv p { s with caller := c } := by
  have chain : chain { s with caller := c } = s.chain := by simp only [chain, held]
  constructor
  · exact inv.free_size
  · exact inv.pend_size
  · rw [chain]
    exact inv.nodup
  · rw [chain]
    exact inv.all
  · rw [chain]
    exact inv.fits
  · exact inv.clean
  · exact at_
  · exact inv.runner
  · simp only [buffered, chain, data]
    exact inv.stream
  · intro h
    exact ⟨(inv.rest h).1, (inv.rest h).2.1, rest h⟩

/-- The calling thread takes the buffer it fills. -/
lemma Inv.hold (inv : Inv p s) (c : Caller) (before : s.caller.held = [])
    (free : s.free.toList ≠ []) (held : c.held = [s.free.front]) (data : c.data = s.caller.data)
    (busy : s.caller.resting = false)
    (at_ : Clean s.free.pop.toList → AtCaller p { s with free := s.free.pop, caller := c }) :
    Inv p { s with free := s.free.pop, caller := c } := by
  obtain ⟨b, bs, e⟩ := List.exists_cons_of_ne_nil free
  have front := Fifo.front_eq e
  have left := Fifo.pop_eq e
  have clean : Clean s.free.pop.toList := by
    have := inv.clean
    rw [e] at this
    rw [left]
    exact this
  have chain : chain { s with free := s.free.pop, caller := c } = s.chain := by
    simp only [chain, held, before, e, front, left, List.append_assoc, List.nil_append,
      List.singleton_append]
  constructor
  · exact Fifo.pop_size.trans inv.free_size
  · exact inv.pend_size
  · rw [chain]
    exact inv.nodup
  · rw [chain]
    exact inv.all
  · rw [chain]
    exact inv.fits
  · exact Clean.tail clean
  · exact at_ clean
  · exact inv.runner
  · simp only [buffered, chain, data]
    exact inv.stream
  · intro h
    exact absurd h (inv.open_ busy)

/-- The calling thread hands the buffer to the `run` thread. -/
lemma Inv.send (inv : Inv p s) (c : Caller) (before : s.caller.held = [b]) (held : c.held = [])
    (data : c.data = s.caller.data) (busy : s.caller.resting = false)
    (at_ : AtCaller p { s with pend := (s.pend.push b).1, batchStarttime := ts, caller := c }) :
    Inv p { s with pend := (s.pend.push b).1, batchStarttime := ts, caller := c } := by
  have total := inv.total
  rw [before, List.length_singleton] at total
  have room : s.pend.count < s.pend.size := by
    rw [inv.pend_size]
    omega
  have pushed := Fifo.toList_push b room
  -- A slot that `run` has left is not taken by the push.
  have kept : ∀ slot, s.runner = .popped slot →
      (s.pend.push b).1.Vacated slot ∧ (s.pend.push b).1.array slot = s.pend.array slot := by
    intro slot h
    have vacated := inv.runner
    rw [AtRunner, h] at vacated
    rw [recycled, h, List.length_singleton] at total
    apply Fifo.Vacated.push vacated
    rw [inv.pend_size]
    omega
  have chain : chain { s with pend := (s.pend.push b).1, batchStarttime := ts, caller := c } =
      s.chain := by
    simp only [chain, held, before, pushed, List.append_nil]
  have recycled : recycled { s with pend := (s.pend.push b).1, batchStarttime := ts, caller := c } =
      s.recycled := by
    simp only [BufferedFileWriterMT.recycled]
    cases h : s.runner with
    | pend => rfl
    | writing b done => rfl
    | popped slot =>
      simp only [(kept slot h).2]
  constructor
  · exact inv.free_size
  · exact (Fifo.push_size b).trans inv.pend_size
  · rw [chain, recycled]
    exact inv.nodup
  · rw [chain, recycled]
    exact inv.all
  · rw [chain]
    exact inv.fits
  · exact inv.clean
  · exact at_
  · have at_ := inv.runner
    simp only [AtRunner] at at_ ⊢
    cases h : s.runner with
    | pend => trivial
    | writing b' done =>
      rw [h] at at_
      obtain ⟨⟨bs, e⟩, le⟩ := at_
      refine ⟨⟨bs ++ [b], ?_⟩, le⟩
      rw [pushed, e]
      rfl
    | popped slot => exact (kept slot h).1
  · simp only [buffered, chain, data]
    exact inv.stream
  · intro h
    exact absurd h (inv.open_ busy)

/-- The calling thread copies the event into the buffer it fills. -/
lemma Inv.fill (inv : Inv p s) (h : s.caller = .fill data) (free : s.free.toList = b :: bs)
    (small : data.length ≤ p.bufferSize - b.count) :
    Inv p { s with
      mem := memcpy s.mem b data
      free := s.free.set s.free.head { b with count := b.count + data.length }
      caller := .idle } := by
  have filled := Fifo.toList_set_front (y := { b with count := b.count + data.length }) free
  have clean : Clean bs := by
    have := inv.clean
    rw [free] at this
    exact this
  have chain : s.chain = s.pend.toList ++ b :: bs := by
    simp only [BufferedFileWriterMT.chain, h, Caller.held, List.append_nil, free]
  have chain' : BufferedFileWriterMT.chain { s with
      mem := memcpy s.mem b data
      free := s.free.set s.free.head { b with count := b.count + data.length }
      caller := .idle } = s.pend.toList ++ { b with count := b.count + data.length } :: bs := by
    simp only [BufferedFileWriterMT.chain, Caller.held, List.append_nil, filled]
  have nodup := inv.nodup
  have all := inv.all
  have fits := inv.fits
  have stream := inv.stream
  rw [chain, List.map_append] at nodup
  rw [chain] at all fits
  -- the buffers of the others are elsewhere, and the bytes written are at the front
  have apart : ∀ b' ∈ s.pend.toList, b'.p ≠ b.p := by
    intro b' hb' e
    have nodup := (List.nodup_append.mp nodup).2.1
    rw [List.map_append, List.nodup_append] at nodup
    exact nodup.2.2 b'.p (List.mem_map_of_mem hb') b.p (List.mem_map_of_mem List.mem_cons_self) e
  have done : s.runner.done ≤ (s.pend.toList.flatMap (contents s.mem)).length := by
    have at_ := inv.runner
    rw [AtRunner] at at_
    cases hr : s.runner with
    | pend => exact Nat.zero_le _
    | popped slot => exact Nat.zero_le _
    | writing b' done =>
      rw [hr] at at_
      obtain ⟨⟨bs, e⟩, le⟩ := at_
      rw [e, List.flatMap_cons, List.length_append, contents_length]
      exact Nat.le_add_right_of_le le
  constructor
  · exact inv.free_size
  · exact inv.pend_size
  · show ((s.recycled ++ BufferedFileWriterMT.chain _).map Buffer.p).Nodup
    rw [chain']
    simpa only [List.map_append, List.map_cons] using nodup
  · show (s.recycled ++ BufferedFileWriterMT.chain _).length = p.depth
    rw [chain']
    simpa only [List.length_append, List.length_cons] using all
  · rw [chain']
    intro b' hb'
    rcases List.mem_append.mp hb' with hb' | hb'
    · exact fits b' (List.mem_append_left _ hb')
    · cases hb' with
      | head =>
        have := fits b (List.mem_append_right _ List.mem_cons_self)
        show b.count + data.length ≤ p.bufferSize
        omega
      | tail _ hb' => exact fits b' (List.mem_append_right _ (List.mem_cons_of_mem b hb'))
  · show Clean (Fifo.toList _).tail
    rw [filled]
    exact clean
  · trivial
  · exact inv.runner
  · show s.file ++ (List.flatMap _ (BufferedFileWriterMT.chain _)).drop s.runner.done ++ [] = s.given
    rw [buffered, chain, h] at stream
    simp only [Caller.data, List.flatMap_append, List.flatMap_cons, flatMap_clean clean,
      List.append_nil] at stream
    rw [chain', ← stream]
    simp only [List.flatMap_append, List.flatMap_cons, flatMap_memcpy_of_ne apart, contents_memcpy,
      flatMap_clean clean, List.append_nil]
    rw [List.drop_append_of_le_length done, List.drop_append_of_le_length done]
    simp only [List.append_assoc]
  · intro e
    exact absurd e (inv.open_ (by rw [h]; rfl))

/-- A recycled buffer is clean. -/
lemma clean_push (room : s.free.count < s.free.size) (clean : Clean s.free.toList) :
    Clean (s.free.push { b with count := 0 }).1.toList := by
  rw [Fifo.toList_push _ room]
  intro b' hb'
  rcases List.mem_append.mp hb' with hb' | hb'
  · exact clean b' hb'
  · rw [List.mem_singleton.mp hb']

lemma clean_tail_push (room : s.free.count < s.free.size) (clean : Clean s.free.toList.tail) :
    Clean (s.free.push { b with count := 0 }).1.toList.tail := by
  rw [Fifo.toList_push _ room]
  cases h : s.free.toList with
  | nil => exact nofun
  | cons b' bs =>
    rw [h] at clean
    intro b'' hb''
    rcases List.mem_append.mp hb'' with hb'' | hb''
    · exact clean b'' hb''
    · rw [List.mem_singleton.mp hb'']

/-- What the calling thread knows stays true when a buffer is recycled. -/
lemma AtCaller.recycle {pend : Fifo Buffer} {runner : Runner} (room : s.free.count < s.free.size)
    (at_ : AtCaller p s) :
    AtCaller p { s with
      pend := pend, free := (s.free.push { b with count := 0 }).1, runner := runner } := by
  have nonempty : s.free.toList ≠ [] → (s.free.push { b with count := 0 }).1.toList ≠ [] := by
    rw [Fifo.toList_push _ room]
    exact fun h => List.append_ne_nil_of_left_ne_nil h _
  rw [AtCaller] at at_ ⊢
  cases h : s.caller with
  | idle => trivial
  | flush closing => trivial
  | pend data ts =>
    rw [h] at at_
    exact at_
  | test data ts =>
    rw [h] at at_
    exact ⟨at_.1, nonempty at_.2⟩
  | pop data ts =>
    rw [h] at at_
    exact ⟨at_.1, nonempty at_.2⟩
  | push b data ts =>
    rw [h] at at_
    exact ⟨at_.1, clean_push room at_.2⟩
  | pendNext data =>
    rw [h] at at_
    exact ⟨at_.1, clean_push room at_.2⟩
  | fill data =>
    rw [h] at at_
    obtain ⟨b', bs, e, small⟩ := at_
    refine ⟨b', bs ++ [{ b with count := 0 }], ?_, small⟩
    rw [Fifo.toList_push _ room, e]
    rfl
  | flushPop closing =>
    rw [h] at at_
    exact nonempty at_
  | flushPush b closing =>
    rw [h] at at_
    exact clean_push room at_
  | pendn closing =>
    rw [h] at at_
    exact clean_push room at_

/-- When a flush is done the file holds all that was given. -/
lemma Inv.flushed (inv : Inv p s) (h : s.caller = .pendn closing) (written : s.pend.empty = true) :
    s.file = s.given := by
  have clean := inv.caller
  rw [AtCaller, h] at clean
  have stream := inv.stream
  rw [buffered, chain, h, empty_iff.mp written] at stream
  simp only [Caller.held, Caller.data, List.append_nil, List.nil_append, flatMap_clean clean,
    List.drop_nil] at stream
  exact stream

/-- The calling thread keeps the invariant. -/
lemma Inv.callerStep (inv : Inv p s) (h : s.callerStep p = .ok t) : Inv p t := by
  have at_ := inv.caller
  rw [AtCaller] at at_
  rw [BufferedFileWriterMT.callerStep] at h
  cases hc : s.caller with
  | idle =>
    rw [hc] at h
    cases h
  | pend data ts =>
    rw [hc] at h at_
    simp only at h at_
    split at h
    · cases h
    · cases h
      obtain ⟨b, bs, free⟩ := not_empty ‹_›
      have busy := inv.open_ (by rw [hc]; rfl)
      refine inv.advance (.test data ts) (by rw [hc]; rfl) (by rw [hc]; rfl) ⟨at_, ?_⟩
        fun e => absurd e busy
      rw [free]
      exact List.cons_ne_nil b bs
  | test data ts =>
    rw [hc] at h at_
    simp only at h at_
    have busy := inv.open_ (by rw [hc]; rfl)
    split at h
    · cases h
      exact inv.advance (.pop data ts) (by rw [hc]; rfl) (by rw [hc]; rfl) at_
        fun e => absurd e busy
    · rename_i keep
      cases h
      obtain ⟨b, bs, free⟩ := List.exists_cons_of_ne_nil at_.2
      rw [not_or, Nat.not_lt, Fifo.front_eq free] at keep
      exact inv.advance (.fill data) (by rw [hc]; rfl) (by rw [hc]; rfl) ⟨b, bs, free, keep.1⟩
        fun e => absurd e busy
  | pop data ts =>
    rw [hc] at h at_
    cases h
    exact inv.hold (.push _ data ts) (by rw [hc]; rfl) at_.2 rfl (by rw [hc]; rfl) (by rw [hc]; rfl)
      fun clean => ⟨at_.1, clean⟩
  | push b data ts =>
    rw [hc] at h at_
    cases h
    exact inv.send (.pendNext data) (by rw [hc]; rfl) rfl (by rw [hc]; rfl) (by rw [hc]; rfl) at_
  | pendNext data =>
    rw [hc] at h at_
    simp only at h at_
    split at h
    · cases h
    · cases h
      obtain ⟨b, bs, free⟩ := not_empty ‹_›
      have busy := inv.open_ (by rw [hc]; rfl)
      -- The buffer that was waited for has been recycled, so that the event fits.
      have none : b.count = 0 := by
        apply at_.2
        rw [free]
        exact List.mem_cons_self
      refine inv.advance (.fill data) (by rw [hc]; rfl) (by rw [hc]; rfl) ⟨b, bs, free, ?_⟩
        fun e => absurd e busy
      rw [none]
      exact at_.1
  | fill data =>
    rw [hc] at h at_
    obtain ⟨b, bs, free, small⟩ := at_
    simp only [Fifo.front_eq free, if_neg (Nat.not_lt_of_le small)] at h
    cases h
    exact inv.fill hc free small
  | flush closing =>
    rw [hc] at h at_
    simp only at h
    -- While no file is open none is being closed.
    have resting : s.fd = 0 → closing = false := by
      intro e
      have := (inv.rest e).2.2
      rw [hc] at this
      cases closing with
      | false => rfl
      | true => cases this
    split at h
    · rename_i some_
      cases h
      obtain ⟨nonempty, pos⟩ := Bool.and_eq_true_iff.mp some_
      obtain ⟨b, bs, free⟩ := not_empty (by simpa using nonempty)
      refine inv.advance (.flushPop closing) (by rw [hc]; rfl) (by rw [hc]; rfl) ?_ ?_
      · show s.free.toList ≠ []
        rw [free]
        exact List.cons_ne_nil b bs
      · intro e
        have none := (inv.rest e).2.1 b (by rw [free]; exact List.mem_cons_self)
        rw [Fifo.front_eq free, none] at pos
        cases pos
    · rename_i none_
      cases h
      refine inv.advance (.pendn closing) (by rw [hc]; rfl) (by rw [hc]; rfl) ?_ ?_
      · show Clean s.free.toList
        intro b hb
        cases free : s.free.toList with
        | nil =>
          rw [free] at hb
          cases hb
        | cons b' bs =>
          have clean := inv.clean
          rw [free] at hb clean
          cases hb with
          | tail _ hb => exact clean b hb
          | head =>
            have nonempty : ¬ s.free.empty = true := by
              rw [empty_iff, free]
              exact List.cons_ne_nil _ _
            simp only [nonempty, Fifo.front_eq free, Bool.not_false, Bool.true_and,
              decide_eq_true_eq] at none_
            exact Nat.eq_zero_of_not_pos none_
      · intro e
        rw [resting e]
        rfl
  | flushPop closing =>
    rw [hc] at h at_
    cases h
    exact inv.hold (.flushPush _ closing) (by rw [hc]; rfl) at_ rfl (by rw [hc]; rfl)
      (by rw [hc]; rfl) fun clean => clean
  | flushPush b closing =>
    rw [hc] at h at_
    cases h
    exact inv.send (.pendn closing) (by rw [hc]; rfl) rfl (by rw [hc]; rfl) (by rw [hc]; rfl) at_
  | pendn closing =>
    rw [hc] at h at_
    simp only at h
    split at h
    · rename_i written
      cases h
      have idle := inv.advance .idle (by rw [hc]; rfl) (by rw [hc]; rfl) trivial fun _ => rfl
      exact ⟨idle.free_size, idle.pend_size, idle.nodup, idle.all, idle.fits, idle.clean, trivial,
        idle.runner, idle.stream, fun _ => ⟨empty_iff.mp written, at_, rfl⟩⟩
    · cases h

/-- The `run` thread keeps the invariant. -/
lemma Inv.runStep (inv : Inv p s) {n : Nat} (h : s.runStep n = .ok t) : Inv p t := by
  have at_ := inv.runner
  rw [AtRunner] at at_
  rw [BufferedFileWriterMT.runStep] at h
  cases hr : s.runner with
  | pend =>
    rw [hr] at h
    simp only at h
    split at h
    · cases h
    · cases h
      obtain ⟨b, bs, e⟩ := not_empty ‹_›
      have recycled : s.recycled = [] := by rw [BufferedFileWriterMT.recycled, hr]
      have nodup := inv.nodup
      have all := inv.all
      have stream := inv.stream
      rw [recycled] at nodup all
      rw [buffered, hr] at stream
      exact ⟨inv.free_size, inv.pend_size, nodup, all, inv.fits, inv.clean, inv.caller,
        ⟨⟨bs, by rw [Fifo.front_eq e, e]⟩, Nat.zero_le _⟩, stream, inv.rest⟩
  | writing b done =>
    rw [hr] at h at_
    obtain ⟨⟨bs, e⟩, le⟩ := at_
    have recycled : s.recycled = [] := by rw [BufferedFileWriterMT.recycled, hr]
    have nodup := inv.nodup
    have all := inv.all
    have stream := inv.stream
    have chain : s.chain = b :: (bs ++ s.caller.held ++ s.free.toList) := by
      rw [BufferedFileWriterMT.chain, e]
      simp only [List.cons_append, List.append_assoc]
    have busy : s.fd ≠ 0 := by
      intro h
      rw [(inv.rest h).1] at e
      cases e
    rw [recycled] at nodup all
    simp only at h
    split at h
    · cases h
      refine ⟨inv.free_size, inv.pend_size, nodup, all, inv.fits, inv.clean, inv.caller,
        ⟨⟨bs, e⟩, ?_⟩, ?_, inv.rest⟩
      · rw [List.length_take, List.length_drop, contents_length]
        omega
      · -- the output is a first part of what is left of the buffer
        have left := List.prefix_iff_eq_append.mp
          (List.take_prefix n ((contents s.mem b).drop done))
        have within : done ≤ (contents s.mem b).length := by
          rw [contents_length]
          exact le
        have short := (List.take_prefix n ((contents s.mem b).drop done)).length_le
        show s.file ++ _ ++ (s.chain.flatMap (contents s.mem)).drop (done + _) ++ s.caller.data =
          s.given
        rw [← stream, buffered, chain, List.flatMap_cons, hr, ← List.drop_drop]
        simp only [Runner.done]
        rw [List.drop_append_of_le_length within, List.drop_append_of_le_length short]
        simp only [List.append_assoc]
        congr 1
        rw [← List.append_assoc, left]
    · rename_i all_
      cases h
      have array : s.pend.pop.array s.pend.head = b := by
        rw [Fifo.pop_array]
        exact Fifo.front_eq e
      -- The buffer that is written whole leaves the pending ones and waits to be recycled.
      have recycled' : BufferedFileWriterMT.recycled
          { s with pend := s.pend.pop, runner := .popped s.pend.head } = [b] := by
        rw [BufferedFileWriterMT.recycled]
        simp only [array]
      have chain' : BufferedFileWriterMT.chain
          { s with pend := s.pend.pop, runner := .popped s.pend.head } =
            bs ++ s.caller.held ++ s.free.toList := by
        simp only [BufferedFileWriterMT.chain, Fifo.pop_eq e]
      have fits := inv.fits
      rw [chain] at nodup all fits
      constructor
      · exact inv.free_size
      · exact Fifo.pop_size.trans inv.pend_size
      · rw [recycled', chain']
        exact nodup
      · rw [recycled', chain']
        exact all
      · rw [chain']
        exact fun b' hb' => fits b' (List.mem_cons_of_mem b hb')
      · exact inv.clean
      · exact inv.caller
      · exact Fifo.vacated_pop (Fifo.count_ne_zero e)
      · have written : done = (contents s.mem b).length := by
          rw [contents_length]
          omega
        rw [buffered, chain, List.flatMap_cons, hr] at stream
        simp only [Runner.done] at stream
        rw [written, List.drop_left] at stream
        rw [buffered, chain']
        exact stream
      · exact fun h => absurd h busy
  | popped slot =>
    rw [hr] at h at_
    cases h
    have total := inv.total
    have nodup := inv.nodup
    have all := inv.all
    have stream := inv.stream
    have recycled : s.recycled = [s.pend.array slot] := by rw [BufferedFileWriterMT.recycled, hr]
    rw [recycled] at nodup all total
    rw [List.length_singleton] at total
    have room : s.free.count < s.free.size := by
      rw [inv.free_size]
      omega
    have pushed := Fifo.toList_push ({ s.pend.array slot with count := 0 } : Buffer) room
    -- What is written to the slot that was left changes none of the pending buffers.
    have kept := Fifo.Vacated.toList_set at_ ({ s.pend.array slot with count := 0 } : Buffer)
    have chain' : BufferedFileWriterMT.chain { s with
        pend := s.pend.set slot { s.pend.array slot with count := 0 }
        free := (s.free.push { s.pend.array slot with count := 0 }).1
        runner := .pend } = s.chain ++ [{ s.pend.array slot with count := 0 }] := by
      simp only [BufferedFileWriterMT.chain, pushed, kept, List.append_assoc]
    constructor
    · exact (Fifo.push_size _).trans inv.free_size
    · exact inv.pend_size
    · show (BufferedFileWriterMT.chain _ |>.map Buffer.p).Nodup
      rw [chain', List.map_append]
      exact (List.perm_append_singleton _ _).nodup_iff.mpr nodup
    · show (BufferedFileWriterMT.chain _).length = p.depth
      rw [chain', List.length_append, List.length_singleton, Nat.add_comm]
      rw [List.length_append, List.length_singleton] at all
      exact all
    · rw [chain']
      intro b hb
      rcases List.mem_append.mp hb with hb | hb
      · exact inv.fits b hb
      · rw [List.mem_singleton.mp hb]
        exact Nat.zero_le _
    · exact clean_tail_push room inv.clean
    · exact inv.caller.recycle room
    · trivial
    · show s.file ++ (List.flatMap _ (BufferedFileWriterMT.chain _)).drop 0 ++ s.caller.data = s.given
      rw [buffered, hr] at stream
      rw [chain', List.flatMap_append, ← stream]
      simp only [Runner.done, List.drop_zero, List.append_assoc]
      rfl
    · intro e
      obtain ⟨pend, clean, resting⟩ := inv.rest e
      exact ⟨kept.trans pend, clean_push room clean, resting⟩

/-- The calls keep the invariant. -/
lemma Inv.call (inv : Inv p s) {as : List WriterOp} {c : WriterCall} (ok : Allowed p as s (.call c))
    (hc : s.caller = .idle) : Inv p (s.call c) := by
  have held : s.caller.held = [] := by rw [hc]; rfl
  have none_ : s.caller.data = [] := by rw [hc]; rfl
  cases c with
  | open_ fd =>
    obtain ⟨pend, clean, -⟩ := inv.rest ok.1
    refine ⟨inv.free_size, inv.pend_size, inv.nodup, inv.all, inv.fits, inv.clean, inv.caller,
      inv.runner, ?_, fun e => absurd e (Nat.ne_of_gt ok.2)⟩
    show [] ++ (s.chain.flatMap (contents s.mem)).drop s.runner.done ++ s.caller.data = []
    rw [chain, pend, held, none_, List.nil_append, List.nil_append, List.nil_append,
      flatMap_clean clean, List.drop_nil]
    rfl
  | writeEvent data ts =>
    have chain : (s.call (.writeEvent data ts)).chain = s.chain := by
      simp only [BufferedFileWriterMT.chain, held]
      rfl
    constructor
    · exact inv.free_size
    · exact inv.pend_size
    · rw [chain]
      exact inv.nodup
    · rw [chain]
      exact inv.all
    · rw [chain]
      exact inv.fits
    · exact inv.clean
    · exact ok.2
    · exact inv.runner
    · rw [buffered, chain]
      show s.file ++ s.buffered ++ data = s.given ++ data
      rw [← inv.stream, none_, List.append_nil]
    · exact fun e => absurd e (Nat.ne_of_gt ok.1)
  | flush => exact inv.advance (.flush false) held.symm none_.symm trivial fun _ => rfl
  | close =>
    rw [BufferedFileWriterMT.call]
    split
    · rename_i isOpen
      exact inv.advance (.flush true) held.symm none_.symm trivial
        fun e => absurd e (Nat.ne_of_gt isOpen)
    · rename_i closed
      rw [← Nat.eq_zero_of_not_pos closed]
      exact inv

/-- Every step keeps the invariant. -/
lemma Inv.step (inv : Inv p s) {as : List WriterOp} {op : WriterOp} (ok : Allowed p as s op)
    (h : s.step p op = .ok t) : Inv p t := by
  cases op with
  | caller => exact inv.callerStep h
  | run n => exact inv.runStep h
  | call c =>
    rw [BufferedFileWriterMT.step] at h
    cases hc : s.caller with
    | idle =>
      rw [hc] at h
      cases h
      exact inv.call ok hc
    | _ =>
      rw [hc] at h
      cases h

/-- The buffers after `_initialize`. -/
lemma initial_free (p : FileWriterParams) (n : Nat) (hn : n ≤ p.depth) :
    ((List.range n).foldl (fun f i => (f.push (Buffer.mk i 0)).1)
        (Fifo.new p.depth p.depth_pos (Buffer.mk 0 0))).size = p.depth ∧
      ((List.range n).foldl (fun f i => (f.push (Buffer.mk i 0)).1)
        (Fifo.new p.depth p.depth_pos (Buffer.mk 0 0))).toList =
          (List.range n).map fun i => Buffer.mk i 0 := by
  induction n with
  | zero => exact ⟨rfl, rfl⟩
  | succ n ih =>
    obtain ⟨size, toList⟩ := ih (Nat.le_of_succ_le hn)
    rw [List.range_succ, List.foldl_concat, List.map_append]
    refine ⟨(Fifo.push_size _).trans size, ?_⟩
    rw [Fifo.toList_push, toList]
    · rfl
    · rw [← Fifo.toList_length, toList, size, List.length_map, List.length_range]
      exact hn

variable (p) in
lemma inv_start (mem : Nat → Nat → UInt8) : Inv p (start p mem) := by
  obtain ⟨size, toList⟩ := initial_free p p.depth (Nat.le_refl _)
  have toList : (start p mem).free.toList = (List.range p.depth).map fun i => ⟨i, 0⟩ := toList
  have chain : chain (start p mem) = (List.range p.depth).map fun i => ⟨i, 0⟩ := toList
  have clean : Clean (start p mem).free.toList := by
    rw [toList]
    intro b hb
    obtain ⟨i, -, rfl⟩ := List.mem_map.mp hb
    rfl
  refine ⟨size, rfl, ?_, ?_, ?_, Clean.tail clean, trivial, trivial, ?_, fun _ => ⟨rfl, clean, rfl⟩⟩
  · show ((BufferedFileWriterMT.chain _).map Buffer.p).Nodup
    rw [chain, List.map_map]
    simp [Function.comp_def, List.nodup_range]
  · show (BufferedFileWriterMT.chain _).length = p.depth
    rw [chain, List.length_map, List.length_range]
  · intro b hb
    rw [chain] at hb
    obtain ⟨i, -, rfl⟩ := List.mem_map.mp hb
    exact Nat.zero_le _
  · show [] ++ (List.flatMap _ (BufferedFileWriterMT.chain _)).drop 0 ++ [] = []
    have clean : Clean (BufferedFileWriterMT.chain (start p mem)) := clean
    rw [flatMap_clean clean]
    rfl

/-- The invariant holds in every reachable state. -/
lemma inv_of_run {as : List WriterOp} (run : Run (step p) (Allowed p) (start p mem) as s) :
    Inv p s := by
  have next : ∀ as s op t, Inv p s → Allowed p as s op → s.step p op = .ok t → Inv p t :=
    fun _ _ _ _ inv ok h => inv.step ok h
  exact run.invariant (P := fun _ s => Inv p s) (inv_start p mem) next

/-- In every reachable state, whatever the schedule, the file and what is still buffered are the
    events that were given, so that the file is a prefix of them; an event is never copied into the
    buffer that is being written; every event that fits a buffer is taken; and when a flush returns,
    so when `close` does, the file holds everything. -/
theorem file_is_stream {as : List WriterOp}
    (run : Run (step p) (Allowed p) (start p mem) as s) :
    s.file ++ (s.buffered ++ s.caller.data) = s.given ∧
      (∀ data b done, s.caller = .fill data → s.runner = .writing b done →
        s.free.front.p ≠ b.p) ∧
      s.step p .caller ≠ .error .tooSmall ∧
      (∀ closing t, s.caller = .pendn closing → s.step p .caller = .ok t → t.file = t.given) ∧
      (s.fd = 0 → s.file = s.given) := by
  have inv := inv_of_run run
  refine ⟨?_, ?_, ?_, ?_, ?_⟩
  · rw [← List.append_assoc]
    exact inv.stream
  · intro data b done hc hr e
    have at_ := inv.caller
    have at_' := inv.runner
    rw [AtCaller, hc] at at_
    rw [AtRunner, hr] at at_'
    obtain ⟨b', bs, free, -⟩ := at_
    obtain ⟨⟨bs', pend⟩, -⟩ := at_'
    have nodup := inv.nodup
    rw [chain, hc, free, pend, List.map_append, List.map_append] at nodup
    -- Each buffer is in one place.
    have apart := (List.nodup_append.mp (List.nodup_append.mp nodup).2.1).2.2
    rw [Fifo.front_eq free] at e
    have front : b.p ∈ (b :: bs' ++ (Caller.fill data).held).map Buffer.p :=
      List.mem_map_of_mem (List.mem_append_left _ List.mem_cons_self)
    exact apart b.p front b'.p (List.mem_map_of_mem List.mem_cons_self) e.symm
  · intro h
    have at_ := inv.caller
    rw [AtCaller] at at_
    rw [step, callerStep] at h
    cases hc : s.caller with
    | fill data =>
      rw [hc] at h at_
      obtain ⟨b, bs, free, small⟩ := at_
      simp only [Fifo.front_eq free, if_neg (Nat.not_lt_of_le small)] at h
      cases h
    | _ =>
      rw [hc] at h
      simp only at h
      try split at h
      all_goals cases h
  · intro closing t hc h
    rw [step, callerStep, hc] at h
    simp only at h
    split at h
    · rename_i written
      cases h
      exact inv.flushed hc written
    · cases h
  · intro e
    obtain ⟨pend, clean, resting⟩ := inv.rest e
    have stream := inv.stream
    have held : s.caller.held = [] := by
      cases hc : s.caller with
      | push b data ts =>
        rw [hc] at resting
        cases resting
      | flushPush b closing =>
        rw [hc] at resting
        cases resting
      | _ => rfl
    have none_ : s.caller.data = [] := by
      cases hc : s.caller with
      | idle => rfl
      | flush closing => rfl
      | flushPop closing => rfl
      | flushPush b closing => rfl
      | pendn closing => rfl
      | _ =>
        rw [hc] at resting
        cases resting
    rw [buffered, chain, pend, held, none_, List.nil_append, List.nil_append, flatMap_clean clean,
      List.drop_nil, List.append_nil, List.append_nil] at stream
    exact stream

instance (as : List WriterOp) (s : BufferedFileWriterMT) : (op : WriterOp) → Decidable (Allowed p as s op)
  | .call (.open_ fd) => inferInstanceAs (Decidable (s.fd = 0 ∧ 0 < fd))
  | .call (.writeEvent data _) =>
    inferInstanceAs (Decidable (0 < s.fd ∧ data.length ≤ p.bufferSize))
  | .call .flush | .call .close | .caller | .run _ => .isTrue trivial

/-- Two buffers of four bytes. -/
def twoBuffers : FileWriterParams where
  depth := 2
  bufferSize := 4
  depth_pos := Nat.zero_lt_two

/-- The second event does not fit behind the first and is copied while the first is being written. -/
def twoEvents : List WriterOp :=
  [.call (.open_ 3), .call (.writeEvent [1, 2, 3] 5), .caller, .caller, .caller,
    .call (.writeEvent [4, 5] 6), .caller, .caller, .caller, .caller, .run 0, .run 2, .caller,
    .caller, .run 1, .run 0, .call .close, .caller, .run 0, .caller, .caller, .run 0, .run 9, .run 0,
    .caller]

/-- After `close` the file holds both events. -/
theorem file_is_stream_closed :
    ∃ s, Run (step twoBuffers) (Allowed twoBuffers) (start twoBuffers fun _ _ => 0) twoEvents s ∧
      s.given = [1, 2, 3, 4, 5] ∧ s.file = s.given := by
  obtain ⟨s, run, h⟩ := Run.of_replay_any (step twoBuffers) (Allowed twoBuffers)
    (start twoBuffers fun _ _ => 0) twoEvents (fun s => s.fd = 0 ∧ s.given = [1, 2, 3, 4, 5])
    (by decide +kernel)
  obtain ⟨closed, given⟩ := of_decide_eq_true h
  exact ⟨s, run, given, (file_is_stream run).2.2.2.2 closed⟩

end BufferedFileWriterMT

end Lcls2.Drp
