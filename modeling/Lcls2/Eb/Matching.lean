import Lcls2.Eb.Batching
import Lcls2.Eb.EbCtrbInBase

/-!
# Every input gets its result

Inputs come in pulse ID order and results in any order of their batches. A round of `_matchUp` takes
the results batch with the lowest first pulse ID and the oldest input; `Outcome` says what
`_deliver` does with the two, `Inv` what holds between two rounds.

* `deliverLoop_ok` is the one induction over the loop of `_deliver`.
* `Inv.iterate` is a round: it never faults, and it ends the loop or makes `size` smaller.
* `results_match_inputs` is the result for runs.
-/

namespace Lcls2.Eb
open Lcls2.Lib

/-- The result and the index an input is delivered with. -/
def Answers (p : TebCtrbParams) (res : List ResultDgram) (e : EbDgram × Nat) (o : ResultDgram × Nat) :
    Prop :=
  o.2 = e.2 ∧ if p.common e.1 then o.1 ∈ res ∧ o.1.pulseId = e.1.pulseId else o.1 = bypassResult e.1

namespace EbCtrbInBase

variable {p : TebCtrbParams} {s t : EbCtrbInBase}

/-- A pointer to what is left of a batch, if anything is. -/
def cursorOf {δ : Type} (adx : Nat) : List δ → Option (Cursor δ)
  | [] => none
  | d :: ds => some ⟨adx, d :: ds⟩

@[simp] lemma cursorOf_nil {δ : Type} {adx : Nat} : cursorOf adx ([] : List δ) = none := rfl

@[simp] lemma cursorOf_cons {δ : Type} {adx : Nat} {d : δ} {ds : List δ} :
    cursorOf adx (d :: ds) = some ⟨adx, d :: ds⟩ := rfl

lemma cursorOf_of_ne {δ : Type} {adx : Nat} {l : List δ} (ne : l ≠ []) :
    cursorOf adx l = some ⟨adx, l⟩ := by
  cases l with
  | nil => exact absurd rfl ne
  | cons d ds => rfl

/-- What `_deliver` does with a results batch and a batch of inputs: `used` and `done` are consumed,
    `left` and `undel` remain, and `out` is delivered. -/
structure Outcome (s : EbCtrbInBase) (rs : List ResultDgram) (is : List EbDgram) (idx : Nat)
    (t : EbCtrbInBase) (used left : List ResultDgram) (done undel : List EbDgram)
    (out : List (ResultDgram × Nat)) : Prop where
  results : rs = used ++ left
  inputs : is = done ++ undel
  left_chain : left ≠ [] → IsChain (EbDgram.isEOL ·.toEbDgram) left
  undel_chain : undel ≠ [] → IsChain EbDgram.isEOL undel
  matched : List.Forall₂ (fun e o => o.1 ∈ rs ∧ o.1.pulseId = e.1.pulseId ∧ o.2 = e.2)
    (done.zipIdx idx) out
  passed : ∀ r ∈ used, (∀ u ∈ undel, r.pulseId < u.pulseId) ∧ ∃ d ∈ is, r.pulseId ≤ d.pulseId
  later : ∀ r ∈ left.head?, ∀ u ∈ undel.head?, u.pulseId < r.pulseId
  last : t.iPidPrv = ((done.getLast?).map EbDgram.pulseId).getD s.iPidPrv
  frame : t.processed = s.processed ++ out ∧ t.pending = s.pending ∧ t.deferred = s.deferred ∧
    t.looping = s.looping

/-- Nothing more is done with what remains of the two batches. -/
lemma Outcome.stop {rs : List ResultDgram} {is : List EbDgram} (idx : Nat)
    (rchain : rs ≠ [] → IsChain (EbDgram.isEOL ·.toEbDgram) rs)
    (ichain : is ≠ [] → IsChain EbDgram.isEOL is)
    (later : ∀ r ∈ rs.head?, ∀ u ∈ is.head?, u.pulseId < r.pulseId) :
    Outcome s rs is idx s [] rs [] is [] where
  results := rfl
  inputs := rfl
  left_chain := rchain
  undel_chain := ichain
  matched := .nil
  passed := by simp
  later := later
  last := rfl
  frame := ⟨(List.append_nil _).symm, rfl, rfl, rfl⟩

variable {rs used left : List ResultDgram} {is done undel : List EbDgram} {idx : Nat}
  {out : List (ResultDgram × Nat)} {result : ResultDgram} {input : EbDgram}

/-- The first result is delivered with the first input. -/
lemma Outcome.match_cons (outcome : Outcome (s.processResult result idx) rs is (idx + 1) t used left done
      undel out) (same : result.pulseId = input.pulseId)
    (isorted : (input :: is).Pairwise (·.pulseId < ·.pulseId)) :
    Outcome s (result :: rs) (input :: is) idx t (result :: used) left (input :: done) undel
      ((result, idx) :: out) where
  results := by rw [outcome.results, List.cons_append]
  inputs := by rw [outcome.inputs, List.cons_append]
  left_chain := outcome.left_chain
  undel_chain := outcome.undel_chain
  matched := by
    rw [List.zipIdx_cons]
    refine .cons ⟨List.mem_cons_self, same, rfl⟩ ?_
    refine outcome.matched.imp ?_
    rintro e o ⟨mem, eq⟩
    exact ⟨List.mem_cons_of_mem result mem, eq⟩
  passed := by
    intro r hr
    rcases List.mem_cons.mp hr with rfl | hr
    · refine ⟨?_, input, List.mem_cons_self, Nat.le_of_eq same⟩
      intro u hu
      rw [same]
      apply List.rel_of_pairwise_cons isorted
      rw [outcome.inputs]
      exact List.mem_append_right done hu
    · obtain ⟨before, d, hd, le⟩ := outcome.passed r hr
      exact ⟨before, d, List.mem_cons_of_mem input hd, le⟩
  later := outcome.later
  last := by
    rw [outcome.last]
    cases done with
    | nil => exact same
    | cons d ds => rfl
  frame := by
    obtain ⟨processed, frame⟩ := outcome.frame
    refine ⟨?_, frame⟩
    rw [processed, processResult, List.append_assoc]
    rfl

variable (p s result) in
/-- Only the count of missing inputs changes when a result is discarded. -/
lemma discardResult_frame :
    (s.discardResult p result).processed = s.processed ∧
    (s.discardResult p result).pending = s.pending ∧
    (s.discardResult p result).deferred = s.deferred ∧
    (s.discardResult p result).looping = s.looping ∧
    (s.discardResult p result).iPidPrv = s.iPidPrv := by
  simp only [discardResult]
  split
  · exact ⟨rfl, rfl, rfl, rfl, rfl⟩
  · exact ⟨rfl, rfl, rfl, rfl, rfl⟩

/-- The first result is discarded. -/
lemma Outcome.discard_cons (outcome : Outcome (s.discardResult p result) rs (input :: is) idx t used left
      done undel out) (before : result.pulseId < input.pulseId)
    (isorted : (input :: is).Pairwise (·.pulseId < ·.pulseId)) :
    Outcome s (result :: rs) (input :: is) idx t (result :: used) left done undel out := by
  obtain ⟨hprocessed, hpending, hdeferred, hlooping, hlast⟩ :=
    discardResult_frame p s result
  obtain ⟨processed, pending, deferred, looping⟩ := outcome.frame
  refine ⟨?_, outcome.inputs, outcome.left_chain, outcome.undel_chain, ?_, ?_, outcome.later, ?_, ?_⟩
  · rw [outcome.results, List.cons_append]
  · refine outcome.matched.imp ?_
    rintro e o ⟨mem, eq⟩
    exact ⟨List.mem_cons_of_mem result mem, eq⟩
  · intro r hr
    rcases List.mem_cons.mp hr with rfl | hr
    · refine ⟨?_, input, List.mem_cons_self, Nat.le_of_lt before⟩
      intro u hu
      have hu : u ∈ input :: is := by
        rw [outcome.inputs]
        exact List.mem_append_right done hu
      rcases List.mem_cons.mp hu with rfl | hu
      · exact before
      · exact Nat.lt_trans before (List.rel_of_pairwise_cons isorted hu)
    · exact outcome.passed r hr
  · rw [outcome.last, hlast]
  · exact ⟨processed.trans (by rw [hprocessed]), pending.trans hpending, deferred.trans hdeferred,
      looping.trans hlooping⟩

/-- The loop of `_deliver` never faults on ascending batches with positive pulse IDs. -/
lemma deliverLoop_ok (rAdx iAdx idx : Nat)
    (rchain : IsChain (EbDgram.isEOL ·.toEbDgram) rs) (ichain : IsChain EbDgram.isEOL is)
    (isorted : is.Pairwise (·.pulseId < ·.pulseId))
    (rpos : ∀ r ∈ rs, 0 < r.pulseId) (newer : ∀ d ∈ is, s.iPidPrv < d.pulseId) :
    ∃ t used left done undel out,
      deliverLoop p rs is rAdx iAdx idx s =
        .ok (t, cursorOf (rAdx + used.length) left, cursorOf (iAdx + done.length) undel) ∧
      Outcome s rs is idx t used left done undel out := by
  induction rs generalizing is rAdx iAdx idx s with
  | nil => exact absurd rfl rchain.ne
  | cons result rs ih =>
    cases is with
    | nil => exact absurd rfl ichain.ne
    | cons input is =>
      have pos : result.pulseId ≠ 0 := Nat.ne_of_gt (rpos result List.mem_cons_self)
      have rpos : ∀ r ∈ rs, 0 < r.pulseId := fun r hr => rpos r (List.mem_cons_of_mem result hr)
      have new := newer input List.mem_cons_self
      have next : ∀ d ∈ is, input.pulseId < d.pulseId := fun d hd => List.rel_of_pairwise_cons isorted hd
      have isorted' := (List.pairwise_cons.mp isorted).2
      -- The three branches of the loop: discard the result, match, leave both.
      rcases Nat.lt_trichotomy result.pulseId input.pulseId with before | same | after
      · obtain ⟨marked, rfl⟩ | ⟨unmarked, rchain⟩ := isChain_cons.mp rchain
        · refine ⟨_, [result], [], [], input :: is, [], ?_,
            (Outcome.stop idx nofun (fun _ => ichain) nofun).discard_cons (p := p) before isorted⟩
          simp [deliverLoop, Nat.le_of_lt before, Nat.ne_of_lt before, pos, marked]
        · have hlast : (s.discardResult p result).iPidPrv = s.iPidPrv :=
            (discardResult_frame p s result).2.2.2.2
          have newer : ∀ d ∈ input :: is, (s.discardResult p result).iPidPrv < d.pulseId := by
            rwa [hlast]
          obtain ⟨t, used, left, done, undel, out, h, outcome⟩ :=
            ih (rAdx + 1) iAdx idx rchain ichain isorted rpos newer
          refine ⟨t, result :: used, left, done, undel, out, ?_, outcome.discard_cons before isorted⟩
          simp only [deliverLoop, Nat.le_of_lt before, Nat.ne_of_lt before, pos, unmarked, if_true,
            if_false, Bool.false_eq_true, h, List.length_cons]
          rw [show rAdx + 1 + used.length = rAdx + (used.length + 1) by omega]
      · have due : ¬ input.pulseId ≤ s.iPidPrv := Nat.not_le_of_gt new
        have pos : input.pulseId ≠ 0 := by rwa [← same]
        obtain ⟨imarked, rfl⟩ | ⟨iunmarked, ichain⟩ := isChain_cons.mp ichain
        · have rest : (if result.isEOL then none else some ⟨rAdx + 1, rs⟩) = cursorOf (rAdx + 1) rs ∧
              (rs ≠ [] → IsChain (EbDgram.isEOL ·.toEbDgram) rs) := by
            obtain ⟨marked, rfl⟩ | ⟨unmarked, rchain⟩ := isChain_cons.mp rchain
            · exact ⟨by simp [marked], fun ne => absurd rfl ne⟩
            · exact ⟨by simp [unmarked, cursorOf_of_ne rchain.ne], fun _ => rchain⟩
          refine ⟨_, [result], rs, [input], [], [(result, idx)], ?_,
            (Outcome.stop (idx + 1) rest.2 nofun nofun).match_cons same isorted⟩
          simp [deliverLoop, same, pos, due, imarked, rest.1]
        · obtain ⟨rmarked, rfl⟩ | ⟨runmarked, rchain⟩ := isChain_cons.mp rchain
          · refine ⟨_, [result], [], [input], is, [(result, idx)], ?_,
              (Outcome.stop (idx + 1) nofun (fun _ => ichain) nofun).match_cons same isorted⟩
            simp [deliverLoop, same, pos, due, iunmarked, rmarked, cursorOf_of_ne ichain.ne]
          · have newer : ∀ d ∈ is, (s.processResult result idx).iPidPrv < d.pulseId := by
              intro d hd
              show result.pulseId < d.pulseId
              rw [same]
              exact next d hd
            obtain ⟨t, used, left, done, undel, out, h, outcome⟩ :=
              ih (rAdx + 1) (iAdx + 1) (idx + 1) rchain ichain isorted' rpos newer
            refine ⟨t, result :: used, left, input :: done, undel, (result, idx) :: out, ?_,
              outcome.match_cons same isorted⟩
            simp only [deliverLoop, same, Nat.le_refl, pos, due, iunmarked, runmarked, if_true,
              if_false, Bool.false_eq_true, h, List.length_cons]
            rw [show rAdx + 1 + used.length = rAdx + (used.length + 1) by omega,
              show iAdx + 1 + done.length = iAdx + (done.length + 1) by omega]
      · refine ⟨s, [], result :: rs, [], input :: is, [], ?_, .stop idx (fun _ => rchain) (fun _ => ichain) ?_⟩
        · simp [deliverLoop, Nat.not_le_of_gt after]
        · intro r hr u hu
          cases hr
          cases hu
          exact after

/-- The first pulse ID of a results batch. -/
def first (c : Cursor ResultDgram) : Nat := (c.chain.head?.map (·.pulseId)).getD 0

/-- Deferring a batch whose first pulse ID is new puts it in its place. -/
lemma defer_ok {c : Cursor ResultDgram} {ds : List (Cursor ResultDgram)} (ne : ∀ x ∈ c :: ds, x.chain ≠ [])
    (new : ∀ x ∈ ds, first x ≠ first c) (order : ds.Pairwise (first · < first ·)) :
    ∃ l, defer c ds = .ok l ∧ l.Perm (c :: ds) ∧ l.Pairwise (first · < first ·) := by
  induction ds with
  | nil => exact ⟨[c], rfl, .refl _, List.pairwise_singleton _ _⟩
  | cons d ds ih =>
    obtain ⟨r, rs, hr⟩ := List.exists_cons_of_ne_nil (ne c (by simp))
    obtain ⟨b, bs, hb⟩ := List.exists_cons_of_ne_nil (ne d (by simp))
    have hc : first c = r.pulseId := by simp [first, hr]
    have hd : first d = b.pulseId := by simp [first, hb]
    have apart : r.pulseId ≠ b.pulseId := by
      rw [← hc, ← hd]
      exact (new d List.mem_cons_self).symm
    obtain ⟨low, order'⟩ := List.pairwise_cons.mp order
    rcases Nat.lt_or_gt_of_ne apart with lt | gt
    · refine ⟨c :: d :: ds, by simp [defer, hr, hb, apart, lt], .refl _, .cons ?_ order⟩
      intro x hx
      rw [hc]
      rcases List.mem_cons.mp hx with rfl | hx
      · rwa [hd]
      · exact Nat.lt_trans lt (hd ▸ low x hx)
    · have ne' : ∀ x ∈ c :: ds, x.chain ≠ [] := fun x hx => ne x (by
        rcases List.mem_cons.mp hx with rfl | hx
        · exact List.mem_cons_self
        · exact List.mem_cons_of_mem _ (List.mem_cons_of_mem _ hx))
      obtain ⟨l, h, perm, sorted⟩ := ih ne' (fun x hx => new x (List.mem_cons_of_mem d hx)) order'
      refine ⟨d :: l, ?_, (perm.cons d).trans (.swap c d ds), .cons ?_ sorted⟩
      · simp [defer, hr, hb, apart, Nat.not_lt_of_gt gt, h, Except.map]
      · intro x hx
        rcases List.mem_cons.mp (perm.subset hx) with rfl | hx
        · rwa [hc, hd]
        · exact low x hx

/-- An input batch: it is read to its end, and is of the common group or one datagram outside it. -/
structure BatchOk (p : TebCtrbParams) (b : Cursor EbDgram) : Prop where
  chain : IsChain EbDgram.isEOL b.chain
  kind : (∀ d ∈ b.chain, p.common d = true) ∨ ∃ d, b.chain = [d] ∧ p.common d = false
  fits : b.adx + b.chain.length ≤ p.numBuffers

/-- A results batch: it is read to its end and ascends. -/
structure ResultsOk (c : Cursor ResultDgram) : Prop where
  chain : IsChain (EbDgram.isEOL ·.toEbDgram) c.chain
  sorted : c.chain.Pairwise (·.pulseId < ·.pulseId)

/-- What holds between two rounds. -/
structure Inv (p : TebCtrbParams) (ins : List (EbDgram × Nat)) (res : List ResultDgram)
    (s : EbCtrbInBase) : Prop where
  split : ∃ done, ins = done ++ s.undelivered ∧ List.Forall₂ (Answers p res) done s.processed
  last : ∀ u ∈ s.undelivered, s.iPidPrv < u.1.pulseId
  bound : s.iPidPrv = 0 ∨ ∃ i ∈ ins, s.iPidPrv = i.1.pulseId
  pending : ∀ b ∈ s.pending, BatchOk p b
  cursor : ∀ c, s.inputs = some c → ∃ front rest, s.pending = front :: rest ∧
    IsChain EbDgram.isEOL c.chain ∧ ∃ gone, front.entries = gone ++ c.entries
  results : ∀ c ∈ s.deferred, ResultsOk c
  order : s.deferred.Pairwise (first · < first ·)
  known : ∀ r ∈ s.waiting, r ∈ res
  distinct : (s.waiting.map (·.pulseId)).Nodup
  passed : ∀ r ∈ res, r ∈ s.waiting ∨
    (∀ u ∈ s.undelivered, r.pulseId < u.1.pulseId) ∧ ∃ i ∈ ins, r.pulseId ≤ i.1.pulseId
  sorted : ins.Pairwise (·.1.pulseId < ·.1.pulseId)
  ipos : ∀ i ∈ ins, 0 < i.1.pulseId
  rpos : ∀ r ∈ res, 0 < r.pulseId

variable {ins fin : List (EbDgram × Nat)} {res : List ResultDgram} {c : Cursor EbDgram}

/-- Delivering the first undelivered inputs, and consuming results that no later input needs. -/
lemma Inv.advance (inv : Inv p ins res s) (und : s.undelivered = fin ++ t.undelivered)
    (processed : t.processed = s.processed ++ out) (answers : List.Forall₂ (Answers p res) fin out)
    (last : t.iPidPrv = (fin.getLast?.map (·.1.pulseId)).getD s.iPidPrv)
    (pending : ∀ b ∈ t.pending, b ∈ s.pending)
    (cursor : ∀ c, t.inputs = some c → ∃ front rest, t.pending = front :: rest ∧
      IsChain EbDgram.isEOL c.chain ∧ ∃ gone, front.entries = gone ++ c.entries)
    (results : ∀ c ∈ t.deferred, ResultsOk c) (order : t.deferred.Pairwise (first · < first ·))
    (waiting : s.waiting.Perm (used ++ t.waiting))
    (passed : ∀ r ∈ used, (∀ u ∈ t.undelivered, r.pulseId < u.1.pulseId) ∧
      ∃ i ∈ ins, r.pulseId ≤ i.1.pulseId) : Inv p ins res t := by
  obtain ⟨done, split, delivered⟩ := inv.split
  have sub : ∀ u ∈ t.undelivered, u ∈ s.undelivered := by
    intro u hu
    rw [und]
    exact List.mem_append_right fin hu
  have mem : ∀ u ∈ s.undelivered, u ∈ ins := by
    intro u hu
    rw [split]
    exact List.mem_append_right done hu
  have sorted := inv.sorted
  rw [split, und] at sorted
  have later := (List.pairwise_append.mp (List.pairwise_append.mp sorted).2.1).2.2
  refine ⟨⟨done ++ fin, ?_, ?_⟩, ?_, ?_, fun b hb => inv.pending b (pending b hb), cursor, results,
    order, ?_, ?_, ?_, inv.sorted, inv.ipos, inv.rpos⟩
  · rw [split, und, List.append_assoc]
  · rw [processed]
    exact List.rel_append delivered answers
  · intro u hu
    rw [last]
    cases h : fin.getLast? with
    | none => exact inv.last u (sub u hu)
    | some e => exact later e (List.mem_of_getLast? h) u hu
  · rw [last]
    cases h : fin.getLast? with
    | none => exact inv.bound
    | some e =>
      right
      refine ⟨e, mem e ?_, rfl⟩
      rw [und]
      exact List.mem_append_left _ (List.mem_of_getLast? h)
  · intro r hr
    exact inv.known r (waiting.symm.subset (List.mem_append_right used hr))
  · have h := (waiting.map (·.pulseId)).nodup inv.distinct
    rw [List.map_append] at h
    exact (List.nodup_append.mp h).2.1
  · intro r hr
    rcases inv.passed r hr with hw | ⟨before, bound⟩
    · rcases List.mem_append.mp (waiting.subset hw) with hu | hw
      · exact .inr (passed r hu)
      · exact .inl hw
    · exact .inr ⟨fun u hu => before u (sub u hu), bound⟩

/-- The batch the loop looks at: what is left of the oldest one. -/
lemma Inv.current (inv : Inv p ins res s) (h : s.inputs.or s.pending.head? = some c) :
    ∃ front rest, s.pending = front :: rest ∧ IsChain EbDgram.isEOL c.chain ∧
      (∃ gone, front.entries = gone ++ c.entries) ∧
      s.undelivered = c.entries ++ rest.flatMap Cursor.entries := by
  cases hi : s.inputs with
  | some i =>
    rw [hi] at h
    cases h
    obtain ⟨front, rest, hp, chain, gone⟩ := inv.cursor c hi
    exact ⟨front, rest, hp, chain, gone, by simp [undelivered, hi, hp]⟩
  | none =>
    rw [hi] at h
    cases hp : s.pending with
    | nil =>
      rw [hp] at h
      cases h
    | cons front rest =>
      rw [hp] at h
      cases h
      have ok := inv.pending c (by simp [hp])
      exact ⟨c, rest, rfl, ok.chain, ⟨[], rfl⟩, by simp [undelivered, hi, hp]⟩

/-- How much there is to do. -/
def size (s : EbCtrbInBase) : Nat := s.undelivered.length + s.waiting.length

/-- The loop may end: the next input, if there is one, waits for a result that has not come. -/
def Settled (p : TebCtrbParams) (s : EbCtrbInBase) : Prop :=
  ∀ u ∈ s.undelivered.head?, p.common u.1 = true ∧ ∀ r ∈ s.waiting, u.1.pulseId < r.pulseId

/-- What a round does: it keeps the invariant, and it goes on with less to do or ends the loop. -/
structure Round (p : TebCtrbParams) (ins : List (EbDgram × Nat)) (res : List ResultDgram)
    (s t : EbCtrbInBase) : Prop where
  inv : Inv p ins res t
  ends : t.looping = s.looping ∧ size t < size s ∨ t.looping = false ∧ size t ≤ size s ∧ Settled p t

lemma bypassResult_pulseId (input : EbDgram) : (bypassResult input).pulseId = input.pulseId := by
  show (EbDgram.setEOL _).pulseId = input.pulseId
  rw [EbDgram.setEOL_pulseId]
  exact input.copy_pulseId

lemma bypassResult_isEOL (input : EbDgram) : (bypassResult input).isEOL = true :=
  EbDgram.setEOL_isEOL _

/-- The only datagram of a bypass batch is delivered with the result made for it. -/
lemma deliver_bypass {adx : Nat} (pos : 0 < input.pulseId) (new : s.iPidPrv < input.pulseId)
    (marked : input.isEOL = true) :
    s.deliver p ⟨0, [bypassResult input]⟩ ⟨adx, [input]⟩ =
      .ok (s.processResult (bypassResult input) (p.index adx), none, none) := by
  simp [deliver, deliverLoop, bypassResult_pulseId, bypassResult_isEOL, marked, Nat.ne_of_gt pos,
    Nat.not_le_of_gt new]

/-- A pointer into a batch that bypasses the TEB is a pointer to the whole batch. -/
lemma BatchOk.bypass {front : Cursor EbDgram} (ok : BatchOk p front) {gone : List (EbDgram × Nat)}
    (suffix : front.entries = gone ++ c.entries) (hc : c.chain = input :: is)
    (common : p.common input = false) : front = c ∧ is = [] := by
  have mem : (input, c.adx) ∈ front.entries := by
    rw [suffix, Cursor.entries, hc, List.zipIdx_cons]
    exact List.mem_append_right gone List.mem_cons_self
  rcases ok.kind with all | ⟨d, hd, _⟩
  · have h := all input (List.fst_mem_of_mem_zipIdx mem)
    rw [common] at h
    cases h
  · rw [Cursor.entries, Cursor.entries, hc, hd, List.zipIdx_cons, List.zipIdx_nil,
      List.zipIdx_cons] at suffix
    have len := congrArg List.length suffix
    simp only [List.length_append, List.length_cons, List.length_nil, List.length_zipIdx] at len
    have hgone : gone = [] := List.length_eq_zero_iff.mp (by omega)
    have his : is = [] := List.length_eq_zero_iff.mp (by omega)
    subst hgone
    subst his
    simp only [List.zipIdx_nil, List.nil_append, List.cons.injEq, Prod.mk.injEq, and_true] at suffix
    obtain ⟨rfl, adx⟩ := suffix
    refine ⟨?_, rfl⟩
    cases front
    cases c
    simp_all

/-- A round with a bypass input delivers it. -/
lemma Inv.bypass (inv : Inv p ins res s) (h : s.inputs.or s.pending.head? = some c)
    (hc : c.chain = input :: is) (common : p.common input = false) (pos : 0 < p.maxInputSize)
    (small : p.numBuffers * p.maxInputSize ≤ 2 ^ 32) :
    ∃ t, s.deliverBypass p c input = .ok t ∧ Round p ins res s t := by
  obtain ⟨front, rest, hp, chain, ⟨gone, suffix⟩, und⟩ := inv.current h
  have ok := inv.pending front (by simp [hp])
  obtain ⟨rfl, rfl⟩ := ok.bypass suffix hc common
  have entries : front.entries = [(input, front.adx)] := by simp [Cursor.entries, hc]
  have here : (input, front.adx) ∈ s.undelivered := by
    rw [und, entries]
    exact List.mem_append_left _ List.mem_cons_self
  have marked : input.isEOL = true := by
    rw [hc] at chain
    rcases isChain_cons.mp chain with ⟨marked, _⟩ | ⟨_, chain⟩
    · exact marked
    · exact absurd rfl chain.ne
  have index : p.index front.adx = front.adx := by
    have fits := ok.fits
    rw [hc] at fits
    exact TebCtrbParams.index_eq pos small fits
  have inside : (input, front.adx) ∈ ins := by
    obtain ⟨done, split, _⟩ := inv.split
    rw [split]
    exact List.mem_append_right done here
  have run : s.deliver p ⟨0, [bypassResult input]⟩ ⟨front.adx, [input]⟩ = _ :=
    deliver_bypass (inv.ipos _ inside) (inv.last _ here) marked
  have hfront : front = ⟨front.adx, [input]⟩ := by
    rw [← hc]
  let t : EbCtrbInBase := { s.processResult (bypassResult input) front.adx with
    inputs := none
    pending := rest
    bypassCount := s.bypassCount + 1
    eventCount := s.eventCount + 1 + 1 }
  have left : t.undelivered = rest.flatMap Cursor.entries := rfl
  refine ⟨t, ?_, ?_, .inl ⟨rfl, ?_⟩⟩
  · rw [deliverBypass, hfront, run, index]
    simp [bind, Except.bind, processResult, hp, hc, t]
  · have consumed : s.undelivered = [(input, front.adx)] ++ t.undelivered := by
      rw [und, entries, left]
    have answers : List.Forall₂ (Answers p res) [(input, front.adx)]
        [(bypassResult input, front.adx)] :=
      .cons ⟨rfl, by simp [common]⟩ .nil
    have waits : s.waiting.Perm ([] ++ t.waiting) := .refl _
    apply inv.advance consumed rfl answers (bypassResult_pulseId input) ?_ nofun inv.results inv.order
      waits nofun
    intro b hb
    rw [hp]
    exact List.mem_cons_of_mem front hb
  · have less : t.undelivered.length < s.undelivered.length := by
      rw [und, entries, left]
      simp
    exact Nat.add_lt_add_right less _

/-- Two pointers into a batch that are where they were have consumed nothing. -/
lemma cursorOf_same {δ : Type} {adx : Nat} {gone left : List δ} {c : Cursor δ}
    (h : cursorOf (adx + gone.length) left = some c) (same : c.adx = adx) : gone = [] := by
  cases left with
  | nil => cases h
  | cons d ds =>
    cases h
    have len : adx + gone.length = adx := same
    exact List.length_eq_zero_iff.mp (by omega)

/-- The datagrams of a pointer's entries. -/
lemma entries_fst {δ : Type} (c : Cursor δ) : c.entries.map Prod.fst = c.chain :=
  List.zipIdx_map_fst c.adx c.chain

/-- What is left of a batch has the entries behind those that are done. -/
lemma undelivered_of_cursorOf {adx : Nat} {undel : List EbDgram} {rest : List (Cursor EbDgram)}
    (inputs : t.inputs = cursorOf adx undel) {front : Cursor EbDgram}
    (pending : t.pending = if undel = [] then rest else front :: rest) :
    t.undelivered = undel.zipIdx adx ++ rest.flatMap Cursor.entries := by
  cases undel with
  | nil => simp [undelivered, inputs, pending]
  | cons d ds => simp [undelivered, inputs, pending, Cursor.entries]

/-- After `_deliver`, with the results that are left back in the list, the invariant holds again, and
    there is less to do by what was consumed. -/
lemma Inv.outcome {v : EbCtrbInBase} {results : Cursor ResultDgram}
    {deferred : List (Cursor ResultDgram)} {front : Cursor EbDgram} {rest : List (Cursor EbDgram)}
    (inv : Inv p ins res s) (outcome : Outcome s results.chain c.chain c.adx v used left done undel out)
    (und : s.undelivered = c.entries ++ rest.flatMap Cursor.entries) (hp : s.pending = front :: rest)
    (suffix : ∃ gone, front.entries = gone ++ c.entries)
    (hd : s.deferred = results :: deferred) (common : ∀ d ∈ c.chain, p.common d = true)
    (processed : t.processed = v.processed) (last : t.iPidPrv = v.iPidPrv)
    (inputs : t.inputs = cursorOf (c.adx + done.length) undel)
    (pending : t.pending = if undel = [] then rest else front :: rest)
    (ok : ∀ c ∈ t.deferred, ResultsOk c) (order : t.deferred.Pairwise (first · < first ·))
    (waiting : t.waiting.Perm (left ++ deferred.flatMap (·.chain))) :
    Inv p ins res t ∧ size s = size t + used.length + done.length := by
  have und' := undelivered_of_cursorOf inputs pending
  have entries : c.entries = done.zipIdx c.adx ++ undel.zipIdx (c.adx + done.length) := by
    rw [Cursor.entries, outcome.inputs, List.zipIdx_append]
  have consumed : s.undelivered = done.zipIdx c.adx ++ t.undelivered := by
    rw [und, und', entries, List.append_assoc]
  have moved : s.waiting.Perm (used ++ t.waiting) := by
    have h : s.waiting = used ++ (left ++ deferred.flatMap (·.chain)) := by
      simp [EbCtrbInBase.waiting, hd, outcome.results]
    rw [h]
    exact waiting.symm.append_left used
  refine ⟨?_, ?_⟩
  · apply inv.advance consumed (processed.trans outcome.frame.1) ?_ ?_ ?_ ?_ ok order moved ?_
    · have commons : ∀ e ∈ done.zipIdx c.adx, p.common e.1 = true := by
        intro e he
        apply common
        rw [outcome.inputs]
        exact List.mem_append_left _ (List.fst_mem_of_mem_zipIdx he)
      refine ((List.forall₂_and_left _ _).mpr ⟨commons, outcome.matched⟩).imp ?_
      rintro e o ⟨ce, mem, same, idx⟩
      refine ⟨idx, ?_⟩
      rw [if_pos ce]
      exact ⟨inv.known _ (by simp [EbCtrbInBase.waiting, hd, mem]), same⟩
    · have h := congrArg List.getLast? (List.zipIdx_map_fst c.adx done)
      rw [List.getLast?_map] at h
      rw [last, outcome.last, ← h, Option.map_map]
      rfl
    · intro b hb
      rw [pending] at hb
      rw [hp]
      split at hb
      · exact List.mem_cons_of_mem front hb
      · exact hb
    · intro c' hc'
      rw [inputs] at hc'
      cases hu : undel with
      | nil =>
        rw [hu] at hc'
        cases hc'
      | cons d ds =>
        rw [cursorOf_of_ne (by simp [hu])] at hc'
        cases hc'
        obtain ⟨gone, suffix⟩ := suffix
        refine ⟨front, rest, by simp [pending, hu], outcome.undel_chain (by simp [hu]),
          gone ++ done.zipIdx c.adx, ?_⟩
        rw [suffix, entries, List.append_assoc]
        rfl
    · intro r hr
      obtain ⟨early, d, hd, le⟩ := outcome.passed r hr
      obtain ⟨before, split, _⟩ := inv.split
      rw [← entries_fst c] at hd
      obtain ⟨e, he, rfl⟩ := List.mem_map.mp hd
      refine ⟨?_, e, ?_, le⟩
      · intro u hu
        rw [und'] at hu
        rcases List.mem_append.mp hu with hu | hu
        · exact early u.1 (List.fst_mem_of_mem_zipIdx hu)
        · have sorted := inv.sorted
          rw [split, und] at sorted
          have later := (List.pairwise_append.mp (List.pairwise_append.mp sorted).2.1).2.2
          exact Nat.lt_of_le_of_lt le (later e he u hu)
      · rw [split, und]
        exact List.mem_append_right before (List.mem_append_left _ he)
  · have lw := moved.length_eq
    simp only [size, consumed, List.length_append, List.length_zipIdx] at lw ⊢
    omega

/-- A results batch in the list starts after the one before it, and ascends. -/
lemma first_le {c : Cursor ResultDgram} (ok : ResultsOk c) {r : ResultDgram} (hr : r ∈ c.chain) :
    first c ≤ r.pulseId := by
  obtain ⟨x, xs, hx⟩ := List.exists_cons_of_ne_nil ok.chain.ne
  have hf : first c = x.pulseId := by simp [first, hx]
  have sorted := ok.sorted
  rw [hx] at hr sorted
  rw [hf]
  rcases List.mem_cons.mp hr with rfl | hr
  · exact Nat.le_refl _
  · exact Nat.le_of_lt (List.rel_of_pairwise_cons sorted hr)

/-- The first results of two batches in the list have different pulse IDs. -/
lemma Inv.first_ne (inv : Inv p ins res s) {results : Cursor ResultDgram}
    {deferred : List (Cursor ResultDgram)} (hd : s.deferred = results :: deferred)
    {c' : Cursor ResultDgram} (sub : ∀ r ∈ c'.chain.head?, r ∈ results.chain) (ne : c'.chain ≠ []) :
    ∀ x ∈ deferred, first x ≠ first c' := by
  intro x hx eq
  have nex := (inv.results x (by simp [hd, hx])).chain.ne
  obtain ⟨a, as, ha⟩ := List.exists_cons_of_ne_nil nex
  obtain ⟨b, bs, hb⟩ := List.exists_cons_of_ne_nil ne
  have distinct := inv.distinct
  simp only [waiting, hd, List.flatMap_cons, List.map_append] at distinct
  have apart := (List.nodup_append.mp distinct).2.2
  have eq : b.pulseId = a.pulseId := by
    simpa [first, ha, hb] using eq.symm
  apply apart b.pulseId _ a.pulseId _ eq
  · exact List.mem_map.mpr ⟨b, sub b (by simp [hb]), rfl⟩
  · exact List.mem_map.mpr ⟨a, List.mem_flatMap.mpr ⟨x, hx, by simp [ha]⟩, rfl⟩

/-- `_deliver` on the first results batch and the oldest inputs. -/
lemma Inv.deliver (inv : Inv p ins res s) (h : s.inputs.or s.pending.head? = some c)
    {results : Cursor ResultDgram} (hr : results ∈ s.deferred) (pos : 0 < p.maxInputSize)
    (small : p.numBuffers * p.maxInputSize ≤ 2 ^ 32) :
    ∃ v used left done undel out,
      s.deliver p results c =
        .ok (v, cursorOf (results.adx + used.length) left, cursorOf (c.adx + done.length) undel) ∧
      Outcome s results.chain c.chain c.adx v used left done undel out := by
  obtain ⟨front, rest, hp, chain, ⟨gone, suffix⟩, und⟩ := inv.current h
  obtain ⟨before, split, _⟩ := inv.split
  have rok := inv.results results hr
  have index : p.index c.adx = c.adx := by
    obtain ⟨d, ds, hc⟩ := List.exists_cons_of_ne_nil chain.ne
    have mem : (d, c.adx) ∈ front.entries := by
      rw [suffix, Cursor.entries, hc, List.zipIdx_cons]
      exact List.mem_append_right gone List.mem_cons_self
    have fits := (inv.pending front (by simp [hp])).fits
    exact TebCtrbParams.index_eq pos small
      (Nat.lt_of_lt_of_le (List.snd_lt_add_of_mem_zipIdx mem) fits)
  have isorted : c.chain.Pairwise (·.pulseId < ·.pulseId) := by
    have sorted := inv.sorted
    rw [split, und] at sorted
    have sorted := (List.pairwise_append.mp (List.pairwise_append.mp sorted).2.1).1
    rw [← entries_fst c, List.pairwise_map]
    exact sorted
  have newer : ∀ d ∈ c.chain, s.iPidPrv < d.pulseId := by
    intro d hc
    rw [← entries_fst c] at hc
    obtain ⟨e, he, rfl⟩ := List.mem_map.mp hc
    apply inv.last e
    rw [und]
    exact List.mem_append_left _ he
  have rpos : ∀ r ∈ results.chain, 0 < r.pulseId := by
    intro r hx
    exact inv.rpos r (inv.known r (List.mem_flatMap.mpr ⟨results, hr, hx⟩))
  obtain ⟨v, used, left, done, undel, out, run, outcome⟩ :=
    deliverLoop_ok (p := p) (s := s) results.adx c.adx c.adx rok.chain chain isorted rpos newer
  refine ⟨v, used, left, done, undel, out, ?_, outcome⟩
  rw [EbCtrbInBase.deliver, index]
  exact run

/-- What is left of a results batch goes back to its place in the list. -/
lemma Inv.deferLeft (inv : Inv p ins res s) {results : Cursor ResultDgram}
    {deferred : List (Cursor ResultDgram)} (hd : s.deferred = results :: deferred)
    (hr : results.chain = used ++ left) (chain : IsChain (EbDgram.isEOL ·.toEbDgram) left) :
    ∃ l, defer ⟨results.adx + used.length, left⟩ deferred = .ok l ∧
      l.Perm (⟨results.adx + used.length, left⟩ :: deferred) ∧ l.Pairwise (first · < first ·) ∧
      ∀ x ∈ l, ResultsOk x := by
  have order := inv.order
  rw [hd] at order
  have rest : ∀ x ∈ deferred, ResultsOk x := fun x hx => inv.results x (by simp [hd, hx])
  have ok : ResultsOk ⟨results.adx + used.length, left⟩ := by
    have sorted := (inv.results results (by simp [hd])).sorted
    rw [hr] at sorted
    exact ⟨chain, (List.pairwise_append.mp sorted).2.1⟩
  have all : ∀ x ∈ ⟨results.adx + used.length, left⟩ :: deferred, ResultsOk x := by
    intro x hx
    rcases List.mem_cons.mp hx with rfl | hx
    · exact ok
    · exact rest x hx
  have sub : ∀ r ∈ left.head?, r ∈ results.chain := by
    intro r hx
    rw [hr]
    exact List.mem_append_right used (List.mem_of_mem_head? hx)
  have new : ∀ x ∈ deferred, first x ≠ first ⟨results.adx + used.length, left⟩ :=
    inv.first_ne hd sub chain.ne
  obtain ⟨l, h, perm, sorted⟩ :=
    defer_ok (fun x hx => (all x hx).chain.ne) new (List.pairwise_cons.mp order).2
  exact ⟨l, h, perm, sorted, fun x hx => all x (perm.subset hx)⟩

/-- A round with a results batch and an input of the common group. -/
lemma Inv.deliverDeferred (inv : Inv p ins res s) (h : s.inputs.or s.pending.head? = some c)
    {results : Cursor ResultDgram} {deferred : List (Cursor ResultDgram)}
    (hd : s.deferred = results :: deferred) (common : ∀ d ∈ c.chain, p.common d = true)
    (pos : 0 < p.maxInputSize) (small : p.numBuffers * p.maxInputSize ≤ 2 ^ 32) :
    ∃ t, s.deliverDeferred p c results deferred = .ok t ∧ Round p ins res s t := by
  obtain ⟨front, rest, hp, chain, suffix, und⟩ := inv.current h
  have rok := inv.results results (by simp [hd])
  obtain ⟨v, used, left, done, undel, out, run, outcome⟩ :=
    inv.deliver h (show results ∈ s.deferred by simp [hd]) pos small
  obtain ⟨_, vpending, _, vlooping⟩ := outcome.frame
  have hpending : (if (cursorOf (c.adx + done.length) undel).isNone then v.pending.tail else v.pending)
      = if undel = [] then rest else front :: rest := by
    rw [vpending, hp]
    cases undel with
    | nil => rfl
    | cons d ds => rfl
  have order := inv.order
  rw [hd] at order
  have others : ∀ x ∈ deferred, ResultsOk x := fun x hx => inv.results x (by simp [hd, hx])
  cases left with
  | nil =>
    have hused : used = results.chain := by
      rw [outcome.results, List.append_nil]
    have consumed : 0 < used.length := by
      rw [hused]
      exact List.length_pos_iff.mpr rok.chain.ne
    let t : EbCtrbInBase := { v with
      inputs := cursorOf (c.adx + done.length) undel
      pending := if undel = [] then rest else front :: rest
      deferred
      prvNPCnt := v.noProgCount }
    obtain ⟨inv', less⟩ := inv.outcome (t := t) outcome und hp suffix hd common rfl rfl rfl rfl
      others (List.pairwise_cons.mp order).2 (.refl _)
    refine ⟨t, ?_, inv', .inl ⟨vlooping, by omega⟩⟩
    rw [EbCtrbInBase.deliverDeferred, run]
    simp only [bind, Except.bind, hpending, cursorOf_nil]
    exact rfl
  | cons r rs =>
    obtain ⟨l, hdefer, perm, sorted, ok⟩ := inv.deferLeft hd outcome.results (outcome.left_chain (by simp))
    have moved : (l.flatMap (·.chain)).Perm (r :: rs ++ deferred.flatMap (·.chain)) :=
      perm.flatMap_right _
    -- Neither side has moved: the loop of `_matchUp` ends.
    by_cases same : results.adx + used.length = results.adx ∧
        (cursorOf (c.adx + done.length) undel).map Cursor.adx = some c.adx
    · let t : EbCtrbInBase := { v with
        inputs := cursorOf (c.adx + done.length) undel
        pending := if undel = [] then rest else front :: rest
        deferred := l
        noProgCount := v.noProgCount + 1
        looping := false }
      obtain ⟨inv', less⟩ := inv.outcome (t := t) outcome und hp suffix hd common rfl rfl rfl rfl
        ok sorted moved
      refine ⟨t, ?_, inv', .inr ⟨rfl, by omega, ?_⟩⟩
      · rw [EbCtrbInBase.deliverDeferred, run]
        simp only [bind, Except.bind, hpending, cursorOf_cons, hdefer]
        rw [if_pos same]
      · have hused : used = [] := List.length_eq_zero_iff.mp (by omega)
        have hdone : done = [] := by
          obtain ⟨c', hc', eq⟩ := Option.map_eq_some_iff.mp same.2
          exact cursorOf_same hc' eq
        subst hused
        subst hdone
        have hu : undel = c.chain := outcome.inputs.symm
        have hr : results.chain = r :: rs := outcome.results
        intro u hu'
        obtain ⟨d, ds, hc⟩ := List.exists_cons_of_ne_nil chain.ne
        have und' : t.undelivered = _ := undelivered_of_cursorOf rfl rfl
        rw [und', hu, hc] at hu'
        cases hu'
        have low := outcome.later r rfl d (by rw [hu, hc]; rfl)
        refine ⟨common d (by simp [hc]), ?_⟩
        intro r' hr'
        apply Nat.lt_of_lt_of_le low
        have hfirst : first results = r.pulseId := by simp [first, hr]
        rcases List.mem_append.mp (moved.subset hr') with hr' | hr'
        · rw [← hfirst]
          exact first_le rok (hr ▸ hr')
        · obtain ⟨x, hx, hr'⟩ := List.mem_flatMap.mp hr'
          have lt := List.rel_of_pairwise_cons order hx
          have le := first_le (others x hx) hr'
          omega
    · let t : EbCtrbInBase := { v with
        inputs := cursorOf (c.adx + done.length) undel
        pending := if undel = [] then rest else front :: rest
        deferred := l
        prvNPCnt := v.noProgCount }
      obtain ⟨inv', less⟩ := inv.outcome (t := t) outcome und hp suffix hd common rfl rfl rfl rfl
        ok sorted moved
      have consumed : 0 < used.length + done.length := by
        by_contra none
        apply same
        have hdone : done = [] := List.length_eq_zero_iff.mp (by omega)
        refine ⟨by omega, ?_⟩
        subst hdone
        have hu : undel = c.chain := outcome.inputs.symm
        rw [hu, cursorOf_of_ne chain.ne]
        rfl
      refine ⟨t, ?_, inv', .inl ⟨vlooping, by omega⟩⟩
      rw [EbCtrbInBase.deliverDeferred, run]
      simp only [bind, Except.bind, hpending, cursorOf_cons, hdefer]
      rw [if_neg same]

/-- A round of the loop never faults; it goes on with less to do, or ends the loop. -/
lemma Inv.iterate (inv : Inv p ins res s) (pos : 0 < p.maxInputSize)
    (small : p.numBuffers * p.maxInputSize ≤ 2 ^ 32) :
    ∃ t, s.iterate p = .ok t ∧ Round p ins res s t := by
  cases h : s.inputs.or s.pending.head? with
  | none =>
    obtain ⟨hi, hp⟩ := Option.or_eq_none_iff.mp h
    have hp := List.head?_eq_none_iff.mp hp
    refine ⟨{ s with looping := false }, by simp [EbCtrbInBase.iterate, h], ?_, .inr ⟨rfl, Nat.le_refl _, ?_⟩⟩
    · exact ⟨inv.split, inv.last, inv.bound, inv.pending, inv.cursor, inv.results, inv.order,
        inv.known, inv.distinct, inv.passed, inv.sorted, inv.ipos, inv.rpos⟩
    · intro u hu
      simp [undelivered, hi, hp] at hu
  | some c =>
    obtain ⟨front, rest, hp, chain, ⟨gone, suffix⟩, und⟩ := inv.current h
    obtain ⟨d, ds, hc⟩ := List.exists_cons_of_ne_nil chain.ne
    cases hcommon : p.common d with
    | false =>
      obtain ⟨t, run, round⟩ := inv.bypass h hc hcommon pos small
      exact ⟨t, by simp [EbCtrbInBase.iterate, h, hc, hcommon, run], round⟩
    | true =>
      have inFront : ∀ e ∈ c.chain, e ∈ front.chain := by
        intro e he
        rw [← entries_fst c] at he
        obtain ⟨x, hx, rfl⟩ := List.mem_map.mp he
        apply List.fst_mem_of_mem_zipIdx (k := front.adx)
        show x ∈ front.entries
        rw [suffix]
        exact List.mem_append_right gone hx
      -- A batch has inputs of the common group only, or one that bypasses it.
      have common : ∀ e ∈ c.chain, p.common e = true := by
        rcases (inv.pending front (by simp [hp])).kind with all | ⟨x, hx, bypass⟩
        · exact fun e he => all e (inFront e he)
        · have hd := inFront d (by simp [hc])
          rw [hx, List.mem_singleton] at hd
          rw [← hd, hcommon] at bypass
          cases bypass
      cases hd : s.deferred with
      | nil =>
        let t : EbCtrbInBase := { s with inputs := some c, looping := false }
        have same : s.undelivered = [] ++ t.undelivered := by
          rw [und]
          show _ = c.entries ++ s.pending.tail.flatMap Cursor.entries
          rw [hp]
          rfl
        have waits : s.waiting.Perm ([] ++ t.waiting) := .refl _
        have none : s.waiting = [] := by simp [waiting, hd]
        refine ⟨t, by simp [EbCtrbInBase.iterate, h, hc, hcommon, hd, t], ?_, .inr ⟨rfl, ?_, ?_⟩⟩
        · apply inv.advance same (List.append_nil s.processed).symm .nil rfl (fun b hb => hb) ?_
            inv.results inv.order waits nofun
          intro c' hc'
          cases hc'
          exact ⟨front, rest, hp, chain, gone, suffix⟩
        · rw [size, size, same]
          exact Nat.le_refl _
        · intro u hu
          rw [← List.nil_append t.undelivered, ← same, und, Cursor.entries, hc] at hu
          cases hu
          refine ⟨hcommon, ?_⟩
          intro r hr
          have hr : r ∈ s.waiting := hr
          rw [none] at hr
          cases hr
      | cons results deferred =>
        obtain ⟨t, run, round⟩ := inv.deliverDeferred h hd common pos small
        exact ⟨t, by simp [EbCtrbInBase.iterate, h, hc, hcommon, hd, run], round⟩

/-- What is promised of the other thread and of the TEBs: inputs ascend and their batches are cut as
    `TebContributor` cuts them; results batches ascend and share no pulse ID. The loop is entered when
    it is not running. -/
def Promised (p : TebCtrbParams) (as : List Op) (s : EbCtrbInBase) : Op → Prop
  | .push batch => BatchOk p batch ∧
      (inputsOf as ++ batch.entries).Pairwise (·.1.pulseId < ·.1.pulseId)
  | .receive results => s.looping = false ∧ ResultsOk results ∧
      ∀ r ∈ results.chain, ∀ r' ∈ resultsOf as, r.pulseId ≠ r'.pulseId
  | .timeout => s.looping = false
  | .iterate => s.looping = true

/-- The promise, with positive pulse IDs. -/
def Allowed (p : TebCtrbParams) (as : List Op) (s : EbCtrbInBase) (a : Op) : Prop :=
  Promised p as s a ∧ (∀ i ∈ inputsOf [a], 0 < i.1.pulseId) ∧ ∀ r ∈ resultsOf [a], 0 < r.pulseId

/-- The calls of `_matchUp` and the rounds of its loop. -/
def calls (as : List Op) : Nat :=
  as.countP fun
    | .receive _ => true
    | .timeout => true
    | _ => false

def rounds (as : List Op) : Nat :=
  as.countP fun
    | .iterate => true
    | _ => false

variable {as : List Op}

/-- A batch that is pushed is undelivered. -/
lemma undelivered_push (inv : Inv p ins res s) (batch : Cursor EbDgram) :
    ({ s with pending := s.pending ++ [batch] } : EbCtrbInBase).undelivered =
      s.undelivered ++ batch.entries := by
  cases hi : s.inputs with
  | none => simp [undelivered, hi]
  | some c =>
    obtain ⟨front, rest, hp, _⟩ := inv.cursor c hi
    simp [undelivered, hi, hp]

/-- Pushing a batch of later inputs keeps the invariant. -/
lemma Inv.push (inv : Inv p ins res s) {batch : Cursor EbDgram} (ok : BatchOk p batch)
    (sorted : (ins ++ batch.entries).Pairwise (·.1.pulseId < ·.1.pulseId))
    (pos : ∀ i ∈ batch.entries, 0 < i.1.pulseId) :
    Inv p (ins ++ batch.entries) res { s with pending := s.pending ++ [batch] } := by
  obtain ⟨done, split, delivered⟩ := inv.split
  have und := undelivered_push inv batch
  have later := (List.pairwise_append.mp sorted).2.2
  refine ⟨⟨done, ?_, delivered⟩, ?_, ?_, ?_, ?_, inv.results, inv.order, inv.known, inv.distinct, ?_,
    sorted, ?_, inv.rpos⟩
  · rw [und, ← List.append_assoc, ← split]
  · intro u hu
    rw [und] at hu
    rcases List.mem_append.mp hu with hu | hu
    · exact inv.last u hu
    · rcases inv.bound with zero | ⟨i, hi, eq⟩
      · exact Nat.lt_of_le_of_lt (Nat.le_of_eq zero) (pos u hu)
      · exact Nat.lt_of_le_of_lt (Nat.le_of_eq eq) (later i hi u hu)
  · rcases inv.bound with zero | ⟨i, hi, eq⟩
    · exact .inl zero
    · exact .inr ⟨i, List.mem_append_left _ hi, eq⟩
  · intro b hb
    rcases List.mem_append.mp hb with hb | hb
    · exact inv.pending b hb
    · rw [List.mem_singleton.mp hb]
      exact ok
  · intro c hc
    obtain ⟨front, rest, hp, chain, gone⟩ := inv.cursor c hc
    exact ⟨front, rest ++ [batch], by simp [hp], chain, gone⟩
  · intro r hr
    rcases inv.passed r hr with hw | ⟨early, i, hi, le⟩
    · exact .inl hw
    · refine .inr ⟨?_, i, List.mem_append_left _ hi, le⟩
      intro u hu
      rw [und] at hu
      rcases List.mem_append.mp hu with hu | hu
      · exact early u hu
      · exact Nat.lt_of_le_of_lt le (later i hi u hu)
  · intro i hi
    rcases List.mem_append.mp hi with hi | hi
    · exact inv.ipos i hi
    · exact pos i hi

/-- More results do not change an answer. -/
lemma Answers.mono {res' : List ResultDgram} (sub : ∀ r ∈ res, r ∈ res') {e : EbDgram × Nat}
    {o : ResultDgram × Nat} (h : Answers p res e o) : Answers p res' e o := by
  obtain ⟨idx, answer⟩ := h
  refine ⟨idx, ?_⟩
  split at answer
  · rw [if_pos ‹_›]
    exact ⟨sub o.1 answer.1, answer.2⟩
  · rw [if_neg ‹_›]
    exact answer

/-- Receiving a results batch with new pulse IDs keeps the invariant. -/
lemma Inv.receive (inv : Inv p ins res s) {results : Cursor ResultDgram} (ok : ResultsOk results)
    (new : ∀ r ∈ results.chain, ∀ r' ∈ res, r.pulseId ≠ r'.pulseId)
    (pos : ∀ r ∈ results.chain, 0 < r.pulseId) :
    ∃ l, defer results s.deferred = .ok l ∧
      l.Perm (results :: s.deferred) ∧
      ∀ n, Inv p ins (res ++ results.chain)
        { s with deferred := l, looping := true, batchCount := n } := by
  have all : ∀ x ∈ results :: s.deferred, ResultsOk x := by
    intro x hx
    rcases List.mem_cons.mp hx with rfl | hx
    · exact ok
    · exact inv.results x hx
  have first_new : ∀ x ∈ s.deferred, first x ≠ first results := by
    intro x hx eq
    obtain ⟨a, as, ha⟩ := List.exists_cons_of_ne_nil (inv.results x hx).chain.ne
    obtain ⟨b, bs, hb⟩ := List.exists_cons_of_ne_nil ok.chain.ne
    have known := inv.known a (List.mem_flatMap.mpr ⟨x, hx, by simp [ha]⟩)
    apply new b (by simp [hb]) a known
    simpa [first, ha, hb] using eq.symm
  obtain ⟨l, h, perm, order⟩ := defer_ok (fun x hx => (all x hx).chain.ne) first_new inv.order
  have moved : (l.flatMap (·.chain)).Perm (results.chain ++ s.waiting) := perm.flatMap_right _
  refine ⟨l, h, perm, fun n => ?_⟩
  obtain ⟨done, split, delivered⟩ := inv.split
  refine ⟨⟨done, split, ?_⟩, inv.last, inv.bound, inv.pending, inv.cursor,
    fun x hx => all x (perm.subset hx), order, ?_, ?_, ?_, inv.sorted, inv.ipos, ?_⟩
  · exact delivered.imp fun e o h => Answers.mono (fun r hr => List.mem_append_left _ hr) h
  · intro r hr
    rcases List.mem_append.mp (moved.subset hr) with hr | hr
    · exact List.mem_append_right _ hr
    · exact List.mem_append_left _ (inv.known r hr)
  · apply (moved.map (·.pulseId)).symm.nodup
    rw [List.map_append]
    refine List.nodup_append.mpr ⟨?_, inv.distinct, ?_⟩
    · exact (List.pairwise_map.mpr ok.sorted).imp Nat.ne_of_lt
    · intro a ha b hb
      obtain ⟨r, hr, rfl⟩ := List.mem_map.mp ha
      obtain ⟨r', hr', rfl⟩ := List.mem_map.mp hb
      exact new r hr r' (inv.known r' hr')
  · intro r hr
    rcases List.mem_append.mp hr with hr | hr
    · rcases inv.passed r hr with hw | passed
      · exact .inl (moved.symm.subset (List.mem_append_right _ hw))
      · exact .inr passed
    · exact .inl (moved.symm.subset (List.mem_append_left _ hr))
  · intro r hr
    rcases List.mem_append.mp hr with hr | hr
    · exact inv.rpos r hr
    · exact pos r hr

/-- What holds after every action: the invariant, and that every round either ended a call or left
    less to do. -/
structure Between (p : TebCtrbParams) (as : List Op) (s : EbCtrbInBase) : Prop where
  inv : Inv p (inputsOf as) (resultsOf as) s
  unique : ((resultsOf as).map (·.pulseId)).Nodup
  count : rounds as + size s + s.looping.toNat ≤
    calls as + (inputsOf as).length + (resultsOf as).length

/-- An allowed action never faults. -/
lemma Between.step_ok {a : Op} (between : Between p as s) (ok : Allowed p as s a)
    (pos : 0 < p.maxInputSize) (small : p.numBuffers * p.maxInputSize ≤ 2 ^ 32) :
    ∃ t, s.step p a = .ok t := by
  cases a with
  | push batch => exact ⟨_, rfl⟩
  | receive results =>
    obtain ⟨⟨_, rok, new⟩, _, rpos⟩ := ok
    obtain ⟨l, h, _⟩ := between.inv.receive rok new (by simpa [resultsOf] using rpos)
    exact ⟨_, by rw [step, h]; rfl⟩
  | timeout => exact ⟨_, rfl⟩
  | iterate =>
    obtain ⟨t, h, _⟩ := between.inv.iterate pos small
    exact ⟨t, h⟩

@[simp] lemma inputsOf_push (batch : Cursor EbDgram) :
    inputsOf (as ++ [.push batch]) = inputsOf as ++ batch.entries := by
  simp [inputsOf]

@[simp] lemma resultsOf_push (batch : Cursor EbDgram) :
    resultsOf (as ++ [.push batch]) = resultsOf as := by
  simp [resultsOf]

@[simp] lemma inputsOf_receive (results : Cursor ResultDgram) :
    inputsOf (as ++ [.receive results]) = inputsOf as := by
  simp [inputsOf]

@[simp] lemma resultsOf_receive (results : Cursor ResultDgram) :
    resultsOf (as ++ [.receive results]) = resultsOf as ++ results.chain := by
  simp [resultsOf]

@[simp] lemma inputsOf_timeout : inputsOf (as ++ [.timeout]) = inputsOf as := by simp [inputsOf]
@[simp] lemma resultsOf_timeout : resultsOf (as ++ [.timeout]) = resultsOf as := by simp [resultsOf]
@[simp] lemma inputsOf_iterate : inputsOf (as ++ [.iterate]) = inputsOf as := by simp [inputsOf]
@[simp] lemma resultsOf_iterate : resultsOf (as ++ [.iterate]) = resultsOf as := by simp [resultsOf]

lemma calls_append (a : Op) : calls (as ++ [a]) = calls as + calls [a] := List.countP_append

lemma rounds_append (a : Op) : rounds (as ++ [a]) = rounds as + rounds [a] := List.countP_append

/-- An allowed action keeps what holds between two actions. -/
lemma Between.step {a : Op} (between : Between p as s) (ok : Allowed p as s a)
    (pos : 0 < p.maxInputSize) (small : p.numBuffers * p.maxInputSize ≤ 2 ^ 32)
    (h : s.step p a = .ok t) : Between p (as ++ [a]) t := by
  have count := between.count
  cases a with
  | push batch =>
    cases h
    obtain ⟨⟨bok, sorted⟩, ipos, _⟩ := ok
    have inv := between.inv.push bok sorted (by simpa [inputsOf] using ipos)
    have und := undelivered_push between.inv batch
    refine ⟨by simpa using inv, by simpa using between.unique, ?_⟩
    have hc : calls [.push batch] = 0 := rfl
    have hr : rounds [.push batch] = 0 := rfl
    simp only [size, und, calls_append, rounds_append, hc, hr, inputsOf_push, resultsOf_push,
      List.length_append] at count ⊢
    simp only [waiting] at count ⊢
    omega
  | receive results =>
    obtain ⟨⟨idle, rok, new⟩, _, rpos⟩ := ok
    obtain ⟨l, hl, perm, inv⟩ :=
      between.inv.receive rok new (by simpa [resultsOf] using rpos)
    obtain ⟨l', hl', h⟩ := bind_ok h
    cases hl.symm.trans hl'
    cases h
    have moved : (l.flatMap (·.chain)).Perm (results.chain ++ s.waiting) := perm.flatMap_right _
    have len := moved.length_eq
    refine ⟨by simpa using inv _, ?_, ?_⟩
    · rw [resultsOf_receive, List.map_append]
      refine List.nodup_append.mpr ⟨between.unique, ?_, ?_⟩
      · exact (List.pairwise_map.mpr rok.sorted).imp Nat.ne_of_lt
      · intro a ha b hb
        obtain ⟨r', hr', rfl⟩ := List.mem_map.mp ha
        obtain ⟨r, hr, rfl⟩ := List.mem_map.mp hb
        exact (new r hr r' hr').symm
    · have hc : calls [.receive results] = 1 := rfl
      have hr : rounds [.receive results] = 0 := rfl
      rw [List.length_append] at len
      rw [idle, Bool.toNat_false] at count
      rw [calls_append, rounds_append, hc, hr, inputsOf_receive, resultsOf_receive, List.length_append]
      show _ + (s.undelivered.length + (l.flatMap (·.chain)).length) + true.toNat ≤ _
      simp only [size, Bool.toNat_true] at count ⊢
      omega
  | timeout =>
    cases h
    have hc : calls [.timeout] = 1 := rfl
    have hr : rounds [.timeout] = 0 := rfl
    have inv := between.inv
    refine ⟨?_, by simpa using between.unique, ?_⟩
    · rw [inputsOf_timeout, resultsOf_timeout]
      exact ⟨inv.split, inv.last, inv.bound, inv.pending, inv.cursor, inv.results, inv.order,
        inv.known, inv.distinct, inv.passed, inv.sorted, inv.ipos, inv.rpos⟩
    · rw [calls_append, rounds_append, hc, hr, inputsOf_timeout, resultsOf_timeout]
      show _ + size s + true.toNat ≤ _
      rw [Bool.toNat_true]
      omega
  | iterate =>
    have looping : s.looping = true := ok.1
    obtain ⟨t', h', inv, ends⟩ := between.inv.iterate pos small
    have h : s.iterate p = .ok t := h
    cases h.symm.trans h'
    have hc : calls [.iterate] = 0 := rfl
    have hr : rounds [.iterate] = 1 := rfl
    refine ⟨by simpa using inv, by simpa using between.unique, ?_⟩
    rw [calls_append, rounds_append, hc, hr, inputsOf_iterate, resultsOf_iterate]
    rw [looping, Bool.toNat_true] at count
    obtain ⟨same, less⟩ | ⟨idle, le, _⟩ := ends
    · rw [same, looping, Bool.toNat_true]
      omega
    · rw [idle, Bool.toNat_false]
      omega

/-- The runs of the receiver. -/
abbrev MatchRun (p : TebCtrbParams) := Run (step p) (Allowed p) configured

/-- What holds in every reachable state. -/
lemma between_of_run (pos : 0 < p.maxInputSize) (small : p.numBuffers * p.maxInputSize ≤ 2 ^ 32)
    (run : MatchRun p as s) : Between p as s := by
  apply run.invariant (P := fun as s => Between p as s)
  · have nodup : ([] : List ResultDgram).Nodup := .nil
    refine ⟨⟨⟨[], rfl, .nil⟩, nofun, .inl rfl, nofun, nofun, nofun, .nil, nofun, .nil, nofun, .nil,
      nofun, nofun⟩, .nil, Nat.le_refl 0⟩
  · intro as s a t between ok h
    exact between.step ok pos small h

/-- When a call ends and the results of all common inputs have come, everything is delivered. -/
lemma Between.complete {before : List Op} (between : Between p before s)
    (ok : Allowed p before s .iterate) (pos : 0 < p.maxInputSize)
    (small : p.numBuffers * p.maxInputSize ≤ 2 ^ 32) (h : s.step p .iterate = .ok t)
    (idle : t.looping = false)
    (all : ∀ i ∈ inputsOf before, p.common i.1 = true → ∃ r ∈ resultsOf before, r.pulseId = i.1.pulseId) :
    t.undelivered = [] := by
  have looping : s.looping = true := ok.1
  obtain ⟨t', h', inv, ends⟩ := between.inv.iterate pos small
  have h : s.iterate p = .ok t := h
  cases h.symm.trans h'
  obtain ⟨same, _⟩ | ⟨_, _, settled⟩ := ends
  · rw [same, looping] at idle
    cases idle
  · cases hu : t.undelivered with
    | nil => rfl
    | cons u us =>
      obtain ⟨common, later⟩ := settled u (by rw [hu]; rfl)
      obtain ⟨done, split, _⟩ := inv.split
      have mem : u ∈ inputsOf before := by
        rw [split, hu]
        exact List.mem_append_right done List.mem_cons_self
      obtain ⟨r, hr, eq⟩ := all u mem common
      rcases inv.passed r hr with hw | ⟨early, _⟩
      · exact absurd (later r hw) (by omega)
      · exact absurd (early u (by rw [hu]; exact List.mem_cons_self)) (by omega)

/-- Where pulse IDs of results are unique an input has one answer. -/
lemma Answers.unique (nodup : (res.map (·.pulseId)).Nodup) :
    Relator.RightUnique (Answers p res) := by
  intro e o o' h h'
  obtain ⟨idx, answer⟩ := h
  obtain ⟨idx', answer'⟩ := h'
  have index : o.2 = o'.2 := idx.trans idx'.symm
  have result : o.1 = o'.1 := by
    split at answer
    · rw [if_pos ‹_›] at answer'
      exact List.inj_on_of_nodup_map nodup answer.1 answer'.1 (answer.2.trans answer'.2.symm)
    · rw [if_neg ‹_›] at answer'
      exact answer.trans answer'.symm
  exact Prod.ext result index

/-- Results are matched with inputs. With positive pulse IDs and an input region below 4 GiB, in every
    reachable state the inputs delivered so far are the first ones, in order and once each, with their
    own result or the one made for a bypass, and with their slot; what is undelivered is still in the
    batches of `_pending`; a result that left the list is not needed by any undelivered or later
    input; no action faults; and there are no more rounds than calls and datagrams. When a call ends
    and the results of all common inputs have come, everything is delivered, and what was delivered
    then does not depend on the order in which the results came. -/
theorem results_match_inputs (pos : 0 < p.maxInputSize)
    (small : p.numBuffers * p.maxInputSize ≤ 2 ^ 32) (run : MatchRun p as s) :
    (∃ done, inputsOf as = done ++ s.undelivered ∧
      List.Forall₂ (Answers p (resultsOf as)) done s.processed) ∧
    (∀ u ∈ s.undelivered, ∃ b ∈ s.pending, u ∈ b.entries) ∧
    (∀ r ∈ resultsOf as, r ∈ s.waiting ∨ (∀ u ∈ s.undelivered, r.pulseId < u.1.pulseId) ∧
      ∃ i ∈ inputsOf as, r.pulseId ≤ i.1.pulseId) ∧
    (∀ a, Allowed p as s a → ∃ t, s.step p a = .ok t) ∧
    rounds as ≤ calls as + (inputsOf as).length + (resultsOf as).length ∧
    (∀ before, as = before ++ [.iterate] → s.looping = false →
      (∀ i ∈ inputsOf as, p.common i.1 = true → ∃ r ∈ resultsOf as, r.pulseId = i.1.pulseId) →
      s.undelivered = []) ∧
    ∀ as' s', MatchRun p as' s' → inputsOf as' = inputsOf as →
      (∀ r, r ∈ resultsOf as' ↔ r ∈ resultsOf as) → s.undelivered = [] → s'.undelivered = [] →
      s'.processed = s.processed := by
  have between := between_of_run pos small run
  have inv := between.inv
  refine ⟨inv.split, ?_, inv.passed, fun a ok => between.step_ok ok pos small, ?_, ?_, ?_⟩
  · intro u hu
    cases hi : s.inputs with
    | none =>
      rw [undelivered, hi] at hu
      obtain ⟨b, hb, hu⟩ := List.mem_flatMap.mp hu
      exact ⟨b, hb, hu⟩
    | some c =>
      obtain ⟨front, rest, hp, _, gone, suffix⟩ := inv.cursor c hi
      rw [undelivered, hi, hp] at hu
      rcases List.mem_append.mp hu with hu | hu
      · refine ⟨front, by simp [hp], ?_⟩
        rw [suffix]
        exact List.mem_append_right gone hu
      · obtain ⟨b, hb, hu⟩ := List.mem_flatMap.mp hu
        refine ⟨b, ?_, hu⟩
        rw [hp]
        exact List.mem_cons_of_mem front hb
  · have count := between.count
    omega
  · intro before split idle all
    subst split
    obtain ⟨s₀, run₀, ok, h⟩ := Run.snoc_iff.mp run
    rw [inputsOf_iterate, resultsOf_iterate] at all
    exact (between_of_run pos small run₀).complete ok pos small h idle all
  · intro as' s' run' sameInputs sameResults whole whole'
    have between' := between_of_run pos small run'
    obtain ⟨done, split, delivered⟩ := inv.split
    obtain ⟨done', split', delivered'⟩ := between'.inv.split
    rw [whole, List.append_nil] at split
    rw [whole', List.append_nil] at split'
    have same : done' = done := by rw [← split', sameInputs, split]
    subst same
    have delivered' := delivered'.imp fun e o h =>
      Answers.mono (fun r hr => (sameResults r).mp hr) h
    exact (Answers.unique between.unique).forall₂ delivered' delivered

instance (p : TebCtrbParams) (b : Cursor EbDgram) : Decidable (BatchOk p b) :=
  decidable_of_iff
    (IsChain EbDgram.isEOL b.chain ∧
      ((∀ d ∈ b.chain, p.common d = true) ∨ b.chain.length = 1 ∧ ∀ d ∈ b.chain, p.common d = false) ∧
      b.adx + b.chain.length ≤ p.numBuffers) <| by
    constructor
    · rintro ⟨chain, kind, fits⟩
      refine ⟨chain, kind.imp_right ?_, fits⟩
      rintro ⟨one, bypass⟩
      obtain ⟨d, hd⟩ := List.length_eq_one_iff.mp one
      exact ⟨d, hd, bypass d (by simp [hd])⟩
    · rintro ⟨chain, kind, fits⟩
      refine ⟨chain, kind.imp_right ?_, fits⟩
      rintro ⟨d, hd, bypass⟩
      simpa [hd] using bypass

instance (c : Cursor ResultDgram) : Decidable (ResultsOk c) :=
  decidable_of_iff (IsChain (EbDgram.isEOL ·.toEbDgram) c.chain ∧ c.chain.Pairwise (·.pulseId < ·.pulseId))
    ⟨fun h => ⟨h.1, h.2⟩, fun h => ⟨h.chain, h.sorted⟩⟩

instance (as : List Op) (s : EbCtrbInBase) : (a : Op) → Decidable (Promised p as s a)
  | .push batch => inferInstanceAs (Decidable (BatchOk p batch ∧
      (inputsOf as ++ batch.entries).Pairwise (·.1.pulseId < ·.1.pulseId)))
  | .receive results => inferInstanceAs (Decidable (s.looping = false ∧ ResultsOk results ∧
      ∀ r ∈ results.chain, ∀ r' ∈ resultsOf as, r.pulseId ≠ r'.pulseId))
  | .timeout => inferInstanceAs (Decidable (s.looping = false))
  | .iterate => inferInstanceAs (Decidable (s.looping = true))

instance (as : List Op) (s : EbCtrbInBase) (a : Op) : Decidable (Allowed p as s a) :=
  inferInstanceAs (Decidable (Promised p as s a ∧ (∀ i ∈ inputsOf [a], 0 < i.1.pulseId) ∧
    ∀ r ∈ resultsOf [a], 0 < r.pulseId))

/-- A result for a pulse ID. -/
def resultFor (pid : Nat) : ResultDgram := .new (l1Accept pid) 1

/-- Two inputs, one that bypasses the TEB, and one of the next epoch. -/
def firstInputs : Cursor EbDgram := ⟨0, [l1Accept 8, (l1Accept 9).setEOL]⟩
def bypassInput : Cursor EbDgram := ⟨2, [{ (l1Accept 10).setEOL with env := 0x0c000002#32 }]⟩
def nextInput : Cursor EbDgram := ⟨3, [(l1Accept 16).setEOL]⟩

/-- The results of the later epoch come first, and those of the earlier one with an extra result. -/
def outOfOrder : List Op :=
  [.push firstInputs, .push bypassInput, .push nextInput,
    .receive ⟨8, [(resultFor 16).setEOL]⟩, .iterate,
    .receive ⟨0, [resultFor 8, resultFor 9, (resultFor 12).setEOL]⟩,
    .iterate, .iterate, .iterate, .iterate, .iterate]

/-- Results that come out of order are delivered in the order of the inputs. -/
theorem results_match_out_of_order :
    ∃ s, MatchRun twoTebs outOfOrder s ∧
      s.processed.map (fun o => (o.1.pulseId, o.2)) = [(8, 0), (9, 1), (10, 2), (16, 3)] ∧
      s.undelivered = [] := by
  obtain ⟨s, run, h⟩ := Run.of_replay_any (step twoTebs) (Allowed twoTebs) configured outOfOrder
    (fun s => !s.looping &&
      decide (s.processed.map (fun o => (o.1.pulseId, o.2)) = [(8, 0), (9, 1), (10, 2), (16, 3)]))
    (by decide +kernel)
  rw [Bool.and_eq_true, Bool.not_eq_true', decide_eq_true_eq] at h
  refine ⟨s, run, h.2, ?_⟩
  have complete := (results_match_inputs (by decide) (by decide) run).2.2.2.2.2.1
  exact complete (outOfOrder.dropLast) rfl h.1 (by decide +kernel)

/-- A contributor with a region of 8 GiB. -/
def largeRegion : TebCtrbParams := { twoTebs with maxInputSize := 2 ^ 16, numBuffers := 2 ^ 17 }

/-- An input with pulse ID 0 is never delivered, and an input behind the first 4 GiB of the region is
    delivered with the index of another buffer. -/
theorem results_do_not_match :
    (∃ s, Run (step twoTebs) (Promised twoTebs) configured
        [.push ⟨0, [(l1Accept 0).setEOL]⟩, .receive ⟨0, [(resultFor 0).setEOL]⟩] s ∧
      s.step twoTebs .iterate = .error .resultDidntAdvance) ∧
    ∃ s, Run (step largeRegion) (Promised largeRegion) configured
        [.push ⟨2 ^ 16, [(l1Accept 8).setEOL]⟩, .receive ⟨0, [(resultFor 8).setEOL]⟩, .iterate] s ∧
      s.processed.map Prod.snd = [0] := by
  constructor
  · obtain ⟨s, run, h⟩ := Run.of_replay_any (step twoTebs) (Promised twoTebs) configured
      [.push ⟨0, [(l1Accept 0).setEOL]⟩, .receive ⟨0, [(resultFor 0).setEOL]⟩]
      (fun s =>
        match s.step twoTebs .iterate with
        | .error .resultDidntAdvance => true
        | _ => false)
      (by decide +kernel)
    refine ⟨s, run, ?_⟩
    split at h
    · assumption
    · cases h
  · obtain ⟨s, run, h⟩ := Run.of_replay_any (step largeRegion) (Promised largeRegion) configured
      [.push ⟨2 ^ 16, [(l1Accept 8).setEOL]⟩, .receive ⟨0, [(resultFor 8).setEOL]⟩, .iterate]
      (fun s => decide (s.processed.map Prod.snd = [0]))
      (by decide +kernel)
    exact ⟨s, run, of_decide_eq_true h⟩

end EbCtrbInBase

end Lcls2.Eb
