import Lcls2.Lib.Run
import Lcls2.Psana.Batch

/-!
# The batch format

What `gen_batches` writes, `repack_for_bd` extends and `PacketFooter.split_packets` reads: a batch is
the packed bytes of its events, and an event is the packed bytes of its streams.
-/

namespace Lcls2.Psana
open Lib

/-- Splitting a batch into events, and each event into its dgrams. -/
def decodeBatch (batch : Bytes) : Except PacketFault (List (List Bytes)) := do
  let pf ← PacketFooter.ofView batch
  let evts ← pf.splitPackets
  evts.mapM fun evt => do
    let pf ← PacketFooter.ofView evt
    pf.splitPackets

/-- A batch of events; no event, no footer. -/
def batchBytes (events : List (List Bytes)) : Bytes :=
  if events = [] then [] else packed (events.map packed)

variable {events : List (List Bytes)} {sizes array : List Nat}

lemma packed_length (packets : List Bytes) :
    (packed packets).length = (packets.map List.length).sum + (packets.length + 1) * 4 := by
  rw [packed, List.length_append, List.length_flatten, footerOf_length, List.length_map]

/-- Where the packed bytes fit a field, so do their packets and their number. -/
lemma fits_of_packed {packets : List Bytes} (small : fits (packed packets).length) :
    fits packets.length ∧ ∀ packet ∈ packets, fits packet.length := by
  rw [fits, packed_length] at small
  constructor
  · rw [fits]
    omega
  · intro packet hp
    have := List.single_le_sum (fun _ _ => Nat.zero_le _) _ (List.mem_map_of_mem (f := List.length) hp)
    rw [fits]
    omega

/-- A batch is split into the dgrams of its events. -/
lemma decode_batchBytes (count : fits events.length)
    (small : ∀ e ∈ events, fits (packed e).length) :
    decodeBatch (batchBytes events) = .ok events := by
  rw [batchBytes]
  split
  · rename_i none_
    subst none_
    rfl
  · have outer := @split_packed (events.map packed)
      (by rw [List.length_map]; exact count) (List.forall_mem_map.mpr small)
    have inner : (events.map packed).mapM (fun evt => do
        let pf ← PacketFooter.ofView evt
        pf.splitPackets) = .ok events := by
      rw [List.mapM_map]
      have h := mapM_ok (g := id) (f := fun e => do
        let pf ← PacketFooter.ofView (packed e)
        pf.splitPackets) fun e he => by
          obtain ⟨count, small⟩ := fits_of_packed (small e he)
          exact split_packed count small
      rw [List.map_id] at h
      exact h
    obtain ⟨pf, hpf, hsplit⟩ := bind_ok outer
    rw [decodeBatch, hpf]
    show (do let evts ← pf.splitPackets; evts.mapM _) = _
    rw [hsplit]
    exact inner

section repack
variable {n : Nat} {steps done : List (List SmdDgram)} {view : Bytes}

/-- The step data of each stream. -/
def stepViews (n : Nat) (steps : List (List SmdDgram)) : List Bytes :=
  (List.range n).map fun i => steps.flatMap fun step => (step[i]?).elim [] SmdDgram.bytes

/-- The step data of each stream, and how much of it is read. -/
def stepCursors (n : Nat) (done rest : List (List SmdDgram)) : List (Bytes × Nat) :=
  (List.range n).map fun i =>
    ((done ++ rest).flatMap fun step => (step[i]?).elim [] SmdDgram.bytes,
      (done.flatMap fun step => (step[i]?).elim [] SmdDgram.bytes).length)

/-- The dgram at its offset. -/
lemma dgramBytesAt_append (before : Bytes) (d : SmdDgram) (after : Bytes) :
    dgramBytesAt (before ++ d.bytes ++ after) before.length = .ok d.bytes := by
  have header : 24 ≤ d.bytes.length := d.header
  have total : (before ++ d.bytes ++ after).length =
      before.length + d.bytes.length + after.length := by
    rw [List.length_append, List.length_append]
  have size : dgramSizeAt (before ++ d.bytes ++ after) before.length = d.bytes.length := by
    rw [← d.sized, dgramSizeAt, dgramSizeAt, slice_within header, Nat.zero_add, Nat.zero_add]
  have h1 : ¬ (before ++ d.bytes ++ after).length < before.length + sizeofDgram := by
    rw [total, sizeofDgram]
    omega
  have h2 : ¬ (before ++ d.bytes ++ after).length < before.length + d.bytes.length := by
    rw [total]
    omega
  rw [dgramBytesAt, if_neg h1, size]
  simp only [if_neg h2, slice_append]

variable {step : List SmdDgram}

lemma map_bytes (full : step.length = n) :
    ((List.range n).map fun i => (step[i]?).elim [] SmdDgram.bytes) = step.map SmdDgram.bytes := by
  apply List.ext_getElem
  · rw [List.length_map, List.length_range, List.length_map, full]
  · intro i h1 h2
    rw [List.length_map] at h2
    rw [List.getElem_map, List.getElem_range, List.getElem_map, List.getElem?_eq_getElem h2]
    rfl

/-- One round of the loop reads the next step. -/
lemma nextDgrams_step (full : step.length = n) (rest : List (List SmdDgram)) :
    nextDgrams (stepCursors n done (step :: rest)) =
      .ok (step.map SmdDgram.bytes, stepCursors n (done ++ [step]) rest) := by
  have read : (stepCursors n done (step :: rest)).mapM
      (fun cursor => dgramBytesAt cursor.1 cursor.2) =
        .ok ((List.range n).map fun i => (step[i]?).elim [] SmdDgram.bytes) := by
    rw [stepCursors, List.mapM_map]
    apply mapM_ok
    intro i hi
    have hi : i < step.length := by
      rw [full]
      exact List.mem_range.mp hi
    have read := dgramBytesAt_append
      (done.flatMap fun step => (step[i]?).elim [] SmdDgram.bytes) step[i]
      (rest.flatMap fun step => (step[i]?).elim [] SmdDgram.bytes)
    simpa only [Function.comp, List.flatMap_append, List.flatMap_cons, List.getElem?_eq_getElem hi,
      Option.elim_some, List.append_assoc] using read
  rw [nextDgrams, read]
  show Except.ok _ = Except.ok _
  rw [stepCursors, stepCursors, List.zipWith_map, List.zipWith_self, map_bytes full]
  congr 2
  apply List.map_congr_left
  intro i _
  simp only [List.append_assoc, List.singleton_append, List.flatMap_append,
    List.flatMap_cons, List.flatMap_nil, List.append_nil, List.length_append]

/-- What is read of the first stream, and its step data. -/
lemma stepCursors_head (m : Nat) (done rest : List (List SmdDgram)) :
    ∃ cursors, stepCursors (m + 1) done rest =
      ((done ++ rest).flatMap fun step => (step[0]?).elim [] SmdDgram.bytes,
        (done.flatMap fun step => (step[0]?).elim [] SmdDgram.bytes).length) :: cursors := by
  rw [stepCursors, List.range_succ_eq_map, List.map_cons]
  exact ⟨_, rfl⟩

/-- The bytes of a step are not none. -/
lemma step_pos {m : Nat} (full : step.length = m + 1) :
    sizeofDgram ≤ ((step[0]?).elim [] SmdDgram.bytes).length := by
  have h0 : 0 < step.length := by omega
  rw [List.getElem?_eq_getElem h0]
  exact step[0].header

/-- The footer of a step. -/
lemma step_footer {m : Nat} (full : step.length = m + 1)
    (small : fits (packed (step.map SmdDgram.bytes)).length) :
    (do let pf ← PacketFooter.new (step.map SmdDgram.bytes).length
        pf.setSizes 0 ((step.map SmdDgram.bytes).map List.length)) =
      .ok ⟨m + 1, footerOf ((step.map SmdDgram.bytes).map List.length), []⟩ := by
  obtain ⟨count, sizes⟩ := fits_of_packed small
  have some_ : (step.map SmdDgram.bytes).map List.length ≠ [] := by
    rw [Ne, List.map_eq_nil_iff, List.map_eq_nil_iff]
    intro h
    rw [h] at full
    cases full
  have footer := @setSizes_new ((step.map SmdDgram.bytes).map List.length)
    (by rwa [List.length_map]) (List.forall_mem_map.mpr sizes) some_
  rw [List.length_map] at footer
  rw [footer, List.length_map, full]

/-- The loop reads all steps. -/
lemma missingSteps_spec {m fuel : Nat} (rest : List (List SmdDgram)) (enough : rest.length < fuel)
    (full : ∀ step ∈ rest, step.length = m + 1 ∧ fits (packed (step.map SmdDgram.bytes)).length)
    (done : List (List SmdDgram)) (acc : Bytes) (accSizes : List Nat) :
    missingSteps fuel (stepCursors (m + 1) done rest) acc accSizes =
      .ok (acc ++ (rest.map fun step => packed (step.map SmdDgram.bytes)).flatten,
        accSizes ++ rest.map fun step => (packed (step.map SmdDgram.bytes)).length) := by
  induction rest generalizing fuel done acc accSizes with
  | nil =>
    obtain ⟨fuel, rfl⟩ := Nat.exists_eq_succ_of_ne_zero (Nat.ne_of_gt enough)
    obtain ⟨cursors, head⟩ := stepCursors_head m done []
    rw [head, missingSteps, List.append_nil, if_neg (Nat.lt_irrefl _)]
    simp
  | cons step rest ih =>
    obtain ⟨fuel, rfl⟩ := Nat.exists_eq_succ_of_ne_zero (Nat.ne_of_gt (Nat.zero_lt_of_lt enough))
    obtain ⟨fullStep, smallStep⟩ := full step List.mem_cons_self
    have unread := step_pos fullStep
    rw [sizeofDgram] at unread
    obtain ⟨cursors, head⟩ := stepCursors_head m done (step :: rest)
    have more : (done.flatMap fun step => (step[0]?).elim [] SmdDgram.bytes).length <
        ((done ++ step :: rest).flatMap fun step => (step[0]?).elim [] SmdDgram.bytes).length := by
      rw [List.flatMap_append, List.flatMap_cons, List.length_append, List.length_append]
      omega
    have next : missingSteps fuel (stepCursors (m + 1) (done ++ [step]) rest)
        (acc ++ packed (step.map SmdDgram.bytes))
        (accSizes ++ [(packed (step.map SmdDgram.bytes)).length]) = _ :=
      ih (by simpa using enough) (fun s hs => full s (List.mem_cons_of_mem step hs)) _ _ _
    obtain ⟨pf, hnew, hset⟩ := bind_ok (step_footer fullStep smallStep)
    rw [head, missingSteps, if_pos more, ← head]
    simp only [nextDgrams_step fullStep, hnew, hset, ok_bind]
    show missingSteps fuel (stepCursors (m + 1) (done ++ [step]) rest)
        (acc ++ packed (step.map SmdDgram.bytes))
        (accSizes ++ [(packed (step.map SmdDgram.bytes)).length]) = _
    rw [next]
    simp only [List.map_cons, List.flatten_cons, List.append_assoc, List.singleton_append]

/-- The footer of a batch, empty or not. -/
lemma ofView_batchBytes (count : fits events.length)
    (small : ∀ e ∈ events, fits (packed e).length) :
    ∃ pf, PacketFooter.ofView (batchBytes events) = .ok pf ∧ pf.nPackets = events.length ∧
      (batchBytes events).take ((batchBytes events).length - pf.footer.length) =
        (events.map packed).flatten ∧
      ((List.range pf.nPackets).mapM fun idx : Nat => pf.getSize idx) =
        .ok (events.map fun e => (packed e).length) := by
  cases events with
  | nil => exact ⟨⟨0, [], []⟩, rfl, rfl, rfl, rfl⟩
  | cons e rest =>
    have some_ : batchBytes (e :: rest) = packed ((e :: rest).map packed) :=
      if_neg (List.cons_ne_nil e rest)
    have sizes := @getSizes_footerOf (((e :: rest).map packed).map List.length)
      (packed ((e :: rest).map packed)) (List.forall_mem_map.mpr (List.forall_mem_map.mpr small))
    rw [List.length_map] at sizes
    rw [some_]
    refine ⟨_, ofView_packed (by rwa [List.length_map]), List.length_map _, ?_, ?_⟩
    · conv_lhs => rw [packed]
      rw [List.length_append, Nat.add_sub_cancel, List.take_left]
    · rw [sizes, List.map_map]
      rfl

/-- The sizes of the steps and of the events, set one after the other. -/
lemma setSizes_two {sizes rest : List Nat} (count : fits (rest.length + sizes.length))
    (small : ∀ size ∈ sizes, fits size) (small' : ∀ size ∈ rest, fits size)
    (some_ : sizes ≠ [] ∨ rest ≠ []) :
    (do let pf ← PacketFooter.new (rest.length + sizes.length)
        let pf ← pf.setSizes 0 sizes
        pf.setSizes sizes.length rest) =
      .ok ⟨rest.length + sizes.length, footerOf (sizes ++ rest), []⟩ := by
  have nonzero : rest.length + sizes.length ≠ 0 := by
    intro h
    have h := Nat.add_eq_zero_iff.mp h
    cases some_ with
    | inl some_ => exact some_ (List.length_eq_zero_iff.mp h.2)
    | inr some_ => exact some_ (List.length_eq_zero_iff.mp h.1)
  have total : (sizes ++ rest).length = rest.length + sizes.length := by
    rw [List.length_append, Nat.add_comm]
  have first := @setSizes_part [] (rest.length + sizes.length) [] sizes
    (Nat.le_add_left _ _) small
  have second := @setSizes_part sizes (rest.length + sizes.length) [] rest
    (Nat.le_of_eq total) small'
  rw [PacketFooter.new, if_neg nonzero, if_pos count, ← partFooter_nil]
  simp only [ok_bind]
  rw [List.length_nil, List.nil_append] at first
  rw [first, ok_bind, second, ← total, partFooter_full]

/-- Prepending the missing steps to a batch. -/
lemma repackForBd_batchBytes (none_ : n = 0 → steps = [])
    (count : fits (events.length + steps.length)) (small : ∀ e ∈ events, fits (packed e).length)
    (full : ∀ step ∈ steps, step.length = n ∧ fits (packed (step.map SmdDgram.bytes)).length) :
    repackForBd (batchBytes events) (stepViews n steps) =
      .ok (batchBytes (steps.map (·.map SmdDgram.bytes) ++ events)) := by
  cases n with
  | zero =>
    rw [none_ rfl]
    rfl
  | succ m =>
    have countEvents : fits events.length := by
      rw [fits] at count ⊢
      omega
    obtain ⟨pf, hpf, hn, hbody, hsizes⟩ := ofView_batchBytes countEvents small
    have cursors : (stepViews (m + 1) steps).map (·, 0) = stepCursors (m + 1) [] steps := by
      rw [stepViews, stepCursors, List.map_map]
      rfl
    have views : ∃ rest, stepViews (m + 1) steps =
        (steps.flatMap fun step => (step[0]?).elim [] SmdDgram.bytes) :: rest := by
      rw [stepViews, List.range_succ_eq_map, List.map_cons]
      exact ⟨_, rfl⟩
    obtain ⟨rest, views⟩ := views
    have enough : steps.length <
        (steps.flatMap fun step => (step[0]?).elim [] SmdDgram.bytes).length + 1 := by
      clear count cursors views
      induction steps with
      | nil => exact Nat.zero_lt_one
      | cons step steps ih =>
        have pos := step_pos (full step List.mem_cons_self).1
        have ih := ih (fun zero => absurd zero m.succ_ne_zero) fun s hs => full s (List.mem_cons_of_mem step hs)
        rw [sizeofDgram] at pos
        rw [List.flatMap_cons, List.length_append, List.length_cons]
        omega
    have loop := missingSteps_spec steps enough full [] [] []
    rw [List.nil_append, List.nil_append] at loop
    have smallSteps : ∀ size ∈ steps.map (fun step => (packed (step.map SmdDgram.bytes)).length),
        fits size := List.forall_mem_map.mpr fun step hs => (full step hs).2
    have smallEvents : ∀ size ∈ events.map (fun e => (packed e).length), fits size :=
      List.forall_mem_map.mpr small
    rw [views, repackForBd, ← views, hpf, ok_bind, cursors, loop, ok_bind, hn]
    by_cases some_ : steps = [] ∧ events = []
    · obtain ⟨rfl, rfl⟩ := some_
      rw [hn] at hsizes
      simp only [List.map_nil, List.length_nil, List.range_zero, List.mapM_nil, PacketFooter.new,
        PacketFooter.setSizes, ok_bind, if_true, batchBytes, List.append_nil, List.flatten_nil,
        List.take_nil]
      rfl
    · have sizesSome : steps.map (fun step => (packed (step.map SmdDgram.bytes)).length) ≠ [] ∨
          events.map (fun e => (packed e).length) ≠ [] := by
        rw [Ne, Ne, List.map_eq_nil_iff, List.map_eq_nil_iff]
        exact not_and_or.mp some_
      have two := setSizes_two (by rwa [List.length_map, List.length_map]) smallSteps smallEvents
        sizesSome
      simp only [List.length_map] at two
      obtain ⟨pf1, hnew, two⟩ := bind_ok two
      obtain ⟨pf2, hset, two⟩ := bind_ok two
      have whole : steps.map (·.map SmdDgram.bytes) ++ events ≠ [] := by
        intro h
        obtain ⟨h1, h2⟩ := List.append_eq_nil_iff.mp h
        exact some_ ⟨List.map_eq_nil_iff.mp h1, h2⟩
      rw [hn] at hsizes
      simp only [List.length_map, hnew, hset, hsizes, ok_bind, two, hbody]
      rw [batchBytes, if_neg whole, packed, List.map_append, List.flatten_append, List.map_append,
        List.map_map, List.map_map, List.map_map]
      rfl

end repack

section gen
variable {evts done : List SmdEvent} {keys : List Int} {key : Int} {batch : Batch}

/-- The bytes of an event. -/
lemma asBytearray_eq {e : SmdEvent} (small : fits (packed e.streams).length) :
    e.asBytearray = .ok (packed e.streams) := by
  obtain ⟨count, sizes⟩ := fits_of_packed small
  have table : e.pydgrams.map (fun pydg => pydg.elim 0 (·.bytes.length)) =
      e.streams.map List.length := by
    rw [SmdEvent.streams, List.map_map]
    apply List.map_congr_left
    intro pydg _
    cases pydg with
    | none => rfl
    | some d => rfl
  have length : e.pydgrams.length = e.streams.length := by rw [SmdEvent.streams, List.length_map]
  have ok : ∀ size ∈ e.streams.map List.length ++ [e.streams.length], fits size := by
    intro size hs
    rcases List.mem_append.mp hs with hs | hs
    · exact List.forall_mem_map.mpr sizes size hs
    · rw [List.mem_singleton.mp hs]
      exact count
  rw [SmdEvent.asBytearray, table, length]
  simp only [if_pos ok]
  rw [packed, footerOf, List.flatMap_append, List.length_map]
  simp

/-- The batch of some events, without its footer. -/
def openBatch (evts : List SmdEvent) : Batch :=
  ⟨(evts.map fun e => packed e.streams).flatten, evts.map fun e => (packed e.streams).length⟩

/-- The batch of some events, with its footer. -/
def closedBatch (evts : List SmdEvent) : Batch :=
  ⟨batchBytes (evts.map SmdEvent.streams), evts.map fun e => (packed e.streams).length⟩

/-- The destinations in the order they come up. -/
def destinations (evts : List SmdEvent) : List Int :=
  evts.foldl (fun keys e => if e.destination ∈ keys then keys else keys ++ [e.destination]) []

lemma destinations_concat (done : List SmdEvent) (e : SmdEvent) :
    destinations (done ++ [e]) =
      if e.destination ∈ destinations done then destinations done
      else destinations done ++ [e.destination] := by
  rw [destinations, List.foldl_concat]
  rfl

lemma mem_destinations : key ∈ destinations done ↔ ∃ e ∈ done, e.destination = key := by
  induction done using List.reverseRecOn with
  | nil => simp [destinations]
  | append_singleton done e ih =>
    rw [destinations_concat]
    split
    · rename_i h
      rw [ih]
      constructor
      · rintro ⟨e', he', rfl⟩
        exact ⟨e', List.mem_append_left _ he', rfl⟩
      · rintro ⟨e', he', rfl⟩
        rcases List.mem_append.mp he' with he' | he'
        · exact ⟨e', he', rfl⟩
        · cases List.mem_singleton.mp he'
          exact ih.mp h
    · rw [List.mem_append, List.mem_singleton, ih]
      constructor
      · rintro (⟨e', he', rfl⟩ | rfl)
        · exact ⟨e', List.mem_append_left _ he', rfl⟩
        · exact ⟨e, List.mem_append_right _ (List.mem_singleton.mpr rfl), rfl⟩
      · rintro ⟨e', he', rfl⟩
        rcases List.mem_append.mp he' with he' | he'
        · exact .inl ⟨e', he', rfl⟩
        · rw [List.mem_singleton.mp he']
          exact .inr rfl

lemma destinations_nodup : (destinations done).Nodup := by
  induction done using List.reverseRecOn with
  | nil => exact List.nodup_nil
  | append_singleton done e ih =>
    rw [destinations_concat]
    split
    · exact ih
    · rename_i h
      refine List.nodup_append.mpr ⟨ih, List.nodup_singleton _, ?_⟩
      intro a ha b hb e
      rw [List.mem_singleton.mp hb] at e
      exact h (e ▸ ha)

/-- The batches of the selected events by destination. -/
def batchesOf (sel : SmdEvent → Bool) (done : List SmdEvent) : BatchDict :=
  (destinations done).map fun key =>
    (key, openBatch (done.filter fun e => e.destination = key ∧ sel e))

/-- A destination without a selected event has an empty batch. -/
lemma touch_batchesOf (sel : SmdEvent → Bool) (done : List SmdEvent) (e : SmdEvent) :
    (batchesOf sel done).touch e.destination =
      (destinations (done ++ [e])).map fun key =>
        (key, openBatch (done.filter fun e => e.destination = key ∧ sel e)) := by
  have known : (batchesOf sel done).any (·.1 = e.destination) = true ↔
      e.destination ∈ destinations done := by
    rw [List.any_eq_true, batchesOf]
    constructor
    · rintro ⟨item, hi, h⟩
      obtain ⟨key, hk, rfl⟩ := List.mem_map.mp hi
      have h : key = e.destination := of_decide_eq_true h
      rwa [h] at hk
    · intro h
      exact ⟨_, List.mem_map_of_mem h, decide_eq_true rfl⟩
  rw [BatchDict.touch, destinations_concat]
  by_cases h : e.destination ∈ destinations done
  · rw [if_pos (known.mpr h), if_pos h]
    rfl
  · have none_ : done.filter (fun e' => e'.destination = e.destination ∧ sel e') = [] := by
      apply List.filter_eq_nil_iff.mpr
      intro e' he' hd
      exact h (mem_destinations.mpr ⟨e', he', (of_decide_eq_true hd).1⟩)
    rw [if_neg fun hk => h (known.mp hk), if_neg h, List.map_append, List.map_singleton, none_]
    rfl

/-- Extending the batch of a destination by an event that is selected. -/
lemma extend_batchesOf (sel : SmdEvent → Bool) (done : List SmdEvent) (e : SmdEvent)
    (he : sel e = true) :
    ((batchesOf sel done).touch e.destination).extend e.destination (packed e.streams) =
      batchesOf sel (done ++ [e]) := by
  rw [touch_batchesOf, BatchDict.extend, batchesOf, List.map_map]
  apply List.map_congr_left
  intro key _
  simp only [Function.comp, List.filter_append]
  split
  · rename_i h
    simp [h, he, openBatch]
  · rename_i h
    have h' : ¬ e.destination = key := fun e' => h e'.symm
    simp [h', openBatch]

/-- An event that is not selected. -/
lemma skip_batchesOf (sel : SmdEvent → Bool) (done : List SmdEvent) (e : SmdEvent)
    (he : sel e = false) :
    (batchesOf sel done).touch e.destination = batchesOf sel (done ++ [e]) := by
  rw [touch_batchesOf, batchesOf]
  apply List.map_congr_left
  intro key _
  simp [List.filter_append, he]

/-- The selection of the step batches. -/
def isStep (e : SmdEvent) : Bool := e.service ≠ l1Accept

/-- The loop of `gen_batches`. -/
lemma addEvents_spec (evts : List SmdEvent) (done : List SmdEvent)
    (small : ∀ e ∈ evts, fits (packed e.streams).length) :
    addEvents (batchesOf (fun _ => true) done) (batchesOf isStep done) evts =
      .ok (batchesOf (fun _ => true) (done ++ evts), batchesOf isStep (done ++ evts)) := by
  induction evts generalizing done with
  | nil => rw [addEvents, List.append_nil]
  | cons e evts ih =>
    have next := ih (done ++ [e]) fun e' he' => small e' (List.mem_cons_of_mem e he')
    rw [List.append_assoc, List.singleton_append] at next
    rw [addEvents, asBytearray_eq (small e List.mem_cons_self), ok_bind]
    simp only
    rw [extend_batchesOf _ _ _ rfl]
    by_cases h : e.service ≠ l1Accept
    · rw [if_pos h, extend_batchesOf isStep done e (decide_eq_true h)]
      exact next
    · rw [if_neg h, skip_batchesOf isStep done e (decide_eq_false h)]
      exact next

/-- Writing the sizes of the events over the shared array. -/
lemma assignSizes_spec (before sizes : List Nat) (array : List Nat)
    (room : before.length + sizes.length ≤ array.length) (small : ∀ size ∈ sizes, fits size)
    (h : array.take before.length = before) :
    assignSizes array before.length sizes =
      .ok (before ++ sizes ++ array.drop (before.length + sizes.length)) := by
  induction sizes generalizing before array with
  | nil =>
    rw [assignSizes, List.append_nil, List.length_nil, Nat.add_zero]
    conv_lhs => rw [← List.take_append_drop before.length array, h]
  | cons size sizes ih =>
    rw [List.length_cons] at room
    have hlt : before.length < array.length := by omega
    have set : (array.set before.length size).take (before.length + 1) = before ++ [size] := by
      rw [List.take_add_one, List.take_set_of_le (Nat.le_refl _), h,
        List.getElem?_set_self hlt]
      rfl
    have next := ih (before ++ [size]) (array.set before.length size)
      (by rw [List.length_append, List.length_singleton, List.length_set]; omega)
      (fun s hs => small s (List.mem_cons_of_mem size hs))
      (by rw [List.length_append, List.length_singleton]; exact set)
    rw [List.length_append, List.length_singleton] at next
    rw [assignSizes, assign, if_pos (small size List.mem_cons_self), if_pos hlt, ok_bind, next,
      List.drop_set_of_lt (by omega)]
    simp only [List.append_assoc, List.singleton_append, List.length_cons]
    congr 4
    omega

/-- The footers of the batches do not depend on what the shared array held before. -/
lemma addFooters_spec (keys : List Int) (f : Int → List SmdEvent) (array : List Nat)
    (room : array.length = maxBatchSize + 1) (short : ∀ key, (f key).length ≤ maxBatchSize)
    (small : ∀ key, ∀ e ∈ f key, fits (packed e.streams).length) :
    addFooters array (keys.map fun key => (key, openBatch (f key))) =
      .ok (keys.map fun key => (key, closedBatch (f key))) := by
  induction keys generalizing array with
  | nil => rfl
  | cons key keys ih =>
    rw [List.map_cons, List.map_cons, addFooters]
    by_cases none_ : f key = []
    · have bytes : (openBatch (f key)).bytes = [] := by
        rw [none_]
        rfl
      have closed : openBatch (f key) = closedBatch (f key) := by
        rw [none_]
        rfl
      rw [if_pos bytes, ih array room, ok_bind, closed]
    · have bytes : (openBatch (f key)).bytes ≠ [] := by
        obtain ⟨e, es, h⟩ := List.exists_cons_of_ne_nil none_
        rw [h, openBatch]
        exact List.append_ne_nil_of_left_ne_nil (packed_ne_nil _) _
      have sizesLength : (openBatch (f key)).sizes.length = (f key).length := List.length_map _
      have shortKey := short key
      have written := assignSizes_spec [] (openBatch (f key)).sizes array
        (by rw [sizesLength, room, List.length_nil]; omega) (List.forall_mem_map.mpr (small key)) rfl
      rw [List.length_nil, List.nil_append, Nat.zero_add] at written
      have fitsCount : fits (openBatch (f key)).sizes.length := by
        rw [sizesLength, fits]
        exact Nat.lt_of_le_of_lt shortKey (by decide)
      have left : array.drop (openBatch (f key)).sizes.length ≠ [] := by
        rw [Ne, List.drop_eq_nil_iff, sizesLength, room]
        omega
      obtain ⟨x, xs, hx⟩ := List.exists_cons_of_ne_nil left
      have roomLeft : (openBatch (f key)).sizes.length <
          ((openBatch (f key)).sizes ++ x :: xs).length := by
        rw [List.length_append, List.length_cons]
        omega
      have set : ((openBatch (f key)).sizes ++ x :: xs).set (openBatch (f key)).sizes.length
          (openBatch (f key)).sizes.length =
            (openBatch (f key)).sizes ++ (openBatch (f key)).sizes.length :: xs := by
        rw [List.set_append_right _ _ (Nat.le_refl _), Nat.sub_self, List.set_cons_zero]
      have roomNext : ((openBatch (f key)).sizes ++ (openBatch (f key)).sizes.length :: xs).length =
          maxBatchSize + 1 := by
        have total := congrArg List.length hx
        rw [List.length_drop, List.length_cons, room] at total
        rw [List.length_append, List.length_cons]
        omega
      have footer : (((openBatch (f key)).sizes ++ (openBatch (f key)).sizes.length :: xs).take
          ((openBatch (f key)).sizes.length + 1)).flatMap (toLe 4) =
            footerOf (openBatch (f key)).sizes := by
        rw [List.take_length_add_append, List.take_succ_cons, List.take_zero, List.flatMap_append,
          footerOf]
        simp
      have closed : (⟨(openBatch (f key)).bytes ++ footerOf (openBatch (f key)).sizes,
          (openBatch (f key)).sizes⟩ : Batch) = closedBatch (f key) := by
        have some_ : (f key).map SmdEvent.streams ≠ [] := by
          rwa [Ne, List.map_eq_nil_iff]
        rw [closedBatch, batchBytes, if_neg some_, packed, List.map_map, List.map_map]
        rfl
      rw [if_neg bytes, written, ok_bind, hx, assign, if_pos fitsCount, if_pos roomLeft, ok_bind, set]
      simp only
      rw [ih _ roomNext, ok_bind, footer, closed]

/-- What `gen_batches` returns. -/
lemma genBatches_spec (evts : List SmdEvent) (short : evts.length ≤ maxBatchSize)
    (small : ∀ e ∈ evts, fits (packed e.streams).length) :
    genBatches evts =
      .ok ((destinations evts).map fun key =>
          (key, closedBatch (evts.filter fun e => e.destination = key)),
        (destinations evts).map fun key =>
          (key, closedBatch (evts.filter fun e => e.destination = key ∧ isStep e))) := by
  have events := addEvents_spec evts [] small
  rw [List.nil_append] at events
  have room : (List.replicate (maxBatchSize + 1) 0).length = maxBatchSize + 1 :=
    List.length_replicate
  have batches := addFooters_spec (destinations evts)
    (fun key => evts.filter fun e => e.destination = key ∧ true) _ room
    (fun key => Nat.le_trans (List.length_filter_le _ _) short)
    (fun key e he => small e (List.mem_of_mem_filter he))
  have steps := addFooters_spec (destinations evts)
    (fun key => evts.filter fun e => e.destination = key ∧ isStep e) _ room
    (fun key => Nat.le_trans (List.length_filter_le _ _) short)
    (fun key e he => small e (List.mem_of_mem_filter he))
  have start : addEvents [] [] evts =
      addEvents (batchesOf (fun _ => true) []) (batchesOf isStep []) evts := rfl
  rw [genBatches, start, events, ok_bind]
  simp only
  rw [batchesOf, batches, ok_bind, batchesOf, steps, ok_bind]
  simp only [and_true]

/-- Every event lands in the batch of its destination and in no other. The batch, with any missing
    steps prepended by `repack_for_bd`, decodes to these steps and the events of the destination in
    order, the bytes of each stream as they were and none for a missing dgram; the step batch decodes
    to the events of the destination that are not L1Accepts. -/
theorem batches_round_trip (evts : List SmdEvent) (short : evts.length ≤ maxBatchSize)
    (small : ∀ e ∈ evts, fits (packed e.streams).length) :
    ∃ batchDict stepDict, genBatches evts = .ok (batchDict, stepDict) ∧
      batchDict.map (·.1) = destinations evts ∧ stepDict.map (·.1) = destinations evts ∧
      (destinations evts).Nodup ∧
      (∀ key, key ∈ destinations evts ↔ ∃ e ∈ evts, e.destination = key) ∧
      (∀ key batch, (key, batch) ∈ batchDict → ∀ (n : Nat) (steps : List (List SmdDgram)),
        (n = 0 → steps = []) → fits (maxBatchSize + steps.length) →
        (∀ step ∈ steps, step.length = n ∧ fits (packed (step.map SmdDgram.bytes)).length) →
        ∃ out, repackForBd batch.bytes (stepViews n steps) = .ok out ∧
          decodeBatch out = .ok (steps.map (·.map SmdDgram.bytes) ++
            (evts.filter fun e => e.destination = key).map SmdEvent.streams)) ∧
      (∀ key batch, (key, batch) ∈ stepDict →
        decodeBatch batch.bytes =
          .ok ((evts.filter fun e => e.destination = key ∧ e.service ≠ l1Accept).map
            SmdEvent.streams)) := by
  refine ⟨_, _, genBatches_spec evts short small, ?_, ?_, destinations_nodup,
    fun key => mem_destinations, ?_, ?_⟩
  · rw [List.map_map]
    exact List.map_id _
  · rw [List.map_map]
    exact List.map_id _
  · intro key batch hb n steps none_ count full
    obtain ⟨key', -, e⟩ := List.mem_map.mp hb
    cases e
    have fewer : (evts.filter fun e => e.destination = key).length ≤ maxBatchSize :=
      Nat.le_trans (List.length_filter_le _ _) short
    have smallEvents : ∀ e ∈ (evts.filter fun e => e.destination = key).map SmdEvent.streams,
        fits (packed e).length :=
      List.forall_mem_map.mpr fun e he => small e (List.mem_of_mem_filter he)
    rw [fits] at count
    refine ⟨_, repackForBd_batchBytes none_ ?_ smallEvents full, decode_batchBytes ?_ ?_⟩
    · rw [List.length_map, fits]
      omega
    · rw [List.length_append, List.length_map, List.length_map, fits]
      omega
    · intro e he
      rcases List.mem_append.mp he with he | he
      · obtain ⟨step, hs, rfl⟩ := List.mem_map.mp he
        exact (full step hs).2
      · exact smallEvents e he
  · intro key batch hb
    obtain ⟨key', -, e⟩ := List.mem_map.mp hb
    cases e
    have fewer : (evts.filter fun e => e.destination = key ∧ isStep e).length ≤ maxBatchSize :=
      Nat.le_trans (List.length_filter_le _ _) short
    have decoded := @decode_batchBytes
      ((evts.filter fun e => e.destination = key ∧ isStep e).map SmdEvent.streams)
      (by rw [List.length_map, fits]; exact Nat.lt_of_le_of_lt fewer (by decide))
      (List.forall_mem_map.mpr fun e he => small e (List.mem_of_mem_filter he))
    simpa [isStep, closedBatch] using decoded

end gen

/-- A dgram without payload. -/
def bareDgram (tag : UInt8) : SmdDgram where
  bytes := tag :: List.replicate 19 0 ++ [12, 0, 0, 0]
  header := by
    show 24 ≤ 24
    exact Nat.le_refl 24
  sized := by rfl

/-- A transition for any rank, and an L1Accept of one stream for rank 2. -/
def twoDestinations : List SmdEvent :=
  [⟨[some (bareDgram 1), some (bareDgram 2)], 0, 2⟩, ⟨[none, some (bareDgram 3)], 2, l1Accept⟩]

/-- A missing step goes ahead of the one event for rank 2. -/
theorem batches_round_trip_two :
    ∃ batchDict stepDict, genBatches twoDestinations = .ok (batchDict, stepDict) ∧
      batchDict.map (·.1) = [0, 2] ∧
      ∀ batch, (2, batch) ∈ batchDict →
        ∃ out, repackForBd batch.bytes (stepViews 2 [[bareDgram 4, bareDgram 5]]) = .ok out ∧
          decodeBatch out = .ok [[(bareDgram 4).bytes, (bareDgram 5).bytes],
            [[], (bareDgram 3).bytes]] := by
  obtain ⟨batchDict, stepDict, h, keys, -, -, -, batches, -⟩ :=
    batches_round_trip twoDestinations (by decide) (by decide)
  refine ⟨batchDict, stepDict, h, keys, fun batch hb => ?_⟩
  exact batches 2 batch hb 2 [[bareDgram 4, bareDgram 5]] nofun (by decide) (by decide)

end Lcls2.Psana
