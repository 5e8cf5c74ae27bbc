import Lcls2.Eb.Matching

/-!
# Results that do not advance

`_deliver` means to stop on a result whose pulse ID is not greater than that of the result before it.
But the declaration of `rPidPrv` is inside the loop, so that a result is only ever compared with 0.

The loop is taken apart into its rounds, so that one can say at which result it stops. `walked` says
what results it comes to.
-/

namespace Lcls2.Eb

namespace EbCtrbInBase

/-- The loop of `_deliver` before a round, with the results of the batch that are behind. -/
structure Walk where
  passed : List ResultDgram
  results : List ResultDgram
  inputs : List EbDgram
  rAdx : Nat
  iAdx : Nat
  idx : Nat
  s : EbCtrbInBase

namespace Walk

/-- The call of `_deliver` on the rest of a batch. -/
def call (p : TebCtrbParams) (s : EbCtrbInBase) (passed : List ResultDgram)
    (results : Cursor ResultDgram) (inputs : Cursor EbDgram) : Walk where
  passed := passed
  results := results.chain
  inputs := inputs.chain
  rAdx := results.adx
  iAdx := inputs.adx
  idx := p.index inputs.adx
  s := s

/-- The rest of the loop. -/
def loop (p : TebCtrbParams) (w : Walk) : Except CtrbFault (EbCtrbInBase × Left) :=
  deliverLoop p w.results w.inputs w.rAdx w.iAdx w.idx w.s

/-- One round: the loop goes on, or it returns. -/
def next (p : TebCtrbParams) (w : Walk) : Except CtrbFault (Walk ⊕ EbCtrbInBase × Left) :=
  match w.results, w.inputs with
  | result :: rs, input :: is =>
    if result.pulseId ≤ input.pulseId then
      if result.pulseId = 0 then .error .resultDidntAdvance
      else if result.pulseId = input.pulseId then
        if input.pulseId ≤ w.s.iPidPrv then .error .inputDidntAdvance
        else
          let s := w.s.processResult result w.idx
          if input.isEOL then
            .ok (.inr (s, if result.isEOL then none else some ⟨w.rAdx + 1, rs⟩, none))
          else if result.isEOL then .ok (.inr (s, none, some ⟨w.iAdx + 1, is⟩))
          else .ok (.inl ⟨w.passed ++ [result], rs, is, w.rAdx + 1, w.iAdx + 1, w.idx + 1, s⟩)
      else
        let s := w.s.discardResult p result
        if result.isEOL then .ok (.inr (s, none, some ⟨w.iAdx, input :: is⟩))
        else .ok (.inl ⟨w.passed ++ [result], rs, input :: is, w.rAdx + 1, w.iAdx, w.idx, s⟩)
    else .ok (.inr (w.s, some ⟨w.rAdx, result :: rs⟩, some ⟨w.iAdx, input :: is⟩))
  | _, _ => .error .overrun

/-- The rounds that a loop comes to. -/
inductive Reached (p : TebCtrbParams) : Walk → Walk → Prop where
  | refl {w} :
    Reached p w w
  | next {w v u} :
    w.next p = .ok (.inl v) →
    Reached p v u →
    Reached p w u

/-- A result that the round would compare with the one before it, and that does not advance, makes it
    throw. The state is then as the round found it. -/
def Stops (p : TebCtrbParams) (w : Walk) : Prop :=
  ∀ before ∈ w.passed.getLast?, ∀ result ∈ w.results.head?, ∀ input ∈ w.inputs.head?,
    result.pulseId ≤ input.pulseId → result.pulseId ≤ before.pulseId →
      w.next p = .error .resultDidntAdvance

/-- The loop stops on every result that does not advance, and not for that reason when all of them do. -/
def Detects (p : TebCtrbParams) (w : Walk) : Prop :=
  (∀ v, Reached p w v → v.Stops p) ∧
    ((w.passed ++ w.results).Pairwise (·.pulseId < ·.pulseId) →
      w.loop p ≠ .error .resultDidntAdvance)

end Walk

/-- The results that the loop compares with an input, where `iPidPrv` is the last input delivered. -/
def walked : List ResultDgram → List EbDgram → Nat → List ResultDgram
  | result :: rs, input :: is, iPidPrv =>
    if result.pulseId ≤ input.pulseId then
      result ::
        if result.pulseId = 0 ∨ result.isEOL then []
        else if result.pulseId = input.pulseId then
          if input.pulseId ≤ iPidPrv ∨ input.isEOL then [] else walked rs is input.pulseId
        else walked rs (input :: is) iPidPrv
    else []
  | _, _, _ => []

/-- Each result advances over the one before it, or has pulse ID 0. -/
def Advances : Option ResultDgram → List ResultDgram → Prop
  | _, [] => True
  | before, result :: rs =>
    (∀ b ∈ before, b.pulseId < result.pulseId ∨ result.pulseId = 0) ∧ Advances (some result) rs

namespace Walk

variable {p : TebCtrbParams} {w v : Walk} {rs : List ResultDgram}

/-- The rounds are the first and those that its rest comes to. -/
lemma reached_iff {P : Walk → Prop} :
    (∀ v, Reached p w v → P v) ↔
      P w ∧ ∀ u, w.next p = .ok (.inl u) → ∀ v, Reached p u v → P v := by
  constructor
  · intro h
    exact ⟨h w .refl, fun u e v reached => h v (.next e reached)⟩
  · rintro ⟨first, rest⟩ v reached
    cases reached with
    | refl => exact first
    | next e reached => exact rest _ e v reached

/-- A round that does not look at a result stops on none. -/
lemma stops_of_empty (h : w.results = [] ∨ w.inputs = []) : w.Stops p := by
  intro before _ result hr input hi
  rcases h with h | h
  · rw [h] at hr
    cases hr
  · rw [h] at hi
    cases hi

section Compared

variable {passed : List ResultDgram} {result : ResultDgram} {input : EbDgram} {is : List EbDgram}
  {rAdx iAdx idx : Nat} {s : EbCtrbInBase}

/-- A round throws for want of advance exactly on pulse ID 0. -/
lemma next_throws_iff (le : result.pulseId ≤ input.pulseId) :
    next p ⟨passed, result :: rs, input :: is, rAdx, iAdx, idx, s⟩ = .error .resultDidntAdvance ↔
      result.pulseId = 0 := by
  simp only [next, if_pos le]
  split_ifs with zero same
  all_goals simp [zero]

/-- So it stops on a result that does not advance exactly when this has pulse ID 0. -/
lemma stops_iff (le : result.pulseId ≤ input.pulseId) :
    Stops p ⟨passed, result :: rs, input :: is, rAdx, iAdx, idx, s⟩ ↔
      ∀ b ∈ passed.getLast?, b.pulseId < result.pulseId ∨ result.pulseId = 0 := by
  constructor
  · intro h b hb
    by_contra none_
    obtain ⟨behind, nonzero⟩ := not_or.mp none_
    have thrown := h b hb result rfl input rfl le (Nat.le_of_not_lt behind)
    exact nonzero ((next_throws_iff le).mp thrown)
  · intro h b hb r hr i hi _ behind
    cases hr
    cases hi
    rcases h b hb with advances | zero
    · exact absurd advances (Nat.not_lt_of_le behind)
    · exact (next_throws_iff le).mpr zero

/-- The loop ends with this round. -/
lemma all_stop_last (le : result.pulseId ≤ input.pulseId)
    (last : ∀ u, next p ⟨passed, result :: rs, input :: is, rAdx, iAdx, idx, s⟩ ≠ .ok (.inl u)) :
    (∀ v, Reached p ⟨passed, result :: rs, input :: is, rAdx, iAdx, idx, s⟩ v → v.Stops p) ↔
      Advances passed.getLast? [result] := by
  rw [reached_iff, stops_iff le, Advances, Advances]
  exact and_congr_right fun _ => iff_of_true (fun u e => absurd e (last u)) trivial

/-- The loop goes on after this round. -/
lemma all_stop_more {u : Walk} {more : List ResultDgram} (le : result.pulseId ≤ input.pulseId)
    (goes : next p ⟨passed, result :: rs, input :: is, rAdx, iAdx, idx, s⟩ = .ok (.inl u))
    (ih : (∀ v, Reached p u v → v.Stops p) ↔ Advances (passed ++ [result]).getLast? more) :
    (∀ v, Reached p ⟨passed, result :: rs, input :: is, rAdx, iAdx, idx, s⟩ v → v.Stops p) ↔
      Advances passed.getLast? (result :: more) := by
  rw [List.getLast?_concat] at ih
  rw [reached_iff, stops_iff le, Advances, goes, ← ih]
  apply and_congr_right
  intro _
  constructor
  · exact fun h => h u rfl
  · rintro h u' e
    cases e
    exact h

end Compared

/-- Every round stops on the results that do not advance exactly when these have pulse ID 0. -/
lemma all_stop_iff (rs : List ResultDgram) (passed : List ResultDgram) (is : List EbDgram)
    (rAdx iAdx idx : Nat) (s : EbCtrbInBase) :
    (∀ v, Reached p ⟨passed, rs, is, rAdx, iAdx, idx, s⟩ v → v.Stops p) ↔
      Advances passed.getLast? (walked rs is s.iPidPrv) := by
  induction rs generalizing passed is rAdx iAdx idx s with
  | nil =>
    rw [reached_iff]
    refine iff_of_true ⟨stops_of_empty (.inl rfl), ?_⟩ trivial
    intro u e
    cases e
  | cons result rs ih =>
    cases is with
    | nil =>
      rw [reached_iff]
      refine iff_of_true ⟨stops_of_empty (.inr rfl), ?_⟩ trivial
      intro u e
      cases e
    | cons input is =>
      by_cases le : result.pulseId ≤ input.pulseId
      · rw [walked, if_pos le]
        split_ifs with ends same stopped
        · -- pulse ID 0, or the end of the batch
          apply all_stop_last le
          intro u
          simp only [next, if_pos le]
          rcases ends with zero | marked
          · rw [if_pos zero]
            nofun
          · simp only [marked, if_true]
            split_ifs <;> nofun
        · -- the input is delivered, and it is the last of its batch or has thrown
          apply all_stop_last le
          intro u
          simp only [next, if_pos le, if_pos same]
          rcases stopped with old | marked
          · rw [if_pos old]
            split_ifs
            all_goals
              intro e
              cases e
          · simp only [marked, if_true]
            split_ifs
            all_goals
              intro e
              cases e
        · rw [not_or, Bool.not_eq_true] at ends
          rw [not_or, Bool.not_eq_true] at stopped
          have goes : next p ⟨passed, result :: rs, input :: is, rAdx, iAdx, idx, s⟩ =
              .ok (.inl ⟨passed ++ [result], rs, is, rAdx + 1, iAdx + 1, idx + 1,
                s.processResult result idx⟩) := by
            simp [next, same, stopped, ends.2, same ▸ ends.1]
          have rest := ih (passed ++ [result]) is (rAdx + 1) (iAdx + 1) (idx + 1)
            (s.processResult result idx)
          have delivered : (s.processResult result idx).iPidPrv = input.pulseId := same
          rw [delivered] at rest
          exact all_stop_more le goes rest
        · rw [not_or, Bool.not_eq_true] at ends
          have goes : next p ⟨passed, result :: rs, input :: is, rAdx, iAdx, idx, s⟩ =
              .ok (.inl ⟨passed ++ [result], rs, input :: is, rAdx + 1, iAdx, idx,
                s.discardResult p result⟩) := by
            simp [next, le, same, ends]
          have rest := ih (passed ++ [result]) (input :: is) (rAdx + 1) iAdx idx
            (s.discardResult p result)
          rw [(discardResult_frame p s result).2.2.2.2] at rest
          exact all_stop_more le goes rest
      · rw [walked, if_neg le, reached_iff]
        refine iff_of_true ⟨?_, ?_⟩ trivial
        · intro b _ r hr i hi le'
          cases hr
          cases hi
          exact absurd le' le
        · intro u e
          simp only [next, if_neg le] at e
          cases e

/-- Results with other pulse IDs than 0 never make the loop throw for want of advance. -/
lemma loop_advances (rs : List ResultDgram) (nonzero : ∀ r ∈ rs, r.pulseId ≠ 0)
    (passed : List ResultDgram) (is : List EbDgram) (rAdx iAdx idx : Nat) (s : EbCtrbInBase) :
    loop p ⟨passed, rs, is, rAdx, iAdx, idx, s⟩ ≠ .error .resultDidntAdvance := by
  induction rs generalizing is rAdx iAdx idx s with
  | nil =>
    intro e
    cases e
  | cons result rs ih =>
    have first := nonzero result List.mem_cons_self
    have rest := fun is rAdx iAdx idx s =>
      ih (fun r hr => nonzero r (List.mem_cons_of_mem result hr)) is rAdx iAdx idx s
    cases is with
    | nil =>
      intro e
      cases e
    | cons input is =>
      simp only [loop, deliverLoop, if_neg first]
      split_ifs
      any_goals exact rest _ _ _ _ _
      all_goals
        intro e
        cases e

/-- A batch that advances makes the loop throw for want of advance exactly when it begins with pulse ID
    0. -/
lemma loop_advances_iff (w : Walk) (sorted : (w.passed ++ w.results).Pairwise (·.pulseId < ·.pulseId)) :
    w.loop p ≠ .error .resultDidntAdvance ↔
      ∀ r ∈ (walked w.results w.inputs w.s.iPidPrv).head?, r.pulseId ≠ 0 := by
  obtain ⟨passed, results, inputs, rAdx, iAdx, idx, s⟩ := w
  cases results with
  | nil => exact iff_of_true (loop_advances [] (by simp) passed inputs rAdx iAdx idx s) (by simp [walked])
  | cons result rs =>
    cases inputs with
    | nil =>
      refine iff_of_true ?_ (by simp [walked])
      intro e
      cases e
    | cons input is =>
      by_cases zero : result.pulseId = 0
      · apply iff_of_false
        · simp [loop, deliverLoop, zero]
        · simp [walked, zero]
      · have sorted := List.pairwise_cons.mp (List.pairwise_append.mp sorted).2.1
        apply iff_of_true
        · apply loop_advances
          intro r hr
          rcases List.mem_cons.mp hr with rfl | hr
          · exact zero
          · exact Nat.ne_of_gt (Nat.lt_of_le_of_lt (Nat.zero_le _) (sorted.1 r hr))
        · intro r hr
          rw [walked] at hr
          split at hr
          · cases hr
            exact zero
          · cases hr

end Walk

/-- A call of `_deliver` detects the results that do not advance exactly when those it comes to have
    pulse ID 0, and a batch that advances does not begin with pulse ID 0. -/
theorem deliver_detects_iff (p : TebCtrbParams) (s : EbCtrbInBase) (passed : List ResultDgram)
    (results : Cursor ResultDgram) (inputs : Cursor EbDgram) :
    (Walk.call p s passed results inputs).loop p = s.deliver p results inputs ∧
    ((Walk.call p s passed results inputs).Detects p ↔
      Advances passed.getLast? (walked results.chain inputs.chain s.iPidPrv) ∧
        ((passed ++ results.chain).Pairwise (·.pulseId < ·.pulseId) →
          ∀ r ∈ (walked results.chain inputs.chain s.iPidPrv).head?, r.pulseId ≠ 0)) := by
  refine ⟨rfl, ?_⟩
  apply and_congr
  · exact Walk.all_stop_iff results.chain passed inputs.chain results.adx inputs.adx
      (p.index inputs.adx) s
  · exact imp_congr_right fun sorted => Walk.loop_advances_iff (Walk.call p s passed results inputs) sorted

/-- Two results with pulse ID 8 in one batch: `_deliver` delivers the first to the input and discards the
    second as if there was no input for it. -/
theorem repeated_result_passes :
    ¬ (Walk.call twoTebs configured [] ⟨0, [resultFor 8, (resultFor 8).setEOL]⟩
        ⟨0, [l1Accept 8, (l1Accept 9).setEOL]⟩).Detects twoTebs ∧
      (configured.deliver twoTebs ⟨0, [resultFor 8, (resultFor 8).setEOL]⟩
        ⟨0, [l1Accept 8, (l1Accept 9).setEOL]⟩).map (fun o => o.1.processed.length) = .ok 1 := by
  constructor
  · intro detects
    have reached := Walk.Reached.next (p := twoTebs)
      (w := Walk.call twoTebs configured [] ⟨0, [resultFor 8, (resultFor 8).setEOL]⟩
        ⟨0, [l1Accept 8, (l1Accept 9).setEOL]⟩) rfl .refl
    have thrown := detects.1 _ reached (resultFor 8) rfl (resultFor 8).setEOL rfl (l1Accept 9).setEOL rfl
      (by decide) (by decide)
    cases thrown
  · rfl

end EbCtrbInBase

end Lcls2.Eb
