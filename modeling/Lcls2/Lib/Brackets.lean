import Mathlib

/-!
# Segments of a history

A history is a list that grows at its end. Some entries open a segment and some close the one that
is open, an opening entry closing the segment before it. `Since` is the segment that is open at the
end of the history, `Between` is one that has been closed. Both are followed one entry at a time, by
`since_snoc` and `between_snoc`.
-/

namespace Lcls2.Lib

variable {α : Type*} {opens closes : α → Prop}

variable (opens closes) in
/-- `mid` is what the history holds after its last opening entry, which nothing has closed. -/
def Since (rs mid : List α) : Prop :=
  ∃ pre b, rs = pre ++ b :: mid ∧ opens b ∧ ∀ r ∈ mid, ¬ closes r

variable (opens closes) in
/-- `mid` is what the history holds between an opening entry and the entry that closes it. -/
def Between (rs mid : List α) : Prop :=
  ∃ pre b o post, rs = pre ++ b :: (mid ++ o :: post) ∧ opens b ∧ (∀ r ∈ mid, ¬ closes r) ∧ closes o

/-- No segment is open in an empty history. -/
lemma not_since_nil {mid : List α} : ¬ Since opens closes [] mid := by
  rintro ⟨pre, b, e, _, _⟩
  cases pre with
  | nil => cases e
  | cons p pre => cases e

/-- No segment is closed in an empty history. -/
lemma not_between_nil {mid : List α} : ¬ Between opens closes [] mid := by
  rintro ⟨pre, b, o, post, e, _, _, _⟩
  cases pre with
  | nil => cases e
  | cons p pre => cases e

/-- The open segment after one more entry: an empty one that the entry opens, or the one before with
    the entry added. -/
lemma since_snoc {rs mid : List α} {a : α} :
    Since opens closes (rs ++ [a]) mid ↔
      (opens a ∧ mid = []) ∨
        (¬ closes a ∧ ∃ mid', Since opens closes rs mid' ∧ mid = mid' ++ [a]) := by
  constructor
  · rintro ⟨pre, b, e, hb, hmid⟩
    cases mid using List.reverseRecOn with
    | nil =>
      obtain ⟨_, last⟩ := List.append_inj' e rfl
      cases last
      exact .inl ⟨hb, rfl⟩
    | append_singleton mid c =>
      have e : rs ++ [a] = (pre ++ b :: mid) ++ [c] := by simpa using e
      obtain ⟨before, last⟩ := List.append_inj' e rfl
      cases last
      exact .inr ⟨hmid a (by simp), mid, ⟨pre, b, before, hb, fun r hr => hmid r (by simp [hr])⟩, rfl⟩
  · intro h
    cases h with
    | inl h =>
      obtain ⟨ha, rfl⟩ := h
      exact ⟨rs, a, rfl, ha, by simp⟩
    | inr h =>
      obtain ⟨ha, mid', ⟨pre, b, rfl, hb, hmid⟩, rfl⟩ := h
      refine ⟨pre, b, by simp, hb, fun r hr => ?_⟩
      cases List.mem_append.mp hr with
      | inl hr => exact hmid r hr
      | inr hr =>
        cases List.mem_singleton.mp hr
        exact ha

/-- The closed segments after one more entry: those before, and the open one if the entry closes
    it. -/
lemma between_snoc {rs mid : List α} {a : α} :
    Between opens closes (rs ++ [a]) mid ↔
      Between opens closes rs mid ∨ (closes a ∧ Since opens closes rs mid) := by
  constructor
  · rintro ⟨pre, b, o, post, e, hb, hmid, ho⟩
    cases post using List.reverseRecOn with
    | nil =>
      have e : rs ++ [a] = (pre ++ b :: mid) ++ [o] := by simpa using e
      obtain ⟨before, last⟩ := List.append_inj' e rfl
      cases last
      exact .inr ⟨ho, pre, b, before, hb, hmid⟩
    | append_singleton post c =>
      have e : rs ++ [a] = (pre ++ b :: (mid ++ o :: post)) ++ [c] := by simpa using e
      obtain ⟨before, _⟩ := List.append_inj' e rfl
      exact .inl ⟨pre, b, o, post, before, hb, hmid, ho⟩
  · intro h
    cases h with
    | inl h =>
      obtain ⟨pre, b, o, post, rfl, hb, hmid, ho⟩ := h
      exact ⟨pre, b, o, post ++ [a], by simp, hb, hmid, ho⟩
    | inr h =>
      obtain ⟨ha, pre, b, rfl, hb, hmid⟩ := h
      exact ⟨pre, b, a, [], by simp, hb, hmid, ha⟩

/-- Once something has been opened, a segment is open, unless an entry closes without opening. -/
lemma exists_since {rs : List α} (opened : ∃ b ∈ rs, opens b) (reopens : ∀ r ∈ rs, closes r → opens r) :
    ∃ mid, Since opens closes rs mid := by
  induction rs using List.reverseRecOn with
  | nil =>
    obtain ⟨b, hb, _⟩ := opened
    cases hb
  | append_singleton rs a ih =>
    by_cases ha : opens a
    · exact ⟨[], since_snoc.mpr (.inl ⟨ha, rfl⟩)⟩
    · have before : ∃ b ∈ rs, opens b := by
        obtain ⟨b, hb, ob⟩ := opened
        cases List.mem_append.mp hb with
        | inl hb => exact ⟨b, hb, ob⟩
        | inr hb =>
          cases List.mem_singleton.mp hb
          exact absurd ob ha
      obtain ⟨mid, hmid⟩ := ih before fun r hr => reopens r (by simp [hr])
      exact ⟨mid ++ [a], since_snoc.mpr
        (.inr ⟨fun h => ha (reopens a (by simp) h), mid, hmid, rfl⟩)⟩

end Lcls2.Lib
