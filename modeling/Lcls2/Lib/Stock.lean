import Mathlib

/-!
# Items that are passed between places

A stock says which items are at each place, in an order that the places may use. It is spread when every item of a set
is at exactly one place, once, and nothing else is anywhere. Passing an item on keeps a stock spread; an item that comes
from nowhere, or goes nowhere, does not. With one item elsewhere a place has room for another.
-/

namespace Lcls2.Lib

/-- The items at each place. -/
abbrev Stock (π ι : Type*) := π → List ι

namespace Stock
variable {π ι : Type*} [DecidableEq π] [DecidableEq ι] {items : Finset ι} {s : Stock π ι} {p q r : π} {x y : ι}

/-- An item comes to a place. -/
def put (s : Stock π ι) (p : π) (x : ι) : Stock π ι := Function.update s p (s p ++ [x])

/-- An item leaves a place. -/
def take (s : Stock π ι) (p : π) (x : ι) : Stock π ι := Function.update s p ((s p).erase x)

/-- An item is passed from one place to another. -/
def pass (s : Stock π ι) (p q : π) (x : ι) : Stock π ι := (s.take p x).put q x

/-- Every item of a set is at one place, once, and nothing else is anywhere. -/
structure Spread (items : Finset ι) (s : Stock π ι) : Prop where
  nodup : ∀ p, (s p).Nodup
  onePlace : ∀ {x p q}, x ∈ s p → x ∈ s q → p = q
  item : ∀ {x p}, x ∈ s p → x ∈ items
  somewhere : ∀ {x}, x ∈ items → ∃ p, x ∈ s p

/-- Other places keep what they have. -/
lemma pass_of_ne (first : r ≠ p) (second : r ≠ q) : s.pass p q x r = s r := by
  rw [pass, put, Function.update_of_ne second, take, Function.update_of_ne first]

omit [DecidableEq ι] in
/-- Where the items are after one has come. -/
lemma mem_put : y ∈ s.put q x r ↔ (y = x ∧ r = q) ∨ y ∈ s r := by
  rw [put, Function.update_apply]
  split
  · rename_i same
    rw [same, List.mem_append, List.mem_singleton, or_comm, and_iff_left rfl]
  · rename_i other
    exact (or_iff_right fun both => other both.2).symm

/-- Where the items are after one has left. -/
lemma mem_take (nodup : (s p).Nodup) : y ∈ s.take p x r ↔ y ∈ s r ∧ ¬ (y = x ∧ r = p) := by
  rw [take, Function.update_apply]
  split
  · rename_i same
    rw [same, nodup.mem_erase_iff, and_comm, and_iff_left rfl]
  · rename_i other
    exact (and_iff_left fun both => other both.2).symm

namespace Spread

/-- Where the items are after one has been passed on. -/
lemma mem_pass (spread : Spread items s) (here : x ∈ s p) :
    y ∈ s.pass p q x r ↔ (y = x ∧ r = q) ∨ (y ≠ x ∧ y ∈ s r) := by
  rw [pass, mem_put, mem_take (spread.nodup p)]
  refine or_congr_right ⟨fun left => ⟨fun same => ?_, left.1⟩, fun other => ⟨other.2, fun both => other.1 both.1⟩⟩
  subst same
  exact left.2 ⟨rfl, spread.onePlace left.1 here⟩

/-- Passing an item on keeps a stock spread. -/
lemma pass (spread : Spread items s) (here : x ∈ s p) : Spread items (s.pass p q x) := by
  refine ⟨fun r => ?_, ?_, ?_, ?_⟩
  · have left : ∀ r, (s.take p x r).Nodup := by
      intro r
      rw [take, Function.update_apply]
      split
      · exact (spread.nodup p).erase x
      · exact spread.nodup r
    rw [Stock.pass, put, Function.update_apply]
    split
    · refine List.nodup_append.mpr ⟨left q, List.nodup_singleton x, fun y mem z last same => ?_⟩
      cases List.mem_singleton.mp last
      subst same
      obtain ⟨there, other⟩ := (mem_take (spread.nodup p)).mp mem
      exact other ⟨rfl, spread.onePlace there here⟩
    · exact left r
  · intro y r r' first second
    cases (spread.mem_pass here).mp first with
    | inl moved =>
      cases (spread.mem_pass here).mp second with
      | inl moved' => exact moved.2.trans moved'.2.symm
      | inr kept => exact absurd moved.1 kept.1
    | inr kept =>
      cases (spread.mem_pass here).mp second with
      | inl moved => exact absurd moved.1 kept.1
      | inr kept' => exact spread.onePlace kept.2 kept'.2
  · intro y r mem
    cases (spread.mem_pass here).mp mem with
    | inl moved =>
      rw [moved.1]
      exact spread.item here
    | inr kept => exact spread.item kept.2
  · intro y mem
    cases eq_or_ne y x with
    | inl same => exact ⟨q, (spread.mem_pass here).mpr (.inl ⟨same, rfl⟩)⟩
    | inr other =>
      obtain ⟨r, there⟩ := spread.somewhere mem
      exact ⟨r, (spread.mem_pass here).mpr (.inr ⟨other, there⟩)⟩

omit [DecidableEq π] in
/-- While an item is elsewhere, a place has not all of them. -/
lemma room (spread : Spread items s) (other : p ≠ q) (here : x ∈ s p) : (s q).length < items.card := by
  have less : (s q).toFinset ⊆ items.erase x := by
    intro y mem
    have there := List.mem_toFinset.mp mem
    refine Finset.mem_erase.mpr ⟨?_, spread.item there⟩
    intro same
    subst same
    exact other (spread.onePlace here there)
  have card := Finset.card_le_card less
  rw [List.toFinset_card_of_nodup (spread.nodup q), Finset.card_erase_of_mem (spread.item here)] at card
  have some_ := Finset.card_pos.mpr ⟨x, spread.item here⟩
  omega

omit [DecidableEq ι] in
/-- An item that comes from nowhere is doubled. -/
lemma not_put (spread : Spread items s) (mem : x ∈ items) : ¬ Spread items (s.put q x) := by
  intro after
  obtain ⟨p, here⟩ := spread.somewhere mem
  have new : x ∈ s.put q x q := mem_put.mpr (.inl ⟨rfl, rfl⟩)
  cases after.onePlace new (mem_put.mpr (.inr here))
  have twice := after.nodup q
  rw [put, Function.update_self] at twice
  exact List.disjoint_of_nodup_append twice here List.mem_cons_self

/-- An item that goes nowhere is lost. -/
lemma not_take (spread : Spread items s) (here : x ∈ s p) : ¬ Spread items (s.take p x) := by
  intro after
  obtain ⟨q, there⟩ := after.somewhere (spread.item here)
  obtain ⟨there, other⟩ := (mem_take (spread.nodup p)).mp there
  exact other ⟨rfl, spread.onePlace there here⟩

end Spread

end Stock

end Lcls2.Lib
