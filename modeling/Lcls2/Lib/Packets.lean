import Mathlib

/-!
# Reading a stream of packets

A reader takes its results out of the packet it has, and a new packet off a queue when that is used up; it
waits where there is none. A reader whose state is `At` the results that are left in its packet reads the
results of all packets in order, and then waits.
-/

namespace Lcls2.Lib

variable {R P β : Type*}

/-- The results of a number of calls, up to one that waits. -/
def reads (read : R → List P → Option (β × R × List P)) : Nat → R → List P → List β
  | 0, _, _ => []
  | n + 1, r, ps =>
    match read r ps with
    | none => []
    | some (b, r, ps) => b :: reads read n r ps

/-- What a reader does in terms of the results `At` hand and of those that a packet `Opens`. -/
structure Reader (read : R → List P → Option (β × R × List P)) (At : R → List β → Prop)
    (Opens : P → List β → Prop) : Prop where
  next : ∀ r b bs ps, At r (b :: bs) → ∃ r', read r ps = some (b, r', ps) ∧ At r' bs
  wait : ∀ r, At r [] → read r [] = none
  recv : ∀ r p bs ps, At r [] → Opens p bs →
    ∃ b bs' r', bs = b :: bs' ∧ read r (p :: ps) = some (b, r', ps) ∧ At r' bs'

variable {read : R → List P → Option (β × R × List P)} {At : R → List β → Prop} {Opens : P → List β → Prop}

/-- The results of a stream are those of its packets. -/
lemma Reader.reads_eq (reader : Reader read At Opens) {n : Nat} {r : R} {bs : List β} {ps : List P}
    {bss : List (List β)} (at_ : At r bs) (opens : List.Forall₂ Opens ps bss) :
    reads read n r ps = (bs ++ bss.flatten).take n := by
  induction n generalizing r bs ps bss with
  | zero => rw [List.take_zero, reads]
  | succ n ih =>
    cases bs with
    | cons b bs =>
      obtain ⟨r', e, at'⟩ := reader.next r b bs ps at_
      rw [reads, e]
      exact congrArg (b :: ·) (ih at' opens)
    | nil =>
      cases opens with
      | nil =>
        rw [reads, reader.wait r at_]
        rfl
      | @cons p bs ps bss first others =>
        obtain ⟨b, bs', r', rfl, e, at'⟩ := reader.recv r p bs ps at_ first
        rw [reads, e]
        exact congrArg (b :: ·) (ih at' others)

end Lcls2.Lib
