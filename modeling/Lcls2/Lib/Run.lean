import Mathlib

/-!
# Runs of a step function

A step function `σ → α → Except ε σ` takes a state and an action and either moves on or stops on a
fault. `Run step ok s₀ as s` says that the actions `as`, taken in order from `s₀`, all succeed and
lead to `s`, where every action also meets the assumption `ok` on the environment; `ok` sees the
actions taken so far and the state the action finds.

The induction over runs is packaged once in `Run.invariant`; the other lemmas cut a run at an
earlier point, weaken its assumption, and show that a run has one outcome.
-/

namespace Lcls2.Lib

variable {σ α ε : Type*}

/-- A sequence of two computations succeeds when both do. -/
lemma bind_ok {α β : Type _} {x : Except ε α} {f : α → Except ε β} {b : β}
    (h : (x >>= f) = .ok b) : ∃ a, x = .ok a ∧ f a = .ok b := by
  cases x with
  | error e => cases h
  | ok a => exact ⟨a, rfl, h⟩

/-- An outcome is a success that passes a test. -/
def passes (test : σ → Bool) : Except ε σ → Bool
  | .ok s => test s
  | .error _ => false

/-- What passes a test is a success, and its state does. -/
lemma passes_iff {test : σ → Bool} {r : Except ε σ} :
    passes test r = true ↔ ∃ s, r = .ok s ∧ test s = true := by
  cases r with
  | ok s => simp [passes]
  | error e => simp [passes]

/-- Whether a computation stops on a given fault, whatever a success is. -/
instance decidableEqError [DecidableEq ε] (r : Except ε σ) (e : ε) : Decidable (r = .error e) :=
  match r with
  | .ok _ => .isFalse nofun
  | .error e' => decidable_of_iff (e' = e) (by rw [Except.error.injEq])

/-- The runs of `step` from `s₀` whose every action meets `ok`. -/
inductive Run (step : σ → α → Except ε σ) (ok : List α → σ → α → Prop) (s₀ : σ) :
    List α → σ → Prop where
  | nil :
    Run step ok s₀ [] s₀
  | snoc {as s a t} :
    Run step ok s₀ as s →
    ok as s a →
    step s a = .ok t →
    Run step ok s₀ (as ++ [a]) t

namespace Run

variable {step : σ → α → Except ε σ} {ok ok' : List α → σ → α → Prop} {s₀ : σ}

/-- What holds at the start and is kept by every step holds at the end of every run. -/
lemma invariant {P : List α → σ → Prop} (start : P [] s₀)
    (next : ∀ as s a t, P as s → ok as s a → step s a = .ok t → P (as ++ [a]) t)
    {as s} (run : Run step ok s₀ as s) : P as s := by
  induction run with
  | nil => exact start
  | snoc _ hok hstep ih => exact next _ _ _ _ ih hok hstep

/-- A run under a stronger assumption is a run under a weaker one. -/
lemma mono (le : ∀ as s a, ok as s a → ok' as s a) {as s} (run : Run step ok s₀ as s) :
    Run step ok' s₀ as s := by
  induction run with
  | nil => exact .nil
  | snoc _ hok hstep ih => exact .snoc ih (le _ _ _ hok) hstep

/-- The last step of a run. -/
lemma snoc_iff {as a t} :
    Run step ok s₀ (as ++ [a]) t ↔ ∃ s, Run step ok s₀ as s ∧ ok as s a ∧ step s a = .ok t := by
  constructor
  · intro run
    generalize e : as ++ [a] = cs at run
    cases run with
    | nil => simp at e
    | snoc run' hok hstep =>
      obtain ⟨rfl, e'⟩ := List.append_inj' e rfl
      cases e'
      exact ⟨_, run', hok, hstep⟩
  · rintro ⟨s, run, hok, hstep⟩
    exact run.snoc hok hstep

/-- The empty run goes nowhere. -/
lemma nil_iff {t} : Run step ok s₀ [] t ↔ t = s₀ := by
  constructor
  · intro run
    generalize e : ([] : List α) = cs at run
    cases run with
    | nil => rfl
    | snoc _ _ _ => simp at e
  · rintro rfl
    exact .nil

/-- Where nothing is assumed of the environment, running is folding the step. -/
lemma of_foldlM {as s} (h : as.foldlM step s₀ = .ok s) : Run step (fun _ _ _ => True) s₀ as s := by
  induction as using List.reverseRecOn generalizing s with
  | nil =>
    cases h
    exact .nil
  | append_singleton as a ih =>
    rw [List.foldlM_append] at h
    obtain ⟨t, e, h⟩ := bind_ok h
    have h : step t a >>= pure = .ok s := h
    rw [bind_pure] at h
    exact (ih e).snoc trivial h

/-- Taking actions in order as long as they meet the assumption and succeed. -/
def replay (step : σ → α → Except ε σ) (ok : List α → σ → α → Prop)
    [∀ as s a, Decidable (ok as s a)] (done : List α) (s : σ) : List α → Option σ
  | [] => some s
  | a :: as =>
    if ok done s a then
      match step s a with
      | .ok t => replay step ok (done ++ [a]) t as
      | .error _ => none
    else none

/-- A replay continues a run. -/
lemma of_replay [∀ as s a, Decidable (ok as s a)] {as bs s t} (run : Run step ok s₀ as s)
    (h : replay step ok as s bs = some t) : Run step ok s₀ (as ++ bs) t := by
  induction bs generalizing as s with
  | nil =>
    cases h
    rw [List.append_nil]
    exact run
  | cons b bs ih =>
    simp only [replay] at h
    split at h
    · split at h
      · have run := ih (run.snoc ‹_› ‹_›) h
        rwa [List.append_assoc] at run
      · cases h
    · cases h

variable (step ok s₀) in
/-- A replay whose outcome passes a test. -/
lemma of_replay_any [∀ as s a, Decidable (ok as s a)] (as : List α) (test : σ → Bool)
    (h : (replay step ok [] s₀ as).any test = true) :
    ∃ s, Run step ok s₀ as s ∧ test s = true := by
  cases e : replay step ok [] s₀ as with
  | none =>
    rw [e] at h
    cases h
  | some s =>
    rw [e] at h
    exact ⟨s, of_replay .nil e, h⟩

/-- The actions of a run fix its outcome. -/
lemma unique {as s t} (run : Run step ok s₀ as s) (run' : Run step ok' s₀ as t) : s = t := by
  induction run generalizing t with
  | nil => exact (nil_iff.mp run').symm
  | snoc _ _ hstep ih =>
    obtain ⟨u, run', _, hstep'⟩ := snoc_iff.mp run'
    cases ih run'
    rw [hstep] at hstep'
    exact Except.ok.inj hstep'

/-- What holds at the start and survives a step exactly where the step meets an assumption holds in
    every state of a run exactly where the run meets the assumption. The invariant `I` of the runs
    that meet it helps to judge a step. -/
lemma everywhere_iff {I P : List α → σ → Prop} (start : I [] s₀) (begins : P [] s₀)
    (next : ∀ as s a t, I as s → ok' as s a → step s a = .ok t → I (as ++ [a]) t)
    (judge : ∀ as s a t, I as s → P as s → ok as s a → step s a = .ok t → (P (as ++ [a]) t ↔ ok' as s a))
    {as s} (run : Run step ok s₀ as s) :
    (∀ bs t, bs <+: as → Run step ok s₀ bs t → P bs t) ↔ Run step ok' s₀ as s := by
  induction run with
  | nil =>
    refine iff_of_true ?_ .nil
    intro bs t part run
    obtain rfl := List.prefix_nil.mp part
    obtain rfl := nil_iff.mp run
    exact begins
  | @snoc as s a t run hok h ih =>
    constructor
    · intro all
      have before := ih.mp fun bs r part => all bs r (part.trans (List.prefix_append _ _))
      have here := all as s (List.prefix_append _ _) run
      have after := all _ t List.prefix_rfl (run.snoc hok h)
      exact before.snoc ((judge as s a t (before.invariant start next) here hok h).mp after) h
    · intro meets bs r part run'
      obtain ⟨s', meets', hok', h'⟩ := snoc_iff.mp meets
      obtain rfl := unique run meets'
      have before := ih.mpr meets'
      cases List.prefix_concat_iff.mp part with
      | inl whole =>
        subst whole
        obtain rfl := unique run' meets
        exact (judge as s a r (meets'.invariant start next) (before as s List.prefix_rfl run) hok h').mpr
          hok'
      | inr part => exact before bs r part run'

/-- The same where a step may fail: an action is taken and keeps what should hold exactly where it meets an
    assumption. -/
lemma always_iff {I P : List α → σ → Prop} (start : I [] s₀) (begins : P [] s₀)
    (next : ∀ as s a t, I as s → ok' as s a → step s a = .ok t → I (as ++ [a]) t)
    (judge : ∀ as s a, I as s → P as s → ((∃ t, step s a = .ok t ∧ P (as ++ [a]) t) ↔ ok' as s a)) (as : List α) :
    (∀ bs, bs <+: as → ∃ t, Run step (fun _ _ _ => True) s₀ bs t ∧ P bs t) ↔ ∃ s, Run step ok' s₀ as s := by
  have any : ∀ {bs t}, Run step ok' s₀ bs t → Run step (fun _ _ _ => True) s₀ bs t := mono fun _ _ _ _ => trivial
  induction as using List.reverseRecOn with
  | nil =>
    refine iff_of_true ?_ ⟨s₀, .nil⟩
    intro bs part
    cases List.prefix_nil.mp part
    exact ⟨s₀, .nil, begins⟩
  | append_singleton as a ih =>
    constructor
    · intro all
      obtain ⟨s, before⟩ := ih.mp fun bs part => all bs (part.trans (List.prefix_append _ _))
      obtain ⟨s', run, here⟩ := all as (List.prefix_append _ _)
      cases unique run before
      obtain ⟨t, after, there⟩ := all _ List.prefix_rfl
      obtain ⟨s', run', -, h⟩ := snoc_iff.mp after
      cases unique run' before
      exact ⟨t, before.snoc ((judge as s a (before.invariant start next) here).mp ⟨t, h, there⟩) h⟩
    · rintro ⟨t, meets⟩ bs part
      obtain ⟨s, before, ok, h⟩ := snoc_iff.mp meets
      have earlier := ih.mpr ⟨s, before⟩
      cases List.prefix_concat_iff.mp part with
      | inr part => exact earlier bs part
      | inl whole =>
        subst whole
        obtain ⟨s', run, here⟩ := earlier as List.prefix_rfl
        cases unique run before
        obtain ⟨t', h', there⟩ := (judge as s a (before.invariant start next) here).mpr ok
        rw [h] at h'
        cases h'
        exact ⟨t, any meets, there⟩

end Run

end Lcls2.Lib
