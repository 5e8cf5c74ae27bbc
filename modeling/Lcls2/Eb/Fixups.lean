import Lcls2.Eb.EventOrder

/-!
# Fix-ups of the event builder

A schedule is an unending sequence of calls in which the batches of the sources are interleaved in
any way. `Schedule` is what is promised of it: each batch is a chain of one source within one epoch,
each source sends its contributions in the order of the pulse IDs, the contributions of one pulse ID
name the same readout groups, and every source in the contract contributes in the end.

Under these promises every prefix of the arrivals is `Prompt`, and so a fix-up of an event that did
not time out can only be one of an event that was split: a part of its contributions came after a
timeout had retired its pulse ID (`fixups_excused`). That such fix-ups happen is shown by
`late_contribution_fixed_up`, where a complete event flushes the second part of an older one.
-/

namespace Lcls2.Eb
open Lcls2.Lib EventBuilder

/-- The first calls of a schedule. -/
def calls (sched : ℕ → Op) (n : ℕ) : List Op := (List.range n).map sched

/-- What is promised of a schedule of calls to a builder with tables `t`. -/
structure Schedule (app : EbApp) (t : EbTables) (sched : ℕ → Op) : Prop where
  closed : ∀ n batch imm, sched n = .process batch imm →
    ∃ init last, batch = init ++ [last] ∧ last.isEOL = true ∧ ∀ d ∈ init, d.isEOL = false
  oneSource : ∀ n, ∀ d ∈ (sched n).batch, ∀ d' ∈ (sched n).batch, d.src = d'.src
  oneEpoch : ∀ n, ∀ d ∈ (sched n).batch, ∀ d' ∈ (sched n).batch,
    t.epochKey d.pulseId = t.epochKey d'.pulseId
  increasing : ∀ n, (arrivals (calls sched n)).Pairwise fun d d' =>
    d.src = d'.src → d.pulseId < d'.pulseId
  sameGroups : ∀ n, ∀ d ∈ arrivals (calls sched n), ∀ d' ∈ arrivals (calls sched n),
    d.pulseId = d'.pulseId → d.readoutGroups = d'.readoutGroups
  complete : ∀ n, ∀ d ∈ arrivals (calls sched n), ∀ src,
    (app.contract d).getLsbD src = true →
      ∃ m, ∃ d' ∈ arrivals (calls sched m), d'.src = src ∧ d'.pulseId = d.pulseId

/-- The runs of a builder on the first calls of a schedule. -/
abbrev SchedRun (app : EbApp) (s₀ : EventBuilder) (sched : ℕ → Op) (n : ℕ) (s : EventBuilder) :
    Prop :=
  Run (step app) (fun _ _ _ => True) s₀ (calls sched n) s

section schedule
variable {app : EbApp} {t : EbTables} {sched : ℕ → Op} {n m : ℕ}

@[simp] lemma calls_succ (sched : ℕ → Op) (n : ℕ) :
    calls sched (n + 1) = calls sched n ++ [sched n] := by
  simp [calls, List.range_succ]

/-- What arrived stays. -/
lemma arrivals_mono (le : n ≤ m) : arrivals (calls sched n) <+: arrivals (calls sched m) := by
  induction m with
  | zero =>
    cases Nat.le_zero.mp le
    exact List.prefix_refl _
  | succ m ih =>
    cases Nat.lt_or_eq_of_le le with
    | inl lt =>
      rw [calls_succ, arrivals_snoc]
      exact (ih (Nat.le_of_lt_succ lt)).trans (List.prefix_append _ _)
    | inr e =>
      subst e
      exact List.prefix_refl _

/-- Every part of the arrivals of a schedule is prompt: if a source sent for a later pulse ID, it has
    sent for the earlier one. -/
lemma Schedule.prompt (sched_ok : Schedule app t sched) {part}
    (hpart : part <+: arrivals (calls sched n)) : Prompt app part := by
  intro d hd later hlater contract lt
  obtain ⟨m, own, hown, src, pid⟩ := sched_ok.complete n d (hpart.subset hd) later.src contract
  have hpart' : part <+: arrivals (calls sched (max n m)) :=
    hpart.trans (arrivals_mono (le_max_left n m))
  have hown' : own ∈ arrivals (calls sched (max n m)) :=
    (arrivals_mono (le_max_right n m)).subset hown
  obtain ⟨rest, split⟩ := hpart'
  rw [← split] at hown'
  cases List.mem_append.mp hown' with
  | inl mem => exact ⟨own, mem, src, pid⟩
  | inr behind =>
    have order := sched_ok.increasing (max n m)
    rw [← split, List.pairwise_append] at order
    have := order.2.2 later hlater own behind src.symm
    omega

/-- The batches of a schedule are well formed. -/
lemma Schedule.wellFormed (sched_ok : Schedule app t sched) {t' : EbTables}
    (hconfig : t'.config = t.config) {batch imm} (h : sched n = .process batch imm) :
    WellFormed t' batch := by
  have hbatch : (sched n).batch = batch := by rw [h]; rfl
  refine ⟨sched_ok.closed n batch imm h, ?_, ?_⟩
  · have order := sched_ok.increasing (n + 1)
    rw [calls_succ, arrivals_snoc, hbatch, List.pairwise_append] at order
    refine order.2.1.imp_of_mem ?_
    intro d d' hd hd' lt
    exact lt (sched_ok.oneSource n d (hbatch ▸ hd) d' (hbatch ▸ hd'))
  · intro d hd d' hd'
    rw [EbTables.epochKey_congr hconfig]
    exact sched_ok.oneEpoch n d (hbatch ▸ hd) d' (hbatch ▸ hd')

variable {s₀ s : EventBuilder}

/-- A builder stays sound through a schedule. -/
lemma SchedRun.sound {timeout epochs entries sources duration}
    (init : (EventBuilder.new timeout).initialized epochs entries sources duration = some s₀)
    (sched_ok : Schedule app s₀.tables sched) (run : SchedRun app s₀ sched n s) :
    Sound app s₀.tables.config (arrivals (calls sched n)) s := by
  induction n generalizing s with
  | zero =>
    have run : Run (step app) (fun _ _ _ => True) s₀ [] s := run
    rw [Run.nil_iff.mp run]
    exact Sound.initial init
  | succ n ih =>
    rw [SchedRun, calls_succ] at run
    obtain ⟨s₁, run₁, _, h⟩ := Run.snoc_iff.mp run
    have sound := ih run₁
    rw [calls_succ, arrivals_snoc]
    exact (sound.step (fun batch imm e => sched_ok.wellFormed sound.config e) h).1

/-- Fix-ups under a schedule: at every time, and also where the builder throws, each event that was
    fixed up had timed out, or its pulse ID had been processed before. -/
theorem fixups_excused {timeout epochs entries sources : Nat} {duration : BitVec 64}
    (init : (EventBuilder.new timeout).initialized epochs entries sources duration = some s₀)
    (sched_ok : Schedule app s₀.tables sched) (run : SchedRun app s₀ sched n s) :
    Excused s₀.tables.eventTimeout s.tables.calls ∧
    ∀ t, step app s (sched n) = .error t →
      Excused s₀.tables.eventTimeout t.state.tables.calls := by
  have sound := run.sound init sched_ok
  have timeout_eq : s.tables.eventTimeout = s₀.tables.eventTimeout :=
    EbTables.eventTimeout_congr sound.config
  have now : Excused s₀.tables.eventTimeout s.tables.calls := by
    rw [← timeout_eq]
    exact sound.excused fun part hpart => sched_ok.prompt hpart
  refine ⟨now, ?_⟩
  intro t h
  cases hop : sched n with
  | process batch imm =>
    have spec := sound.process_spec (sched_ok.wellFormed sound.config hop) imm
    rw [hop] at h
    have h : s.process app batch imm = .error t := h
    rw [h] at spec
    cases spec with
    | inl noEpoch =>
      rw [noEpoch.2]
      exact now
    | inr spec =>
      obtain ⟨part, d, rest, s', split, sound', _, same, _⟩ := spec
      rw [same, ← EbTables.eventTimeout_congr sound'.config]
      apply sound'.excused
      intro part' hpart'
      have whole : arrivals (calls sched n) ++ part <+: arrivals (calls sched (n + 1)) := by
        rw [calls_succ, arrivals_snoc, hop]
        show _ <+: _ ++ batch
        rw [split, ← List.append_assoc]
        exact List.prefix_append _ _
      exact sched_ok.prompt (hpart'.trans whole)
  | expired =>
    rw [hop] at h
    have h : Except.ok (s.expired app) = Except.error t := h
    cases h

end schedule

/-- The two contributors with a clock that jumps by two seconds at its fourth reading. -/
def lateSources : EbApp where
  contractors group := if group = 0 then 3#64 else 0#64
  clock reads := if reads < 3 then reads else 2000000000 + reads

/-- Source 0 contributes to pulse ID 5, which times out; then source 1 contributes to it, and both
    to pulse ID 6. -/
def lateSched : ℕ → Op
  | 0 => .process [single 5 0] 0#32
  | 1 => .expired
  | 2 => .process [single 5 1] 0#32
  | 3 => .process [single 6 0] 0#32
  | 4 => .process [single 6 1] 0#32
  | _ => .expired

/-- What arrives in the late schedule. -/
def lateArrivals : List EbDgram := [single 5 0, single 5 1, single 6 0, single 6 1]

lemma arrivals_late (n : ℕ) : arrivals (calls lateSched (n + 5)) = lateArrivals := by
  induction n with
  | zero => decide +kernel
  | succ n ih =>
    rw [Nat.add_right_comm, calls_succ, arrivals_snoc, ih]
    rfl

lemma arrivals_late_part (n : ℕ) : arrivals (calls lateSched n) <+: lateArrivals := by
  rw [← arrivals_late n]
  exact arrivals_mono (Nat.le_add_right n 5)

/-- The late schedule keeps its promises. -/
lemma lateSched_ok : Schedule lateSources freshEb.tables lateSched := by
  have batches : ∀ n, (lateSched n).batch = [] ∨ ∃ pid src, (lateSched n).batch = [single pid src] := by
    intro n
    match n with
    | 0 => exact .inr ⟨5, 0, rfl⟩
    | 1 => exact .inl rfl
    | 2 => exact .inr ⟨5, 1, rfl⟩
    | 3 => exact .inr ⟨6, 0, rfl⟩
    | 4 => exact .inr ⟨6, 1, rfl⟩
    | n + 5 => exact .inl rfl
  have same : ∀ n, ∀ d ∈ (lateSched n).batch, ∀ d' ∈ (lateSched n).batch, d = d' := by
    intro n d hd d' hd'
    cases batches n with
    | inl none => simp [none] at hd
    | inr one =>
      obtain ⟨pid, src, one⟩ := one
      rw [one, List.mem_singleton] at hd hd'
      exact hd.trans hd'.symm
  refine ⟨?_, ?_, ?_, ?_, ?_, ?_⟩
  · intro n batch imm h
    have hbatch : (lateSched n).batch = batch := by rw [h]; rfl
    cases batches n with
    | inl none =>
      rw [hbatch] at none
      subst none
      match n with
      | 0 | 1 | 2 | 3 | 4 => simp [lateSched] at h
      | n + 5 => simp [lateSched] at h
    | inr one =>
      obtain ⟨pid, src, one⟩ := one
      rw [← hbatch, one]
      exact (single_wellFormed freshEb.tables pid src).closed
  · intro n d hd d' hd'
    rw [same n d hd d' hd']
  · intro n d hd d' hd'
    rw [same n d hd d' hd']
  · intro n
    have order : lateArrivals.Pairwise fun d d' => d.src = d'.src → d.pulseId < d'.pulseId := by
      decide +kernel
    exact order.sublist (arrivals_late_part n).sublist
  · intro n d hd d' hd' _
    have groups : ∀ x ∈ lateArrivals, x.readoutGroups = 1#16 := by decide +kernel
    rw [groups d ((arrivals_late_part n).subset hd),
      groups d' ((arrivals_late_part n).subset hd')]
  · intro n d hd src hsrc
    have contract : ∀ x ∈ lateArrivals, lateSources.contract x = 3#64 := by decide +kernel
    have hd := (arrivals_late_part n).subset hd
    rw [contract d hd] at hsrc
    have both : ∀ src < 64, (3#64).getLsbD src = true → src = 0 ∨ src = 1 := by decide +kernel
    have all : ∀ x ∈ lateArrivals, ∀ src, src = 0 ∨ src = 1 →
        ∃ d' ∈ lateArrivals, d'.src = src ∧ d'.pulseId = x.pulseId := by
      rintro x hx src (rfl | rfl)
      · revert x
        decide +kernel
      · revert x
        decide +kernel
    refine ⟨5, ?_⟩
    rw [arrivals_late 0]
    exact all d hd src (both src (BitVec.lt_of_getLsbD hsrc) hsrc)

/-- The state after the late schedule, and a fix-up in it that is not one of a timeout. -/
lemma late_run : ∃ s, SchedRun lateSources freshEb lateSched 5 s ∧
    ∃ event srcId age, Call.fixup event srcId age ∈ s.tables.calls ∧
      age < freshEb.tables.eventTimeout := by
  have check : passes (fun s : EventBuilder => s.tables.calls.any fun c =>
      match c with
      | .fixup _ _ age => decide (age < freshEb.tables.eventTimeout)
      | _ => false)
      (((List.range 5).map lateSched).foldlM (step lateSources) freshEb) = true := by
    decide +kernel
  obtain ⟨s, exec, young⟩ := passes_iff.mp check
  obtain ⟨c, hc, young⟩ := List.any_eq_true.mp young
  cases c with
  | fixup event srcId age =>
    exact ⟨s, Run.of_foldlM exec, event, srcId, age, hc, of_decide_eq_true young⟩
  | process event => cases young
  | flush => cases young

/-- In the late schedule the pulse ID of such a fix-up was processed before. -/
theorem fixups_excused_late : ∃ s, SchedRun lateSources freshEb lateSched 5 s ∧
    Excused freshEb.tables.eventTimeout s.tables.calls := by
  obtain ⟨s, run, _⟩ := late_run
  have init : (EventBuilder.new 1000).initialized 4 4 2 4#64 = some freshEb := rfl
  exact ⟨s, run, (fixups_excused init lateSched_ok run).1⟩

/-- A fix-up of an event that did not time out, although every source contributes in order. -/
theorem late_contribution_fixed_up :
    ¬ ∀ (app : EbApp) (timeout epochs entries sources : Nat) (duration : BitVec 64)
      (s₀ s : EventBuilder) (sched : ℕ → Op) (n : ℕ),
      (EventBuilder.new timeout).initialized epochs entries sources duration = some s₀ →
      Schedule app s₀.tables sched → SchedRun app s₀ sched n s →
      ∀ event srcId age, Call.fixup event srcId age ∈ s.tables.calls →
        s₀.tables.eventTimeout ≤ age := by
  intro claim
  obtain ⟨s, run, event, srcId, age, fixed, young⟩ := late_run
  have old := claim lateSources 1000 4 4 2 4#64 freshEb s lateSched 5 rfl lateSched_ok run event
    srcId age fixed
  omega

end Lcls2.Eb
