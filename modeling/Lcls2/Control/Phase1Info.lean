import Lcls2.Control.CollectionManager

/-!
# Phase-1 information is not stale

A piece of phase-1 information stays in the dictionary until its transition is sent, or `unconfigure` or `reset`
clears all. So what a request leaves there is sent by a later one that comes to the transition without a piece of its
own. `path` are the transitions of a request that send what they find when it begins; where none of them finds
something left over, all that is sent is fresh (`loop_iff`). That a piece is sent at most once always holds.
-/

namespace Lcls2.Control
open Lcls2.Lib

/-- The request of a source. -/
def Source.request : Source → Nat
  | .body n | .beginrun n => n

/-- The transitions that send what they find. -/
def Transition.reads : Transition → Bool
  | .configure | .endrun | .beginstep | .endstep | .enable | .disable => true
  | _ => false

namespace Request
variable {V : Type}

/-- The information that a request supplies. -/
def info : Request V → Transition → Option V
  | .setstate body _ _ => body
  | _ => fun _ => none

/-- The transition, if it sends what it finds. -/
def reading (t : Transition) (o : Outcome V) : List Transition :=
  if t.reads ∧ o.result ≠ .early then [t] else []

/-- The transitions of `handle_setstate` that send what they find, up to one that clears all. -/
def path (newstate : ControlState) : List (Outcome V) → ControlState → List Transition
  | [], _ => []
  | o :: outcomes, state =>
    match nextDict state newstate with
    | none => []
    | some t =>
      if t = .unconfigure ∨ t = .reset then []
      else
        reading t o ++
          match machine t state with
          | none => []
          | some dest => if o.result = .ok then path newstate outcomes dest else []

/-- Those of a request, from a state. -/
def sends (state : ControlState) : Request V → List Transition
  | .setstate _ newstate outcomes => newstate.elim [] fun newstate => path newstate outcomes state
  | .transition key _ o => if (machine key state).isSome then reading key o else []
  | .chunkRequest disable enable =>
    if state = .running then
      reading .disable disable ++ if disable.result = .ok then reading .enable enable else []
    else []
  | .other => []

end Request

namespace CollectionManager
variable {V : Type} (s : CollectionManager V)

/-- A piece that is sent was supplied with the request that is executed, or set for this `beginrun`. -/
def Fresh (as : List (Request V)) (e : Sent V) : Prop :=
  ∀ p, e.phase1Info = some p →
    (p.source = .body e.request ∧ ∃ r, as[e.request]? = some r ∧ r.info e.transition = some p.value) ∨
    (e.transition = .beginrun ∧ p.source = .beginrun e.request)

/-- How often what a request supplied for a transition has been sent. -/
def deliveries (n : Nat) (t : Transition) : Nat :=
  (s.sent.filter fun e => e.transition = t ∧ (e.phase1Info.map (·.source)) = some (.body n)).length

/-- Nothing stale has been sent, and nothing twice. -/
structure NeverStale (as : List (Request V)) (s : CollectionManager V) : Prop where
  fresh : ∀ e ∈ s.sent, Fresh as e
  once : ∀ n t, s.deliveries n t ≤ 1

/-- Each transition of the request that sends what it finds has nothing left over, or a piece in the request. -/
def Supplied (_ : List (Request V)) (s : CollectionManager V) (r : Request V) : Prop :=
  ∀ t ∈ r.sends s.state, s.phase1Info t = none ∨ r.info t ≠ none

/-- The transitions that clear the dictionary. -/
def Clears (t : Transition) : Prop := t = .unconfigure ∨ t = .reset

instance (t : Transition) : Decidable (Clears t) := inferInstanceAs (Decidable (_ ∨ _))

/-- What a trigger does with the information: what it sends of what it finds, and whether it clears all. -/
inductive Effect (s t : CollectionManager V) : Option Transition → Bool → Prop where
  | keeps
    (info : t.phase1Info = s.phase1Info)
    (sent : t.sent = s.sent) :
    Effect s t none false
  | clears
    (info : ∀ u, t.phase1Info u = none)
    (sent : t.sent = s.sent ∨ ∃ u, t.sent = s.sent ++ [⟨s.requests, u, none⟩]) :
    Effect s t none true
  | beginrun (v : V)
    (info : t.phase1Info = Function.update s.phase1Info .beginrun none)
    (sent : t.sent = s.sent ++ [⟨s.requests, .beginrun, some ⟨.beginrun s.requests, v⟩⟩]) :
    Effect s t none false
  | reads (u : Transition)
    (reads : u.reads = true)
    (info : t.phase1Info = Function.update s.phase1Info u none)
    (sent : t.sent = s.sent ++ [⟨s.requests, u, s.phase1Info u⟩]) :
    Effect s t (some u) false

instance (as : List (Request V)) (r : Request V) : Decidable (Supplied as s r) :=
  inferInstanceAs (Decidable (∀ t ∈ r.sends s.state, _ ∨ _))

variable {s} {t : CollectionManager V} {u : Transition} {o : Outcome V} {sends : Option Transition} {cleared : Bool}

/-- Phase 1 sends what is found. -/
lemma phase1_effect (s : CollectionManager V) (reads : u.reads = true) (o : Outcome V) :
    Effect s (s.phase1 u o.result) (Request.reading u o).head? false ∧
      (s.phase1 u o.result).requests = s.requests := by
  rw [phase1, Request.reading]
  cases Decidable.em (o.result = .early) with
  | inl early =>
    rw [if_pos early, if_neg fun h => h.2 early]
    exact ⟨.keeps rfl rfl, rfl⟩
  | inr sends =>
    rw [if_neg sends, if_pos ⟨reads, sends⟩]
    exact ⟨.reads u reads rfl rfl, rfl⟩

/-- What a condition does with the information. -/
lemma condition_effect (s : CollectionManager V) (o : Outcome V) (u : Transition) :
    Effect s (s.condition o u).1 (Request.reading u o).head? (decide (Clears u)) ∧
      (s.condition o u).1.requests = s.requests := by
  cases u with
  | rollcall => exact ⟨.keeps rfl rfl, rfl⟩
  | alloc => exact ⟨.keeps rfl rfl, rfl⟩
  | dealloc => exact ⟨.keeps rfl rfl, rfl⟩
  | connect => exact ⟨.keeps rfl rfl, rfl⟩
  | disconnect => exact ⟨.keeps rfl rfl, rfl⟩
  | slowupdate => exact ⟨.keeps rfl rfl, rfl⟩
  | configure => exact s.phase1_effect rfl o
  | endrun => exact s.phase1_effect rfl o
  | beginstep => exact s.phase1_effect rfl o
  | endstep => exact s.phase1_effect rfl o
  | enable => exact s.phase1_effect rfl o
  | disable => exact s.phase1_effect rfl o
  | reset => exact ⟨.clears (fun _ => rfl) (.inl rfl), rfl⟩
  | unconfigure =>
    simp only [condition, phase1]
    split
    · exact ⟨.clears (fun _ => rfl) (.inl rfl), rfl⟩
    · refine ⟨.clears ?_ (.inr ⟨.unconfigure, rfl⟩), rfl⟩
      intro u
      exact congrFun (Function.update_eq_self _ _) u
  | beginrun =>
    simp only [condition]
    split
    · exact ⟨.keeps rfl rfl, rfl⟩
    · refine ⟨.beginrun o.runInfo ?_ ?_, rfl⟩
      · exact Function.update_idem _ _ _
      · simp only [conditionCommon, setRunInfo, Function.update_self]

/-- The state does not matter for that. -/
lemma Effect.moved {t' : CollectionManager V} (effect : Effect s t sends cleared)
    (info : t'.phase1Info = t.phase1Info) (sent : t'.sent = t.sent) : Effect s t' sends cleared := by
  cases effect with
  | keeps info' sent' => exact .keeps (info.trans info') (sent.trans sent')
  | clears info' sent' =>
    rw [← info] at info'
    rw [← sent] at sent'
    exact .clears info' sent'
  | beginrun v info' sent' => exact .beginrun v (info.trans info') (sent.trans sent')
  | reads u reads info' sent' => exact .reads u reads (info.trans info') (sent.trans sent')

/-- What a trigger does with it. -/
lemma trigger_effect (s : CollectionManager V) (u : Transition) (o : Outcome V) (change : Bool) :
    Effect s (s.handleTrigger u o change).1
        (if (machine u s.state).isSome then (Request.reading u o).head? else none)
        (if (machine u s.state).isSome then decide (Clears u) else false) ∧
      (s.handleTrigger u o change).1.requests = s.requests := by
  rw [handleTrigger]
  cases machine u s.state with
  | none => exact ⟨.keeps rfl rfl, rfl⟩
  | some dest =>
    obtain ⟨effect, requests⟩ := s.condition_effect o u
    simp only [Option.isSome_some, if_true]
    split
    · exact ⟨effect.moved rfl rfl, requests⟩
    · exact ⟨effect, requests⟩

/-- What is known of a piece for a transition: the request it is from, and what that supplied. -/
def Known (as : List (Request V)) (limit : Nat) (u : Transition) (p : Piece V) : Prop :=
  p.source.request < limit ∧
    ∀ n, p.source = .body n → ∃ r, as[n]? = some r ∧ r.info u = some p.value

/-- Whether what a request supplied for a transition is in the dictionary. -/
def held (s : CollectionManager V) (n : Nat) (u : Transition) : Nat :=
  if (s.phase1Info u).map (·.source) = some (.body n) then 1 else 0

/-- The pieces are known, and each is in the dictionary or has been sent, at most once. -/
structure Inv (as : List (Request V)) (limit : Nat) (s : CollectionManager V) : Prop where
  info : ∀ u p, s.phase1Info u = some p → Known as limit u p
  sent : ∀ e ∈ s.sent, ∀ p, e.phase1Info = some p → Known as limit e.transition p
  once : ∀ n u, s.deliveries n u + s.held n u ≤ 1

/-- One message more. -/
lemma deliveries_concat {e : Sent V} (sent : t.sent = s.sent ++ [e]) (n : Nat) (u : Transition) :
    t.deliveries n u = s.deliveries n u +
      if e.transition = u ∧ e.phase1Info.map (·.source) = some (.body n) then 1 else 0 := by
  rw [deliveries, sent, List.filter_append, List.length_append, List.filter_singleton]
  congr 1
  by_cases own : e.transition = u ∧ e.phase1Info.map (·.source) = some (.body n)
  · rw [if_pos own, decide_eq_true own]
    rfl
  · rw [if_neg own, decide_eq_false own]
    rfl

/-- A trigger keeps that. -/
lemma Effect.inv {as : List (Request V)} {limit : Nat} (effect : Effect s t sends cleared)
    (current : s.requests < limit) (inv : Inv as limit s) : Inv as limit t := by
  -- A message that is sent has the data of the requests so far.
  have concat : ∀ {e : Sent V}, t.sent = s.sent ++ [e] → (∀ p, e.phase1Info = some p → Known as limit e.transition p) →
      ∀ e ∈ t.sent, ∀ p, e.phase1Info = some p → Known as limit e.transition p := by
    intro e sent known e' mem
    rw [sent] at mem
    cases List.mem_append.mp mem with
    | inl before => exact inv.sent e' before
    | inr last =>
      cases List.mem_singleton.mp last
      exact known
  have sentOne : ∀ {u}, t.phase1Info = Function.update s.phase1Info u none →
      (∀ v p, t.phase1Info v = some p → Known as limit v p) ∧
        ∀ n v, t.held n v = if v = u then 0 else s.held n v := by
    intro u info
    constructor
    · intro v p found
      rw [info, Function.update_apply] at found
      split at found
      · cases found
      · exact inv.info v p found
    · intro n v
      rw [held, info, Function.update_apply]
      split
      · rfl
      · rfl
  cases effect with
  | keeps info sent =>
    constructor
    · rw [info]
      exact inv.info
    · rw [sent]
      exact inv.sent
    · intro n u
      rw [deliveries, sent, held, info]
      exact inv.once n u
  | clears info sent =>
    have none_ : ∀ n u, t.held n u = 0 := by
      intro n u
      rw [held, info u]
      rfl
    have before : ∀ n u, s.deliveries n u ≤ 1 := fun n u => Nat.le_of_add_right_le (inv.once n u)
    have gone : ∀ u p, t.phase1Info u = some p → Known as limit u p := by
      intro u p found
      rw [info u] at found
      cases found
    cases sent with
    | inl same =>
      refine ⟨gone, ?_, ?_⟩
      · rw [same]
        exact inv.sent
      · intro n u
        rw [none_, deliveries, same]
        exact before n u
    | inr more =>
      obtain ⟨u, sent⟩ := more
      refine ⟨gone, concat sent nofun, ?_⟩
      intro n v
      rw [none_, deliveries_concat sent, if_neg (by rintro ⟨-, h⟩; cases h)]
      exact before n v
  | beginrun v info sent =>
    obtain ⟨known, left⟩ := sentOne info
    refine ⟨known, concat sent ?_, ?_⟩
    · intro p found
      cases found
      refine ⟨current, ?_⟩
      intro n source
      cases source
    · intro n u
      have once := inv.once n u
      rw [deliveries_concat sent, if_neg (by rintro ⟨-, h⟩; cases h), left]
      split
      · omega
      · exact once
  | reads u _ info sent =>
    obtain ⟨known, left⟩ := sentOne info
    refine ⟨known, concat sent (inv.info u), ?_⟩
    intro n v
    have once := inv.once n v
    rw [deliveries_concat sent, left]
    by_cases same : v = u
    · subst same
      rw [if_pos rfl]
      -- What was held has been delivered.
      have moved : (if v = v ∧ (s.phase1Info v).map (·.source) = some (.body n) then 1 else 0) = s.held n v := by
        simp only [true_and, held]
      rw [moved]
      exact once
    · rw [if_neg same, if_neg fun h => same h.1.symm]
      exact once

/-- What is in the dictionary is from another request, or from a `beginrun`. -/
def Stale (s : CollectionManager V) (u : Transition) : Prop :=
  ∃ p, s.phase1Info u = some p ∧ p.source ≠ .body s.requests

/-- The pieces of new messages are of the request. -/
def Current (e : Sent V) : Prop :=
  ∀ p, e.phase1Info = some p →
    p.source = .body e.request ∨ (e.transition = .beginrun ∧ p.source = .beginrun e.request)

/-- A trigger sends what is current exactly where what it sends of what it finds is not stale. -/
lemma Effect.sent (effect : Effect s t sends cleared) :
    ∃ new, t.sent = s.sent ++ new ∧ ((∀ e ∈ new, Current e) ↔ ∀ u ∈ sends, ¬ s.Stale u) := by
  cases effect with
  | keeps info sent =>
    refine ⟨[], ?_, iff_of_true nofun nofun⟩
    rw [sent, List.append_nil]
  | clears info sent =>
    cases sent with
    | inl same =>
      refine ⟨[], ?_, iff_of_true nofun nofun⟩
      rw [same, List.append_nil]
    | inr more =>
      obtain ⟨u, sent⟩ := more
      refine ⟨_, sent, iff_of_true ?_ nofun⟩
      intro e mem p found
      cases List.mem_singleton.mp mem
      cases found
  | beginrun v info sent =>
    refine ⟨_, sent, iff_of_true ?_ nofun⟩
    intro e mem p found
    cases List.mem_singleton.mp mem
    cases found
    exact .inr ⟨rfl, rfl⟩
  | reads u reads info sent =>
    refine ⟨_, sent, ?_⟩
    constructor
    · intro current v mem stale
      cases mem
      obtain ⟨p, found, other⟩ := stale
      cases current _ (List.mem_singleton.mpr rfl) p found with
      | inl own => exact other own
      | inr begins =>
        cases begins.1
        cases reads
    · intro sound e mem p found
      cases List.mem_singleton.mp mem
      by_contra other
      refine sound u rfl ⟨p, found, ?_⟩
      intro own
      exact other (.inl own)

/-- It leaves nothing where it clears all, and else what is stale, unless it has sent that. -/
lemma Effect.stale (effect : Effect s t sends cleared) (requests : t.requests = s.requests) (reads : u.reads = true)
    (sound : ∀ v ∈ sends, ¬ s.Stale v) : t.Stale u ↔ cleared = false ∧ s.Stale u := by
  have other : ∀ {v}, u ≠ v → t.phase1Info = Function.update s.phase1Info v none → (t.Stale u ↔ s.Stale u) := by
    intro v ne info
    rw [Stale, Stale, info, Function.update_of_ne ne, requests]
  cases effect with
  | keeps info sent =>
    rw [Stale, Stale, info, requests]
    exact (and_iff_right rfl).symm
  | clears info sent =>
    refine iff_of_false ?_ nofun
    rintro ⟨p, found, -⟩
    rw [info u] at found
    cases found
  | beginrun v info sent =>
    rw [and_iff_right rfl]
    refine other ?_ info
    rintro rfl
    cases reads
  | reads v _ info sent =>
    rw [and_iff_right rfl]
    by_cases same : u = v
    · subst same
      refine iff_of_false ?_ (sound u rfl)
      rintro ⟨p, found, -⟩
      rw [info, Function.update_self] at found
      cases found
    · exact other same info

/-- What is on the path of a request sends what it finds. -/
lemma reading_reads {u v : Transition} {o : Outcome V} (mem : v ∈ Request.reading u o) : v.reads = true := by
  rw [Request.reading] at mem
  split at mem
  · rename_i h
    cases List.mem_singleton.mp mem
    exact h.1
  · cases mem

lemma path_reads {newstate : ControlState} {outcomes : List (Outcome V)} {state : ControlState} {v : Transition}
    (mem : v ∈ Request.path newstate outcomes state) : v.reads = true := by
  induction outcomes generalizing state with
  | nil => cases mem
  | cons o outcomes ih =>
    rw [Request.path] at mem
    split at mem
    · cases mem
    · split at mem
      · cases mem
      · cases List.mem_append.mp mem with
        | inl here => exact reading_reads here
        | inr later =>
          split at later
          · cases later
          · split at later
            · exact ih later
            · cases later

/-- A transition that leads to a state may be taken, and leads to another one. -/
lemma nextDict_machine {state newstate : ControlState} {u : Transition} (next : nextDict state newstate = some u) :
    ∃ dest, machine u state = some dest ∧ dest ≠ state := by
  cases state <;> cases newstate <;> cases next <;> exact ⟨_, rfl, nofun⟩

/-- There is none to the state that it is in. -/
lemma nextDict_self (state : ControlState) : nextDict state state = none := by
  cases state <;> rfl

/-- A condition leaves the state, and holds as it ends. -/
lemma condition_state (s : CollectionManager V) (o : Outcome V) (u : Transition) :
    (s.condition o u).1.state = s.state ∧ (u ≠ .reset → (s.condition o u).2 = decide (o.result = .ok)) := by
  have phase1 : ∀ (s : CollectionManager V) v, (s.phase1 v o.result).state = s.state := by
    intro s v
    rw [CollectionManager.phase1]
    split
    · rfl
    · rfl
  cases u with
  | reset => exact ⟨rfl, (absurd rfl ·)⟩
  | beginrun =>
    refine ⟨?_, fun _ => rfl⟩
    simp only [condition]
    split
    · rfl
    · rfl
  | _ => first | exact ⟨rfl, fun _ => rfl⟩ | exact ⟨phase1 _ _, fun _ => rfl⟩

/-- A trigger to another state, as its condition ends. -/
lemma trigger_state {s : CollectionManager V} {u : Transition} {o : Outcome V} {dest : ControlState}
    (allowed : machine u s.state = some dest) (ne : dest ≠ s.state) (plain : u ≠ .reset) :
    if o.result = .ok then
      (s.handleTrigger u o true).2 = false ∧ (s.handleTrigger u o true).1.state = dest
    else (s.handleTrigger u o true).2 = true := by
  obtain ⟨state, holds⟩ := s.condition_state o u
  rw [handleTrigger, allowed]
  simp only [holds plain, decide_eq_true_eq, Bool.true_and]
  split
  · exact ⟨decide_eq_false ne, rfl⟩
  · exact state

/-- What is read at a transition is what it sends. -/
lemma forall_reading {P : Transition → Prop} (u : Transition) (o : Outcome V) :
    (∀ v ∈ (Request.reading u o).head?, P v) ↔ ∀ v ∈ Request.reading u o, P v := by
  rw [Request.reading]
  split
  · simp
  · simp

/-- What is sent on the way is current exactly where none of these transitions finds something stale. -/
def Sends (s t : CollectionManager V) (reads : List Transition) : Prop :=
  ∃ new, t.sent = s.sent ++ new ∧ ((∀ e ∈ new, Current e) ↔ ∀ u ∈ reads, ¬ s.Stale u)

namespace Sends
variable {s t : CollectionManager V} {u : Transition} {o : Outcome V} {change : Bool} {reads : List Transition}

/-- Nothing is sent. -/
lemma nothing (s : CollectionManager V) : Sends s s [] :=
  ⟨[], (List.append_nil _).symm, iff_of_true nofun nofun⟩

/-- A trigger. -/
lemma trigger (s : CollectionManager V) (u : Transition) (o : Outcome V) (change : Bool) :
    Sends s (s.handleTrigger u o change).1 (if (machine u s.state).isSome then Request.reading u o else []) := by
  obtain ⟨effect, -⟩ := s.trigger_effect u o change
  obtain ⟨new, sent, current⟩ := effect.sent
  refine ⟨new, sent, ?_⟩
  split at current
  · rw [if_pos ‹_›]
    exact current.trans (forall_reading u o)
  · rw [if_neg ‹_›]
    exact current.trans (iff_of_true nofun nofun)

/-- A trigger before others. -/
lemma next (allowed : (machine u s.state).isSome) (keeps : ¬ Clears u) (plain : ∀ v ∈ reads, v.reads = true)
    (later : Sends (s.handleTrigger u o change).1 t reads) : Sends s t (Request.reading u o ++ reads) := by
  obtain ⟨effect, requests⟩ := s.trigger_effect u o change
  obtain ⟨new, sent, current⟩ := trigger s u o change
  obtain ⟨new', sent', current'⟩ := later
  rw [if_pos allowed] at current
  rw [if_pos allowed, if_pos allowed] at effect
  refine ⟨new ++ new', ?_, ?_⟩
  · rw [sent', sent, List.append_assoc]
  · simp only [List.forall_mem_append, current, current']
    refine and_congr_right fun sound => ?_
    have sound := (forall_reading (P := fun v => ¬ s.Stale v) u o).mpr sound
    refine forall₂_congr fun v mem => not_congr ?_
    rw [effect.stale requests (plain v mem) sound]
    exact and_iff_right (decide_eq_false keeps)

/-- A trigger that clears the dictionary: after it nothing is stale. -/
lemma clear (allowed : (machine u s.state).isSome) (clears : Clears u) (plain : ∀ v ∈ reads, v.reads = true)
    (later : Sends (s.handleTrigger u o change).1 t reads) : Sends s t [] := by
  have quiet : Request.reading u o = [] := by
    rw [Request.reading, if_neg]
    rintro ⟨reads, -⟩
    cases clears with
    | inl e =>
      subst e
      cases reads
    | inr e =>
      subst e
      cases reads
  obtain ⟨effect, requests⟩ := s.trigger_effect u o change
  obtain ⟨new, sent, current⟩ := trigger s u o change
  obtain ⟨new', sent', current'⟩ := later
  rw [if_pos allowed, quiet] at current
  rw [if_pos allowed, if_pos allowed, quiet] at effect
  refine ⟨new ++ new', ?_, iff_of_true ?_ nofun⟩
  · rw [sent', sent, List.append_assoc]
  · rw [List.forall_mem_append]
    refine ⟨current.mpr nofun, current'.mpr ?_⟩
    intro v mem there
    have kept := ((effect.stale requests (plain v mem) nofun).mp there).1
    exact decide_eq_false_iff_not.mp kept clears

end Sends

/-- The loop of `handle_setstate`. -/
lemma loop_sends {newstate : ControlState} {outcomes : List (Outcome V)} {s t : CollectionManager V}
    (h : setstateLoop newstate outcomes s = .ok t) : Sends s t (Request.path newstate outcomes s.state) := by
  induction outcomes generalizing s with
  | nil =>
    rw [setstateLoop] at h
    split at h
    · cases h
      exact .nothing _
    · cases h
  | cons o outcomes ih =>
    rw [setstateLoop] at h
    rw [Request.path]
    split at h
    · rename_i there
      cases h
      rw [there, nextDict_self]
      exact .nothing _
    · cases next : nextDict s.state newstate with
      | none =>
        rw [next] at h
        cases h
        exact .nothing _
      | some u =>
        obtain ⟨dest, allowed, ne⟩ := nextDict_machine next
        have some_ : (machine u s.state).isSome := by rw [allowed]; rfl
        have one := Sends.trigger s u o true
        rw [if_pos some_] at one
        rw [next] at h
        simp only [allowed] at h ⊢
        -- These leave no data for what comes after them.
        cases Decidable.em (Clears u) with
        | inl clears =>
          rw [if_pos (show u = .unconfigure ∨ u = .reset from clears)]
          split at h
          · cases h
            exact .clear some_ clears (List.forall_mem_nil _) (.nothing _)
          · exact .clear some_ clears (fun _ mem => path_reads mem) (ih h)
        | inr keeps =>
          have ends := trigger_state (o := o) allowed ne fun e => keeps (.inr e)
          rw [if_neg (show ¬ (u = .unconfigure ∨ u = .reset) from keeps)]
          split at ends
          · rename_i ok
            obtain ⟨quiet, state⟩ := ends
            rw [quiet, if_neg Bool.false_ne_true] at h
            have later := ih h
            rw [state] at later
            rw [if_pos ok]
            exact .next some_ keeps (fun _ mem => path_reads mem) later
          · rename_i fails
            rw [ends, if_pos rfl] at h
            cases h
            rw [if_neg fails, List.append_nil]
            exact one

/-- What stands in the dictionary when a request begins, as it is with what the request supplies. -/
lemma stale_update {as : List (Request V)} {s : CollectionManager V} (inv : Inv as s.requests s)
    (info : Transition → Option V) (u : Transition) :
    (s.update info).Stale u ↔ s.phase1Info u ≠ none ∧ info u = none := by
  rw [Stale]
  simp only [update]
  cases supplied : info u with
  | some v =>
    refine iff_of_false ?_ nofun
    rintro ⟨p, found, other⟩
    cases found
    exact other rfl
  | none =>
    rw [and_iff_left rfl]
    constructor
    · rintro ⟨p, found, -⟩ none_
      rw [none_] at found
      cases found
    · intro left
      obtain ⟨p, found⟩ := Option.ne_none_iff_exists'.mp left
      refine ⟨p, found, ?_⟩
      intro own
      have before := (inv.info u p found).1
      rw [own] at before
      exact Nat.lt_irrefl _ before

/-- A request. -/
lemma handle_sends {s t : CollectionManager V} {r : Request V} (h : s.handle r = .ok t) :
    Sends (s.update r.info) t (r.sends s.state) := by
  cases r with
  | setstate body newstate outcomes =>
    cases newstate with
    | none =>
      cases h
      exact .nothing _
    | some newstate => exact loop_sends h
  | transition key body o =>
    cases body with
    | some v => cases h
    | none =>
      cases h
      exact .trigger s key o false
  | chunkRequest disable enable =>
    cases h
    rw [handleChunkrequest, Request.sends]
    show Sends s _ _
    split
    · rename_i running
      have allowed : machine .disable s.state = some .paused := by
        rw [running]
        rfl
      have some_ : (machine .disable s.state).isSome := by rw [allowed]; rfl
      have ne : ControlState.paused ≠ s.state := by
        rw [running]
        exact nofun
      have ends := trigger_state (o := disable) allowed ne nofun
      simp only
      split at ends
      · rename_i ok
        obtain ⟨quiet, state⟩ := ends
        rw [if_pos ok, quiet, if_neg Bool.false_ne_true]
        have later := Sends.trigger (s.handleTrigger .disable disable true).1 .enable enable true
        rw [state, if_pos (show (machine .enable .paused).isSome from rfl)] at later
        exact .next some_ (by decide) (fun _ mem => reading_reads mem) later
      · rename_i fails
        have one := Sends.trigger s .disable disable true
        rw [if_pos some_] at one
        rw [ends, if_pos rfl, if_neg fails, List.append_nil]
        exact one
    · exact .nothing _
  | other =>
    cases h
    exact .nothing _

/-- What a request supplies is known. -/
lemma inv_update {as : List (Request V)} {s : CollectionManager V} {r : Request V} (inv : Inv as as.length s)
    (count : s.requests = as.length) : Inv (as ++ [r]) (as.length + 1) (s.update r.info) := by
  have grow : ∀ {u p}, Known as as.length u p → Known (as ++ [r]) (as.length + 1) u p := by
    intro u p known
    refine ⟨Nat.lt_succ_of_lt known.1, ?_⟩
    intro n source
    obtain ⟨r', found, value⟩ := known.2 n source
    refine ⟨r', ?_, value⟩
    rw [List.getElem?_append_left (List.getElem?_eq_some_iff.mp found).1]
    exact found
  constructor
  · intro u p found
    simp only [update] at found
    cases supplied : r.info u with
    | none =>
      rw [supplied] at found
      exact grow (inv.info u p found)
    | some v =>
      rw [supplied] at found
      cases found
      refine ⟨?_, ?_⟩
      · show s.requests < as.length + 1
        omega
      · intro n source
        cases source
        refine ⟨r, ?_, supplied⟩
        rw [count]
        exact List.getElem?_concat_length
  · intro e mem p found
    exact grow (inv.sent e mem p found)
  · intro n u
    have once := inv.once n u
    show s.deliveries n u + _ ≤ 1
    cases supplied : r.info u with
    | none =>
      have same : (s.update r.info).held n u = s.held n u := by
        rw [held, held, update]
        simp only [supplied]
        rfl
      rw [same]
      exact once
    | some v =>
      have new : (s.update r.info).held n u = if s.requests = n then 1 else 0 := by
        rw [held, update]
        simp only [supplied, Option.map_some, Option.or, Option.some.injEq, Source.body.injEq]
      rw [new]
      split
      · rename_i own
        -- what this request supplies has not been sent yet
        have fresh : s.deliveries n u = 0 := by
          rw [deliveries, List.length_eq_zero_iff, List.filter_eq_nil_iff]
          intro e mem own'
          obtain ⟨-, source⟩ := of_decide_eq_true own'
          obtain ⟨p, found, source⟩ := Option.map_eq_some_iff.mp source
          have before := (inv.sent e mem p found).1
          rw [source] at before
          exact Nat.ne_of_lt before (own.symm.trans count)
        rw [fresh]
      · exact Nat.le_of_add_right_le once

/-- Triggers keep what is known. -/
lemma trigger_inv {as : List (Request V)} {limit : Nat} {s : CollectionManager V} (inv : Inv as limit s)
    (current : s.requests < limit) (u : Transition) (o : Outcome V) (change : Bool) :
    Inv as limit (s.handleTrigger u o change).1 ∧ (s.handleTrigger u o change).1.requests = s.requests := by
  obtain ⟨effect, requests⟩ := s.trigger_effect u o change
  exact ⟨effect.inv current inv, requests⟩

lemma loop_inv {as : List (Request V)} {limit : Nat} {newstate : ControlState} {outcomes : List (Outcome V)}
    {s t : CollectionManager V} (inv : Inv as limit s) (current : s.requests < limit)
    (h : setstateLoop newstate outcomes s = .ok t) : Inv as limit t ∧ t.requests = s.requests := by
  induction outcomes generalizing s with
  | nil =>
    rw [setstateLoop] at h
    split at h
    · cases h
      exact ⟨inv, rfl⟩
    · cases h
  | cons o outcomes ih =>
    rw [setstateLoop] at h
    split at h
    · cases h
      exact ⟨inv, rfl⟩
    · split at h
      · cases h
        exact ⟨inv, rfl⟩
      · rename_i u _
        obtain ⟨inv', requests⟩ := trigger_inv inv current u o true
        simp only at h
        split at h
        · cases h
          exact ⟨inv', requests⟩
        · obtain ⟨inv'', requests'⟩ := ih inv' (requests ▸ current) h
          exact ⟨inv'', requests'.trans requests⟩

/-- A request keeps what is known. -/
lemma handle_inv {as : List (Request V)} {s t : CollectionManager V} {r : Request V} (inv : Inv as as.length s)
    (count : s.requests = as.length) (h : s.handle r = .ok t) :
    Inv (as ++ [r]) (as.length + 1) t ∧ t.requests = as.length := by
  have start := inv_update (r := r) inv count
  have current : (s.update r.info).requests < as.length + 1 := by
    show s.requests < _
    omega
  have keeps : Inv (as ++ [r]) (as.length + 1) t ∧ t.requests = s.requests := by
    cases r with
    | setstate body newstate outcomes =>
      cases newstate with
      | none =>
        cases h
        exact ⟨start, rfl⟩
      | some newstate =>
        have h : setstateLoop newstate outcomes (s.update body) = .ok t := h
        obtain ⟨inv', requests⟩ := loop_inv start current h
        exact ⟨inv', requests⟩
    | transition key body o =>
      cases body with
      | some v => cases h
      | none =>
        cases h
        exact trigger_inv start current key o false
    | chunkRequest disable enable =>
      cases h
      rw [handleChunkrequest]
      split
      · obtain ⟨inv', requests⟩ := trigger_inv start current .disable disable true
        simp only
        split
        · exact ⟨inv', requests⟩
        · obtain ⟨inv'', requests'⟩ := trigger_inv inv' (requests ▸ current) .enable enable true
          exact ⟨inv'', requests'.trans requests⟩
      · exact ⟨start, rfl⟩
    | other =>
      cases h
      exact ⟨start, rfl⟩
  exact ⟨keeps.1, keeps.2.trans count⟩

/-- What is sent is fresh where it is current. -/
lemma fresh_iff_current {as : List (Request V)} {limit : Nat} {e : Sent V}
    (known : ∀ p, e.phase1Info = some p → Known as limit e.transition p) : Fresh as e ↔ Current e := by
  constructor
  · intro fresh p found
    exact (fresh p found).imp_left And.left
  · intro current p found
    exact (current p found).imp_left fun own => ⟨own, (known p found).2 _ own⟩

/-- A request that ends, and what is then counted. -/
lemma serviceRequests_ok {s t : CollectionManager V} {r : Request V} (h : s.serviceRequests r = .ok t) :
    ∃ t', s.handle r = .ok t' ∧ t = { t' with requests := t'.requests + 1 } := by
  rw [serviceRequests] at h
  cases handled : s.handle r with
  | error fault =>
    rw [handled] at h
    cases h
  | ok t' =>
    rw [handled] at h
    cases h
    exact ⟨t', rfl, rfl⟩

/-- After a request nothing stale has been sent exactly where it met the condition. -/
lemma request_iff {as : List (Request V)} {s t : CollectionManager V} {r : Request V} (inv : Inv as as.length s)
    (count : s.requests = as.length) (before : NeverStale as s) (h : s.handle r = .ok t) :
    NeverStale (as ++ [r]) t ↔ Supplied as s r := by
  obtain ⟨new, sent, current⟩ := handle_sends h
  have after := (handle_inv inv count h).1
  have sent : t.sent = s.sent ++ new := sent
  have conditions : (∀ u ∈ r.sends s.state, ¬ (s.update r.info).Stale u) ↔ Supplied as s r := by
    refine forall₂_congr fun u _ => ?_
    rw [stale_update (count ▸ inv), not_and_or, not_not]
  rw [← conditions, ← current]
  constructor
  · intro never e mem
    have there : e ∈ t.sent := by
      rw [sent]
      exact List.mem_append_right _ mem
    exact (fresh_iff_current (after.sent e there)).mp (never.fresh e there)
  · intro own
    constructor
    · intro e mem
      apply (fresh_iff_current (after.sent e mem)).mpr
      rw [sent] at mem
      cases List.mem_append.mp mem with
      | inl old => exact (fresh_iff_current (inv.sent e old)).mp (before.fresh e old)
      | inr mem => exact own e mem
    · intro n u
      exact Nat.le_of_add_right_le (after.once n u)

/-- Nothing stale is sent, and no piece twice, throughout a run exactly where each request that comes to a transition
    which sends what it finds has a piece for it, or nothing has been left there. -/
theorem never_stale_iff {V : Type} (as : List (Request V)) (s : CollectionManager V)
    (run : Run serviceRequests (fun _ _ _ => True) init as s) :
    (∀ bs t, bs <+: as → Run serviceRequests (fun _ _ _ => True) init bs t → NeverStale bs t) ↔
      Run serviceRequests Supplied init as s := by
  have start : Inv ([] : List (Request V)) 0 init := by
    refine ⟨nofun, nofun, ?_⟩
    intro n u
    exact Nat.zero_le 1
  apply Run.everywhere_iff (I := fun as s => Inv as as.length s ∧ s.requests = as.length) (P := NeverStale)
    ⟨start, rfl⟩ ⟨nofun, fun n u => Nat.zero_le 1⟩ ?_ ?_ run
  · intro as s r t inv _ h
    obtain ⟨t', handled, rfl⟩ := serviceRequests_ok h
    obtain ⟨after, requests⟩ := handle_inv inv.1 inv.2 handled
    rw [List.length_append]
    exact ⟨⟨after.info, after.sent, after.once⟩, congrArg (· + 1) requests⟩
  · intro as s r t inv before _ h
    obtain ⟨t', handled, rfl⟩ := serviceRequests_ok h
    rw [← request_iff inv.1 inv.2 before handled]
    exact ⟨fun never => ⟨never.fresh, never.once⟩, fun never => ⟨never.fresh, never.once⟩⟩

/-- Every transition succeeds. -/
def succeeds : Outcome Nat := ⟨.ok, 0⟩

/-- A request to run, with a piece for `enable`, from a control process that has just been started. -/
def toRunning (enable : Option Nat) : Request Nat :=
  .setstate (Function.update (fun _ => none) .enable enable) (some .running) (List.replicate 7 succeeds)

/-- The piece is sent once, and the next chunk request sends none. -/
theorem never_stale_running :
    ∃ s, Run serviceRequests (fun _ _ _ => True) init [toRunning (some 5), .chunkRequest succeeds succeeds] s ∧
      ∀ bs t, bs <+: [toRunning (some 5), .chunkRequest succeeds succeeds] →
        Run serviceRequests (fun _ _ _ => True) init bs t → NeverStale bs t := by
  obtain ⟨s, supplied, -⟩ := Run.of_replay_any serviceRequests Supplied init
    [toRunning (some 5), .chunkRequest succeeds succeeds] (fun _ => true) (by decide +kernel)
  have run : Run serviceRequests (fun _ _ _ => True) init _ s := supplied.mono fun _ _ _ _ => trivial
  exact ⟨s, run, (never_stale_iff _ s run).mpr supplied⟩

/-- A request to run while the process runs already leaves its piece to the chunk request that follows. -/
theorem stale_enable :
    ∃ s, Run serviceRequests (fun _ _ _ => True) init
        [toRunning none, toRunning (some 5), .chunkRequest succeeds succeeds] s ∧
      ¬ NeverStale [toRunning none, toRunning (some 5), .chunkRequest succeeds succeeds] s := by
  obtain ⟨s, run, check⟩ := Run.of_replay_any serviceRequests (fun _ _ _ => True) init
    [toRunning none, toRunning (some 5), .chunkRequest succeeds succeeds]
    (fun s => s.sent.any fun (e : Sent Nat) => decide (e.request = 2 ∧ e.transition = .enable) &&
      e.phase1Info.any fun (p : Piece Nat) => decide (p.source = .body 1)) (by decide +kernel)
  refine ⟨s, run, ?_⟩
  intro never
  obtain ⟨e, mem, there⟩ := List.any_eq_true.mp check
  obtain ⟨which, piece⟩ := Bool.and_eq_true_iff.mp there
  obtain ⟨request, transition⟩ := of_decide_eq_true which
  obtain ⟨p, found, source⟩ := (Option.any_eq_true _ _).mp piece
  have source := of_decide_eq_true source
  cases never.fresh e mem p found with
  | inl own =>
    rw [source, request] at own
    cases own.1
  | inr begins =>
    rw [transition] at begins
    cases begins.1

end CollectionManager

end Lcls2.Control
