import Lcls2.Psana.EnvStore

/-!
# Which environment variables are known

`EnvStore(configs)` should list the variables of all configs. An algorithm that two segments of a config share is kept
for the later segment only, and of two configs with one segment and algorithm the later one is kept: `surviving` is
what is left, and `known_iff` says when nothing is lost by it.
-/

namespace Lcls2.Psana
open Lib

variable {T V : Type*}

/-- The variable is in the config, under this segment and algorithm. -/
def EnvConfig.Carries (c : EnvConfig T) (segment : Nat) (alg var_name : String) : Prop :=
  ∃ algs, (segment, algs) ∈ c.env.getD [] ∧ ∃ attrs, (alg, attrs) ∈ algs ∧ var_name ∈ Dict.keys (envVars attrs)

/-- The variable is listed under `[alg][segment]`. -/
def EnvVariables.Listed (d : EnvVariables T) (segment : Nat) (alg var_name : String) : Prop :=
  ∃ vars, (d.lookup alg).bind (List.lookup segment) = some vars ∧ var_name ∈ Dict.keys vars

/-- The algorithms of a config, segment by segment. -/
def EnvConfig.algs (c : EnvConfig T) : List (String × Nat × Dict String T) :=
  (c.env.getD []).flatMap fun segment => segment.2.map fun alg => (alg.1, segment.1, envVars alg.2)

/-- The variables of the last config in which the segment is the last one with the algorithm. -/
def surviving (configs : List (EnvConfig T)) (segment : Nat) (alg : String) : Option (Dict String T) :=
  configs.reverse.findSome? fun c => (c.algs.reverse.lookup alg).bind fun found =>
    if found.1 = segment then some found.2 else none

/-- The store knows just the variables of its configs. -/
structure EnvStore.Knows (s : EnvStore T V) (configs : List (EnvConfig T)) : Prop where
  listed : ∀ c ∈ configs, ∀ segment alg var_name, c.Carries segment alg var_name →
    s.env_variables.Listed segment alg var_name
  only : ∀ segment alg var_name, s.env_variables.Listed segment alg var_name →
    ∃ c ∈ configs, c.Carries segment alg var_name
  locates : ∀ var_name alg segment, s.locate_variable var_name = some (alg, segment) →
    ∃ c ∈ configs, c.Carries segment alg var_name
  located : ∀ var_name, (s.locate_variable var_name).isSome ↔
    ∃ c ∈ configs, ∃ segment alg, c.Carries segment alg var_name

/-- What a config carries is among its algorithms. -/
lemma EnvConfig.carries_iff {c : EnvConfig T} {segment : Nat} {alg var_name : String} :
    c.Carries segment alg var_name ↔ ∃ vars, (alg, segment, vars) ∈ c.algs ∧ var_name ∈ Dict.keys vars := by
  constructor
  · rintro ⟨algs, hsegment, attrs, halg, hvar⟩
    refine ⟨envVars attrs, ?_, hvar⟩
    exact List.mem_flatMap.mpr ⟨(segment, algs), hsegment, List.mem_map.mpr ⟨(alg, attrs), halg, rfl⟩⟩
  · rintro ⟨vars, mem, hvar⟩
    obtain ⟨⟨segment', algs⟩, hsegment, mem⟩ := List.mem_flatMap.mp mem
    obtain ⟨⟨alg', attrs⟩, halg, e⟩ := List.mem_map.mp mem
    cases e
    exact ⟨algs, hsegment, attrs, halg, hvar⟩

/-- The variables of a manager are set algorithm by algorithm. -/
lemma EnvConfig.envVariables_eq (c : EnvConfig T) :
    c.envVariables = c.algs.foldl (fun d alg => Dict.setItem d alg.1 [alg.2]) [] := by
  simp only [envVariables, algs, List.foldl_flatMap, List.foldl_map]

/-- The last segment with an algorithm is kept. -/
lemma EnvConfig.lookup_envVariables (c : EnvConfig T) (alg : String) :
    c.envVariables.lookup alg = (c.algs.reverse.lookup alg).map fun found => [found] := by
  rw [envVariables_eq, Dict.lookup_foldl_set (fun found => [found])]
  exact Option.or_none

/-- Distinct keys on both levels. -/
structure EnvVariables.Wf (d : EnvVariables T) : Prop where
  algs : (Dict.keys d).Nodup
  segments : ∀ alg envs, d.lookup alg = some envs → (Dict.keys envs).Nodup

/-- The variables of a manager have one segment for each algorithm. -/
lemma EnvConfig.wf_envVariables (c : EnvConfig T) : EnvVariables.Wf c.envVariables where
  algs := by
    rw [envVariables_eq]
    exact Dict.nodup_foldl_set (fun found => [found]) _ List.nodup_nil
  segments alg envs h := by
    rw [lookup_envVariables] at h
    obtain ⟨found, _, rfl⟩ := Option.map_eq_some_iff.mp h
    exact List.nodup_singleton _

/-- Both branches of the merge update what is there. -/
lemma mergeAlg_eq (d : EnvVariables T) (alg : String × Dict Nat (Dict String T)) :
    EnvStore.mergeAlg d alg = Dict.setItem d alg.1 (Dict.update ((d.lookup alg.1).getD []) alg.2) := by
  simp only [EnvStore.mergeAlg]
  cases d.lookup alg.1 <;> rfl

/-- What is found after a merge. -/
lemma lookup_mergeAlg (d : EnvVariables T) {alg : String × Dict Nat (Dict String T)}
    (nodup : (Dict.keys alg.2).Nodup) (alg' : String) (segment : Nat) :
    ((EnvStore.mergeAlg d alg).lookup alg').bind (List.lookup segment) =
      if alg' = alg.1 then (alg.2.lookup segment).or ((d.lookup alg').bind (List.lookup segment))
      else (d.lookup alg').bind (List.lookup segment) := by
  rw [mergeAlg_eq, Dict.lookup_setItem]
  split
  · rename_i h
    subst h
    rw [Option.bind_some, Dict.lookup_update _ nodup]
    cases d.lookup alg.1 <;> rfl
  · rfl

/-- A merge keeps the keys distinct. -/
lemma EnvVariables.Wf.mergeAlg {d : EnvVariables T} (wf : d.Wf) (alg : String × Dict Nat (Dict String T)) :
    EnvVariables.Wf (EnvStore.mergeAlg d alg) := by
  rw [mergeAlg_eq]
  refine ⟨Dict.nodup_setItem wf.algs _ _, ?_⟩
  intro alg' envs h
  rw [Dict.lookup_setItem] at h
  split at h
  · cases h
    apply Dict.nodup_update
    cases found : d.lookup alg.1 with
    | none => exact List.nodup_nil
    | some envs => exact wf.segments _ _ found
  · exact wf.segments _ _ h

/-- What is found after all of a manager is merged. -/
lemma lookup_foldl_mergeAlg (d : EnvVariables T) {e : EnvVariables T} (algs : (Dict.keys e).Nodup)
    (segments : ∀ alg ∈ e, (Dict.keys alg.2).Nodup) (alg : String) (segment : Nat) :
    ((e.foldl EnvStore.mergeAlg d).lookup alg).bind (List.lookup segment) =
      ((e.lookup alg).bind (List.lookup segment)).or ((d.lookup alg).bind (List.lookup segment)) := by
  induction e generalizing d with
  | nil => rfl
  | cons item e ih =>
    obtain ⟨fresh, rest⟩ := List.nodup_cons.mp algs
    rw [List.foldl_cons, ih _ rest fun alg halg => segments alg (List.mem_cons_of_mem _ halg),
      lookup_mergeAlg d (segments item List.mem_cons_self)]
    obtain ⟨alg', envs⟩ := item
    rw [Dict.lookup_cons_eq]
    by_cases h : alg = alg'
    · subst h
      have absent : List.lookup alg e = none := by
        rw [List.lookup_eq_none_iff]
        intro p hp
        apply bne_iff_ne.mpr
        rintro rfl
        exact fresh (List.mem_map.mpr ⟨p, hp, rfl⟩)
      simp [absent]
    · simp [h]

/-- Merging all managers leaves what survives, with distinct keys. -/
lemma env_variables_new (configs : List (EnvConfig T)) :
    (EnvStore.new configs : EnvStore T V).env_variables.Wf ∧
      ∀ alg segment, ((EnvStore.new configs : EnvStore T V).env_variables.lookup alg).bind (List.lookup segment) =
        surviving configs segment alg := by
  simp only [EnvStore.new]
  induction configs using List.reverseRecOn with
  | nil => exact ⟨⟨List.nodup_nil, by rintro _ _ ⟨⟩⟩, fun alg segment => rfl⟩
  | append_singleton configs c ih =>
    obtain ⟨wf, found⟩ := ih
    rw [List.map_append, List.foldl_append]
    have wf' := c.wf_envVariables
    constructor
    · show EnvVariables.Wf (c.envVariables.foldl EnvStore.mergeAlg _)
      generalize c.envVariables = e
      revert wf
      generalize List.foldl _ [] (configs.map _) = d
      intro wf
      induction e generalizing d with
      | nil => exact wf
      | cons alg e ih => exact ih _ (wf.mergeAlg alg)
    · intro alg segment
      show ((c.envVariables.foldl EnvStore.mergeAlg _).lookup alg).bind (List.lookup segment) = _
      rw [lookup_foldl_mergeAlg _ wf'.algs, found, c.lookup_envVariables, surviving, surviving, List.reverse_append,
        List.reverse_singleton, List.singleton_append, List.findSome?_cons]
      · cases c.algs.reverse.lookup alg with
        | none => rfl
        | some last =>
          obtain ⟨segment', vars⟩ := last
          simp only [Option.map_some, Option.bind_some, Dict.lookup_cons_eq, List.lookup_nil]
          by_cases h : segment = segment'
          · simp [h]
          · simp [h, Ne.symm h]
      · intro p hp
        exact wf'.segments p.1 p.2 ((Dict.mem_iff_lookup wf'.algs).mp hp)

/-- Whatever survives is in some config. -/
lemma carries_of_surviving {configs : List (EnvConfig T)} {segment : Nat} {alg var_name : String}
    {vars : Dict String T} (h : surviving configs segment alg = some vars) (hvar : var_name ∈ Dict.keys vars) :
    ∃ c ∈ configs, c.Carries segment alg var_name := by
  obtain ⟨c, hc, h⟩ := List.exists_of_findSome?_eq_some h
  obtain ⟨found, last, h⟩ := Option.bind_eq_some_iff.mp h
  split at h
  · rename_i here
    cases h
    subst here
    obtain ⟨before, after, e, _⟩ := List.lookup_eq_some_iff.mp last
    refine ⟨c, List.mem_reverse.mp hc, EnvConfig.carries_iff.mpr ⟨found.2, ?_, hvar⟩⟩
    apply List.mem_reverse.mp
    rw [e]
    exact List.mem_append_right _ List.mem_cons_self
  · cases h

/-- What is located is listed. -/
lemma EnvVariables.Wf.listed_of_locate {d : EnvVariables T} (wf : d.Wf) {var_name alg : String} {segment : Nat}
    (h : d.locate var_name = some (alg, segment)) : d.Listed segment alg var_name := by
  obtain ⟨⟨alg', envs⟩, halg, h⟩ := List.exists_of_findSome?_eq_some h
  obtain ⟨⟨segment', vars⟩, hsegment, h⟩ := List.exists_of_findSome?_eq_some h
  split at h
  · rename_i hvar
    cases h
    have found := (Dict.mem_iff_lookup wf.algs).mp halg
    refine ⟨vars, ?_, hvar⟩
    rw [found, Option.bind_some]
    exact (Dict.mem_iff_lookup (wf.segments _ _ found)).mp hsegment
  · cases h

/-- What is listed is located somewhere. -/
lemma EnvVariables.Listed.isSome_locate {d : EnvVariables T} {segment : Nat} {alg var_name : String} (wf : d.Wf)
    (listed : d.Listed segment alg var_name) : (d.locate var_name).isSome := by
  obtain ⟨vars, h, hvar⟩ := listed
  obtain ⟨envs, found, h⟩ := Option.bind_eq_some_iff.mp h
  apply List.findSome?_isSome_iff.mpr
  refine ⟨(alg, envs), (Dict.mem_iff_lookup wf.algs).mpr found, ?_⟩
  apply List.findSome?_isSome_iff.mpr
  refine ⟨(segment, vars), (Dict.mem_iff_lookup (wf.segments _ _ found)).mpr h, ?_⟩
  rw [if_pos hvar]
  rfl

/-- The store knows its variables exactly where each of them survives. -/
theorem known_iff (configs : List (EnvConfig T)) :
    (EnvStore.new configs : EnvStore T V).Knows configs ↔
      ∀ c ∈ configs, ∀ segment alg var_name, c.Carries segment alg var_name →
        ∃ vars, surviving configs segment alg = some vars ∧ var_name ∈ Dict.keys vars := by
  obtain ⟨wf, found⟩ := env_variables_new (V := V) configs
  have only : ∀ segment alg var_name,
      (EnvStore.new configs : EnvStore T V).env_variables.Listed segment alg var_name →
      ∃ c ∈ configs, c.Carries segment alg var_name := by
    rintro segment alg var_name ⟨vars, h, hvar⟩
    exact carries_of_surviving ((found alg segment).symm.trans h) hvar
  constructor
  · intro knows c hc segment alg var_name carries
    obtain ⟨vars, h, hvar⟩ := knows.listed c hc segment alg var_name carries
    exact ⟨vars, (found alg segment).symm.trans h, hvar⟩
  · intro survives
    have listed : ∀ c ∈ configs, ∀ segment alg var_name, c.Carries segment alg var_name →
        (EnvStore.new configs : EnvStore T V).env_variables.Listed segment alg var_name := by
      intro c hc segment alg var_name carries
      obtain ⟨vars, h, hvar⟩ := survives c hc segment alg var_name carries
      exact ⟨vars, (found alg segment).trans h, hvar⟩
    refine ⟨listed, only, ?_, ?_⟩
    · intro var_name alg segment h
      exact only segment alg var_name (wf.listed_of_locate h)
    · intro var_name
      constructor
      · intro h
        obtain ⟨⟨alg, segment⟩, h⟩ := Option.isSome_iff_exists.mp h
        obtain ⟨c, hc, carries⟩ := only segment alg var_name (wf.listed_of_locate h)
        exact ⟨c, hc, segment, alg, carries⟩
      · rintro ⟨c, hc, segment, alg, carries⟩
        exact (listed c hc segment alg var_name carries).isSome_locate wf

/-- A config with two segments of one algorithm. -/
def twoSegments : EnvConfig Unit where
  env := some [(0, [("fast", [("X", some ())])]), (1, [("fast", [("Y", some ())])])]

/-- Of two segments with one algorithm only the second one is known. -/
theorem first_segment_unknown :
    ¬ (EnvStore.new [twoSegments] : EnvStore Unit Unit).Knows [twoSegments] := by
  intro knows
  have carries : twoSegments.Carries 0 "fast" "X" :=
    ⟨_, List.mem_cons_self, _, List.mem_cons_self, by decide⟩
  have located := (knows.located "X").mpr ⟨_, List.mem_cons_self, _, _, carries⟩
  revert located
  decide

end Lcls2.Psana
