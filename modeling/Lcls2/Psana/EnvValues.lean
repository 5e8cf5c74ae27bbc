import Lcls2.Psana.EnvStore

/-!
# Values of environment variables

`EnvStore.values` should read the value of a variable from the latest env dgram up to the event that has it, of those
that are searched. `upTo` are the dgrams up to the event, the latest first. An event between two dgrams makes
`searchsorted` start at the one after it: `Exact` says when that does no harm. The step dgrams are those of the event
unless a later dgram has a time that is the same as a `float64`. `values_iff` says that nothing else matters.
-/

namespace Lcls2.Psana
open Lib

variable {T V : Type*}

/-- The dgram has a value for the variable, under any segment and algorithm. -/
def EnvDgram.Carries (d : EnvDgram V) (var_name : String) (v : V) : Prop :=
  ∃ segment ∈ d.env.getD [], ∃ alg ∈ segment.2, (var_name, v) ∈ alg.2

/-- The dgram has the variable. -/
def EnvDgram.has (d : EnvDgram V) (var_name : String) : Bool :=
  (d.env.getD []).any fun segment => segment.2.any fun alg => decide (var_name ∈ Dict.keys alg.2)

namespace EnvManager

/-- The dgrams up to a time, the latest first. -/
def upTo (m : EnvManager T V) (t : Nat) : List (EnvDgram V) := (m.dgrams.filter (·.timestamp ≤ t)).reverse

/-- The first dgram after a time. -/
def next (m : EnvManager T V) (t : Nat) : Option (EnvDgram V) := (m.dgrams.filter (t < ·.timestamp)).head?

/-- The latest dgram up to a time, of the last `n`, that has the variable. -/
def latest (m : EnvManager T V) (n : Nat) (var_name : String) (t : Nat) : Option (EnvDgram V) :=
  ((m.upTo t).take n).find? (·.has var_name)

/-- What the manager sees in a dgram, where it has located the variable. -/
def look (m : EnvManager T V) (var_name : String) (d : EnvDgram V) : Except EnvFault (Option V) :=
  match m.env_variables.locate var_name with
  | none => .ok none
  | some (alg, segment_id) => d.look alg segment_id var_name

/-- The dgrams up to the first one that has the variable can be looked at, and that one has it where the manager has
    located it. -/
def Clear (m : EnvManager T V) (var_name : String) : List (EnvDgram V) → Prop
  | [] => True
  | d :: ds => if d.has var_name then ∃ v, m.look var_name d = .ok (some v)
    else m.look var_name d = .ok none ∧ m.Clear var_name ds

/-- No dgram has the time, but there is a later one. -/
def Late (m : EnvManager T V) (t : Nat) : Prop := (∀ d ∈ m.dgrams, d.timestamp ≠ t) ∧ m.next t ≠ none

instance (m : EnvManager T V) (t : Nat) : Decidable (m.Late t) :=
  inferInstanceAs (Decidable ((∀ d ∈ m.dgrams, d.timestamp ≠ t) ∧ m.next t ≠ none))

/-- The search comes to the latest dgram that has the variable. A search that starts one dgram late must find nothing
    there, and must not need the last of its steps. -/
def Exact (m : EnvManager T V) (var_name : String) (t : Nat) : Nat → Prop
  | 0 => True
  | n + 1 =>
    if m.Late t then
      (∀ d, m.next t = some d → m.look var_name d = .ok none) ∧ m.Clear var_name ((m.upTo t).take n) ∧
        ∀ d, (m.upTo t)[n]? = some d → d.has var_name → ∃ d' ∈ (m.upTo t).take n, d'.has var_name
    else m.Clear var_name ((m.upTo t).take (n + 1))

end EnvManager

namespace EnvStore

/-- The dgram to read from: that of the first manager that has one. -/
def expected (n : Nat) (var_name : String) (t : Nat) : (i : Nat) → List (EnvManager T V) → Option (Nat × EnvDgram V)
  | _, [] => none
  | i, m :: ms => ((m.latest n var_name t).map fun d => (i, d)).or (expected n var_name t (i + 1) ms)

/-- What was read for an event is right. -/
structure Right (np : NumPy) (s : EnvStore T V) (n : Nat) (var_name : String) (t : Nat)
    (found : Option (Nat × EnvDgram V × V)) : Prop where
  find : s.find np n var_name t = .ok found
  dgram : found.map (fun r => (r.1, r.2.1)) = expected n var_name t 0 s.env_managers
  value : ∀ r ∈ found, r.2.1.Carries var_name r.2.2

/-- The values for some events are right, and agree with their step dgrams. -/
def ValuesRight (np : NumPy) (s : EnvStore T V) (n : Nat) (var_name : String) (events : List Nat) : Prop :=
  (∃ founds, List.Forall₂ (s.Right np n var_name) events founds ∧
    s.values np n events var_name = .ok (founds.map fun found => found.map fun r => r.2.2)) ∧
  ∀ t ∈ events, s.get_step_dgrams_of_event np t = s.env_managers.map fun m => (m.upTo t).head?

/-- There is a manager, and each one that is looked at finds what it should. -/
def Searches (s : EnvStore T V) (n : Nat) (var_name : String) (t : Nat) : Prop :=
  s.env_managers ≠ [] ∧ ∀ before m after, s.env_managers = before ++ m :: after →
    (∀ m' ∈ before, m'.latest n var_name t = none) → m.Exact var_name t n

/-- The next dgram of each manager is told from the event as a `float64`. -/
def ToldApart (np : NumPy) (s : EnvStore T V) (t : Nat) : Prop :=
  ∀ m ∈ s.env_managers, ∀ d, m.next t = some d → np.compared t d.timestamp ≠ np.compared t t

end EnvStore

namespace NumPy

variable {np : NumPy} (documented : np.Documented)
include documented

/-- The position is the number of those below. -/
lemma searchsorted_eq {a : List Nat} (sorted : a.Pairwise (· ≤ ·)) (t : Nat) :
    np.searchsorted a t = a.countP (· < t) := by
  have le := documented.le_length a t
  have below := documented.below a t sorted
  have not_below := documented.not_below a t sorted
  generalize np.searchsorted a t = p at le below not_below
  have first : (a.take p).countP (· < t) = (a.take p).length := List.countP_eq_length.mpr fun x hx => by
    simpa using below x hx
  have rest : (a.drop p).countP (· < t) = 0 := List.countP_eq_zero.mpr fun x hx => by
    simpa using not_below x hx
  calc p = (a.take p).countP (· < t) + (a.drop p).countP (· < t) := by
        rw [first, rest, List.length_take_of_le le, Nat.add_zero]
    _ = (a.take p ++ a.drop p).countP (· < t) := List.countP_append.symm
    _ = a.countP (· < t) := by rw [List.take_append_drop]

/-- With `side='right'` it is the number of those that are not above as they are compared. -/
lemma searchsortedRight_eq {a : List Nat} (sorted : a.Pairwise (· ≤ ·)) (t : Nat) :
    np.searchsortedRight a t = a.countP fun x => np.compared t x ≤ np.compared t t := by
  have le := documented.right_le_length a t
  have not_above := documented.not_above a t sorted
  have above := documented.above a t sorted
  generalize np.searchsortedRight a t = p at le not_above above
  have first : (a.take p).countP (fun x => np.compared t x ≤ np.compared t t) = (a.take p).length :=
    List.countP_eq_length.mpr fun x hx => by simpa using not_above x hx
  have rest : (a.drop p).countP (fun x => np.compared t x ≤ np.compared t t) = 0 :=
    List.countP_eq_zero.mpr fun x hx => by simpa using above x hx
  calc p = (a.take p).countP (fun x => np.compared t x ≤ np.compared t t) +
          (a.drop p).countP fun x => np.compared t x ≤ np.compared t t := by
        rw [first, rest, List.length_take_of_le le, Nat.add_zero]
    _ = (a.take p ++ a.drop p).countP fun x => np.compared t x ≤ np.compared t t := List.countP_append.symm
    _ = a.countP fun x => np.compared t x ≤ np.compared t t := by rw [List.take_append_drop]

/-- Comparing keeps the order. -/
lemma compared_mono (t : Nat) : Monotone (np.compared t) := by
  intro x y le
  rw [compared, compared]
  split
  · exact documented.float64 le
  · exact le

end NumPy

/-- A search over some dgrams. -/
def walk (look : EnvDgram V → Except EnvFault (Option V)) :
    List (EnvDgram V) → Except EnvFault (Option (EnvDgram V × V))
  | [] => .ok none
  | d :: ds =>
    match look d with
    | .error fault => .error fault
    | .ok (some v) => .ok (some (d, v))
    | .ok none => walk look ds

namespace EnvManager

variable {m : EnvManager T V}

/-- Searching back is walking over the dgrams before a position, the last one first. -/
lemma searchBack_eq (m : EnvManager T V) (alg : String) (segment_id : Nat) (var_name : String) {p : Nat}
    (hp : p ≤ m.dgrams.length) (n : Nat) :
    m.searchBack alg segment_id var_name p n =
      walk (fun d => d.look alg segment_id var_name) ((m.dgrams.take p).reverse.take n) := by
  induction n generalizing p with
  | zero => cases p <;> rfl
  | succ n ih =>
    cases p with
    | zero => rfl
    | succ p =>
      have here : m.dgrams[p]? = some m.dgrams[p] := List.getElem?_eq_getElem hp
      rw [List.take_succ_eq_append_getElem hp, List.reverse_append, List.reverse_singleton, List.singleton_append,
        List.take_succ_cons]
      simp only [searchBack, here, walk]
      cases m.dgrams[p].look alg segment_id var_name with
      | error fault => rfl
      | ok found =>
        cases found with
        | none => exact ih (Nat.le_of_succ_le hp)
        | some v => rfl

variable (sorted : (m.dgrams.map EnvDgram.timestamp).Pairwise (· < ·)) (t : Nat)
include sorted

/-- The dgrams up to a time come first. -/
lemma split_at : m.dgrams = m.dgrams.filter (·.timestamp ≤ t) ++ m.dgrams.filter (t < ·.timestamp) := by
  have sorted := List.pairwise_map.mp sorted
  generalize m.dgrams = ds at sorted
  induction ds with
  | nil => rfl
  | cons d ds ih =>
    obtain ⟨first, rest⟩ := List.pairwise_cons.mp sorted
    by_cases h : d.timestamp ≤ t
    · rw [List.filter_cons_of_pos (by simpa using h), List.filter_cons_of_neg (by simpa using h), List.cons_append,
        ← ih rest]
    · have none_before : ds.filter (·.timestamp ≤ t) = [] := by
        rw [List.filter_eq_nil_iff]
        intro d' hd'
        have := first d' hd'
        simp only [decide_eq_true_eq]
        omega
      have all_after : ds.filter (t < ·.timestamp) = ds := by
        rw [List.filter_eq_self]
        intro d' hd'
        have := first d' hd'
        simp only [decide_eq_true_eq]
        omega
      rw [List.filter_cons_of_neg (by simpa using h), List.filter_cons_of_pos (by simpa using h), none_before,
        all_after]
      rfl

omit sorted in
/-- A time counts once more in `≤` than in `<`. -/
lemma countP_le (ts : List Nat) : ts.countP (· ≤ t) = ts.countP (· < t) + ts.count t := by
  induction ts with
  | nil => rfl
  | cons s ts ih =>
    rw [List.countP_cons, List.countP_cons, List.count_cons, ih]
    simp only [decide_eq_true_eq, beq_iff_eq]
    split <;> split <;> split <;> omega

variable {np : NumPy} (documented : np.Documented)
include documented

/-- The step dgram of an event is the latest dgram up to it just when the next one is told apart from the event. -/
lemma stepDgram_iff :
    m.stepDgram np t = (m.upTo t).head? ↔ ∀ d, m.next t = some d → np.compared t d.timestamp ≠ np.compared t t := by
  -- The position is behind the dgrams up to `t` and those after it that are the same as a float64.
  have split := m.split_at sorted t
  have mono := NumPy.compared_mono documented t
  have position : np.searchsortedRight (m.dgrams.map EnvDgram.timestamp) t =
      (m.dgrams.filter (·.timestamp ≤ t)).length +
        (m.dgrams.filter (t < ·.timestamp)).countP fun d => np.compared t d.timestamp ≤ np.compared t t := by
    rw [NumPy.searchsortedRight_eq documented (sorted.imp Nat.le_of_lt), List.countP_map]
    conv_lhs => rw [split]
    rw [List.countP_append, List.countP_eq_length.mpr]
    · rfl
    · intro d hd
      have le := (List.mem_filter.mp hd).2
      simp only [decide_eq_true_eq, Function.comp_apply] at le ⊢
      exact mono le
  rw [stepDgram, position, upTo, next, List.head?_reverse]
  have later : ∀ d ∈ m.dgrams.filter (t < ·.timestamp), t < d.timestamp := by
    intro d hd
    simpa using (List.mem_filter.mp hd).2
  have earlier : ∀ d ∈ m.dgrams.filter (·.timestamp ≤ t), d.timestamp ≤ t := by
    intro d hd
    simpa using (List.mem_filter.mp hd).2
  have sorted := (List.pairwise_map.mp sorted).filter fun d => decide (t < d.timestamp)
  generalize m.dgrams.filter (·.timestamp ≤ t) = pre at split earlier
  generalize m.dgrams.filter (t < ·.timestamp) = post at split later sorted
  rw [split]
  cases post with
  | nil =>
    refine iff_of_true ?_ fun d none_ => absurd none_ (by simp)
    cases pre using List.reverseRecOn with
    | nil => rfl
    | append_singleton pre d => simp
  | cons e post =>
    simp only [List.head?_cons, Option.some.injEq, forall_eq']
    by_cases told : np.compared t e.timestamp = np.compared t t
    · -- the position is behind `e`, or further
      refine iff_of_false ?_ fun apart => apart told
      have counted : ∃ k, (e :: post).countP (fun d => np.compared t d.timestamp ≤ np.compared t t) = k + 1 := by
        rw [List.countP_cons_of_pos (by simp [told])]
        exact ⟨_, rfl⟩
      obtain ⟨k, counted⟩ := counted
      have le : k + 1 ≤ (e :: post).length := counted ▸ List.countP_le_length
      rw [counted]
      show (pre ++ e :: post)[pre.length + k]? ≠ pre.getLast?
      rw [List.getElem?_append_right (Nat.le_add_right ..), Nat.add_sub_cancel_left, List.getElem?_eq_getElem le]
      intro same
      have after := later _ (List.getElem_mem le)
      have before := earlier _ (List.mem_of_getLast? same.symm)
      omega
    · have none_ : (e :: post).countP (fun d => np.compared t d.timestamp ≤ np.compared t t) = 0 := by
        rw [List.countP_eq_zero]
        intro d hd
        have from_e : np.compared t e.timestamp ≤ np.compared t d.timestamp := by
          apply mono
          cases List.mem_cons.mp hd with
          | inl here => rw [here]
          | inr hd => exact Nat.le_of_lt ((List.pairwise_cons.mp sorted).1 d hd)
        have above := mono (Nat.le_of_lt (later e List.mem_cons_self))
        simp only [decide_eq_true_eq]
        omega
      refine iff_of_true ?_ told
      rw [none_, Nat.add_zero]
      cases pre using List.reverseRecOn with
      | nil => rfl
      | append_singleton pre d => simp

/-- The search of an event is a walk over the dgrams up to it, or over those and the one after it. -/
lemma find_eq (n : Nat) (var_name : String) :
    m.find np n var_name t =
      walk (m.look var_name) ((if m.Late t then (m.next t).toList ++ m.upTo t else m.upTo t).take n) := by
  have nothing : ∀ ds : List (EnvDgram V), walk (fun _ => .ok none) ds = .ok none := by
    intro ds
    induction ds with
    | nil => rfl
    | cons d ds ih => exact ih
  have split := m.split_at sorted t
  have le : m.dgrams.countP (·.timestamp ≤ t) = m.dgrams.countP (·.timestamp < t) +
      (m.dgrams.map EnvDgram.timestamp).count t := by
    have h := countP_le t (m.dgrams.map EnvDgram.timestamp)
    rwa [List.countP_map, List.countP_map] at h
  have length : m.dgrams.countP (·.timestamp ≤ t) = (m.dgrams.filter (·.timestamp ≤ t)).length :=
    List.countP_eq_length_filter
  have pos : np.searchsorted (m.dgrams.map EnvDgram.timestamp) t = m.dgrams.countP (·.timestamp < t) := by
    rw [NumPy.searchsorted_eq documented (sorted.imp Nat.le_of_lt), List.countP_map]
    rfl
  simp only [find]
  cases located : m.env_variables.locate var_name with
  | none =>
    have look : m.look var_name = fun _ => .ok none := by
      funext d
      rw [EnvManager.look, located]
    rw [look, nothing]
  | some place =>
    obtain ⟨alg, segment_id⟩ := place
    have look : m.look var_name = fun d => d.look alg segment_id var_name := by
      funext d
      rw [EnvManager.look, located]
    rw [look]
    rw [pos]
    -- The position is that of a later dgram only where no dgram has the timestamp and one comes after.
    by_cases late : m.Late t
    · obtain ⟨absent, later⟩ := id late
      obtain ⟨e, he⟩ := Option.ne_none_iff_exists'.mp later
      obtain ⟨rest, after⟩ := List.head?_eq_some_iff.mp he
      have none_at : (m.dgrams.map EnvDgram.timestamp).count t = 0 := by
        apply List.count_eq_zero.mpr
        intro mem
        obtain ⟨d, hd, at_⟩ := List.mem_map.mp mem
        exact absent d hd at_
      have before : m.dgrams.countP (·.timestamp < t) = (m.dgrams.filter (·.timestamp ≤ t)).length := by omega
      have shorter : m.dgrams.length = (m.dgrams.filter (·.timestamp ≤ t)).length + (rest.length + 1) := by
        have h := congrArg List.length split
        rwa [after, List.length_append, List.length_cons] at h
      have taken : m.dgrams.take ((m.dgrams.filter (·.timestamp ≤ t)).length + 1) =
          m.dgrams.filter (·.timestamp ≤ t) ++ [e] := by
        generalize m.dgrams.filter (·.timestamp ≤ t) = pre at split
        rw [split, after, List.append_cons]
        exact List.take_left' (by simp)
      rw [if_neg (by omega), if_pos late, before, he, upTo]
      show m.searchBack alg segment_id var_name _ n = _
      rw [searchBack_eq m alg segment_id var_name (by omega), taken, List.reverse_append]
      rfl
    · rw [if_neg late]
      have start : (if m.dgrams.countP (·.timestamp < t) = m.dgrams.length
            then m.dgrams.countP (·.timestamp < t) else m.dgrams.countP (·.timestamp < t) + 1) =
          (m.dgrams.filter (·.timestamp ≤ t)).length := by
        have total := congrArg List.length split
        rw [List.length_append] at total
        by_cases at_ : ∃ d ∈ m.dgrams, d.timestamp = t
        · obtain ⟨d, hd, at_⟩ := at_
          have one : (m.dgrams.map EnvDgram.timestamp).count t = 1 :=
            List.count_eq_one_of_mem (sorted.imp Nat.ne_of_lt) (List.mem_map.mpr ⟨d, hd, at_⟩)
          rw [if_neg (by omega)]
          omega
        · have none_at : (m.dgrams.map EnvDgram.timestamp).count t = 0 := by
            apply List.count_eq_zero.mpr
            intro mem
            obtain ⟨d, hd, h⟩ := List.mem_map.mp mem
            exact at_ ⟨d, hd, h⟩
          have last : m.dgrams.filter (t < ·.timestamp) = [] := by
            by_contra later
            exact late ⟨fun d hd h => at_ ⟨d, hd, h⟩, fun h => later (List.head?_eq_none_iff.mp h)⟩
          rw [last, List.length_nil] at total
          rw [if_pos (by omega)]
          omega
      have taken : m.dgrams.take (m.dgrams.filter (·.timestamp ≤ t)).length = m.dgrams.filter (·.timestamp ≤ t) := by
        generalize m.dgrams.filter (·.timestamp ≤ t) = pre at split
        rw [split, List.take_left]
      rw [start, upTo]
      show m.searchBack alg segment_id var_name _ n = _
      rw [searchBack_eq m alg segment_id var_name (List.length_filter_le _ _), taken]

end EnvManager

/-- What a dgram shows is a value of the variable. -/
lemma EnvDgram.look_some {d : EnvDgram V} {alg : String} {segment_id : Nat} {var_name : String} {v : V}
    (h : d.look alg segment_id var_name = .ok (some v)) : d.has var_name ∧ d.Carries var_name v := by
  simp only [EnvDgram.look] at h
  cases env : d.env with
  | none =>
    rw [env] at h
    cases h
  | some envs =>
    simp only [env] at h
    split at h
    · cases h
    · rename_i algs halgs
      split at h
      · cases h
      · rename_i vars hvars
        split at h
        · cases h
        · rename_i v' hv
          cases h
          have segment := Dict.mem_of_lookup halgs
          have attrs := Dict.mem_of_lookup hvars
          have here := Dict.mem_of_lookup hv
          constructor
          · simp only [EnvDgram.has, env, Option.getD_some, List.any_eq_true, decide_eq_true_eq]
            exact ⟨_, segment, _, attrs, List.mem_map.mpr ⟨_, here, rfl⟩⟩
          · refine ⟨(segment_id, algs), ?_, (alg, vars), attrs, here⟩
            rw [env]
            exact segment

namespace EnvManager

variable {m : EnvManager T V} {var_name : String}

/-- What a manager sees in a dgram is a value of the variable. -/
lemma look_some {d : EnvDgram V} {v : V} (h : m.look var_name d = .ok (some v)) :
    d.has var_name ∧ d.Carries var_name v := by
  simp only [look] at h
  split at h
  · cases h
  · exact EnvDgram.look_some h

end EnvManager

/-- What a search finds was seen in one of the dgrams. -/
lemma walk_found {look : EnvDgram V → Except EnvFault (Option V)} {ds : List (EnvDgram V)} {d : EnvDgram V} {v : V}
    (h : walk look ds = .ok (some (d, v))) : d ∈ ds ∧ look d = .ok (some v) := by
  induction ds with
  | nil => cases h
  | cons d' ds ih =>
    simp only [walk] at h
    cases seen : look d' with
    | error fault =>
      rw [seen] at h
      cases h
    | ok found =>
      rw [seen] at h
      cases found with
      | none =>
        obtain ⟨mem, seen'⟩ := ih h
        exact ⟨List.mem_cons_of_mem _ mem, seen'⟩
      | some v' =>
        cases h
        exact ⟨List.mem_cons_self .., seen⟩

namespace EnvManager

variable {m : EnvManager T V} {var_name : String}

/-- A search stops at the first dgram that has the variable just when the way there is clear. -/
lemma walk_iff (ds : List (EnvDgram V)) :
    (∃ r, walk (m.look var_name) ds = .ok r ∧ r.map Prod.fst = ds.find? (·.has var_name)) ↔ m.Clear var_name ds := by
  induction ds with
  | nil => exact ⟨fun _ => trivial, fun _ => ⟨none, rfl, rfl⟩⟩
  | cons d ds ih =>
    simp only [walk, Clear]
    cases has : d.has var_name with
    | true =>
      simp only [if_pos, List.find?_cons, has]
      cases seen : m.look var_name d with
      | error fault => simp
      | ok found =>
        cases found with
        | some v => simp
        | none =>
          constructor
          · rintro ⟨r, walked, found⟩
            obtain ⟨⟨d', v⟩, rfl, rfl⟩ := Option.map_eq_some_iff.mp found
            have again := (walk_found walked).2
            rw [seen] at again
            cases again
          · rintro ⟨v, h⟩
            cases h
    | false =>
      simp only [Bool.false_eq_true, if_false, List.find?_cons, has]
      cases seen : m.look var_name d with
      | error fault => simp
      | ok found =>
        cases found with
        | none => simpa using ih
        | some v =>
          have := (look_some seen).1
          rw [has] at this
          cases this

variable (sorted : (m.dgrams.map EnvDgram.timestamp).Pairwise (· < ·)) (t : Nat)
include sorted

variable {np : NumPy} (documented : np.Documented)
include documented

/-- What a manager finds has the variable. -/
lemma find_some {n : Nat} {d : EnvDgram V} {v : V} (h : m.find np n var_name t = .ok (some (d, v))) :
    d.Carries var_name v := by
  rw [find_eq sorted t documented] at h
  exact (look_some (walk_found h).2).2

/-- A manager finds the latest dgram that has the variable just when its search is exact. -/
lemma find_iff (n : Nat) :
    (∃ r, m.find np n var_name t = .ok r ∧ r.map Prod.fst = m.latest n var_name t) ↔ m.Exact var_name t n := by
  rw [find_eq sorted t documented, latest]
  cases n with
  | zero => exact ⟨fun _ => trivial, fun _ => ⟨none, rfl, rfl⟩⟩
  | succ n =>
    simp only [Exact]
    by_cases late : m.Late t
    · rw [if_pos late, if_pos late]
      obtain ⟨e, he⟩ := Option.ne_none_iff_exists'.mp late.2
      have e_later : e ∉ m.upTo t := by
        intro mem
        have up := (List.mem_filter.mp (List.mem_reverse.mp mem)).2
        have down := (List.mem_filter.mp (List.mem_of_head? he)).2
        simp only [decide_eq_true_eq] at up down
        omega
      rw [he, Option.toList_some, List.singleton_append, List.take_succ_cons]
      -- the search that should have been made has one step more at its end
      have longer : (m.upTo t).take (n + 1) = (m.upTo t).take n ++ ((m.upTo t)[n]?).toList := List.take_add_one
      have only : (∀ d, (m.upTo t)[n]? = some d → d.has var_name → ∃ d' ∈ (m.upTo t).take n, d'.has var_name) ↔
          ((m.upTo t).take (n + 1)).find? (·.has var_name) = ((m.upTo t).take n).find? (·.has var_name) := by
        rw [longer, List.find?_append]
        cases first : ((m.upTo t).take n).find? (·.has var_name) with
        | some d =>
          refine iff_of_true ?_ rfl
          intro _ _ _
          have has := @List.find?_some _ (fun d : EnvDgram V => d.has var_name) _ _ first
          exact ⟨d, List.mem_of_find?_eq_some first, has⟩
        | none =>
          have absent := List.find?_eq_none.mp first
          cases last : (m.upTo t)[n]? with
          | none => simp
          | some d =>
            simp only [Option.some.injEq, forall_eq', Option.toList_some, Option.none_or, List.find?_eq_none,
              List.mem_singleton, forall_eq]
            exact ⟨fun h has => absurd (h has) fun ⟨d', mem, has'⟩ => absent d' mem has',
              fun h has => absurd has h⟩
      rw [only]
      simp only [walk, Option.some.injEq, forall_eq']
      cases seen : m.look var_name e with
      | error fault => simp
      | ok found =>
        cases found with
        | some v =>
          simp only [Except.ok.injEq, reduceCtorEq, false_and, iff_false]
          rintro ⟨r, rfl, found⟩
          exact e_later (List.mem_of_mem_take (List.mem_of_find?_eq_some found.symm))
        | none =>
          simp only [true_and]
          rw [← walk_iff]
          constructor
          · rintro ⟨r, walked, found⟩
            have same : ((m.upTo t).take (n + 1)).find? (·.has var_name) =
                ((m.upTo t).take n).find? (·.has var_name) := by
              rw [longer, List.find?_append] at found ⊢
              cases first : ((m.upTo t).take n).find? (·.has var_name) with
              | some d => rfl
              | none =>
                cases r with
                | none =>
                  rw [first] at found
                  exact found.symm
                | some dv =>
                  -- what was found is among those without the variable
                  have there := walk_found walked
                  have := List.find?_eq_none.mp first dv.1 there.1
                  exact absurd (look_some there.2).1 this
            exact ⟨⟨r, walked, found.trans same⟩, same⟩
          · rintro ⟨⟨r, walked, found⟩, same⟩
            exact ⟨r, walked, found.trans same.symm⟩
    · rw [if_neg late, if_neg late]
      exact walk_iff _

end EnvManager

namespace EnvStore

variable {np : NumPy} {n : Nat} {var_name : String} {t : Nat}

/-- The managers before the first one that is asked are not asked again. -/
lemma firstValue_ge {ms : List (EnvManager T V)} {i : Nat} {r : Nat × EnvDgram V × V}
    (h : firstValue np n var_name t i ms = .ok (some r)) :
    i ≤ r.1 ∧ ∃ m ∈ ms, m.find np n var_name t = .ok (some r.2) := by
  induction ms generalizing i with
  | nil => cases h
  | cons m ms ih =>
    simp only [firstValue] at h
    cases found : m.find np n var_name t with
    | error fault =>
      rw [found] at h
      cases h
    | ok x =>
      rw [found] at h
      cases x with
      | none =>
        obtain ⟨le, m', mem, h'⟩ := ih h
        exact ⟨Nat.le_of_succ_le le, m', List.mem_cons_of_mem _ mem, h'⟩
      | some x =>
        cases h
        exact ⟨Nat.le_refl _, m, List.mem_cons_self .., found⟩

/-- The dgram to read from is not one of an earlier manager either. -/
lemma expected_ge {ms : List (EnvManager T V)} {i : Nat} {r : Nat × EnvDgram V}
    (h : expected n var_name t i ms = some r) : i ≤ r.1 := by
  induction ms generalizing i with
  | nil => cases h
  | cons m ms ih =>
    simp only [expected] at h
    cases latest : m.latest n var_name t with
    | none =>
      rw [latest] at h
      exact Nat.le_of_succ_le (ih h)
    | some d =>
      rw [latest] at h
      cases h
      exact Nat.le_refl _

/-- The managers find the right dgram just when each one that is asked finds what it should. -/
lemma firstValue_iff (documented : np.Documented) {ms : List (EnvManager T V)}
    (sorted : ∀ m ∈ ms, (m.dgrams.map EnvDgram.timestamp).Pairwise (· < ·)) (i : Nat) :
    (∃ r, firstValue np n var_name t i ms = .ok r ∧ r.map (fun r => (r.1, r.2.1)) = expected n var_name t i ms) ↔
      ∀ before m after, ms = before ++ m :: after → (∀ m' ∈ before, m'.latest n var_name t = none) →
        m.Exact var_name t n := by
  induction ms generalizing i with
  | nil =>
    refine iff_of_true ⟨none, rfl, rfl⟩ ?_
    intro before m after h
    exact absurd h (by simp)
  | cons m ms ih =>
    have ih := ih (fun m' mem => sorted m' (List.mem_cons_of_mem _ mem)) (i + 1)
    -- The managers after the first are asked only where the first has nothing.
    have asked : (∀ before m' after, m :: ms = before ++ m' :: after →
        (∀ m'' ∈ before, m''.latest n var_name t = none) → m'.Exact var_name t n) ↔
        m.Exact var_name t n ∧ (m.latest n var_name t = none →
          ∀ before m' after, ms = before ++ m' :: after → (∀ m'' ∈ before, m''.latest n var_name t = none) →
            m'.Exact var_name t n) := by
      constructor
      · intro all
        refine ⟨all [] m ms rfl (fun _ h => absurd h List.not_mem_nil), ?_⟩
        intro nothing before m' after split none_before
        refine all (m :: before) m' after (by rw [split]; rfl) ?_
        intro m'' mem
        cases mem with
        | head => exact nothing
        | tail _ mem => exact none_before m'' mem
      · rintro ⟨here, there⟩ before m' after split none_before
        cases before with
        | nil =>
          cases split
          exact here
        | cons m'' before =>
          cases split
          exact there (none_before _ (List.mem_cons_self ..)) before m' after rfl
            fun m₀ mem => none_before m₀ (List.mem_cons_of_mem _ mem)
    rw [asked, ← ih, ← EnvManager.find_iff (sorted m (List.mem_cons_self ..)) t documented n]
    simp only [firstValue, expected]
    cases found : m.find np n var_name t with
    | error fault =>
      refine iff_of_false ?_ ?_
      · rintro ⟨r, h, _⟩
        cases h
      · rintro ⟨⟨r, h, _⟩, _⟩
        cases h
    | ok x =>
      cases x with
      | none =>
        cases latest : m.latest n var_name t with
        | none =>
          refine ⟨fun h => ⟨⟨none, rfl, rfl⟩, fun _ => h⟩, fun h => h.2 rfl⟩
        | some d =>
          refine iff_of_false ?_ ?_
          · rintro ⟨r, h, right⟩
            obtain ⟨r, rfl, e⟩ := Option.map_eq_some_iff.mp right
            have := (firstValue_ge h).1
            have := congrArg Prod.fst e
            simp only at this
            omega
          · rintro ⟨⟨r, h, right⟩, _⟩
            cases h
            cases right
      | some x =>
        cases latest : m.latest n var_name t with
        | none =>
          refine iff_of_false ?_ ?_
          · rintro ⟨r, h, right⟩
            cases h
            have := expected_ge right.symm
            simp only at this
            omega
          · rintro ⟨⟨r, h, right⟩, _⟩
            cases h
            cases right
        | some d =>
          constructor
          · rintro ⟨r, h, right⟩
            cases h
            cases right
            exact ⟨⟨some x, rfl, rfl⟩, fun h => nomatch h⟩
          · rintro ⟨⟨r, h, right⟩, _⟩
            cases h
            cases right
            exact ⟨_, rfl, rfl⟩

/-- What is read for an event is right just when the searches are. -/
lemma right_iff (documented : np.Documented) {s : EnvStore T V}
    (sorted : ∀ m ∈ s.env_managers, (m.dgrams.map EnvDgram.timestamp).Pairwise (· < ·)) :
    (∃ found, s.Right np n var_name t found) ↔ s.Searches n var_name t := by
  by_cases empty : s.env_managers = []
  · refine iff_of_false ?_ fun h => h.1 empty
    rintro ⟨found, right⟩
    have h := right.find
    rw [find, if_pos empty] at h
    cases h
  · have finds : s.find np n var_name t = firstValue np n var_name t 0 s.env_managers := if_neg empty
    rw [Searches, ← firstValue_iff documented sorted 0]
    constructor
    · rintro ⟨found, right⟩
      exact ⟨empty, found, finds ▸ right.find, right.dgram⟩
    · rintro ⟨_, found, h, dgram⟩
      refine ⟨found, finds.trans h, dgram, ?_⟩
      intro r hr
      cases hr
      obtain ⟨_, m, mem, found⟩ := firstValue_ge h
      exact EnvManager.find_some (sorted m mem) t documented found

/-- Nothing else can go wrong with the values. -/
lemma values_of {s : EnvStore T V} {events : List Nat} {founds : List (Option (Nat × EnvDgram V × V))}
    (rights : List.Forall₂ (s.Right np n var_name) events founds) :
    s.values np n events var_name = .ok (founds.map fun found => found.map fun r => r.2.2) := by
  induction rights with
  | nil => rfl
  | cons right _ ih =>
    simp only [values] at ih ⊢
    rw [List.mapM_cons, right.find, ih]
    rfl

/-- The step dgrams of an event are the latest ones up to it just when the next ones are told apart from it. -/
lemma steps_iff (documented : np.Documented) {s : EnvStore T V}
    (sorted : ∀ m ∈ s.env_managers, (m.dgrams.map EnvDgram.timestamp).Pairwise (· < ·)) (t : Nat) :
    (s.get_step_dgrams_of_event np t = s.env_managers.map fun m => (m.upTo t).head?) ↔ s.ToldApart np t := by
  rw [get_step_dgrams_of_event, List.map_inj_left, ToldApart]
  exact forall₂_congr fun m mem => EnvManager.stepDgram_iff (sorted m mem) t documented

/-- The values for some events are right just when for each of them every manager that is asked comes to the latest
dgram that has the variable, and no later dgram has the same time as a `float64`. -/
theorem values_iff (documented : np.Documented) {s : EnvStore T V}
    (sorted : ∀ m ∈ s.env_managers, (m.dgrams.map EnvDgram.timestamp).Pairwise (· < ·)) (n : Nat)
    (var_name : String) (events : List Nat) :
    s.ValuesRight np n var_name events ↔ ∀ t ∈ events, s.Searches n var_name t ∧ s.ToldApart np t := by
  have each : (∃ founds, List.Forall₂ (s.Right np n var_name) events founds ∧
      s.values np n events var_name = .ok (founds.map fun found => found.map fun r => r.2.2)) ↔
      ∀ t ∈ events, ∃ found, s.Right np n var_name t found := by
    induction events with
    | nil => exact iff_of_true ⟨[], .nil, rfl⟩ fun _ h => absurd h List.not_mem_nil
    | cons t events ih =>
      rw [List.forall_mem_cons, ← ih]
      constructor
      · rintro ⟨founds, rights, -⟩
        cases rights with
        | cons right rights => exact ⟨⟨_, right⟩, _, rights, values_of rights⟩
      · rintro ⟨⟨found, right⟩, founds, rights, -⟩
        exact ⟨found :: founds, .cons right rights, values_of (.cons right rights)⟩
  rw [ValuesRight, each]
  have values : (∀ t ∈ events, ∃ found, s.Right np n var_name t found) ↔ ∀ t ∈ events, s.Searches n var_name t :=
    forall₂_congr fun t _ => right_iff documented sorted
  have steps : (∀ t ∈ events, s.get_step_dgrams_of_event np t = s.env_managers.map fun m => (m.upTo t).head?) ↔
      ∀ t ∈ events, s.ToldApart np t := forall₂_congr fun t _ => steps_iff documented sorted t
  rw [values, steps]
  exact forall₂_and.symm

/-- A NumPy whose `float64` is that of the numbers below `2 ^ 53`, and of those next to `2 ^ 61`. -/
def someNumPy : NumPy :=
  let float64 (x : Nat) : Nat := if x < 2 ^ 53 then x else x / 512 * 512
  let compared (t x : Nat) : Nat := if t < 2 ^ 63 then float64 x else x
  { searchsorted := fun a t => (a.takeWhile (· < t)).length
    searchsortedRight := fun a t => (a.takeWhile fun x => compared t x ≤ compared t t).length
    float64 }

/-- Behind the numbers of a list in order that are below a bound, there are none. -/
lemma drop_takeWhile {f : Nat → Nat} (mono : Monotone f) (p : Nat → Prop) [DecidablePred p]
    (down : ∀ x y, x ≤ y → p y → p x) {a : List Nat} (sorted : a.Pairwise (· ≤ ·)) :
    ∀ x ∈ a.drop (a.takeWhile fun x => p (f x)).length, ¬ p (f x) := by
  induction a with
  | nil => exact fun _ h => absurd h List.not_mem_nil
  | cons y a ih =>
    obtain ⟨first, rest⟩ := List.pairwise_cons.mp sorted
    by_cases h : p (f y)
    · rw [List.takeWhile_cons_of_pos (by simpa using h), List.length_cons, List.drop_succ_cons]
      exact ih rest
    · rw [List.takeWhile_cons_of_neg (by simpa using h)]
      intro x hx
      cases List.mem_cons.mp hx with
      | inl here => rwa [here]
      | inr hx => exact fun px => h (down _ _ (mono (first x hx)) px)

lemma someNumPy_documented : someNumPy.Documented := by
  have float64 : Monotone someNumPy.float64 := by
    intro x y le
    simp only [someNumPy]
    split <;> split <;> omega
  have compared : ∀ t, Monotone (someNumPy.compared t) := by
    intro t x y le
    simp only [NumPy.compared]
    split
    · exact float64 le
    · exact le
  have le_length : ∀ (p : Nat → Bool) (a : List Nat), (a.takeWhile p).length ≤ a.length :=
    fun p a => (List.takeWhile_prefix p).length_le
  have taken : ∀ (p : Nat → Bool) (a : List Nat), ∀ x ∈ a.take (a.takeWhile p).length, p x = true := by
    intro p a x hx
    rw [← List.prefix_iff_eq_take.mp (List.takeWhile_prefix p)] at hx
    exact List.mem_takeWhile_imp hx
  refine ⟨float64, fun a t => le_length _ a, ?_, ?_, fun a t => le_length _ a, ?_, ?_⟩
  · intro a t _ x hx
    exact of_decide_eq_true (taken _ a x hx)
  · intro a t sorted x hx
    exact Nat.not_lt.mp (drop_takeWhile monotone_id (· < t) (fun _ _ => Nat.lt_of_le_of_lt) sorted x hx)
  · intro a t _ x hx
    exact of_decide_eq_true (taken _ a x hx)
  · intro a t sorted x hx
    exact Nat.not_le.mp
      (drop_takeWhile (compared t) (· ≤ someNumPy.compared t t) (fun _ _ => Nat.le_trans) sorted x hx)

/-- One variable, in two dgrams. -/
def twoDgrams (first second : Nat) : EnvManager Unit Nat where
  env_variables := [("raw", [(0, [("x", ())])])]
  dgrams := [⟨first, some [(0, [("raw", [("x", 10)])])]⟩, ⟨second, some [(0, [("raw", [("x", 30)])])]⟩]

/-- A store with one manager. -/
def twoSteps (first second : Nat) : EnvStore Unit Nat :=
  ⟨[twoDgrams first second], (twoDgrams first second).env_variables⟩

/-- Events at the dgrams, and after the last one, are served. -/
theorem values_at_steps : (twoSteps 1 3).ValuesRight someNumPy 10 "x" [1, 3, 4] := by
  refine (values_iff someNumPy_documented (by decide) 10 "x" [1, 3, 4]).mpr ?_
  have exact : ∀ t ∈ [1, 3, 4], (twoDgrams 1 3).Exact "x" t 10 := by
    intro t ht
    have early : ¬ (twoDgrams 1 3).Late t := by
      revert t
      decide
    simp only [EnvManager.Exact, if_neg early]
    simp only [List.mem_cons, List.not_mem_nil, or_false] at ht
    obtain rfl | rfl | rfl := ht <;> exact ⟨_, rfl⟩
  have only : ∀ m ∈ (twoSteps 1 3).env_managers, m = twoDgrams 1 3 := fun m mem => List.mem_singleton.mp mem
  intro t ht
  refine ⟨⟨List.cons_ne_nil (twoDgrams 1 3) [], ?_⟩, ?_⟩
  · intro before m after split _
    rw [only m (split ▸ List.mem_append_right _ List.mem_cons_self)]
    exact exact t ht
  · intro m mem d hd
    rw [only m mem] at hd
    have told : ∀ t ∈ [1, 3, 4], ∀ d ∈ ((twoDgrams 1 3).next t).toList,
        someNumPy.compared t d.timestamp ≠ someNumPy.compared t t := by decide
    exact told t ht d (by rw [hd]; exact List.mem_singleton_self d)

/-- An event between the two dgrams reads the value of the later one, which does not hold yet. An event whose time is
    as a `float64` that of a later dgram is given that one. -/
theorem later_value_read :
    ((twoSteps 1 3).env_managers.map fun m => m.dgrams.map EnvDgram.timestamp) = [[1, 3]] ∧
    (twoSteps 1 3).values someNumPy 10 [2] "x" = .ok [some 30] ∧
    ¬ (twoSteps 1 3).ValuesRight someNumPy 10 "x" [2] ∧
    ¬ (twoSteps (2 ^ 61) (2 ^ 61 + 100)).ValuesRight someNumPy 10 "x" [2 ^ 61] := by
  refine ⟨rfl, by decide, ?_, ?_⟩
  · rintro ⟨⟨founds, rights, values⟩, -⟩
    cases rights with
    | cons right rights =>
      cases rights
      have dgram := right.dgram
      have find := right.find
      cases find
      exact absurd (congrArg (Option.map fun r => r.2.timestamp) dgram) (by decide)
  · rintro ⟨-, steps⟩
    have steps := congrArg (fun ds : List (Option (EnvDgram Nat)) => ds.map fun d => d.map EnvDgram.timestamp)
      (steps _ (List.mem_singleton_self _))
    revert steps
    decide

end EnvStore

end Lcls2.Psana
