import Lcls2.Lib.Dict

/-!
# Environment data

Model of `psana/psexp/envstore.py`: an `EnvManager` for each config, which lists the variables of the config and
collects the env dgrams of its stream, and the `EnvStore` that looks values up for events.

`env` is the part of a config, or of a dgram, that the attribute `env_name` holds (`none` where there is no such
attribute): the segments, the algorithms of each and the variables of each. A variable of a config comes with its type;
what else an algorithm has (`version`, `software`) has none.

`np.searchsorted` is a parameter; `NumPy.Documented` is what its documentation says.
-/

namespace Lcls2.Psana
open Lib

/-- Something for each variable of each algorithm of each segment. -/
abbrev Envs (A : Type*) := Dict Nat (Dict String (Dict String A))

/-- A config. -/
structure EnvConfig (T : Type*) where
  env : Option (Envs (Option T))

/-- An env dgram. -/
structure EnvDgram (V : Type*) where
  timestamp : Nat
  env : Option (Envs V)

/-- `env_variables`: the types of the variables, by algorithm and segment. -/
abbrev EnvVariables (T : Type*) := Dict String (Dict Nat (Dict String T))

/-- The variables of an algorithm. -/
def envVars {T : Type*} (attrs : Dict String (Option T)) : Dict String T :=
  attrs.filterMap fun attr =>
    if attr.1 = "version" ∨ attr.1 = "software" then none else attr.2.map fun type => (attr.1, type)

/-- `EnvManager._init_env_variables`. -/
def EnvConfig.envVariables {T : Type*} (c : EnvConfig T) : EnvVariables T :=
  (c.env.getD []).foldl (fun d segment =>
    segment.2.foldl (fun d alg => Dict.setItem d alg.1 [(segment.1, envVars alg.2)]) d) []

/-- `locate_variable`. -/
def EnvVariables.locate {T : Type*} (d : EnvVariables T) (var_name : String) : Option (String × Nat) :=
  d.findSome? fun alg => alg.2.findSome? fun segment =>
    if var_name ∈ Dict.keys segment.2 then some (alg.1, segment.1) else none

/-- `EnvManager`. -/
structure EnvManager (T V : Type*) where
  env_variables : EnvVariables T
  dgrams : List (EnvDgram V)

/-- `EnvStore`. -/
structure EnvStore (T V : Type*) where
  env_managers : List (EnvManager T V)
  env_variables : EnvVariables T

/-- What looking a variable up in a dgram can raise: `[segment_id]`, or `getattr` of the variable; and a store without
    managers leaves `val` unbound. -/
inductive EnvFault where
  | keyError | attributeError | unboundLocal
  deriving DecidableEq, Repr

namespace EnvManager

variable {T V : Type*}

/-- `EnvManager(config)`. -/
def new (c : EnvConfig T) : EnvManager T V := ⟨c.envVariables, []⟩

/-- `add`. -/
def add (m : EnvManager T V) (d : EnvDgram V) : EnvManager T V := { m with dgrams := m.dgrams ++ [d] }

end EnvManager

namespace EnvStore

variable {T V : Type*}

/-- What a manager has for an algorithm is added to what is there. -/
def mergeAlg (d : EnvVariables T) (alg : String × Dict Nat (Dict String T)) : EnvVariables T :=
  match d.lookup alg.1 with
  | none => Dict.setItem d alg.1 (Dict.update [] alg.2)
  | some envs => Dict.setItem d alg.1 (alg.2.foldl (fun envs segment => Dict.update envs [segment]) envs)

/-- `EnvStore(configs)`. -/
def new (configs : List (EnvConfig T)) : EnvStore T V where
  env_managers := configs.map EnvManager.new
  env_variables := (configs.map fun c => (EnvManager.new c : EnvManager T V)).foldl
    (fun d m => m.env_variables.foldl mergeAlg d) []

/-- `locate_variable`. -/
def locate_variable (s : EnvStore T V) (var_name : String) : Option (String × Nat) := s.env_variables.locate var_name

/-- `add_to`. -/
def add_to (s : EnvStore T V) (d : EnvDgram V) (i : Nat) : EnvStore T V :=
  { s with env_managers := s.env_managers.modify i fun m => m.add d }

end EnvStore

/-- What a dgram has of a variable at some place: nothing, its value, or an exception. -/
def EnvDgram.look {V : Type*} (d : EnvDgram V) (alg : String) (segment_id : Nat) (env_variable : String) :
    Except EnvFault (Option V) :=
  match d.env with
  | none => .ok none
  | some envs =>
    match envs.lookup segment_id with
    | none => .error .keyError
    | some algs =>
      match algs.lookup alg with
      | none => .ok none
      | some vars =>
        match vars.lookup env_variable with
        | none => .error .attributeError
        | some v => .ok (some v)

/-- What is used of NumPy: `searchsorted` of a value in an array that are both `uint64`, the same with `side='right'` of
    a Python `int` in an array of `uint64`, and what a number is as a `float64`. -/
structure NumPy where
  searchsorted : List Nat → Nat → Nat
  searchsortedRight : List Nat → Nat → Nat
  float64 : Nat → Nat

/-- A number of `uint64` as it is compared with a Python `int`: both become `float64`, unless the `int` is too large for
    an `int64`. -/
def NumPy.compared (np : NumPy) (t x : Nat) : Nat := if t < 2 ^ 63 then np.float64 x else x

/-- What NumPy says of it: in an array in order the position is behind what is below the value, or with `side='right'`
    not above it; and `float64` keeps the order. -/
structure NumPy.Documented (np : NumPy) : Prop where
  float64 : Monotone np.float64
  le_length : ∀ (a : List Nat) t, np.searchsorted a t ≤ a.length
  below : ∀ (a : List Nat) t, a.Pairwise (· ≤ ·) → ∀ x ∈ a.take (np.searchsorted a t), x < t
  not_below : ∀ (a : List Nat) t, a.Pairwise (· ≤ ·) → ∀ x ∈ a.drop (np.searchsorted a t), t ≤ x
  right_le_length : ∀ (a : List Nat) t, np.searchsortedRight a t ≤ a.length
  not_above : ∀ (a : List Nat) t, a.Pairwise (· ≤ ·) → ∀ x ∈ a.take (np.searchsortedRight a t),
    np.compared t x ≤ np.compared t t
  above : ∀ (a : List Nat) t, a.Pairwise (· ≤ ·) → ∀ x ∈ a.drop (np.searchsortedRight a t),
    np.compared t t < np.compared t x

namespace EnvManager

variable {T V : Type*}

/-- Going back through the dgrams for some steps, from the one before `p`. -/
def searchBack (m : EnvManager T V) (alg : String) (segment_id : Nat) (env_variable : String) :
    (p : Nat) → (steps : Nat) → Except EnvFault (Option (EnvDgram V × V))
  | 0, _ => .ok none
  | _ + 1, 0 => .ok none
  | p + 1, steps + 1 =>
    match m.dgrams[p]? with
    | none => .ok none
    | some d =>
      match d.look alg segment_id env_variable with
      | .error fault => .error fault
      | .ok (some v) => .ok (some (d, v))
      | .ok none => m.searchBack alg segment_id env_variable p steps

/-- The value that the manager has for an event, with the dgram it was read from. -/
def find (np : NumPy) (m : EnvManager T V) (n_steps : Nat) (env_variable : String) (t : Nat) :
    Except EnvFault (Option (EnvDgram V × V)) :=
  match m.env_variables.locate env_variable with
  | none => .ok none
  | some (alg, segment_id) =>
    let found_pos := np.searchsorted (m.dgrams.map EnvDgram.timestamp) t
    -- an event after the last dgram; a position is counted from one here, as it may be -1
    let last := if found_pos = m.dgrams.length then found_pos else found_pos + 1
    m.searchBack alg segment_id env_variable last n_steps

/-- The step dgram of an event. -/
def stepDgram (np : NumPy) (m : EnvManager T V) (t : Nat) : Option (EnvDgram V) :=
  match np.searchsortedRight (m.dgrams.map EnvDgram.timestamp) t with
  | 0 => none
  | p + 1 => m.dgrams[p]?

end EnvManager

namespace EnvStore

variable {T V : Type*}

/-- The first manager that has a value, with its number. -/
def firstValue (np : NumPy) (n_steps : Nat) (env_variable : String) (t : Nat) :
    (i : Nat) → List (EnvManager T V) → Except EnvFault (Option (Nat × EnvDgram V × V))
  | _, [] => .ok none
  | i, m :: ms => do
    match ← m.find np n_steps env_variable t with
    | some found => return some (i, found)
    | none => firstValue np n_steps env_variable t (i + 1) ms

/-- What `values` reads for an event. -/
def find (np : NumPy) (s : EnvStore T V) (n_steps : Nat) (env_variable : String) (t : Nat) :
    Except EnvFault (Option (Nat × EnvDgram V × V)) :=
  if s.env_managers = [] then .error .unboundLocal
  else firstValue np n_steps env_variable t 0 s.env_managers

/-- `values`. -/
def values (np : NumPy) (s : EnvStore T V) (n_steps : Nat) (events : List Nat) (env_variable : String) :
    Except EnvFault (List (Option V)) :=
  events.mapM fun t => (s.find np n_steps env_variable t).map fun found => found.map fun r => r.2.2

/-- `get_step_dgrams_of_event`. -/
def get_step_dgrams_of_event (np : NumPy) (s : EnvStore T V) (t : Nat) : List (Option (EnvDgram V)) :=
  s.env_managers.map fun m => m.stepDgram np t

end EnvStore

end Lcls2.Psana
