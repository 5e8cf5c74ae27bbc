import Mathlib

/-!
# Checking typed JSON dictionaries

Model of `validate_typed_json` (`psdaq/configdb/typed_json.py`) and of the rules that the head of the module documents.
A dictionary is the list of its entries, with names for keys; of `edef` only the names of the enumerations are used.
-/

namespace Lcls2.ConfigDb

/-- A Python value, where `number` is one that is no `int`, and `other` is of a type that does not matter here. -/
inductive PyVal where
  | int (n : Int)
  | number
  | str (s : String)
  | ndarray
  | tuple (vs : List PyVal)
  | list (vs : List PyVal)
  | dict (entries : List (String × PyVal))
  | other (hashable : Bool)

/-- The exceptions. -/
inductive PyError where
  | typeError
  | keyError
  deriving DecidableEq

namespace PyVal

mutual
/-- Whether a value can be looked for among the keys of a dictionary. -/
def hashable : PyVal → Bool
  | .tuple vs => allHashable vs
  | .other hashable => hashable
  | .ndarray | .list _ | .dict _ => false
  | .int _ | .number | .str _ => true

/-- Whether all of some values can. -/
def allHashable : List PyVal → Bool
  | [] => true
  | v :: vs => v.hashable && allHashable vs
end

/-- The key that a value is. -/
def key : PyVal → Option String
  | .str s => some s
  | _ => none

/-- `isinstance(v, str)`. -/
def isStr (v : PyVal) : Bool := v.key.isSome

/-- `isinstance(v, numbers.Number)`. -/
def isNumber : PyVal → Bool
  | .int _ | .number => true
  | _ => false

/-- `isinstance(v, np.ndarray)`. -/
def isNdarray : PyVal → Bool
  | .ndarray => true
  | _ => false

/-- The elements of a list. -/
def elements : PyVal → Option (List PyVal)
  | .list vs => some vs
  | _ => none

end PyVal

/-- `typerange`: the range of an integer type, none for the other types. -/
def typerange : List (String × Option (Int × Int)) :=
  [("UINT8", some (0, 2 ^ 8 - 1)), ("UINT16", some (0, 2 ^ 16 - 1)), ("UINT32", some (0, 2 ^ 32 - 1)),
    ("UINT64", some (0, 2 ^ 64 - 1)), ("INT8", some (-2 ^ 7, 2 ^ 7 - 1)), ("INT16", some (-2 ^ 15, 2 ^ 15 - 1)),
    ("INT32", some (-2 ^ 31, 2 ^ 31 - 1)), ("INT64", some (-2 ^ 63, 2 ^ 63 - 1)), ("FLOAT", none), ("DOUBLE", none),
    ("CHARSTR", none)]

/-- A part of the path to an entry. -/
inductive NamePart where
  | name (s : String)
  | index (n : Nat)

/-- `namify`. -/
def namify (l : List NamePart) : String :=
  l.foldl (fun s part => match part with
    | .name v => if s = "" then v else s ++ "." ++ v
    | .index n => s ++ "." ++ toString n) ""

/-- What the validation returns: `None` or an error string, or an exception. -/
abbrev Verdict := Except PyError (Option String)

/-- The header entries that are required. -/
def requiredHeaders : List String := ["detType:RO", "detName:RO", "detId:RO"]

/-- The entries of a dictionary that are no header entries. -/
def plainEntries (d : List (String × PyVal)) : List (String × PyVal) :=
  d.filter fun entry => entry.1 ∉ requiredHeaders ++ ["doc:RO", "alg:RO"]

/-- The check of the dictionary of `alg`. -/
def checkAlg (a : List (String × PyVal)) : Option String :=
  if !(a.lookup "alg:RO").any PyVal.isStr then some "alg has no valid alg"
  else if !(a.lookup "doc:RO").all PyVal.isStr then some "alg has no valid doc"
  else if !(a.lookup "version:RO").any fun v => v.elements.any (·.length == 3) then some "alg has no valid version"
  else none

/-- The check of the header entries at the top. -/
def checkHeaders (d : List (String × PyVal)) : Option String :=
  match requiredHeaders.find? fun f => !(d.lookup f).any PyVal.isStr with
  | some f => some ("No valid " ++ f)
  | none =>
    if !(d.lookup "doc:RO").all PyVal.isStr then some "No valid doc"
    else
      match d.lookup "alg:RO" with
      | none => none
      | some (.dict a) => checkAlg a
      | some _ => some "alg is not a dictionary"

section validation
variable (str : PyVal → String) (edef : List String)

/-- The check of a number against the range of its type. -/
def checkRange (path n : String) (tag value : PyVal) : Option (Int × Int) → Option String
  | none => if tag.key ≠ some "CHARSTR" ∧ value.isNumber = false then some (path ++ " value is not a number") else none
  | some (lo, hi) =>
    match value with
    | .int v => if v < lo ∨ hi < v then some (path ++ n ++ " is out of range") else none
    | _ => some (path ++ n ++ " value is not an int")

/-- The check of a tuple with the name `n` at a path. -/
def checkTuple (path n : String) : List PyVal → Verdict
  | [tag, value] =>
    if !tag.hashable then .error .typeError
    else if tag.key.any edef.contains && (value.isNumber || value.isNdarray) then .ok none
    else
      match tag.key.bind (typerange.lookup ·) with
      | some range => .ok (checkRange path n tag value range)
      | none =>
        -- a type that is only in `edef` is looked up in `typerange` all the same
        if tag.key.any edef.contains then .error .keyError else .ok (some (path ++ " has invalid type " ++ str tag))
  | _ => .ok (some (path ++ " should have len 2"))

mutual
/-- The loop over the entries, whose body ends with `return None`. -/
def checkEntries (top : List NamePart) : List (String × PyVal) → Verdict
  | [] => .ok none
  | (n, v) :: _ => checkEntry top n v

/-- The body of the loop. -/
def checkEntry (top : List NamePart) (n : String) : PyVal → Verdict
  | .dict d => checkEntries (top ++ [.name n]) d
  | .list vs => checkElements top n 0 vs
  | .tuple vs => checkTuple str edef (namify (top ++ [.name n])) n vs
  | .ndarray => .ok none
  | _ => .ok (some (namify (top ++ [.name n]) ++ " is invalid"))

/-- The loop over the elements of a list, from one of them on. -/
def checkElements (top : List NamePart) (n : String) (nn : Nat) : List PyVal → Verdict
  | [] => .ok none
  | .dict d :: vs =>
    match checkEntries (top ++ [.name (toString nn)]) d with
    | .ok none => checkElements top n (nn + 1) vs
    | r => r
  | _ :: _ => .ok (some (namify (top ++ [.name n, .index nn]) ++ " is not a dict"))
end

/-- `validate_typed_json` at the top. -/
def validateTypedJson (headers : Bool) : PyVal → Verdict
  | .dict d =>
    match if headers then checkHeaders d else none with
    | some message => .ok (some message)
    | none => checkEntries str edef [] (plainEntries d)
  | _ => .ok (some "Not a dictionary")

end validation

/-- A place in a dictionary where a rule applies: the value of an entry that is no dictionary and no list, or an element
    of a list that is no dictionary. -/
inductive Place where
  | entry (v : PyVal)
  | element (v : PyVal)

mutual
/-- The places of some entries, or of the first of the entries only, at every level. -/
def placesOf (whole : Bool) : List (String × PyVal) → List Place
  | [] => []
  | (_, v) :: d => placesIn whole v ++ if whole then placesOf whole d else []

/-- The places of the value of an entry. -/
def placesIn (whole : Bool) : PyVal → List Place
  | .dict d => placesOf whole d
  | .list vs => placesAmong whole vs
  | v => [.entry v]

/-- The places of the elements of a list. -/
def placesAmong (whole : Bool) : List PyVal → List Place
  | [] => []
  | .dict d :: vs => placesOf whole d ++ placesAmong whole vs
  | v :: vs => .element v :: placesAmong whole vs
end

/-- A number of a range, any number where there is none, and anything for `CHARSTR`. -/
def ofRange (type : String) (value : PyVal) : Option (Int × Int) → Bool
  | none => type == "CHARSTR" || value.isNumber
  | some (lo, hi) =>
    match value with
    | .int v => lo ≤ v && v ≤ hi
    | _ => false

/-- A value of a known type. -/
def inRange (type : String) (value : PyVal) : Bool := (typerange.lookup type).any (ofRange type value)

/-- The rules for a place: a pair of a type and a value, or an array. -/
def Place.good (edef : List String) : Place → Bool
  | .entry .ndarray => true
  | .entry (.tuple [.str type, value]) =>
    (edef.contains type && (value.isNumber || value.isNdarray)) || inRange type value
  | _ => false

/-- A pair whose check ends with an exception: the type is no key, or it is that of an enumeration and the value is none
    of an enumeration. -/
def Place.raises (edef : List String) : Place → Bool
  | .entry (.tuple [tag, value]) =>
    !tag.hashable || (tag.key.any edef.contains && !(value.isNumber || value.isNdarray) &&
      (tag.key.bind (typerange.lookup ·)).isNone)
  | _ => false

/-- The rules for the header entries, with one for the version. -/
structure Headers (version : List PyVal → Prop) (d : List (String × PyVal)) : Prop where
  required : ∀ f ∈ requiredHeaders, ∃ s, d.lookup f = some (.str s)
  doc : ∀ v ∈ d.lookup "doc:RO", ∃ s, v = .str s
  alg : ∀ v ∈ d.lookup "alg:RO", ∃ a, v = .dict a ∧ (∃ s, a.lookup "alg:RO" = some (.str s)) ∧
    (∀ v ∈ a.lookup "doc:RO", ∃ s, v = .str s) ∧
      ∃ vs, a.lookup "version:RO" = some (.list vs) ∧ vs.length = 3 ∧ version vs

/-- Some values are integers. -/
def Integers (vs : List PyVal) : Prop := ∀ v ∈ vs, ∃ n, v = .int n

/-- A dictionary that obeys the rules. -/
structure Valid (edef : List String) (d : List (String × PyVal)) : Prop where
  headers : Headers Integers d
  places : ∀ p ∈ placesOf true (plainEntries d), p.good edef = true

/-- The first place that is not good among those that are looked at. -/
def firstBad (edef : List String) (d : List (String × PyVal)) : Option Place :=
  (placesOf false (plainEntries d)).find? fun p => !p.good edef

/-- Where the header entries are there, the first bad place that is looked at raises no exception, and where none is
    bad the whole dictionary is valid. -/
structure Seen (edef : List String) (d : List (String × PyVal)) : Prop where
  plain : Headers (fun _ => True) d → ∀ p ∈ firstBad edef d, p.raises edef = false
  rest : Headers (fun _ => True) d → firstBad edef d = none → Valid edef d

/-- What a check comes to. -/
inductive Judgement where
  | valid
  | invalid
  | raised

/-- What a result comes to. -/
def judgement : Verdict → Judgement
  | .ok none => .valid
  | .ok (some _) => .invalid
  | .error _ => .raised

/-- A dictionary that is accepted. -/
lemma judgement_valid {r : Verdict} : judgement r = .valid ↔ r = .ok none := by
  cases r with
  | error e => exact iff_of_false nofun nofun
  | ok complaint =>
    cases complaint with
    | none => exact iff_of_true rfl rfl
    | some message => exact iff_of_false nofun nofun

/-- One that is refused with an error string. -/
lemma judgement_invalid {r : Verdict} : judgement r = .invalid ↔ ∃ message, r = .ok (some message) := by
  cases r with
  | error e => exact iff_of_false nofun nofun
  | ok complaint =>
    cases complaint with
    | none => exact iff_of_false nofun nofun
    | some message => exact iff_of_true rfl ⟨message, rfl⟩

/-- What the check of some places comes to that stops at the first bad one. -/
def judge (edef : List String) (ps : List Place) : Judgement :=
  match ps.find? fun p => !p.good edef with
  | none => .valid
  | some p => if p.raises edef then .raised else .invalid

section checks
variable (str : PyVal → String) {edef : List String} {ps qs : List Place}

/-- After places that are good the check goes on. -/
lemma judge_append (valid : judge edef ps = .valid) : judge edef (ps ++ qs) = judge edef qs := by
  rw [judge] at valid
  rw [judge, judge, List.find?_append]
  cases first : ps.find? fun p => !p.good edef with
  | none => rfl
  | some p =>
    rw [first] at valid
    simp only at valid
    split at valid
    · cases valid
    · cases valid

/-- After a bad one it does not. -/
lemma judge_append_bad (bad : judge edef ps ≠ .valid) : judge edef (ps ++ qs) = judge edef ps := by
  rw [judge] at bad
  rw [judge, judge, List.find?_append]
  cases first : ps.find? fun p => !p.good edef with
  | none =>
    rw [first] at bad
    exact absurd rfl bad
  | some p => rfl

/-- The check of one place. -/
lemma judge_single {p : Place} :
    judge edef [p] = if p.good edef then .valid else if p.raises edef then .raised else .invalid := by
  rw [judge, List.find?_singleton]
  cases p.good edef with
  | true => rfl
  | false => rfl

/-- The check against a range. -/
lemma checkRange_spec (path n type : String) (value : PyVal) (range : Option (Int × Int)) :
    judgement (.ok (checkRange path n (.str type) value range)) =
      if ofRange type value range then .valid else .invalid := by
  cases range with
  | none =>
    have key : (PyVal.str type).key = some type := rfl
    rw [checkRange, ofRange, key]
    cases number : value.isNumber with
    | true =>
      rw [if_neg fun both => Bool.false_ne_true both.2.symm, Bool.or_true]
      rfl
    | false =>
      by_cases text : type = "CHARSTR"
      · subst text
        rfl
      · rw [if_pos ⟨fun e => text (Option.some.inj e), rfl⟩, Bool.or_false, beq_false_of_ne text]
        rfl
  | some bounds =>
    obtain ⟨lo, hi⟩ := bounds
    cases value with
    | int v =>
      simp only [checkRange, ofRange, Bool.and_eq_true, decide_eq_true_eq]
      by_cases inside : lo ≤ v ∧ v ≤ hi
      · rw [if_pos inside, if_neg (by omega)]
        rfl
      · rw [if_neg inside, if_pos (by omega)]
        rfl
    | _ => rfl

/-- The check of a pair whose type is a name. -/
lemma checkTuple_name (path n type : String) (value : PyVal) :
    judgement (checkTuple str edef path n [.str type, value]) = judge edef [.entry (.tuple [.str type, value])] := by
  have good : (Place.entry (.tuple [.str type, value])).good edef =
      ((edef.contains type && (value.isNumber || value.isNdarray)) || inRange type value) := rfl
  have raises : (Place.entry (.tuple [.str type, value])).raises edef =
      (edef.contains type && !(value.isNumber || value.isNdarray) && (typerange.lookup type).isNone) := rfl
  rw [judge_single, good, raises, inRange]
  cases range : typerange.lookup type with
  | some bounds =>
    have result : checkTuple str edef path n [.str type, value] =
        if edef.contains type && (value.isNumber || value.isNdarray) then .ok none
        else .ok (checkRange path n (.str type) value bounds) := by
      simp only [checkTuple, PyVal.hashable, PyVal.key, Option.any_some, Option.bind_some, range]
      rfl
    rw [result]
    cases edef.contains type && (value.isNumber || value.isNdarray) with
    | true => rfl
    | false =>
      have checked := checkRange_spec path n type value bounds
      rw [Option.isNone_some, Bool.and_false, Bool.false_or, Option.any_some]
      exact checked
  | none =>
    have result : checkTuple str edef path n [.str type, value] =
        if edef.contains type && (value.isNumber || value.isNdarray) then .ok none
        else if edef.contains type then .error .keyError
        else .ok (some (path ++ " has invalid type " ++ str (.str type))) := by
      simp only [checkTuple, PyVal.hashable, PyVal.key, Option.any_some, Option.bind_some, range]
      rfl
    rw [result]
    cases edef.contains type with
    | false => rfl
    | true =>
      cases value.isNumber || value.isNdarray with
      | false => rfl
      | true => rfl

/-- The check of a pair whose type is no name. -/
lemma checkTuple_other (path n : String) (tag value : PyVal) (other : tag.key = none) :
    judgement (checkTuple str edef path n [tag, value]) = judge edef [.entry (.tuple [tag, value])] := by
  have good : (Place.entry (.tuple [tag, value])).good edef = false := by
    cases tag with
    | str s => cases other
    | _ => rfl
  rw [judge_single, good, Place.raises, checkTuple, other]
  simp only [Option.any_none, Option.bind_none, Bool.false_and, Bool.or_false]
  cases tag.hashable with
  | true => rfl
  | false => rfl

/-- The check of a pair. -/
lemma checkTuple_spec (path n : String) (vs : List PyVal) :
    judgement (checkTuple str edef path n vs) = judge edef [.entry (.tuple vs)] := by
  cases vs with
  | nil => rfl
  | cons tag vs =>
    cases vs with
    | nil => cases tag <;> rfl
    | cons value vs =>
      cases vs with
      | cons v vs => cases tag <;> rfl
      | nil =>
        cases tag with
        | str type => exact checkTuple_name str path n type value
        | _ => exact checkTuple_other str path n _ value rfl

mutual
/-- The check of some entries is that of the first. -/
lemma checkEntries_spec (top : List NamePart) :
    ∀ d, judgement (checkEntries str edef top d) = judge edef (placesOf false d)
  | [] => rfl
  | (n, v) :: _ => by
    rw [checkEntries, placesOf, if_neg Bool.false_ne_true, List.append_nil]
    exact checkEntry_spec top n v

/-- The check of an entry is that of the places in it that are looked at. -/
lemma checkEntry_spec (top : List NamePart) (n : String) :
    ∀ v, judgement (checkEntry str edef top n v) = judge edef (placesIn false v)
  | .dict d => by
    rw [checkEntry, placesIn]
    exact checkEntries_spec _ d
  | .list vs => by
    rw [checkEntry, placesIn]
    exact checkElements_spec top n 0 vs
  | .tuple vs => by
    rw [checkEntry, placesIn]
    · exact checkTuple_spec str _ n vs
    · exact nofun
    · exact nofun
  | .int _ => rfl
  | .number => rfl
  | .str _ => rfl
  | .ndarray => rfl
  | .other _ => rfl

/-- The check of the elements of a list. -/
lemma checkElements_spec (top : List NamePart) (n : String) (nn : Nat) :
    ∀ vs, judgement (checkElements str edef top n nn vs) = judge edef (placesAmong false vs)
  | [] => rfl
  | .dict d :: vs => by
    have first := checkEntries_spec (top ++ [.name (toString nn)]) d
    rw [checkElements, placesAmong]
    cases result : checkEntries str edef (top ++ [.name (toString nn)]) d with
    | error e =>
      rw [result] at first
      rw [judge_append_bad (by rw [← first]; exact nofun), ← first]
    | ok complaint =>
      rw [result] at first
      cases complaint with
      | none =>
        rw [judge_append first.symm]
        exact checkElements_spec top n (nn + 1) vs
      | some message => rw [judge_append_bad (by rw [← first]; exact nofun), ← first]
  | .list _ :: _ => rfl
  | .tuple _ :: _ => rfl
  | .int _ :: _ => rfl
  | .number :: _ => rfl
  | .str _ :: _ => rfl
  | .ndarray :: _ => rfl
  | .other _ :: _ => rfl
end

mutual
/-- The places that are looked at are places of the dictionary. -/
lemma placesOf_subset : ∀ d, placesOf false d ⊆ placesOf true d
  | [] => List.Subset.refl _
  | (n, v) :: d => by
    rw [placesOf, placesOf, if_neg Bool.false_ne_true, List.append_nil]
    exact List.subset_append_of_subset_left _ (placesIn_subset v)

/-- The same in the value of an entry. -/
lemma placesIn_subset : ∀ v, placesIn false v ⊆ placesIn true v
  | .dict d => placesOf_subset d
  | .list vs => placesAmong_subset vs
  | .tuple _ => List.Subset.refl _
  | .int _ => List.Subset.refl _
  | .number => List.Subset.refl _
  | .str _ => List.Subset.refl _
  | .ndarray => List.Subset.refl _
  | .other _ => List.Subset.refl _

/-- The same in the elements of a list. -/
lemma placesAmong_subset : ∀ vs, placesAmong false vs ⊆ placesAmong true vs
  | [] => List.Subset.refl _
  | .dict d :: vs => by
    rw [placesAmong, placesAmong]
    exact List.append_subset.mpr ⟨List.subset_append_of_subset_left _ (placesOf_subset d),
      List.subset_append_of_subset_right _ (placesAmong_subset vs)⟩
  | .list _ :: vs => List.cons_subset_cons _ (placesAmong_subset vs)
  | .tuple _ :: vs => List.cons_subset_cons _ (placesAmong_subset vs)
  | .int _ :: vs => List.cons_subset_cons _ (placesAmong_subset vs)
  | .number :: vs => List.cons_subset_cons _ (placesAmong_subset vs)
  | .str _ :: vs => List.cons_subset_cons _ (placesAmong_subset vs)
  | .ndarray :: vs => List.cons_subset_cons _ (placesAmong_subset vs)
  | .other _ :: vs => List.cons_subset_cons _ (placesAmong_subset vs)
end

end checks

section headers
variable {d : List (String × PyVal)} {edef : List String}

/-- A string. -/
lemma isStr_iff {v : PyVal} : v.isStr = true ↔ ∃ s, v = .str s := by
  constructor
  · intro h
    cases v with
    | str s => exact ⟨s, rfl⟩
    | _ => cases h
  · intro h
    obtain ⟨s, rfl⟩ := h
    rfl

/-- An entry that is a string. -/
lemma any_isStr_iff {v : Option PyVal} : v.any PyVal.isStr = true ↔ ∃ s, v = some (.str s) := by
  rw [Option.any_eq_true]
  constructor
  · intro h
    obtain ⟨v, rfl, str⟩ := h
    obtain ⟨s, rfl⟩ := isStr_iff.mp str
    exact ⟨s, rfl⟩
  · intro h
    obtain ⟨s, rfl⟩ := h
    exact ⟨.str s, rfl, rfl⟩

/-- An entry that is a string, if it is there. -/
lemma all_isStr_iff {v : Option PyVal} : v.all PyVal.isStr = true ↔ ∀ v' ∈ v, ∃ s, v' = .str s := by
  rw [Option.all_eq_true]
  exact forall₂_congr fun v' _ => isStr_iff

/-- The check of the dictionary of `alg`, but for the elements of the version. -/
lemma checkAlg_iff (a : List (String × PyVal)) :
    checkAlg a = none ↔ (∃ s, a.lookup "alg:RO" = some (.str s)) ∧ (∀ v ∈ a.lookup "doc:RO", ∃ s, v = .str s) ∧
      ∃ vs, a.lookup "version:RO" = some (.list vs) ∧ vs.length = 3 ∧ True := by
  have version : (a.lookup "version:RO").any (fun v => v.elements.any (·.length == 3)) = true ↔
      ∃ vs, a.lookup "version:RO" = some (.list vs) ∧ vs.length = 3 ∧ True := by
    rw [Option.any_eq_true]
    constructor
    · intro h
      obtain ⟨v, found, three⟩ := h
      cases v with
      | list vs => exact ⟨vs, found, eq_of_beq three, trivial⟩
      | _ => cases three
    · intro h
      obtain ⟨vs, found, three, -⟩ := h
      exact ⟨.list vs, found, beq_of_eq three⟩
  rw [← any_isStr_iff, ← all_isStr_iff, ← version, checkAlg]
  cases (a.lookup "alg:RO").any PyVal.isStr with
  | false => exact iff_of_false nofun (fun all => Bool.false_ne_true all.1)
  | true =>
    cases (a.lookup "doc:RO").all PyVal.isStr with
    | false => exact iff_of_false nofun (fun all => Bool.false_ne_true all.2.1)
    | true =>
      cases (a.lookup "version:RO").any fun v => v.elements.any (·.length == 3) with
      | false => exact iff_of_false nofun (fun all => Bool.false_ne_true all.2.2)
      | true => exact iff_of_true rfl ⟨rfl, rfl, rfl⟩

/-- The check of the header entries. -/
lemma checkHeaders_iff : checkHeaders d = none ↔ Headers (fun _ => True) d := by
  rw [checkHeaders]
  cases first : requiredHeaders.find? fun f => !(d.lookup f).any PyVal.isStr with
  | some f =>
    refine iff_of_false nofun ?_
    intro headers
    have bad := List.find?_some first
    rw [any_isStr_iff.mpr (headers.required f (List.mem_of_find?_eq_some first))] at bad
    cases bad
  | none =>
    have required : ∀ f ∈ requiredHeaders, ∃ s, d.lookup f = some (.str s) := by
      intro f mem
      have good := List.find?_eq_none.mp first f mem
      rw [Bool.not_eq_true, Bool.not_eq_false'] at good
      exact any_isStr_iff.mp good
    cases doc : (d.lookup "doc:RO").all PyVal.isStr with
    | false =>
      refine iff_of_false nofun ?_
      intro headers
      rw [all_isStr_iff.mpr headers.doc] at doc
      cases doc
    | true =>
      have doc := all_isStr_iff.mp doc
      cases alg : d.lookup "alg:RO" with
      | none =>
        refine iff_of_true rfl ⟨required, doc, ?_⟩
        rw [alg]
        exact nofun
      | some v =>
        cases v with
        | dict a =>
          refine (checkAlg_iff a).trans ?_
          constructor
          · intro right
            refine ⟨required, doc, ?_⟩
            intro v mem
            cases alg.symm.trans mem
            exact ⟨a, rfl, right⟩
          · intro headers
            obtain ⟨a', same, right⟩ := headers.alg (.dict a) alg
            cases same
            exact right
        | _ =>
          refine iff_of_false nofun ?_
          intro headers
          obtain ⟨a, same, -⟩ := headers.alg _ alg
          cases same

/-- A rule for the version does not matter to the other rules. -/
lemma Headers.weaken {version : List PyVal → Prop} (headers : Headers version d) : Headers (fun _ => True) d := by
  refine ⟨headers.required, headers.doc, ?_⟩
  intro v mem
  obtain ⟨a, same, alg, doc, vs, found, three, -⟩ := headers.alg v mem
  exact ⟨a, same, alg, doc, vs, found, three, trivial⟩

/-- A bad place is one of a dictionary that is not valid. -/
lemma firstBad_not_valid {p : Place} (bad : firstBad edef d = some p) : ¬ Valid edef d := by
  intro valid
  have there := placesOf_subset (plainEntries d) (List.mem_of_find?_eq_some bad)
  have not := List.find?_some bad
  rw [valid.places p there] at not
  cases not

/-- The validation accepts a dictionary exactly where it is valid, and returns an error string for another one, exactly
    where a header entry that is checked is wrong, or what is looked at, the first entry of each dictionary only,
    decides. -/
theorem validate_iff (str : PyVal → String) (edef : List String) (d : List (String × PyVal)) :
    ((validateTypedJson str edef true (.dict d) = .ok none ↔ Valid edef d) ∧
      (¬ Valid edef d → ∃ message, validateTypedJson str edef true (.dict d) = .ok (some message))) ↔ Seen edef d := by
  rw [validateTypedJson, if_pos rfl]
  cases headers : checkHeaders d with
  | some message =>
    have wrong : ¬ Headers (fun _ => True) d := by
      intro right
      cases headers.symm.trans (checkHeaders_iff.mpr right)
    refine iff_of_true ⟨iff_of_false nofun fun valid => wrong valid.headers.weaken, fun _ => ⟨message, rfl⟩⟩ ?_
    exact ⟨fun right => absurd right wrong, fun right => absurd right wrong⟩
  | none =>
    have right := checkHeaders_iff.mp headers
    have checked := @checkEntries_spec str edef [] (plainEntries d)
    simp only
    cases first : firstBad edef d with
    | none =>
      have accepted : judge edef (placesOf false (plainEntries d)) = .valid := by
        have found := first
        rw [firstBad] at found
        rw [judge, found]
      rw [accepted, judgement_valid] at checked
      rw [checked]
      constructor
      · intro decides
        exact ⟨fun _ => first ▸ nofun, fun _ _ => decides.1.mp rfl⟩
      · intro seen
        have valid := seen.rest right first
        exact ⟨iff_of_true rfl valid, fun invalid => absurd valid invalid⟩
    | some p =>
      have invalid := firstBad_not_valid first
      have refused : judge edef (placesOf false (plainEntries d)) = if p.raises edef then .raised else .invalid := by
        have found := first
        rw [firstBad] at found
        rw [judge, found]
      rw [refused] at checked
      cases raises : p.raises edef with
      | true =>
        rw [raises, if_pos rfl] at checked
        refine iff_of_false ?_ ?_
        · intro decides
          have message := judgement_invalid.mpr (decides.2 invalid)
          cases checked.symm.trans message
        · intro seen
          cases raises.symm.trans (seen.plain right p first)
      | false =>
        rw [raises, if_neg Bool.false_ne_true] at checked
        obtain ⟨message, refused⟩ := judgement_invalid.mp checked
        rw [refused]
        refine iff_of_true ⟨iff_of_false nofun invalid, fun _ => ⟨message, rfl⟩⟩ ⟨?_, ?_⟩
        · intro _ q same
          cases first.symm.trans same
          exact raises
        · intro _ none_
          cases first.symm.trans none_

end headers

/-- The header entries of a dictionary. -/
def headerEntries : List (String × PyVal) :=
  [("detType:RO", .str "test"), ("detName:RO", .str "test"), ("detId:RO", .str "")]

/-- An entry after the first is not checked, a string for an enumeration ends with an exception, and so does a list for
    a type. -/
theorem second_entry :
    (validateTypedJson (fun _ => "") [] true (.dict (headerEntries ++ [("a", .ndarray), ("b", .number)])) = .ok none ∧
        ¬ Valid [] (headerEntries ++ [("a", .ndarray), ("b", .number)])) ∧
      validateTypedJson (fun _ => "") ["boolEnum"] true
          (.dict (headerEntries ++ [("a", .tuple [.str "boolEnum", .str "True"])])) = .error .keyError ∧
      validateTypedJson (fun _ => "") [] true (.dict (headerEntries ++ [("a", .tuple [.list [], .int 1])])) =
        .error .typeError := by
  refine ⟨⟨?_, ?_⟩, ?_, ?_⟩
  · rfl
  · intro valid
    have bad := valid.places (.entry .number) ?_
    · cases bad
    · show _ ∈ [Place.entry .ndarray, .entry .number]
      exact List.mem_cons_of_mem _ (List.mem_singleton.mpr rfl)
  · rfl
  · rfl

end Lcls2.ConfigDb
