import Lcls2.ConfigDb.TypedJson
import Lcls2.Lib.Dict
import Lcls2.Lib.Paths

/-!
# The tree of a cdict

Dictionaries and lists of `cdict` (`psdaq/configdb/typed_json.py`) are objects on a heap, where several names, of one
cdict or of two, may lead to the same object. The objects of the heap are never given back. A name is a path, and what
a name holds is found by `follow`; `get` is the routine of the source.
-/

namespace Lcls2.ConfigDb.Cdict
open Lib

/-- The exceptions. -/
inductive SetError where
  | valueError
  | typeError
  | keyError
  | indexError
  | overflowError
  | assertionError
  | unboundLocalError
  deriving DecidableEq

/-- A number: an `int`, or a `float`, which is a fraction (a whole one is no `int`) or is not finite. -/
inductive Num where
  | int (n : Int)
  | float (q : ℚ)
  | infinite
  | nan
  deriving DecidableEq

namespace Num

/-- `int(x)`. -/
def toInt : Num → Except SetError Int
  | .int n => .ok n
  | .float q => .ok (q.num.tdiv q.den)
  | .infinite => .error .overflowError
  | .nan => .error .valueError

/-- `x == n`. -/
def eqInt : Num → Int → Bool
  | .int m, n => m == n
  | .float q, n => q == n
  | _, _ => false

/-- A number of a range, or any number where there is none. -/
def inRange (x : Num) : Option (Int × Int) → Bool
  | none => true
  | some (lo, hi) =>
    match x with
    | .int n => lo ≤ n && n ≤ hi
    | _ => false

end Num

/-- The types of the elements of an array. -/
inductive Dtype where
  | uint8 | uint16 | uint32 | uint64 | int8 | int16 | int32 | int64 | float32 | float64 | str
  | other (name : String)
  deriving DecidableEq

/-- `typedict`. -/
def typedict : List (String × Dtype) :=
  [("UINT8", .uint8), ("UINT16", .uint16), ("UINT32", .uint32), ("UINT64", .uint64), ("INT8", .int8), ("INT16", .int16),
    ("INT32", .int32), ("INT64", .int64), ("FLOAT", .float32), ("DOUBLE", .float64), ("CHARSTR", .str)]

/-- The numbers that an element can be. -/
def Dtype.range (t : Dtype) : Option (Int × Int) :=
  ((typedict.find? fun entry => entry.2 = t).bind fun entry => typerange.lookup entry.1).join

/-- An array, whose elements are of its type. -/
structure NdArray where
  dtype : Dtype
  shape : List Nat
  data : List Num
  fits : ∀ x ∈ data, x.inRange dtype.range = true

/-- What an entry of a dictionary or an element of a list is: a pair of a type and a value, an array, a dictionary or a
    list that is an object of the heap, or what only an error puts there. -/
inductive Py where
  | none_
  | str (s : String)
  | num (x : Num)
  | array (a : NdArray)
  | pair (tag payload : Py)
  | ref (address : Nat)

/-- A dictionary or a list. -/
inductive Obj where
  | dict (entries : Dict String Py)
  | list (elements : List Py)

/-- The objects, by their addresses. -/
abbrev Heap := List Obj

deriving instance DecidableEq for NamePart

namespace Obj

/-- `isinstance(d, dict)`. -/
def isDict : Obj → Bool
  | .dict _ => true
  | .list _ => false

/-- `isinstance(d, list)`. -/
def isList : Obj → Bool
  | .dict _ => false
  | .list _ => true

/-- The element or the value with a key. -/
def at_ : Obj → NamePart → Option Py
  | .dict entries, .name s => entries.lookup s
  | .list elements, .index k => elements[k]?
  | _, _ => none

/-- `d[part] = v`. -/
def put : Obj → NamePart → Py → Obj
  | .dict entries, .name s, v => .dict (entries.setItem s v)
  | .list elements, .index k, v => .list (elements.set k v)
  | o, _, _ => o

end Obj

/-- Where an edge of a value leads. -/
def child (h : Heap) : Py → NamePart → Option Py
  | .ref a, part => h[a]?.bind fun o => o.at_ part
  | _, _ => none

/-- The object that a value is. -/
def object (h : Heap) : Py → Option Obj
  | .ref a => h[a]?
  | _ => none

/-- White space for `int`: the blank and the characters from the tab to the carriage return. -/
def isSpace (c : Char) : Bool := c.toNat == 32 || (9 ≤ c.toNat && c.toNat ≤ 13)

/-- The characters of a whole number, after `int`: digits with single underscores between them, and white space at the
    end. -/
def intOf (cs : List Char) : Option Nat :=
  let groups := (cs.rdropWhile isSpace).splitOn '_'
  if groups.all fun ds => !ds.isEmpty && ds.all Char.isDigit then
    some (groups.flatten.foldl (fun n c => 10 * n + (c.toNat - '0'.toNat)) 0)
  else none

/-- `splitname`, for a name of ASCII characters: `None` where a part that starts with a digit is no number. -/
def splitname (name : String) : Except SetError (Option (List NamePart)) :=
  (name.toList.splitOn '.').foldr (fun nn r =>
    match nn with
    | [] => .error .indexError
    | c :: cs =>
      if c.isDigit then
        match intOf (c :: cs) with
        -- `return None` leaves the loop before a later part is looked at
        | none => .ok none
        | some k => (Option.map (.index k :: ·)) <$> r
      else (Option.map (.name (String.ofList nn) :: ·)) <$> r) (.ok (some []))

/-- What `get` comes to. -/
inductive Got where
  | value (v : Py)
  | none_
  | hangs

/-- `int(n[0])` for an element of a list: a part that is no number may still read as one with a sign. -/
def indexOf : NamePart → Option Int
  | .index k => some k
  | .name s =>
    match s.toList.dropWhile isSpace with
    | '-' :: cs => (intOf cs).map fun k => -k
    | '+' :: cs => (intOf cs).map fun k => k
    | cs => (intOf cs).map fun k => k

/-- `d[k]`, where a negative index counts from the end. -/
def element (elements : List Py) (k : Int) : Option Py :=
  if 0 ≤ k then elements[k.toNat]?
  else if -elements.length ≤ k then elements[(elements.length + k).toNat]?
  else none

/-- The loop of `get`, which does not end at a value with no parts. -/
def get (h : Heap) : Py → List NamePart → Got
  | .pair _ payload, [] => .value payload
  | d, [] => .value d
  | d, part :: path =>
    match object h d with
    | some (.list elements) =>
      match (indexOf part).bind (element elements) with
      | none => .none_
      | some d => get h d path
    | some (.dict entries) =>
      match (Obj.dict entries).at_ part with
      | none => .none_
      | some d => get h d path
    | none => .hangs

/-- What `get` returns for a value that it finds. -/
def Py.payload : Py → Py
  | .pair _ payload => payload
  | d => d

/-- Of the names of the tree, `get` returns what they hold. -/
lemma get_of_follow {h : Heap} {path : List NamePart} {d v : Py} (there : follow (child h) d path = some v) :
    get h d path = .value v.payload := by
  induction path generalizing d with
  | nil =>
    cases there
    cases v with
    | pair _ _ => rfl
    | _ => rfl
  | cons part path ih =>
    obtain ⟨u, step, rest⟩ := Option.bind_eq_some_iff.mp there
    cases d with
    | ref a =>
      obtain ⟨o, stored, edge⟩ := Option.bind_eq_some_iff.mp step
      have here : object h (.ref a) = some o := stored
      cases o with
      | dict entries =>
        rw [get, here]
        simp only [edge]
        exact ih rest
      | list elements =>
        cases part with
        | name s => cases edge
        | index k =>
          have edge : elements[k]? = some u := edge
          have found : (indexOf (.index k)).bind (element elements) = some u := by
            rw [indexOf, Option.bind_some, element, if_pos (Int.natCast_nonneg k), Int.toNat_natCast, edge]
          rw [get, here]
          simp only [found]
          exact ih rest
    | _ => cases step

/-- What a name holds, but for what is below it: a value, the keys of a dictionary or the length of a list. -/
inductive Shape where
  | leaf (v : Py)
  | dict (keys : List String)
  | list (length : Nat)

/-- The shape of a value. -/
def shape (h : Heap) (v : Py) : Shape :=
  match object h v with
  | some (.dict entries) => .dict entries.keys
  | some (.list elements) => .list elements.length
  | none => .leaf v

/-- What is seen from a value under the names below it. -/
def view (h : Heap) (v : Py) (path : List NamePart) : Option Shape := (follow (child h) v path).map (shape h)

/-- The type of a name: the tag of a scalar, the element type and the shape of an array, or all of them where the array
    is one of an enumeration. -/
inductive LeafType where
  | scalar (tag : String)
  | array (dtype : Dtype) (shape : List Nat)
  | enums (tag : String) (dtype : Dtype) (shape : List Nat)

/-- The type that a value has. -/
def typeOf : Py → Option LeafType
  | .pair (.str tag) (.array a) => some (.enums tag a.dtype a.shape)
  | .pair (.str tag) _ => some (.scalar tag)
  | .array a => some (.array a.dtype a.shape)
  | _ => none

/-- The type that a name has. -/
def typeAt (h : Heap) (v : Py) (path : List NamePart) : Option LeafType := (follow (child h) v path).bind typeOf

/-- `enumdef`: for an enumeration its names and their values. -/
abbrev Enums := Dict String (Dict String Int)

/-- `value in enumdef[type].values()`. -/
def Num.isIn (x : Num) (values : Dict String Int) : Bool := values.any fun entry => x.eqInt entry.2

/-- A number of a type: one of its enumeration, or in the range of its tag. -/
def ofType (enums : Enums) (tag : String) (x : Num) : Bool :=
  match enums.lookup tag with
  | some values => x.isIn values
  | none => tag != "CHARSTR" && (typerange.lookup tag).any x.inRange

/-- A value that is well typed, where a dictionary or a list is no value of its own. -/
def WellTyped (enums : Enums) : Py → Prop
  | .pair (.str tag) (.num x) => ofType enums tag x = true
  | .pair (.str tag) (.str _) => tag = "CHARSTR"
  | .pair (.str tag) (.array a) => ∃ values, enums.lookup tag = some values ∧ ∀ x ∈ a.data, x.isIn values = true
  | .array _ => True
  | .ref _ => True
  | _ => False

end Lcls2.ConfigDb.Cdict
