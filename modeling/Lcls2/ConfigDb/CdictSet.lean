import Lcls2.ConfigDb.CdictTree

/-!
# Setting a name of a cdict

Model of `cdict.set` (`psdaq/configdb/typed_json.py`) for some cdicts, whose dictionaries are the first objects of the
heap. An exception leaves what was done before it, so every part of the routine returns the heap beside its result.
-/

namespace Lcls2.ConfigDb.Cdict
open Lib

/-- A value that is given to `set`, where a cdict is one of `n`. -/
inductive Value (n : Nat) where
  | number (x : Num)
  | str (s : String)
  | array (a : NdArray)
  | cdict (i : Fin n)
  | list (values : List (Value n))
  | other

/-- What `set` uses of numpy. -/
structure Numpy (n : Nat) where
  /-- `np.array(value, dtype=…)`. -/
  asarray : List (Value n) → Dtype → Except SetError NdArray
  /-- The first element of an array. -/
  first : NdArray → Except SetError Py
  /-- Whether an array compares as equal to `"DOUBLE"` or `"FLOAT"`. -/
  floating : NdArray → Except SetError Bool

mutual
/-- A number or a list of numbers. -/
def Value.numeric {n : Nat} : Value n → Bool
  | .number _ => true
  | .list values => checknumlist values
  | _ => false

/-- `checknumlist`. -/
def checknumlist {n : Nat} : List (Value n) → Bool
  | [] => true
  | v :: values => v.numeric && checknumlist values
end

/-- `isinstance(v, cdict)`. -/
def Value.isCdict {n : Nat} : Value n → Bool
  | .cdict _ => true
  | _ => false

/-- A value whose kind is checked. -/
inductive Checked (n : Nat) where
  | number (type : String) (x : Num)
  | str (s : String)
  | array (type : String) (a : NdArray)
  | cdict (i : Fin n)
  | cdicts (values : List (Value n))

/-- `issimple`. -/
def Checked.simple {n : Nat} : Checked n → Bool
  | .cdict _ | .cdicts _ => false
  | _ => true

section routine
variable {n : Nat} (np : Numpy n) (enums : Enums)

/-- The check of the type of a value. -/
def check (type : String) : Value n → Except SetError (Checked n)
  | .number x =>
    if (typedict.lookup type).isNone && (enums.lookup type).isNone then .error .typeError
    else if (enums.lookup type).all fun values => x.isIn values then .ok (.number type x)
    else .error .assertionError
  | .str s => if type = "CHARSTR" then .ok (.str s) else .error .typeError
  | .array a => .ok (.array type a)
  | .cdict i => .ok (.cdict i)
  | .list values =>
    if checknumlist values then
      match if (enums.lookup type).isSome then some .int32 else typedict.lookup type with
      | none => .error .keyError
      | some t => .array type <$> np.asarray values t
    else if values.all Value.isCdict then .ok (.cdicts values)
    else .error .typeError
  | .other => .error .typeError

end routine

/-- `p[part] = v` for the container at an address. -/
def write (h : Heap) (p : Nat) (part : NamePart) (v : Py) : Heap := h.modify p fun o => o.put part v

/-- The enclosing container of a value and its key there, of which the dictionary of the cdict has none. -/
abbrev Slot := Option (Nat × NamePart)

/-- A heap, and a result or an exception. -/
abbrev Outcome (α : Type) := Heap × Except SetError α

/-- A new container that takes the place of a value. -/
def replace (h : Heap) (slot : Slot) (o : Obj) : Outcome Nat :=
  match slot with
  | none => (h, .error .unboundLocalError)
  | some (p, part) => (write (h ++ [o]) p part (.ref h.length), .ok h.length)

/-- The container that a part of the name is looked for in, which is a new one where there is none. -/
def container (override : Bool) (ofKind : Obj → Bool) (new : Obj) (h : Heap) (slot : Slot) (d : Py) : Outcome Nat :=
  match d with
  | .none_ => replace h slot new
  | .ref a =>
    if h[a]?.any ofKind then (h, .ok a)
    else if override then replace h slot new
    else (h, .error .valueError)
  | _ => if override then replace h slot new else (h, .error .valueError)

/-- The list at an address. -/
def listAt (h : Heap) (a : Nat) : List Py :=
  match h[a]? with
  | some (.list elements) => elements
  | _ => []

/-- `d.append(…)` of a new object. -/
def appendNew (h : Heap) (a : Nat) (o : Obj) : Heap := (h ++ [o]).set a (.list (listAt h a ++ [.ref h.length]))

/-- Empty dictionaries that are appended to a list. -/
def pad (h : Heap) (a : Nat) : Nat → Heap
  | 0 => h
  | count + 1 => pad (appendNew h a (.dict [])) a count

/-- What a missing key of a dictionary is set to: the container for the next part of the name, and at the end of the
    name nothing, or a list to append to. -/
def create (simple append : Bool) (h : Heap) (a : Nat) (s : String) (rest : List NamePart) : Heap × Py :=
  match rest with
  | [] =>
    if !simple && append then (write (h ++ [.list []]) a (.name s) (.ref h.length), .ref h.length)
    else (write h a (.name s) .none_, .none_)
  | .index _ :: _ => (write (h ++ [.list []]) a (.name s) (.ref h.length), .ref h.length)
  | .name _ :: _ => (write (h ++ [.dict []]) a (.name s) (.ref h.length), .ref h.length)

/-- The loop over the parts of the name, down to the current value and its place. -/
def walk (override simple append : Bool) (h : Heap) (slot : Slot) (d : Py) : List NamePart → Outcome (Slot × Py)
  | [] => (h, .ok (slot, d))
  | .index k :: rest =>
    match container override Obj.isList (.list []) h slot d with
    | (h, .error e) => (h, .error e)
    | (h, .ok a) =>
      let h := pad h a (k + 1 - (listAt h a).length)
      walk override simple append h (some (a, .index k)) ((child h (.ref a) (.index k)).getD .none_) rest
  | .name s :: rest =>
    match container override Obj.isDict (.dict []) h slot d with
    | (h, .error e) => (h, .error e)
    | (h, .ok a) =>
      match child h (.ref a) (.name s) with
      | some d => walk override simple append h (some (a, .name s)) d rest
      | none =>
        let (h, d) := create simple append h a s rest
        walk override simple append h (some (a, .name s)) d rest

section routine
variable {n : Nat} (np : Numpy n) (enums : Enums)

/-- `d[0]`. -/
def first (h : Heap) : Py → Except SetError Py
  | .pair tag _ => .ok tag
  | .array a => np.first a
  | .str s =>
    match s.toList with
    | [] => .error .indexError
    | c :: _ => .ok (.str (String.singleton c))
  | .ref a =>
    match h[a]? with
    | some (.list (v :: _)) => .ok v
    | some (.list []) => .error .indexError
    | _ => .error .keyError
  | .none_ | .num _ => .error .typeError

/-- Whether a type is `"DOUBLE"` or `"FLOAT"`. -/
def floating : Py → Except SetError Bool
  | .str tag => .ok (tag == "DOUBLE" || tag == "FLOAT")
  | .array a => np.floating a
  | _ => .ok false

/-- A number of a type, which is made an integer where that is no floating type. -/
def asType (tag : Py) (x : Num) : Except SetError Num := do
  if ← floating np tag then return x
  let m ← x.toInt
  return .int m

/-- A number that takes the place of a value keeps its type. -/
def renumber (h : Heap) (d : Py) (x : Num) : Except SetError Py := do
  let tag ← first np h d
  let y ← asType np tag x
  return .pair tag (.num y)

/-- The check of an array against the value that it takes the place of. The text for what is no array calls `type`,
    which is the parameter of `set` here. -/
def checkArray (d : Py) (a : NdArray) : Except SetError Unit :=
  match d with
  | .array b => if b.dtype = a.dtype ∧ b.shape = a.shape then .ok () else .error .valueError
  | _ => .error .typeError

/-- `d is None`. -/
def Py.isNone : Py → Bool
  | .none_ => true
  | _ => false

/-- Whether a value is an object of a kind. -/
def isObject (h : Heap) (ofKind : Obj → Bool) (d : Py) : Bool := (object h d).any ofKind

/-- The entries of the dictionary at an address. -/
def dictAt (h : Heap) (a : Nat) : Dict String Py :=
  match h[a]? with
  | some (.dict entries) => entries
  | _ => []

/-- The end of `set`: the value is put in the place `p[part]` of the current value `d`. -/
def store (override append_ : Bool) (h : Heap) (p : Nat) (part : NamePart) (d : Py) : Checked n → Outcome Unit
  | .number type x =>
    if !override && !d.isNone then
      match renumber np h d x with
      | .ok v => (write h p part v, .ok ())
      | .error e => (h, .error e)
    else (write h p part (.pair (.str type) (.num x)), .ok ())
  | .str s => (write h p part (.pair (.str "CHARSTR") (.str s)), .ok ())
  | .array type a =>
    match if !override && !d.isNone then checkArray d a else .ok () with
    | .ok () => (write h p part (if (enums.lookup type).isSome then .pair (.str type) (.array a) else .array a), .ok ())
    | .error e => (h, .error e)
  | .cdict i =>
    if !override && !d.isNone && !(isObject h Obj.isDict d || (isObject h Obj.isList d && append_)) then
      (h, .error .valueError)
    else
      -- `update` copies one level: what is below it is shared from here on
      let new := Obj.dict (dictAt h i)
      match isObject h Obj.isList d, d with
      | true, .ref a => (appendNew h a new, .ok ())
      | _, _ => (write (h ++ [new]) p part (.ref h.length), .ok ())
  | .cdicts values =>
    if !override && !d.isNone && !isObject h Obj.isList d then (h, .error .valueError)
    else
      let h := if append_ then h else write (h ++ [.list []]) p part (.ref h.length)
      -- the loop calls `update` with a cdict, which is no dictionary and cannot be iterated over
      match values with
      | [] => (h, .ok ())
      | _ :: _ => (h, .error .typeError)

/-- `set` for a name that is split and a value that is checked. -/
def setParts (override append : Bool) (h : Heap) (root : Nat) (path : List NamePart) (c : Checked n) : Outcome Unit :=
  match walk override c.simple append h none (.ref root) path with
  | (h, .error e) => (h, .error e)
  | (h, .ok (none, _)) => (h, .error .unboundLocalError)
  | (h, .ok (some (p, part), d)) => store np enums override append h p part d c

/-- `set`. -/
def set (override append : Bool) (h : Heap) (root : Nat) (name : String) (value : Value n) (type : String) :
    Outcome Unit :=
  if name = "" then (h, .error .valueError)
  else
    match splitname name with
    | .error e => (h, .error e)
    | .ok none => (h, .error .valueError)
    | .ok (some path) =>
      match check np enums type value with
      | .error e => (h, .error e)
      | .ok c => setParts np enums override append h root path c

end routine

end Lcls2.ConfigDb.Cdict
