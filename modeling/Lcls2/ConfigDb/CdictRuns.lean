import Lcls2.ConfigDb.CdictFrame
import Lcls2.Lib.Run

/-!
# Runs of calls of set

Calls of `set` without an override on some cdicts, whose values may be the other cdicts. A call is careful where it does
not do what the routine does not check (`Replaces`, `Creates`):

* a number that is not of its type, and an array with an enumeration that does not have its elements;
* a value of another kind for a value, or a string for what has typed names beyond it;
* a cdict for a dictionary that has typed names which the cdict does not have with their types, a cdict whose values are
  not well typed for the enumerations of the target, and the cdict itself below its own names;
* a list of cdicts for a new name, or without `append` for a list;
* elements of a list before the last one that are not there, a number or an array for an element that is not there
  (`isName` of the last part), and an index after the index of such an element (`Chain`);
* a change of a dictionary or a list that another name shares.

What careful calls keep is `Effect` for one call and `set_keeps` for a run.
-/

namespace Lcls2.ConfigDb.Cdict
open Lib

/-- A call of `set` on one of `n` cdicts. -/
structure Call (n : Nat) where
  target : Fin n
  name : String
  value : Value n
  type : String
  append : Bool

section calls
variable {n : Nat} (np : Numpy n) (enumdef : Fin n → Enums)

/-- A call, without an override. -/
def Call.run (h : Heap) (c : Call n) : Outcome Unit :=
  set np (enumdef c.target) false c.append h c.target c.name c.value c.type

/-- What some cdicts are at first: empty dictionaries. -/
def start (n : Nat) : Heap := List.replicate n (.dict [])

/-- The values of a cdict are well typed for another one's enumerations. -/
def Fits (enums : Enums) (h : Heap) (j : Fin n) : Prop :=
  ∀ x u, follow (child h) (.ref j) x = some u → WellTyped enums u

/-- A part that is a key. -/
def isName : NamePart → Bool
  | .name _ => true
  | .index _ => false

/-- What a value must be to take the place of the value `d` at the last part of a name. -/
def Replaces (enums : Enums) (h : Heap) (i : Fin n) (q : List NamePart) (part : NamePart) (a : Nat) (d : Py)
    (append : Bool) : Checked n → Prop
  | .number _ x =>
    ∀ tag y, first np h d = .ok tag → asType np tag x = .ok y →
      Alone h i q a ∧ ∃ name old, d = .pair (.str name) old ∧ (∀ b, old ≠ .array b) ∧ ofType enums name y = true
  | .str _ => Alone h i q a ∧ ∀ x t, typeAt h (.ref i) (q ++ part :: x) = some t → x = [] ∧ t = .scalar "CHARSTR"
  | .array type b =>
    ∀ old, d = .array old → old.dtype = b.dtype → old.shape = b.shape → Alone h i q a ∧ enums.lookup type = none
  | .cdict j =>
    (isObject h Obj.isDict d = true → Alone h i q a ∧ (j = i → q = []) ∧ Fits enums h j ∧
      ∀ x t, typeAt h (.ref i) (q ++ part :: x) = some t → typeAt h (.ref j) x = some t) ∧
    ∀ b, d = .ref b → isObject h Obj.isList d = true → append = true →
      Alone h i (q ++ [part]) b ∧ j ≠ i ∧ Fits enums h j
  | .cdicts _ => isObject h Obj.isList d = true → append = true

/-- What a value must be to be new at the end of a name that is missing from an object on. -/
def Creates (enums : Enums) (h : Heap) (i : Fin n) (q : List NamePart) (part : NamePart) (rest : List NamePart)
    (a : Nat) (o : Obj) (c : Checked n) : Prop :=
  Alone h i q a ∧ o.Takes part ∧ Chain part rest ∧
    match c with
    | .number type x => isName (lastPart part rest) = true ∧ ofType enums type x = true
    | .str _ => True
    | .array type b =>
      isName (lastPart part rest) = true ∧
        ∀ values, enums.lookup type = some values → ∀ x ∈ b.data, x.isIn values = true
    | .cdict j => j ≠ i ∧ Fits enums h j
    | .cdicts _ => False

/-- A call that does nothing that the routine does not check. -/
structure Careful (h : Heap) (c : Call n) : Prop where
  found : ∀ checked q part a d, splitname c.name = .ok (some (q ++ [part])) →
    check np (enumdef c.target) c.type c.value = .ok checked → follow (child h) (.ref c.target) q = some (.ref a) →
    child h (.ref a) part = some d → Replaces np (enumdef c.target) h c.target q part a d c.append checked
  missing : ∀ checked q part rest a o, splitname c.name = .ok (some (q ++ part :: rest)) →
    check np (enumdef c.target) c.type c.value = .ok checked → follow (child h) (.ref c.target) q = some (.ref a) →
    h[a]? = some o → o.suits part = true → o.at_ part = none →
    Creates (enumdef c.target) h c.target q part rest a o checked

/-- A list shows its elements as before, and a copy of a cdict as one more. -/
structure Appended (h H : Heap) (i j : Fin n) (path : List NamePart) (len : Nat) (v : Py) : Prop where
  length : shape H v = .list (len + 1)
  last : ∀ x, view H v (.index len :: x) = view h (.ref j) x
  others : ∀ k < len, ∀ x, view H v (.index k :: x) = view h (.ref i) (path ++ .index k :: x)

/-- What `get` returns after a call. -/
def Returned (h H : Heap) (i : Fin n) (path : List NamePart) (append : Bool) : Checked n → Prop
  | .number _ x =>
    ∃ tag y, typeAt H (.ref i) path = some (.scalar tag) ∧ (y = x ∨ asType np (.str tag) x = .ok y) ∧
      get H (.ref i) path = .value (.num y)
  | .str s => get H (.ref i) path = .value (.str s)
  | .array _ b => get H (.ref i) path = .value (.array b)
  | .cdict j =>
    ∃ v, get H (.ref i) path = .value v ∧
      (∀ len, view h (.ref i) path = some (.list len) → Appended h H i j path len v) ∧
      ((∀ len, view h (.ref i) path ≠ some (.list len)) →
        (∀ x, view H v x = view h (.ref j) x) ∨ (append = true ∧ Appended h H i j path 0 v))
  | .cdicts _ => False

/-- What a call does: an exception changes nothing, and after a success `get` returns the value, while no name of any
    cdict has changed, but for those on the way to the name and those beyond it. -/
structure Effect (h : Heap) (c : Call n) : Prop where
  raises : ∀ e, (c.run np enumdef h).2 = .error e → (c.run np enumdef h).1 = h
  returns : (c.run np enumdef h).2 = .ok () → ∃ path checked, splitname c.name = .ok (some path) ∧
    check np (enumdef c.target) c.type c.value = .ok checked ∧
    Returned np h (c.run np enumdef h).1 c.target path c.append checked ∧
    ∀ (j : Fin n) m, (j = c.target → ¬ m <+: path ∧ ¬ path <+: m) →
      view (c.run np enumdef h).1 (.ref j) m = view h (.ref j) m

/-- What a call keeps: the cdicts are sound, and typed names have their types. -/
structure Keeps (h H : Heap) : Prop where
  sound : Sound enumdef H
  types : ∀ (j : Fin n) path t, typeAt h (.ref j) path = some t → typeAt H (.ref j) path = some t

end calls

section steps
variable {n : Nat} {np : Numpy n} {enumdef : Fin n → Enums} {h : Heap} {i : Fin n} {append : Bool} {q : List NamePart}
  {part : NamePart} {a : Nat} {d : Py} {checked : Checked n}

/-- What `set` comes to for a name, but for the value that `get` returns then. -/
structure Sets (enumdef : Fin n → Enums) (h : Heap) (i : Fin n) (path : List NamePart) (r : Outcome Unit) : Prop where
  raises : ∀ e, r.2 = .error e → r.1 = h
  keeps : Keeps enumdef h r.1
  frame : ∀ (j : Fin n) m, (j = i → ¬ m <+: path ∧ ¬ path <+: m) → view r.1 (.ref j) m = view h (.ref j) m

/-- An exception before anything is changed. -/
lemma Sets.raised (sound : Sound enumdef h) (path : List NamePart) (e : SetError) :
    Sets enumdef h i path (h, .error e) where
  raises := fun _ _ => rfl
  keeps := ⟨sound, fun _ _ _ same => same⟩
  frame := fun _ _ _ => rfl

variable {H : Heap} {rest : List NamePart} {v : Py}

/-- A branch that is made for a name. -/
lemma Sets.branched (sound : Sound enumdef h) (alone : Alone h i q a) (grafted : Grafted h H a part rest v)
    (here : follow (child h) (.ref i) q = some (.ref a)) (closed : Closed H)
    (typed : ∀ y u, follow (child H) v y = some u → WellTyped (enumdef i) u)
    (types : child h (.ref a) part = none ∨
      (rest = [] ∧ ∀ x t, typeAt h (.ref i) (q ++ part :: x) = some t → typeAt H v x = some t)) :
    Sets enumdef h i (q ++ part :: rest) (H, .ok ()) where
  raises := nofun
  keeps := by
    refine ⟨sound.graft alone grafted here closed typed, ?_⟩
    intro j path t before
    refine typeAt_graft sound alone grafted ?_ before
    intro x t before
    cases types with
    | inl missing =>
      rw [typeAt, follow_from here, follow, missing] at before
      cases before
    | inr kept =>
      obtain ⟨rfl, kept⟩ := kept
      have value := follow_value sound alone grafted here x
      rw [List.append_assoc, List.singleton_append] at value
      rw [typeAt, value]
      exact kept x t before
  frame := fun j m apart => view_graft sound alone grafted here (types.symm.imp_left And.left) apart

/-- Nothing is beyond a value that is no object. -/
lemma follow_leaf (leaf : ∀ b, v ≠ .ref b) {y : List NamePart} {u : Py} (there : follow (child H) v y = some u) :
    y = [] ∧ u = v := by
  cases y with
  | nil =>
    cases there
    exact ⟨rfl, rfl⟩
  | cons l y =>
    obtain ⟨w, edge, -⟩ := Option.bind_eq_some_iff.mp there
    cases v with
    | ref b => exact absurd rfl (leaf b)
    | _ => cases edge

/-- A value that is no object is put at the end of a name. -/
lemma Sets.leaf (sound : Sound enumdef h) {o : Obj} (alone : Alone h i q a) (stored : h[a]? = some o)
    (takes : o.Takes part) (chain : Chain part rest) (here : follow (child h) (.ref i) q = some (.ref a))
    (leaf : ∀ b, v ≠ .ref b) (typed : WellTyped (enumdef i) v)
    (types : child h (.ref a) part = none ∨
      (rest = [] ∧ ∀ x t, typeAt h (.ref i) (q ++ part :: x) = some t → x = [] ∧ typeOf v = some t))
    {extra : Heap} (empty : ∀ o ∈ extra, ∀ p, o.at_ p = none) :
    Sets enumdef h i (q ++ part :: rest) (branch h a part rest v ++ extra, .ok ()) ∧
      follow (child (branch h a part rest v ++ extra)) (.ref i) (q ++ part :: rest) = some v := by
  have grafted := @grafted_branch h a o part rest v stored takes chain extra
  have closed : Closed (branch h a part rest v ++ extra) := by
    refine closed_branch sound.closed stored takes chain ?_ ?_
    · intro c same
      exact absurd same (leaf c)
    · intro o mem p c edge
      cases (empty o mem p).symm.trans edge
  constructor
  · refine Sets.branched sound alone grafted here closed ?_ ?_
    · intro y u there
      obtain ⟨-, rfl⟩ := follow_leaf leaf there
      exact typed
    · refine types.imp_right ?_
      intro kept
      refine ⟨kept.1, ?_⟩
      intro x t before
      obtain ⟨rfl, type⟩ := kept.2 x t before
      exact type
  · have value := follow_value sound alone grafted here []
    rw [List.append_nil] at value
    exact value

/-- A write to an edge that is there makes a branch. -/
lemma write_found (edge : child h (.ref a) part = some d) :
    ∃ o, h[a]? = some o ∧ o.Takes part ∧ write h a part v = branch h a part [] v := by
  obtain ⟨o, stored, there⟩ := Option.bind_eq_some_iff.mp edge
  exact ⟨o, stored, Obj.takes_of_at there, modify_congr stored (Obj.put_eq_extend there)⟩

/-- A value that is no object takes the place of another one. -/
lemma Sets.replaced (sound : Sound enumdef h) (alone : Alone h i q a)
    (here : follow (child h) (.ref i) q = some (.ref a)) (edge : child h (.ref a) part = some d)
    (leaf : ∀ b, v ≠ .ref b)
    (typed : WellTyped (enumdef i) v)
    (types : ∀ x t, typeAt h (.ref i) (q ++ part :: x) = some t → x = [] ∧ typeOf v = some t) :
    Sets enumdef h i (q ++ [part]) (write h a part v, .ok ()) ∧
      follow (child (write h a part v)) (.ref i) (q ++ [part]) = some v := by
  obtain ⟨o, stored, takes, written⟩ := @write_found h part a d v edge
  have chain : Chain part [] := trivial
  have empty : ∀ o ∈ ([] : Heap), ∀ p, o.at_ p = none := nofun
  have sets := Sets.leaf sound alone stored takes chain here leaf typed (.inr ⟨rfl, types⟩) empty
  rw [List.append_nil] at sets
  rw [written]
  exact sets

/-- What is typed beyond a value that is no object is the value. -/
lemma typeAt_leaf (here : follow (child h) (.ref i) q = some (.ref a)) (edge : child h (.ref a) part = some d)
    (leaf : ∀ b, d ≠ .ref b) {x : List NamePart} {t : LeafType} (before : typeAt h (.ref i) (q ++ part :: x) = some t) :
    x = [] ∧ typeOf d = some t := by
  obtain ⟨u, there, type⟩ := Option.bind_eq_some_iff.mp before
  rw [follow_from here, follow, edge, Option.bind_some] at there
  obtain ⟨rfl, rfl⟩ := follow_leaf leaf there
  exact ⟨rfl, type⟩

/-- A number that takes the place of a value. -/
lemma store_number (sound : Sound enumdef h) (here : follow (child h) (.ref i) q = some (.ref a))
    (edge : child h (.ref a) part = some d) (some_ : d.isNone = false) {type : String} {x : Num}
    (careful : Replaces np (enumdef i) h i q part a d append (.number type x)) :
    Sets enumdef h i (q ++ [part]) (store np (enumdef i) false append h a part d (.number type x)) ∧
      ((store np (enumdef i) false append h a part d (.number type x)).2 = .ok () →
        Returned np h (store np (enumdef i) false append h a part d (.number type x)).1 i (q ++ [part]) append
          (.number type x)) := by
  rw [store, some_]
  simp only [Bool.not_false, Bool.and_self, if_true]
  cases result : renumber np h d x with
  | error e => exact ⟨.raised sound _ e, nofun⟩
  | ok v =>
    obtain ⟨tag, tagged, result⟩ := bind_ok result
    obtain ⟨y, number, result⟩ := bind_ok result
    cases result
    obtain ⟨alone, name, old, rfl, scalar, fits⟩ := careful tag y tagged number
    cases tagged
    have type_ : typeOf (.pair (.str name) old) = some (.scalar name) := by
      cases old with
      | array b => exact absurd rfl (scalar b)
      | _ => rfl
    have sets := Sets.replaced (v := .pair (.str name) (.num y)) sound alone here edge nofun fits (by
      intro x t before
      obtain ⟨rfl, type⟩ := typeAt_leaf here edge nofun before
      exact ⟨rfl, type_.symm.trans type⟩)
    refine ⟨sets.1, fun _ => ⟨name, y, ?_, .inr number, get_of_follow sets.2⟩⟩
    rw [typeAt, sets.2]
    rfl

/-- A string that takes the place of a value. -/
lemma store_str (sound : Sound enumdef h) (here : follow (child h) (.ref i) q = some (.ref a))
    (edge : child h (.ref a) part = some d) {s : String}
    (careful : Replaces np (enumdef i) h i q part a d append (.str s)) :
    Sets enumdef h i (q ++ [part]) (store np (enumdef i) false append h a part d (.str s)) ∧
      ((store np (enumdef i) false append h a part d (.str s)).2 = .ok () →
        Returned np h (store np (enumdef i) false append h a part d (.str s)).1 i (q ++ [part]) append (.str s)) := by
  obtain ⟨alone, types⟩ := careful
  have sets := Sets.replaced (v := .pair (.str "CHARSTR") (.str s)) sound alone here edge nofun rfl (by
    intro x t before
    obtain ⟨rfl, rfl⟩ := types x t before
    exact ⟨rfl, rfl⟩)
  exact ⟨sets.1, fun _ => get_of_follow sets.2⟩

/-- An array that takes the place of a value. -/
lemma store_array (sound : Sound enumdef h) (here : follow (child h) (.ref i) q = some (.ref a))
    (edge : child h (.ref a) part = some d) (some_ : d.isNone = false) {type : String} {b : NdArray}
    (careful : Replaces np (enumdef i) h i q part a d append (.array type b)) :
    Sets enumdef h i (q ++ [part]) (store np (enumdef i) false append h a part d (.array type b)) ∧
      ((store np (enumdef i) false append h a part d (.array type b)).2 = .ok () →
        Returned np h (store np (enumdef i) false append h a part d (.array type b)).1 i (q ++ [part]) append
          (.array type b)) := by
  rw [store, some_]
  simp only [Bool.not_false, Bool.and_self, if_true]
  cases result : checkArray d b with
  | error e => exact ⟨.raised sound _ e, nofun⟩
  | ok _ =>
    cases d with
    | array old =>
      rw [checkArray] at result
      split at result
      · rename_i same
        obtain ⟨alone, plain⟩ := careful old rfl same.1 same.2
        have sets := Sets.replaced (v := .array b) sound alone here edge nofun trivial (by
          intro x t before
          obtain ⟨rfl, type⟩ := typeAt_leaf here edge nofun before
          refine ⟨rfl, ?_⟩
          rw [← type, typeOf, typeOf, same.1, same.2])
        simp only [plain, Option.isSome_none, Bool.false_eq_true, if_false]
        exact ⟨sets.1, fun _ => get_of_follow sets.2⟩
      · cases result
    | _ => cases result

/-- A longer name has fewer names that are neither on the way to it nor beyond it. -/
lemma Sets.shorten {path : List NamePart} {l : NamePart} {r : Outcome Unit}
    (sets : Sets enumdef h i (path ++ [l]) r) : Sets enumdef h i path r where
  raises := sets.raises
  keeps := sets.keeps
  frame := by
    intro j m apart
    refine sets.frame j m ?_
    intro same
    obtain ⟨not_before, not_beyond⟩ := apart same
    constructor
    · intro before
      cases List.prefix_concat_iff.mp before with
      | inl whole => exact not_beyond (whole ▸ List.prefix_append _ _)
      | inr before => exact not_before before
    · intro beyond
      exact not_beyond ((List.prefix_append _ _).trans beyond)

/-- The dictionary of a cdict. -/
lemma Sound.dictAt (sound : Sound enumdef h) (j : Fin n) : h[(j : Nat)]? = some (Obj.dict (dictAt h j)) := by
  obtain ⟨entries, there⟩ := sound.roots j
  rw [Cdict.dictAt, there]

/-- What is beyond another cdict is not the object that is reached by one name. -/
lemma Alone.apart (alone : Alone h i q a) {j : Fin n} (other : j ≠ i) (l : NamePart) (p : List NamePart) :
    follow (child h) (.ref j) (l :: p) ≠ some (.ref a) := fun reached => other (alone j (l :: p) reached).1

/-- A copy of the dictionary of a cdict is put at the end of a name. -/
lemma Sets.copied (sound : Sound enumdef h) {o : Obj} (alone : Alone h i q a) (stored : h[a]? = some o)
    (takes : o.Takes part) (chain : Chain part rest) (here : follow (child h) (.ref i) q = some (.ref a)) {j : Fin n}
    (apart : ∀ l p, follow (child h) (.ref j) (l :: p) ≠ some (.ref a)) (fits : Fits (enumdef i) h j)
    (types : child h (.ref a) part = none ∨
      (rest = [] ∧ ∀ x t, typeAt h (.ref i) (q ++ part :: x) = some t → typeAt h (.ref j) x = some t))
    {empties : Heap} (empty : ∀ o ∈ empties, ∀ p, o.at_ p = none) {c : Nat}
    (address : c = h.length + rest.length + empties.length) {H : Heap}
    (made : H = branch h a part rest (.ref c) ++ (empties ++ [.dict (dictAt h j)])) :
    Sets enumdef h i (q ++ part :: rest) (H, .ok ()) ∧
      follow (child H) (.ref i) (q ++ part :: rest) = some (.ref c) ∧
      ∀ x, view H (.ref c) x = view h (.ref j) x := by
  subst made
  have grafted := @grafted_branch h a o part rest (.ref c) stored takes chain (empties ++ [.dict (dictAt h j)])
  have length : (empties ++ [Obj.dict (dictAt h j)]).length = empties.length + 1 := List.length_append
  -- The copy refers to what its source refers to, which was there before.
  have closed : Closed (branch h a part rest (.ref c) ++ (empties ++ [.dict (dictAt h j)])) := by
    refine closed_branch sound.closed stored takes chain ?_ ?_
    · intro b same
      cases same
      rw [length]
      omega
    · intro o mem p b edge
      cases List.mem_append.mp mem with
      | inl mem => cases (empty o mem p).symm.trans edge
      | inr mem =>
        cases List.mem_singleton.mp mem
        have less := sound.closed _ (List.mem_iff_getElem?.mpr ⟨j, sound.dictAt j⟩) p b edge
        omega
  have copy : (branch h a part rest (.ref c) ++ (empties ++ [.dict (dictAt h j)]))[c]? =
      some (Obj.dict (dictAt h j)) := by
    have before : (branch h a part rest (.ref c) ++ empties).length = c := by
      rw [List.length_append, branch_length, address]
    rw [← List.append_assoc, List.getElem?_append_right before.le, before, Nat.sub_self]
    rfl
  have seen := view_copy sound grafted copy (sound.dictAt j) apart
  refine ⟨Sets.branched sound alone grafted here closed ?_ ?_, ?_, fun x => (seen x).1⟩
  · intro y u there
    cases y with
    | nil =>
      cases there
      trivial
    | cons l y =>
      rw [(seen (l :: y)).2 l y rfl] at there
      exact fits (l :: y) u there
  · refine types.imp_right ?_
    intro kept
    refine ⟨kept.1, ?_⟩
    intro x t before
    have type := kept.2 x t before
    cases x with
    | nil => cases type
    | cons l x =>
      rw [typeAt, (seen (l :: x)).2 l x rfl]
      exact type
  · have value := follow_value sound alone grafted here []
    rw [List.append_nil] at value
    exact value

/-- A value of a kind is an object. -/
lemma isObject_iff {ofKind : Obj → Bool} :
    isObject h ofKind d = true ↔ ∃ b o, d = .ref b ∧ h[b]? = some o ∧ ofKind o = true := by
  rw [isObject, Option.any_eq_true]
  constructor
  · intro found
    obtain ⟨o, stored, kind⟩ := found
    cases d with
    | ref b => exact ⟨b, o, rfl, stored, kind⟩
    | _ => cases stored
  · intro found
    obtain ⟨b, o, rfl, stored, kind⟩ := found
    exact ⟨o, stored, kind⟩

/-- What is seen of a list. -/
lemma view_list {path : List NamePart} {b : Nat} {elements : List Py}
    (there : follow (child h) (.ref i) path = some (.ref b)) (stored : h[b]? = some (Obj.list elements)) :
    view h (.ref i) path = some (.list elements.length) := by
  have found : object h (.ref b) = some (Obj.list elements) := stored
  rw [view, there, Option.map_some, shape, found]

/-- What is seen of a dictionary. -/
lemma view_dict {path : List NamePart} {b : Nat} {entries : Dict String Py}
    (there : follow (child h) (.ref i) path = some (.ref b)) (stored : h[b]? = some (Obj.dict entries)) :
    view h (.ref i) path = some (.dict entries.keys) := by
  have found : object h (.ref b) = some (Obj.dict entries) := stored
  rw [view, there, Option.map_some, shape, found]

/-- A copy of a cdict takes the place of a dictionary. -/
lemma store_dict (sound : Sound enumdef h) (here : follow (child h) (.ref i) q = some (.ref a)) {b : Nat}
    {entries : Dict String Py} (edge : child h (.ref a) part = some (.ref b)) (stored : h[b]? = some (Obj.dict entries))
    {j : Fin n} (careful : Replaces np (enumdef i) h i q part a (.ref b) append (.cdict j)) :
    Sets enumdef h i (q ++ [part]) (store np (enumdef i) false append h a part (.ref b) (.cdict j)) ∧
      ((store np (enumdef i) false append h a part (.ref b) (.cdict j)).2 = .ok () →
        Returned np h (store np (enumdef i) false append h a part (.ref b) (.cdict j)).1 i (q ++ [part]) append
          (.cdict j)) := by
  have isDict : isObject h Obj.isDict (.ref b) = true := isObject_iff.mpr ⟨b, _, rfl, stored, rfl⟩
  have isList : isObject h Obj.isList (.ref b) = false := by
    have found : object h (.ref b) = some (Obj.dict entries) := stored
    rw [isObject, found]
    rfl
  obtain ⟨alone, self, fits, types⟩ := careful.1 isDict
  obtain ⟨o, stored', takes, written⟩ := @write_found h part a _ (.ref h.length) edge
  have inside := (List.getElem?_eq_some_iff.mp stored').1
  have made : store np (enumdef i) false append h a part (.ref b) (.cdict j) =
      (branch h a part [] (.ref h.length) ++ [.dict (dictAt h j)], .ok ()) := by
    have apart : write (h ++ [.dict (dictAt h j)]) a part (.ref h.length) =
        write h a part (.ref h.length) ++ [.dict (dictAt h j)] := modify_append_left _ inside
    rw [store, isDict, isList, ← written, ← apart]
    rfl
  have chain : Chain part [] := trivial
  have empty : ∀ o ∈ ([] : Heap), ∀ p, o.at_ p = none := nofun
  have apart : ∀ l p, follow (child h) (.ref j) (l :: p) ≠ some (.ref a) := by
    intro l p reached
    obtain ⟨same, here⟩ := alone j (l :: p) reached
    rw [self same] at here
    cases here
  have sets := Sets.copied sound alone stored' takes chain here apart fits (.inr ⟨rfl, types⟩) empty rfl rfl
  rw [made]
  refine ⟨sets.1, fun _ => ⟨.ref h.length, get_of_follow sets.2.1, ?_, fun _ => .inl sets.2.2⟩⟩
  intro len seen
  have was := view_dict ((follow_concat here).trans edge) stored
  cases was.symm.trans seen

/-- The elements of a list that gets one more. -/
lemma appended (sound : Sound enumdef h) {path : List NamePart} {b : Nat} {elements : List Py}
    (alone : Alone h i path b) (here : follow (child h) (.ref i) path = some (.ref b))
    (stored : h[b]? = some (Obj.list elements)) {c : Nat} {j : Fin n} {extra : Heap}
    (copy : ∀ x, view (branch h b (.index elements.length) [] (.ref c) ++ extra) (.ref c) x = view h (.ref j) x) :
    Appended h (branch h b (.index elements.length) [] (.ref c) ++ extra) i j path elements.length (.ref b) := by
  have takes : (Obj.list elements).Takes (.index elements.length) := le_rfl
  have grafted := @grafted_branch h b _ (.index elements.length) [] (.ref c) stored takes trivial extra
  have inside := (List.getElem?_eq_some_iff.mp stored).1
  constructor
  · have changed : object (branch h b (.index elements.length) [] (.ref c) ++ extra) (.ref b) =
        some ((Obj.list elements).extend (.index elements.length) (.ref c)) := by
      rw [object, branch, List.getElem?_append_left (by rw [List.length_modify]; exact inside),
        List.getElem?_modify_eq, stored]
      rfl
    rw [shape, changed, Obj.extend, List.take_length, List.drop_of_length_le (Nat.le_succ _)]
    simp only [List.length_append, List.length_singleton]
  · intro x
    have edge : child (branch h b (.index elements.length) [] (.ref c) ++ extra) (.ref b) (.index elements.length) =
        some (.ref c) := by
      rw [branch, child_extend stored takes, if_pos rfl]
    rw [view, follow, edge]
    exact copy x
  · intro k less x
    have there := frame_here sound alone grafted here
    have seen := frame_view (j := i) (m := path ++ .index k :: x) sound alone grafted (by
      intro along
      obtain ⟨y, same⟩ := along.2
      rw [List.append_assoc, List.singleton_append] at same
      cases List.append_cancel_left same
      exact less.false) (by
      intro same
      have lengths := congrArg List.length same.2
      rw [List.length_append, List.length_cons] at lengths
      omega)
    rw [← seen, view, view, follow_from there]

/-- A copy of a cdict is appended to a list. -/
lemma store_append (sound : Sound enumdef h) (here : follow (child h) (.ref i) q = some (.ref a)) {b : Nat}
    {elements : List Py} (edge : child h (.ref a) part = some (.ref b)) (stored : h[b]? = some (Obj.list elements))
    {j : Fin n} (careful : Replaces np (enumdef i) h i q part a (.ref b) append (.cdict j)) :
    Sets enumdef h i (q ++ [part]) (store np (enumdef i) false append h a part (.ref b) (.cdict j)) ∧
      ((store np (enumdef i) false append h a part (.ref b) (.cdict j)).2 = .ok () →
        Returned np h (store np (enumdef i) false append h a part (.ref b) (.cdict j)).1 i (q ++ [part]) append
          (.cdict j)) := by
  have isList : isObject h Obj.isList (.ref b) = true := isObject_iff.mpr ⟨b, _, rfl, stored, rfl⟩
  have isDict : isObject h Obj.isDict (.ref b) = false := by
    have found : object h (.ref b) = some (Obj.list elements) := stored
    rw [isObject, found]
    rfl
  cases append with
  | false =>
    have refused : store np (enumdef i) false false h a part (.ref b) (.cdict j) = (h, .error .valueError) := by
      rw [store, isDict, isList]
      rfl
    rw [refused]
    exact ⟨.raised sound _ _, by intro success; cases success⟩
  | true =>
    obtain ⟨alone, other, fits⟩ := careful.2 b rfl isList rfl
    have there := (follow_concat here).trans edge
    have takes : (Obj.list elements).Takes (.index elements.length) := le_rfl
    have made : store np (enumdef i) false true h a part (.ref b) (.cdict j) =
        (branch h b (.index elements.length) [] (.ref h.length) ++ [.dict (dictAt h j)], .ok ()) := by
      rw [store, isDict, isList]
      simp only [appendNew_eq stored]
      rfl
    have missing : child h (.ref b) (.index elements.length) = none := by
      rw [child_ref stored, Obj.at_, List.getElem?_eq_none le_rfl]
    have chain : Chain (.index elements.length) [] := trivial
    have empty : ∀ o ∈ ([] : Heap), ∀ p, o.at_ p = none := by
      intro o mem
      cases mem
    have sets := Sets.copied sound alone stored takes chain there (alone.apart other) fits (.inl missing) empty rfl rfl
    have grafted := @grafted_branch h b _ (.index elements.length) [] (.ref h.length) stored takes trivial
      [.dict (dictAt h j)]
    rw [made]
    refine ⟨sets.1.shorten, fun _ => ⟨.ref b, get_of_follow (frame_here sound alone grafted there), ?_, ?_⟩⟩
    · intro len seen
      cases (view_list there stored).symm.trans seen
      exact appended sound alone there stored sets.2.2
    · intro not_list
      exact absurd (view_list there stored) (not_list _)

/-- A checked value takes the place of another one. -/
lemma store_found (sound : Sound enumdef h) (here : follow (child h) (.ref i) q = some (.ref a))
    (edge : child h (.ref a) part = some d) (some_ : d.isNone = false)
    (careful : Replaces np (enumdef i) h i q part a d append checked) (loops : checked ≠ .cdicts []) :
    Sets enumdef h i (q ++ [part]) (store np (enumdef i) false append h a part d checked) ∧
      ((store np (enumdef i) false append h a part d checked).2 = .ok () →
        Returned np h (store np (enumdef i) false append h a part d checked).1 i (q ++ [part]) append checked) := by
  cases checked with
  | number type x => exact store_number sound here edge some_ careful
  | str s => exact store_str sound here edge careful
  | array type b => exact store_array sound here edge some_ careful
  | cdict j =>
    cases found : object h d with
    | none =>
      have refused : store np (enumdef i) false append h a part d (.cdict j) = (h, .error .valueError) := by
        rw [store, isObject, isObject, found, some_]
        rfl
      rw [refused]
      exact ⟨.raised sound _ _, nofun⟩
    | some o =>
      cases d with
      | ref b =>
        cases o with
        | dict entries => exact store_dict sound here edge found careful
        | list elements => exact store_append sound here edge found careful
      | _ => cases found
  | cdicts values =>
    cases values with
    | nil => exact absurd rfl loops
    | cons v values =>
      cases isList : isObject h Obj.isList d with
      | false =>
        have refused : store np (enumdef i) false append h a part d (.cdicts (v :: values)) =
            (h, .error .valueError) := by
          rw [store, isList, some_]
          rfl
        rw [refused]
        exact ⟨.raised sound _ _, nofun⟩
      | true =>
        cases careful isList
        have refused : store np (enumdef i) false true h a part d (.cdicts (v :: values)) =
            (h, .error .typeError) := by
          rw [store, isList]
          simp only [Bool.not_true, Bool.and_false, Bool.false_eq_true, if_false, if_true]
        rw [refused]
        exact ⟨.raised sound _ _, nofun⟩

/-- Nothing is seen of a missing name. -/
lemma view_missing (here : follow (child h) (.ref i) q = some (.ref a)) (missing : child h (.ref a) part = none) :
    view h (.ref i) (q ++ part :: rest) = none := by
  rw [view, follow_from here, follow, missing]
  rfl

/-- The end of the loop makes what a simple value needs, or an element. -/
lemma fresh_name {simple : Bool} {address : Nat} {l : NamePart} (name : isName l = true)
    (plain : (!simple && append) = false) : fresh simple append address l = (.none_, []) := by
  cases l with
  | name s => exact if_neg (by rw [plain]; exact Bool.false_ne_true)
  | index k => cases name

/-- The objects at the end of the loop are empty. -/
lemma fresh_empty {simple : Bool} {address : Nat} {l : NamePart} :
    ∀ o ∈ (fresh simple append address l).2, ∀ p, o.at_ p = none := by
  have holder (part : NamePart) : ∀ o ∈ [Obj.holder part], ∀ p, o.at_ p = none := by
    intro o mem p
    cases List.mem_singleton.mp mem
    exact Obj.at_holder part p
  cases l with
  | index k => exact holder (.name "")
  | name s =>
    rw [fresh]
    split
    · exact holder (.index 0)
    · intro o mem
      cases mem

/-- A value that is no object is new at the end of a name. -/
lemma store_new {o : Obj} (sound : Sound enumdef h) (alone : Alone h i q a) (stored : h[a]? = some o)
    (takes : o.Takes part) (chain : Chain part rest) (missing : child h (.ref a) part = none)
    (here : follow (child h) (.ref i) q = some (.ref a)) (leaf : ∀ b, v ≠ .ref b) (typed : WellTyped (enumdef i) v)
    (u : Py) {extra : Heap} (empty : ∀ o ∈ extra, ∀ p, o.at_ p = none) :
    Sets enumdef h i (q ++ part :: rest)
        (write (branch h a part rest u ++ extra) (lastHolder h a rest) (lastPart part rest) v, .ok ()) ∧
      follow (child (write (branch h a part rest u ++ extra) (lastHolder h a rest) (lastPart part rest) v)) (.ref i)
        (q ++ part :: rest) = some v := by
  rw [write_branch stored takes chain]
  exact Sets.leaf sound alone stored takes chain here leaf typed (.inl missing) empty

/-- A chain goes on with the first element of a list. -/
lemma Chain.concat (chain : Chain part rest) (name : isName (lastPart part rest) = true) :
    Chain part (rest ++ [.index 0]) := by
  induction rest generalizing part with
  | nil =>
    cases part with
    | name s => exact ⟨rfl, trivial⟩
    | index k => cases name
  | cons next rest ih =>
    have more := ih chain.next.2 name
    cases part with
    | name s =>
      cases next with
      | name t => exact more
      | index k => exact ⟨chain.1, more⟩
    | index k =>
      cases next with
      | name t => exact more
      | index j => cases chain

/-- A branch to a list of one element is one branch. -/
lemma branch_concat (v : Py) (extra : Heap) :
    branch h a part rest (.ref (h.length + rest.length)) ++ (.list [v] :: extra) =
      branch h a part (rest ++ [.index 0]) v ++ extra := by
  have more (base : Nat) (next : NamePart) (rest : List NamePart) :
      spine base next rest (.ref (base + rest.length + 1)) ++ [.list [v]] = spine base next (rest ++ [.index 0]) v := by
    induction rest generalizing base next with
    | nil => rfl
    | cons next' rest ih =>
      have address : base + (next' :: rest).length + 1 = base + 1 + rest.length + 1 := by
        rw [List.length_cons]
        omega
      rw [List.cons_append, spine, spine, List.cons_append, address, ih]
  cases rest with
  | nil =>
    rw [List.nil_append, branch, branch, List.append_assoc]
    rfl
  | cons next rest =>
    rw [List.cons_append, branch, branch, ← more, List.append_assoc, List.append_assoc, List.append_assoc]
    rfl

/-- The dictionary of another cdict is none of the changed objects. -/
lemma dictAt_branch (sound : Sound enumdef h) (alone : Alone h i q a) {j : Fin n} (other : j ≠ i) (extra : Heap) :
    dictAt (branch h a part rest v ++ extra) j = dictAt h j := by
  have apart : (j : Nat) ≠ a := by
    intro same
    refine other (alone j [] ?_).1
    rw [follow, same]
  rw [dictAt, dictAt, branch_kept (sound.root_lt j) apart]

/-- A cdict at the end of a name that was missing, where it takes the place of the current value. -/
lemma store_splice {o : Obj} (sound : Sound enumdef h) (alone : Alone h i q a) (stored : h[a]? = some o)
    (takes : o.Takes part) (chain : Chain part rest) (missing : child h (.ref a) part = none)
    (here : follow (child h) (.ref i) q = some (.ref a)) {j : Fin n} (other : j ≠ i) (fits : Fits (enumdef i) h j)
    {u : Py} {empties : Heap} (empty : ∀ o ∈ empties, ∀ p, o.at_ p = none) {W : Heap} {r : Outcome Unit}
    (walked : W = branch h a part rest u ++ empties)
    (made : r = (write (W ++ [.dict (dictAt W j)]) (lastHolder h a rest) (lastPart part rest) (.ref W.length),
      .ok ())) :
    Sets enumdef h i (q ++ part :: rest) r ∧
      (r.2 = .ok () → Returned np h r.1 i (q ++ part :: rest) append (.cdict j)) := by
  subst walked made
  have length : (branch h a part rest u ++ empties).length = h.length + rest.length + empties.length := by
    rw [List.length_append, branch_length]
  have sets := Sets.copied (H := write (branch h a part rest u ++ empties ++ [.dict (dictAt h j)]) (lastHolder h a rest)
    (lastPart part rest) (.ref (branch h a part rest u ++ empties).length)) sound alone stored takes chain here
    (alone.apart other) fits (.inl missing) empty length (by
      rw [List.append_assoc, write_branch stored takes chain])
  rw [dictAt_branch sound alone other]
  refine ⟨sets.1, fun _ => ⟨_, get_of_follow sets.2.1, ?_, fun _ => .inl sets.2.2⟩⟩
  intro len seen
  cases (view_missing here missing).symm.trans seen

/-- A cdict at the end of a name that was missing, where it is the first element of a new list. -/
lemma store_first {o : Obj} (sound : Sound enumdef h) (alone : Alone h i q a) (stored : h[a]? = some o)
    (takes : o.Takes part) (chain : Chain part rest) (missing : child h (.ref a) part = none)
    (here : follow (child h) (.ref i) q = some (.ref a)) {j : Fin n} (other : j ≠ i) (fits : Fits (enumdef i) h j)
    (name : isName (lastPart part rest) = true) {W : Heap} {r : Outcome Unit}
    (walked : W = branch h a part rest (.ref (h.length + rest.length)) ++ [.list []])
    (made : r = (appendNew W (h.length + rest.length) (.dict (dictAt W j)), .ok ())) :
    Sets enumdef h i (q ++ part :: rest) r ∧
      (r.2 = .ok () → Returned np h r.1 i (q ++ part :: rest) true (.cdict j)) := by
  subst walked made
  have length : (branch h a part rest (.ref (h.length + rest.length))).length = h.length + rest.length :=
    branch_length ..
  have last : (branch h a part rest (.ref (h.length + rest.length)) ++ [Obj.list []])[h.length + rest.length]? =
      some (Obj.list []) := by
    rw [List.getElem?_append_right length.le, length, Nat.sub_self]
    rfl
  have address : (branch h a part rest (.ref (h.length + rest.length)) ++ [Obj.list []]).length =
      h.length + rest.length + 1 := by
    rw [List.length_append, length, List.length_singleton]
  have changed := modify_append_right (f := fun o => o.extend (.index 0) (.ref (h.length + rest.length + 1))) (i := 0)
    (branch h a part rest (.ref (h.length + rest.length))) [Obj.list []]
  rw [length] at changed
  -- The new list has one element, the copy, which is at the end of the heap.
  have heap : appendNew (branch h a part rest (.ref (h.length + rest.length)) ++ [Obj.list []]) (h.length + rest.length)
      (.dict (dictAt h j)) =
      branch h a part rest (.ref (h.length + rest.length)) ++
        (.list [.ref (h.length + rest.length + 1)] :: [.dict (dictAt h j)]) := by
    rw [appendNew_eq last, address]
    refine (congrArg (· ++ [Obj.dict (dictAt h j)]) changed).trans ?_
    rw [List.append_assoc]
    rfl
  have count : h.length + rest.length + 1 = h.length + (rest ++ [NamePart.index 0]).length + ([] : Heap).length := by
    rw [List.length_append, List.length_singleton, List.length_nil]
    omega
  have empty : ∀ o ∈ ([] : Heap), ∀ p, o.at_ p = none := nofun
  -- The copy is at the name of the list followed by its index.
  have sets := Sets.copied sound alone stored takes (chain.concat name) here (alone.apart other) fits (.inl missing)
    empty count (branch_concat _ _)
  have grafted := @grafted_branch h a o part rest (.ref (h.length + rest.length)) stored takes chain
    (.list [.ref (h.length + rest.length + 1)] :: [.dict (dictAt h j)])
  have value := follow_value sound alone grafted here []
  rw [List.append_nil] at value
  have list : (branch h a part rest (.ref (h.length + rest.length)) ++
      (.list [.ref (h.length + rest.length + 1)] :: [.dict (dictAt h j)]))[h.length + rest.length]? =
      some (Obj.list [.ref (h.length + rest.length + 1)]) := by
    rw [List.getElem?_append_right length.le, length, Nat.sub_self]
    rfl
  have path : q ++ part :: (rest ++ [.index 0]) = q ++ part :: rest ++ [.index 0] := by
    rw [List.append_assoc, List.cons_append]
  rw [path] at sets
  rw [dictAt_branch sound alone other, heap]
  refine ⟨sets.1.shorten, fun _ =>
    ⟨.ref (h.length + rest.length), get_of_follow value, ?_, fun _ => .inr ⟨rfl, ?_⟩⟩⟩
  · intro len seen
    cases (view_missing here missing).symm.trans seen
  · constructor
    · have found : object (branch h a part rest (.ref (h.length + rest.length)) ++
          (.list [.ref (h.length + rest.length + 1)] :: [.dict (dictAt h j)])) (.ref (h.length + rest.length)) =
          some (Obj.list [.ref (h.length + rest.length + 1)]) := list
      rw [shape, found]
      rfl
    · intro x
      rw [view, follow, child_ref list]
      exact sets.2.2 x
    · intro k less
      cases less

/-- A cdict at the end of a name that was missing. -/
lemma store_copy {o : Obj} (sound : Sound enumdef h) (alone : Alone h i q a) (stored : h[a]? = some o)
    (takes : o.Takes part) (chain : Chain part rest) (missing : child h (.ref a) part = none)
    (here : follow (child h) (.ref i) q = some (.ref a)) {j : Fin n} (other : j ≠ i) (fits : Fits (enumdef i) h j)
    {current : Py × Heap} (made : current = fresh false append (h.length + rest.length) (lastPart part rest)) :
    Sets enumdef h i (q ++ part :: rest)
        (store np (enumdef i) false append (branch h a part rest current.1 ++ current.2) (lastHolder h a rest)
          (lastPart part rest) current.1 (.cdict j)) ∧
      ((store np (enumdef i) false append (branch h a part rest current.1 ++ current.2) (lastHolder h a rest)
          (lastPart part rest) current.1 (.cdict j)).2 = .ok () →
        Returned np h (store np (enumdef i) false append (branch h a part rest current.1 ++ current.2)
          (lastHolder h a rest) (lastPart part rest) current.1 (.cdict j)).1 i (q ++ part :: rest) append
          (.cdict j)) := by
  have last (o : Obj) : (branch h a part rest (.ref (h.length + rest.length)) ++ [o])[h.length + rest.length]? =
      some o := by
    rw [List.getElem?_append_right (branch_length ..).le, branch_length, Nat.sub_self]
    rfl
  have empty : ∀ o ∈ current.2, ∀ p, o.at_ p = none := made ▸ fresh_empty
  cases kind : lastPart part rest with
  | index k =>
    rw [kind] at made
    cases made
    have isDict : isObject (branch h a part rest (.ref (h.length + rest.length)) ++ [.dict []]) Obj.isDict
        (.ref (h.length + rest.length)) = true := isObject_iff.mpr ⟨_, _, rfl, last (.dict []), rfl⟩
    have isList : isObject (branch h a part rest (.ref (h.length + rest.length)) ++ [.dict []]) Obj.isList
        (.ref (h.length + rest.length)) = false := by
      rw [isObject, object, last]
      rfl
    refine store_splice (u := .ref (h.length + rest.length)) sound alone stored takes chain missing here other fits
      empty rfl ?_
    rw [fresh, store, isDict, isList, kind]
    rfl
  | name s =>
    rw [kind] at made
    have name : isName (lastPart part rest) = true := kind ▸ rfl
    cases append with
    | false =>
      cases made
      refine store_splice (u := .none_) sound alone stored takes chain missing here other fits empty rfl ?_
      rw [kind]
      rfl
    | true =>
      cases made
      have isList : isObject (branch h a part rest (.ref (h.length + rest.length)) ++ [.list []]) Obj.isList
          (.ref (h.length + rest.length)) = true := isObject_iff.mpr ⟨_, _, rfl, last (.list []), rfl⟩
      refine store_first sound alone stored takes chain missing here other fits name rfl ?_
      have current : fresh false true (h.length + rest.length) (.name s) =
        (.ref (h.length + rest.length), [.list []]) := rfl
      rw [current, store, isList]
      simp only [Bool.and_true, Bool.or_true, Bool.not_true, Bool.and_false, Bool.false_eq_true, if_false]

/-- A checked value that is new at the end of a name. -/
lemma store_missing {o : Obj} (sound : Sound enumdef h) (here : follow (child h) (.ref i) q = some (.ref a))
    (stored : h[a]? = some o) (missing : o.at_ part = none)
    (careful : Creates (enumdef i) h i q part rest a o checked) {current : Py × Heap}
    (made : current = fresh checked.simple append (h.length + rest.length) (lastPart part rest)) :
    Sets enumdef h i (q ++ part :: rest)
        (store np (enumdef i) false append (branch h a part rest current.1 ++ current.2) (lastHolder h a rest)
          (lastPart part rest) current.1 checked) ∧
      ((store np (enumdef i) false append (branch h a part rest current.1 ++ current.2) (lastHolder h a rest)
          (lastPart part rest) current.1 checked).2 = .ok () →
        Returned np h (store np (enumdef i) false append (branch h a part rest current.1 ++ current.2)
          (lastHolder h a rest) (lastPart part rest) current.1 checked).1 i (q ++ part :: rest) append checked) := by
  obtain ⟨alone, takes, chain, careful⟩ := careful
  have missing := (child_ref stored part).trans missing
  have empty : ∀ o ∈ current.2, ∀ p, o.at_ p = none := made ▸ fresh_empty
  cases checked with
  | number type x =>
    have current_ : current = (.none_, []) := made.trans (fresh_name careful.1 rfl)
    subst current_
    have typed : WellTyped (enumdef i) (.pair (.str type) (.num x)) := careful.2
    have sets := store_new (v := .pair (.str type) (.num x)) sound alone stored takes chain missing here nofun typed
      .none_ empty
    refine ⟨sets.1, fun _ => ⟨type, x, ?_, .inl rfl, get_of_follow sets.2⟩⟩
    have type_ : typeOf (.pair (.str type) (.num x)) = some (.scalar type) := rfl
    exact (congrArg (Option.bind · typeOf) sets.2).trans type_
  | str s =>
    have sets := store_new (v := .pair (.str "CHARSTR") (.str s)) sound alone stored takes chain missing here nofun rfl
      current.1 empty
    exact ⟨sets.1, fun _ => get_of_follow sets.2⟩
  | array type b =>
    have current_ : current = (.none_, []) := made.trans (fresh_name careful.1 rfl)
    subst current_
    cases enum : (enumdef i).lookup type with
    | none =>
      have sets := store_new (v := .array b) sound alone stored takes chain missing here nofun trivial .none_ empty
      rw [store, enum]
      exact ⟨sets.1, fun _ => get_of_follow sets.2⟩
    | some values =>
      have sets := store_new (v := .pair (.str type) (.array b)) sound alone stored takes chain missing here nofun
        ⟨values, enum, careful.2 values enum⟩ .none_ empty
      rw [store, enum]
      exact ⟨sets.1, fun _ => get_of_follow sets.2⟩
  | cdict j => exact store_copy sound alone stored takes chain missing here careful.1 careful.2 made
  | cdicts values => cases careful

/-- A checked list of cdicts has one, since an empty list is one of numbers. -/
lemma check_loops {enums : Enums} {type : String} {value : Value n} : check np enums type value ≠ .ok (.cdicts []) := by
  intro result
  cases value with
  | list values =>
    cases values with
    | nil =>
      rw [check, checknumlist, if_pos rfl] at result
      split at result
      · cases result
      · rename_i t _
        cases array : np.asarray [] t with
        | error e =>
          rw [array] at result
          cases result
        | ok b =>
          rw [array] at result
          cases result
    | cons v values =>
      rw [check] at result
      split at result
      · split at result
        · cases result
        · rename_i t _
          cases array : np.asarray (v :: values) t with
          | error e =>
            rw [array] at result
            cases result
          | ok b =>
            rw [array] at result
            cases result
      · split at result
        · cases result
        · cases result
  | number x =>
    rw [check] at result
    split at result
    · cases result
    · split at result
      · cases result
      · cases result
  | str s =>
    rw [check] at result
    split at result
    · cases result
    · cases result
  | array b => cases result
  | cdict j => cases result
  | other => cases result

/-- `set` of a checked value for a name that is split. -/
lemma setParts_spec (sound : Sound enumdef h) {path : List NamePart} (not_nil : path ≠ [])
    (found : ∀ q part a d, path = q ++ [part] → follow (child h) (.ref i) q = some (.ref a) →
      child h (.ref a) part = some d → Replaces np (enumdef i) h i q part a d append checked)
    (missing : ∀ q part rest a o, path = q ++ part :: rest → follow (child h) (.ref i) q = some (.ref a) →
      h[a]? = some o → o.suits part = true → o.at_ part = none → Creates (enumdef i) h i q part rest a o checked)
    (loops : checked ≠ .cdicts []) :
    Sets enumdef h i path (setParts np (enumdef i) false append h i path checked) ∧
      ((setParts np (enumdef i) false append h i path checked).2 = .ok () →
        Returned np h (setParts np (enumdef i) false append h i path checked).1 i path append checked) := by
  have present {p : List NamePart} {u : Py} (there : follow (child h) (.ref i) p = some u) : u.isNone = false := by
    have typed := sound.typed i p u there
    cases u with
    | none_ => cases typed
    | _ => rfl
  -- The name is there, or a first part of it is where the rest is missing.
  cases whole : follow (child h) (.ref i) path with
  | some d =>
    obtain ⟨q, part, rfl⟩ := (List.eq_nil_or_concat path).resolve_left not_nil
    rw [List.concat_eq_append] at whole
    obtain ⟨u, there, edge⟩ := follow_concat_some whole
    obtain ⟨slot, walked⟩ := walk_follow checked.simple append none [part] there
    obtain ⟨a, rfl, last⟩ := walk_step checked.simple append slot [] edge
    have made : setParts np (enumdef i) false append h i (q ++ [part]) checked =
        store np (enumdef i) false append h a part d checked := by
      rw [setParts, walked, last, walk]
    rw [List.concat_eq_append, made]
    exact store_found sound there edge (present whole) (found q part a d List.concat_eq_append there edge) loops
  | none =>
    obtain ⟨q, part, rest, u, rfl, there, off⟩ := follow_none whole
    obtain ⟨slot, walked⟩ := walk_follow checked.simple append none (part :: rest) there
    -- What is there takes the next part, or `set` raises before it has written anything.
    cases kind : (object h u).any fun o => o.suits part with
    | false =>
      have unfit : ∀ o ∈ object h u, o.suits part = false := by
        intro o stored
        have unfit := kind
        rw [stored] at unfit
        exact unfit
      have blocked := walk_blocked checked.simple append slot rest (present there) unfit
      have made : setParts np (enumdef i) false append h i (q ++ part :: rest) checked =
          (h, .error .valueError) := by
        rw [setParts, walked, blocked]
      rw [made]
      exact ⟨.raised sound _ _, by intro success; cases success⟩
    | true =>
      obtain ⟨o, stored, suits⟩ := (Option.any_eq_true ..).mp kind
      cases u with
      | ref a =>
        have off := (child_ref stored part).symm.trans off
        have careful := missing q part rest a o rfl there stored suits off
        have gap := walk_gap checked.simple append slot stored careful.2.1 off
          careful.2.2.1
        have made : setParts np (enumdef i) false append h i (q ++ part :: rest) checked =
            store np (enumdef i) false append
              (branch h a part rest (fresh checked.simple append (h.length + rest.length) (lastPart part rest)).1 ++
                (fresh checked.simple append (h.length + rest.length) (lastPart part rest)).2) (lastHolder h a rest)
              (lastPart part rest) (fresh checked.simple append (h.length + rest.length) (lastPart part rest)).1
              checked := by
          rw [setParts, walked, gap]
        rw [made]
        exact store_missing sound there stored off careful rfl
      | _ => cases stored

/-- What a careful call does and keeps. -/
lemma Careful.spec {c : Call n} (sound : Sound enumdef h) (careful : Careful np enumdef h c) :
    Effect np enumdef h c ∧ Keeps enumdef h (c.run np enumdef h).1 := by
  -- an exception before the loop leaves the heap alone
  have refused {e : SetError} (result : c.run np enumdef h = (h, .error e)) :
      Effect np enumdef h c ∧ Keeps enumdef h (c.run np enumdef h).1 := by
    refine ⟨⟨?_, ?_⟩, ?_⟩
    · intro _ _
      rw [result]
    · rw [result]
      exact nofun
    · rw [result]
      exact ⟨sound, fun _ _ _ same => same⟩
  by_cases unnamed : c.name = ""
  · exact refused (by rw [Call.run, set, if_pos unnamed])
  · cases split : splitname c.name with
    | error e => exact refused (by rw [Call.run, set, if_neg unnamed, split])
    | ok path =>
      cases path with
      | none => exact refused (by rw [Call.run, set, if_neg unnamed, split])
      | some path =>
        cases kind : check np (enumdef c.target) c.type c.value with
        | error e =>
          refine refused (e := e) ?_
          rw [Call.run, set, if_neg unnamed, split]
          simp only [kind]
        | ok checked =>
          have made : c.run np enumdef h = setParts np (enumdef c.target) false c.append h c.target path checked := by
            rw [Call.run, set, if_neg unnamed, split]
            simp only [kind]
          cases path with
          | nil => exact refused made
          | cons part rest =>
            have spec := setParts_spec sound (List.cons_ne_nil part rest) (by
              intro q part' a d same
              rw [same] at split
              exact careful.found checked q part' a d split kind) (by
              intro q part' rest' a o same
              rw [same] at split
              exact careful.missing checked q part' rest' a o split kind) (by
              intro same
              exact check_loops (same ▸ kind))
            rw [made]
            refine ⟨⟨?_, ?_⟩, spec.1.keeps⟩
            · rw [made]
              exact spec.1.raises
            · rw [made]
              intro success
              exact ⟨_, checked, split, kind, spec.2 success, spec.1.frame⟩

end steps

section runs
variable {n : Nat} {np : Numpy n} {enumdef : Fin n → Enums}

variable (np enumdef) in
/-- What a call leaves, whether it raises an exception or not. -/
def after (h : Heap) (c : Call n) : Except SetError Heap := .ok (c.run np enumdef h).1

/-- Nothing is below an empty dictionary. -/
lemma follow_start {i : Fin n} {path : List NamePart} {u : Py}
    (there : follow (child (start n)) (.ref i) path = some u) : path = [] ∧ u = .ref i := by
  cases path with
  | nil =>
    cases there
    exact ⟨rfl, rfl⟩
  | cons part path =>
    have stored : (start n)[(i : Nat)]? = some (Obj.dict []) := by
      rw [start, List.getElem?_replicate, if_pos i.isLt]
    have none_ : child (start n) (.ref i) part = none := (child_ref stored part).trans (Obj.at_holder (.name "") part)
    rw [follow, none_] at there
    cases there

/-- Empty cdicts are sound. -/
lemma start_sound : Sound enumdef (start n) where
  roots := by
    intro i
    refine ⟨[], ?_⟩
    rw [start, List.getElem?_replicate, if_pos i.isLt]
  closed := by
    intro o mem p c edge
    cases List.eq_of_mem_replicate mem
    cases (Obj.at_holder (.name "") p).symm.trans edge
  typed := by
    intro i path u there
    obtain ⟨-, rfl⟩ := follow_start there
    trivial

/-- Careful calls keep cdicts sound. -/
lemma sound_of_run {calls : List (Call n)} {h : Heap}
    (run : Run (after np enumdef) (fun _ h c => Careful np enumdef h c) (start n) calls h) : Sound enumdef h := by
  refine run.invariant (P := fun _ h => Sound enumdef h) start_sound ?_
  intro _ h c t sound careful step
  cases step
  exact (careful.spec sound).2.sound

/-- Only the empty name leads to a dictionary whose values are no objects. -/
lemma follow_flat {entries : Dict String Py} (flat : ∀ l u, (Obj.dict entries).at_ l = some u → ∀ b, u ≠ .ref b)
    {p : List NamePart} {a : Nat} (there : follow (child [.dict entries]) (.ref 0) p = some (.ref a)) :
    p = [] ∧ a = 0 := by
  cases p with
  | nil =>
    cases there
    exact ⟨rfl, rfl⟩
  | cons l p =>
    obtain ⟨u, edge, rest⟩ := Option.bind_eq_some_iff.mp there
    obtain ⟨-, same⟩ := follow_leaf (flat l u edge) rest
    exact absurd same.symm (flat l u edge a)

/-- A numpy for calls without arrays. -/
def scalars : Numpy 1 := ⟨fun _ _ => .error .valueError, fun _ => .error .indexError, fun _ => .ok false⟩

/-- A call with a number for the name `a`. -/
def numberCall (x : Num) (type : String) : Call 1 := ⟨0, "a", .number x, type, false⟩

/-- A number that is set for a new name. -/
lemma careful_new : Careful scalars (fun _ => []) (start 1) (numberCall (.int 1) "UINT8") where
  found := by
    intro checked q part a d split kind there edge
    obtain ⟨rfl, same⟩ := follow_start there
    cases same
    cases part with
    | name s => cases edge
    | index k => cases edge
  missing := by
    intro checked q part rest a o split kind there stored suits missing
    obtain ⟨rfl, same⟩ := follow_start there
    cases same
    cases stored
    cases split
    cases kind
    refine ⟨?_, trivial, trivial, rfl, rfl⟩
    intro j p there
    exact ⟨Subsingleton.elim _ _, (follow_start there).1⟩

/-- A number that is set for a name that holds one. -/
lemma careful_again : Careful scalars (fun _ => []) [.dict [("a", .pair (.str "UINT8") (.num (.int 1)))]]
    (numberCall (.int 2) "DOUBLE") := by
  have flat : ∀ l u, (Obj.dict [("a", .pair (.str "UINT8") (.num (.int 1)))]).at_ l = some u → ∀ b, u ≠ .ref b := by
    intro l u edge b
    cases l with
    | index k => cases edge
    | name s =>
      have item := Dict.mem_of_lookup edge
      cases List.mem_singleton.mp item
      exact nofun
  constructor
  · intro checked q part a d split kind there edge
    obtain ⟨rfl, rfl⟩ := follow_flat flat there
    cases split
    cases edge
    cases kind
    intro tag y tagged number
    cases tagged
    cases number
    refine ⟨?_, "UINT8", .num (.int 1), rfl, nofun, rfl⟩
    intro j p there
    have root : j = 0 := Subsingleton.elim _ _
    subst root
    exact ⟨rfl, (follow_flat flat there).1⟩
  · intro checked q part rest a o split kind there stored suits missing
    obtain ⟨rfl, rfl⟩ := follow_flat flat there
    cases split
    cases stored
    cases missing

end runs

end Lcls2.ConfigDb.Cdict
