import Lcls2.ConfigDb.CdictSet

/-!
# What setting a name does to the heap

Without an override, `set` changes one object that was there before: the last one on the way that the name leads. It
gets one new or changed edge, at the end of which are new objects for the rest of the name (`branch`). The loop over the
parts of the name (`walk_found`, `walk_gap`) makes this branch with a preliminary value that the end of `set` replaces.
-/

namespace Lcls2.ConfigDb.Cdict
open Lib

namespace Obj

/-- A part of a name is a key of an object, or its next index. -/
def Takes : Obj → NamePart → Prop
  | .dict _, .name _ => True
  | .list elements, .index k => k ≤ elements.length
  | _, _ => False

/-- An object is a container for a part of a name. -/
def suits : Obj → NamePart → Bool
  | .dict _, .name _ => true
  | .list _, .index _ => true
  | _, _ => false

/-- An object with a new or a changed edge. -/
def extend : Obj → NamePart → Py → Obj
  | .dict entries, .name s, v => .dict (entries.setItem s v)
  | .list elements, .index k, v => .list (elements.take k ++ v :: elements.drop (k + 1))
  | o, _, _ => o

/-- An empty container for a part of a name. -/
def holder : NamePart → Obj
  | .name _ => .dict []
  | .index _ => .list []

variable {o : Obj} {part : NamePart} {u v : Py}

/-- The edges of an object that is extended. -/
lemma at_extend (takes : o.Takes part) (p : NamePart) :
    (o.extend part v).at_ p = if p = part then some v else o.at_ p := by
  cases o with
  | dict entries =>
    cases part with
    | index k => cases takes
    | name s =>
      cases p with
      | index j => rfl
      | name t =>
        rw [extend, at_, Dict.lookup_setItem]
        simp only [NamePart.name.injEq]
        rfl
  | list elements =>
    cases part with
    | name s => cases takes
    | index k =>
      have takes : k ≤ elements.length := takes
      have length : (elements.take k).length = k := List.length_take_of_le takes
      cases p with
      | name t => rfl
      | index j =>
        rw [extend, at_]
        simp only [NamePart.index.injEq]
        cases lt_trichotomy j k with
        | inl less =>
          rw [if_neg less.ne, List.getElem?_append_left (by rw [length]; exact less), List.getElem?_take_of_lt less]
          rfl
        | inr more =>
          cases more with
          | inl same =>
            rw [if_pos same, same, List.getElem?_append_right (by rw [length]), length, Nat.sub_self]
            rfl
          | inr more =>
            obtain ⟨i, rfl⟩ := Nat.exists_eq_add_of_lt more
            rw [if_neg more.ne', List.getElem?_append_right (by rw [length]; exact more.le), length]
            have index : k + i + 1 - k = i + 1 := by omega
            rw [index, List.getElem?_cons_succ, List.getElem?_drop]
            have index : k + 1 + i = k + i + 1 := by omega
            rw [index]
            rfl

/-- A value that takes the place of another one. -/
lemma put_extend (takes : o.Takes part) : (o.extend part u).put part v = o.extend part v := by
  cases o with
  | dict entries =>
    cases part with
    | index k => cases takes
    | name s =>
      rw [extend, put, Dict.setItem_setItem]
      rfl
  | list elements =>
    cases part with
    | name s => cases takes
    | index k =>
      have length : (elements.take k).length = k := List.length_take_of_le takes
      have replaced : (elements.take k ++ u :: elements.drop (k + 1)).set k v =
          elements.take k ++ v :: elements.drop (k + 1) := by
        rw [List.set_append_right _ _ (by rw [length]), length, Nat.sub_self]
        rfl
      rw [extend, put, replaced]
      rfl

/-- Setting a key that is there. -/
lemma put_eq_extend {w : Py} (there : o.at_ part = some w) : o.put part v = o.extend part v := by
  cases o with
  | dict entries =>
    cases part with
    | index k => cases there
    | name s => rfl
  | list elements =>
    cases part with
    | name s => cases there
    | index k =>
      obtain ⟨less, -⟩ := List.getElem?_eq_some_iff.mp there
      rw [put, extend, List.set_eq_take_append_cons_drop, if_pos less]

/-- A key that is there. -/
lemma takes_of_at {w : Py} (there : o.at_ part = some w) : o.Takes part := by
  cases o with
  | dict entries =>
    cases part with
    | index k => cases there
    | name s => trivial
  | list elements =>
    cases part with
    | name s => cases there
    | index k => exact (List.getElem?_eq_some_iff.mp there).1.le

/-- An empty container. -/
lemma at_holder (part p : NamePart) : (holder part).at_ p = none := by
  cases part with
  | name s =>
    cases p with
    | name t => rfl
    | index j => rfl
  | index k =>
    cases p with
    | name t => rfl
    | index j => rfl

end Obj

section modify
variable {α : Type*} {l : List α} {f g : α → α} {i : Nat}

/-- An element before other ones that is changed. -/
lemma modify_append_left (m : List α) (inside : i < l.length) : (l ++ m).modify i f = l.modify i f ++ m := by
  apply List.ext_getElem?
  intro j
  grind

/-- An element after other ones that is changed. -/
lemma modify_append_right (l m : List α) : (l ++ m).modify (l.length + i) f = l ++ m.modify i f := by
  apply List.ext_getElem?
  intro j
  grind

/-- A change matters for the element only. -/
lemma modify_congr {x : α} (there : l[i]? = some x) (same : f x = g x) : l.modify i f = l.modify i g := by
  apply List.ext_getElem?
  intro j
  grind

end modify

/-- A new container with one edge. -/
def single (part : NamePart) (v : Py) : Obj := (Obj.holder part).extend part v

/-- New objects from an address on, each with the edge to the next one, for the parts of a name. -/
def spine (base : Nat) : NamePart → List NamePart → Py → Heap
  | part, [], v => [single part v]
  | part, next :: rest, v => single part (.ref (base + 1)) :: spine (base + 1) next rest v

/-- A heap in which a new or changed edge of an object leads along the rest of a name. -/
def branch (h : Heap) (a : Nat) (part : NamePart) (rest : List NamePart) (v : Py) : Heap :=
  match rest with
  | [] => h.modify a fun o => o.extend part v
  | next :: rest => h.modify a (fun o => o.extend part (.ref h.length)) ++ spine h.length next rest v

/-- Parts of a name for which the loop makes what is missing without an exception and without more elements than are
    named: an index is 0, and never follows an index. -/
def Chain : NamePart → List NamePart → Prop
  | _, [] => True
  | .index _, .index _ :: _ => False
  | .name _, .index k :: rest => k = 0 ∧ Chain (.index k) rest
  | _, .name s :: rest => Chain (.name s) rest

/-- The last part of a name. -/
def lastPart : NamePart → List NamePart → NamePart
  | part, [] => part
  | _, next :: rest => lastPart next rest

/-- The address of the container for the last part of a name. -/
def lastHolder (h : Heap) (a : Nat) (rest : List NamePart) : Nat :=
  match rest with
  | [] => a
  | _ :: rest => h.length + rest.length

/-- The current value at the end of a name that was missing, and the new objects for it. -/
def fresh (simple append : Bool) (address : Nat) : NamePart → Py × Heap
  | .name _ => if !simple && append then (.ref address, [.list []]) else (.none_, [])
  | .index _ => (.ref address, [.dict []])

section spine
variable {part : NamePart} {rest : List NamePart} {v : Py} {h : Heap}

/-- The number of the new objects. -/
lemma spine_length (base : Nat) (part : NamePart) (rest : List NamePart) (v : Py) :
    (spine base part rest v).length = rest.length + 1 := by
  induction rest generalizing base part with
  | nil => rfl
  | cons next rest ih => rw [spine, List.length_cons, ih, List.length_cons]

/-- The number of the objects with a branch. -/
lemma branch_length (h : Heap) (a : Nat) (part : NamePart) (rest : List NamePart) (v : Py) :
    (branch h a part rest v).length = h.length + rest.length := by
  cases rest with
  | nil => rw [branch, List.length_modify, List.length_nil, Nat.add_zero]
  | cons next rest => rw [branch, List.length_append, List.length_modify, spine_length, List.length_cons]

/-- A part of a name that a container can start with. -/
def Starts (part : NamePart) : Prop := ∀ k, part = .index k → k = 0

/-- A part of a chain after the first one. -/
lemma Chain.next {next : NamePart} (chain : Chain part (next :: rest)) : Starts next ∧ Chain next rest := by
  cases part with
  | name s =>
    cases next with
    | name t => exact ⟨nofun, chain⟩
    | index k =>
      refine ⟨?_, chain.2⟩
      intro j same
      cases same
      exact chain.1
  | index k =>
    cases next with
    | name t => exact ⟨nofun, chain⟩
    | index k => cases chain

/-- An empty container takes its part. -/
lemma takes_holder (starts : Starts part) : (Obj.holder part).Takes part := by
  cases part with
  | name s => trivial
  | index k => exact (starts k rfl).le

/-- The edges of a new container. -/
lemma at_single (starts : Starts part) (p : NamePart) :
    (single part v).at_ p = if p = part then some v else none := by
  rw [single, Obj.at_extend (takes_holder starts), Obj.at_holder]

/-- The edges of an object. -/
lemma child_ref {a : Nat} {o : Obj} (stored : h[a]? = some o) (part : NamePart) :
    child h (.ref a) part = o.at_ part := by
  rw [child, stored, Option.bind_some]

/-- The edges of a new container. -/
lemma child_single (starts : Starts part) (g more : Heap) (p : NamePart) :
    child (g ++ single part v :: more) (.ref g.length) p = if p = part then some v else none := by
  have stored : (g ++ single part v :: more)[g.length]? = some (single part v) := by
    rw [List.getElem?_append_right le_rfl, Nat.sub_self]
    rfl
  rw [child_ref stored, at_single starts]

/-- The edge of a new container. -/
lemma child_new (starts : Starts part) (g extra : Heap) :
    child (g ++ [single part v] ++ extra) (.ref g.length) part = some v := by
  have edge := child_single (v := v) starts g extra part
  rw [if_pos rfl] at edge
  rw [List.append_assoc]
  exact edge

/-- What is written to the last object. -/
lemma write_last (g : Heap) (o : Obj) (extra : Heap) (part : NamePart) (v : Py) :
    write (g ++ o :: extra) g.length part v = g ++ o.put part v :: extra := by
  have changed := modify_append_right (f := fun o => o.put part v) (i := 0) g (o :: extra)
  exact changed

/-- The same, where the objects after it are appended. -/
lemma write_new (g : Heap) (o : Obj) (extra : Heap) (part : NamePart) (v : Py) :
    write (g ++ [o] ++ extra) g.length part v = g ++ [o.put part v] ++ extra := by
  rw [List.append_assoc, List.append_assoc]
  exact write_last g o extra part v

/-- A value that takes the place of the value at the end of the new objects. -/
lemma write_spine (g : Heap) {part : NamePart} {rest : List NamePart} (starts : Starts part)
    (chain : Chain part rest) (u v : Py) (extra : Heap) :
    write (g ++ spine g.length part rest u ++ extra) (g.length + rest.length) (lastPart part rest) v =
      g ++ spine g.length part rest v ++ extra := by
  induction rest generalizing g part with
  | nil =>
    have put : (single part u).put part v = single part v := Obj.put_extend (takes_holder starts)
    rw [spine, spine, List.append_assoc, List.append_assoc, List.singleton_append, List.singleton_append]
    rw [List.length_nil, Nat.add_zero, lastPart, write_last, put]
  | cons next rest ih =>
    have step := ih (g ++ [single part (.ref (g.length + 1))]) chain.next.1 chain.next.2
    rw [List.length_append, List.length_singleton] at step
    rw [spine, spine, List.append_cons, List.append_cons _ _ (spine _ next rest v), List.length_cons, lastPart]
    have address : g.length + (rest.length + 1) = g.length + 1 + rest.length := by omega
    rw [address]
    exact step

/-- The same for a branch. -/
lemma write_branch {a : Nat} {o : Obj} (stored : h[a]? = some o) (takes : o.Takes part) (chain : Chain part rest)
    (u v : Py) (extra : Heap) :
    write (branch h a part rest u ++ extra) (lastHolder h a rest) (lastPart part rest) v =
      branch h a part rest v ++ extra := by
  cases rest with
  | nil =>
    have inside : a < (h.modify a fun o => o.extend part u).length := by
      rw [List.length_modify]
      exact (List.getElem?_eq_some_iff.mp stored).1
    have twice : ((fun o => o.put part v) ∘ fun o => o.extend part u) o = o.extend part v := Obj.put_extend takes
    rw [write, branch, branch, lastHolder, lastPart, modify_append_left _ inside, List.modify_modify_eq]
    exact congrArg (· ++ extra) (modify_congr stored twice)
  | cons next rest =>
    have step := write_spine (h.modify a fun o => o.extend part (.ref h.length)) chain.next.1 chain.next.2 u v extra
    rw [List.length_modify] at step
    exact step

end spine

section walk
variable (simple append : Bool) {h : Heap} (slot : Slot) {a : Nat} {rest : List NamePart}

/-- A part that is a key of a dictionary. -/
lemma walk_name {entries : Dict String Py} (stored : h[a]? = some (.dict entries)) (s : String) :
    walk false simple append h slot (.ref a) (.name s :: rest) =
      match entries.lookup s with
      | some d => walk false simple append h (some (a, .name s)) d rest
      | none =>
        walk false simple append (create simple append h a s rest).1 (some (a, .name s))
          (create simple append h a s rest).2 rest := by
  have here : container false Obj.isDict (.dict []) h slot (.ref a) = (h, .ok a) := by
    rw [container, stored]
    rfl
  rw [walk, here]
  cases found : entries.lookup s with
  | none => simp only [child_ref stored, Obj.at_, found]
  | some d => simp only [child_ref stored, Obj.at_, found]

/-- A part that is an index of a list. -/
lemma walk_index {elements : List Py} (stored : h[a]? = some (.list elements)) (k : Nat) :
    walk false simple append h slot (.ref a) (.index k :: rest) =
      walk false simple append (pad h a (k + 1 - elements.length)) (some (a, .index k))
        ((child (pad h a (k + 1 - elements.length)) (.ref a) (.index k)).getD .none_) rest := by
  have here : container false Obj.isList (.list []) h slot (.ref a) = (h, .ok a) := by
    rw [container, stored]
    rfl
  have elements_ : listAt h a = elements := by
    rw [listAt, stored]
  rw [walk, here]
  simp only [elements_]

/-- An element that is appended to a list. -/
lemma appendNew_eq {elements : List Py} (stored : h[a]? = some (.list elements)) (o : Obj) :
    appendNew h a o = (h.modify a fun o => o.extend (.index elements.length) (.ref h.length)) ++ [o] := by
  have inside := (List.getElem?_eq_some_iff.mp stored).1
  have extended : (Obj.list elements).extend (.index elements.length) (.ref h.length) =
      .list (elements ++ [.ref h.length]) := by
    rw [Obj.extend, List.take_length, List.drop_of_length_le (Nat.le_succ _)]
  have elements_ : listAt h a = elements := by
    rw [listAt, stored]
  rw [appendNew, elements_, List.set_append_left _ _ inside, ← extended]
  congr 1
  apply List.ext_getElem?
  intro j
  grind

/-- One element more of a list. -/
lemma pad_one {elements : List Py} (stored : h[a]? = some (.list elements)) :
    pad h a (elements.length + 1 - elements.length) =
      (h.modify a fun o => o.extend (.index elements.length) (.ref h.length)) ++ [.dict []] := by
  have one : elements.length + 1 - elements.length = 1 := Nat.add_sub_cancel_left _ 1
  rw [one, pad, pad, appendNew_eq stored]

/-- What a missing key is set to, where parts of the name follow. -/
lemma create_next (s : String) (next : NamePart) :
    create simple append h a s (next :: rest) =
      (write (h ++ [Obj.holder next]) a (.name s) (.ref h.length), .ref h.length) := by
  cases next with
  | name t => rfl
  | index k => rfl

/-- The first element of a new list. -/
lemma pad_new (g : Heap) (k : Nat) :
    pad (g ++ [Obj.holder (.index k)]) g.length (0 + 1 - ([] : List Py).length) =
      g ++ [single (.index 0) (.ref (g.length + 1))] ++ [.dict []] := by
  have stored : (g ++ [Obj.holder (.index k)])[g.length]? = some (.list []) := List.getElem?_concat_length
  have length : (g ++ [Obj.holder (.index k)]).length = g.length + 1 := List.length_append
  have changed := modify_append_right (f := fun o => o.extend (.index 0) (.ref (g.length + 1))) (i := 0) g
    [Obj.holder (.index k)]
  have padded := pad_one stored
  rw [length] at padded
  exact padded.trans (congrArg (· ++ [Obj.dict []]) changed)

/-- One step of the loop at a new container with parts that follow. -/
lemma walk_new_step {part next : NamePart} (starts : Starts part) (chain : Chain part (next :: rest)) (g : Heap) :
    walk false simple append (g ++ [Obj.holder part]) slot (.ref g.length) (part :: next :: rest) =
      walk false simple append (g ++ [single part (.ref (g.length + 1))] ++ [Obj.holder next])
        (some (g.length, part)) (.ref (g.length + 1)) (next :: rest) := by
  have stored : (g ++ [Obj.holder part])[g.length]? = some (Obj.holder part) := List.getElem?_concat_length
  have length : (g ++ [Obj.holder part]).length = g.length + 1 := List.length_append
  cases part with
  | name s =>
    have written := write_new g (Obj.holder (.name s)) [Obj.holder next] (.name s) (.ref (g.length + 1))
    rw [walk_name _ _ _ stored, create_next _ _, length, written]
    rfl
  | index k =>
    cases starts k rfl
    cases next with
    | index j => cases chain
    | name t =>
      rw [walk_index _ _ _ stored, pad_new, child_new starts]
      rfl

/-- The loop makes new objects for the rest of a name. -/
lemma walk_new {part : NamePart} (starts : Starts part) (chain : Chain part rest) (g : Heap) :
    walk false simple append (g ++ [Obj.holder part]) slot (.ref g.length) (part :: rest) =
      (g ++ spine g.length part rest (fresh simple append (g.length + rest.length + 1) (lastPart part rest)).1 ++
          (fresh simple append (g.length + rest.length + 1) (lastPart part rest)).2,
        .ok (some (g.length + rest.length, lastPart part rest),
          (fresh simple append (g.length + rest.length + 1) (lastPart part rest)).1)) := by
  induction rest generalizing g part slot with
  | nil =>
    have stored : (g ++ [Obj.holder part])[g.length]? = some (Obj.holder part) := List.getElem?_concat_length
    have length : (g ++ [Obj.holder part]).length = g.length + 1 := List.length_append
    cases part with
    | name s =>
      rw [walk_name _ _ _ stored]
      simp only [List.lookup, create, length, spine, fresh, lastPart, List.length_nil, Nat.add_zero]
      cases !simple && append with
      | true =>
        have written := write_new g (Obj.holder (.name s)) [.list []] (.name s) (.ref (g.length + 1))
        simp only [if_pos, written]
        rfl
      | false =>
        have written := write_new g (Obj.holder (.name s)) [] (.name s) .none_
        rw [List.append_nil, List.append_nil] at written
        simp only [if_neg Bool.false_ne_true, written, List.append_nil]
        rfl
    | index k =>
      cases starts k rfl
      rw [walk_index _ _ _ stored, pad_new, child_new starts]
      rfl
  | cons next rest ih =>
    have step := ih (some (g.length, part)) chain.next.1 chain.next.2 (g ++ [single part (.ref (g.length + 1))])
    have length : (g ++ [single part (.ref (g.length + 1))]).length = g.length + 1 := List.length_append
    have address : g.length + 1 + rest.length = g.length + (rest.length + 1) := by omega
    rw [length, address] at step
    rw [walk_new_step _ _ _ starts chain, step, spine, lastPart, List.length_cons]
    simp only [List.append_assoc, List.cons_append, List.nil_append]

/-- A key that is set in a dictionary before other objects. -/
lemma write_dict {entries : Dict String Py} (stored : h[a]? = some (.dict entries)) (s : String) (v : Py)
    (extra : Heap) :
    write (h ++ extra) a (.name s) v = (h.modify a fun o => o.extend (.name s) v) ++ extra := by
  rw [write, modify_append_left extra (List.getElem?_eq_some_iff.mp stored).1]
  exact congrArg (· ++ extra) (modify_congr stored rfl)

/-- The element of a list that is added to it. -/
lemma child_extend {o : Obj} {part : NamePart} {v : Py} (stored : h[a]? = some o) (takes : o.Takes part)
    (extra : Heap) (p : NamePart) :
    child ((h.modify a fun o => o.extend part v) ++ extra) (.ref a) p =
      if p = part then some v else child h (.ref a) p := by
  have inside := (List.getElem?_eq_some_iff.mp stored).1
  have changed : ((h.modify a fun o => o.extend part v) ++ extra)[a]? = some (o.extend part v) := by
    rw [List.getElem?_append_left (by rw [List.length_modify]; exact inside), List.getElem?_modify_eq, stored]
    rfl
  rw [child_ref changed, child_ref stored, Obj.at_extend takes]

/-- The loop at an object that has no edge for a part of the name. -/
lemma walk_gap {o : Obj} {part : NamePart} (stored : h[a]? = some o) (takes : o.Takes part)
    (missing : o.at_ part = none) (chain : Chain part rest) :
    walk false simple append h slot (.ref a) (part :: rest) =
      (branch h a part rest (fresh simple append (h.length + rest.length) (lastPart part rest)).1 ++
          (fresh simple append (h.length + rest.length) (lastPart part rest)).2,
        .ok (some (lastHolder h a rest, lastPart part rest),
          (fresh simple append (h.length + rest.length) (lastPart part rest)).1)) := by
  have length (v : Py) : (h.modify a fun o => o.extend part v).length = h.length := List.length_modify ..
  -- A name goes into a dictionary, an index to the end of a list.
  cases o with
  | dict entries =>
    cases part with
    | index k => cases takes
    | name s =>
      have missing : entries.lookup s = none := missing
      rw [walk_name _ _ _ stored, missing]
      cases rest with
      | nil =>
        simp only [create, branch, fresh, lastPart, lastHolder, List.length_nil, Nat.add_zero]
        cases !simple && append with
        | true =>
          simp only [if_pos, write_dict stored]
          rfl
        | false =>
          have written := write_dict stored s .none_ []
          rw [List.append_nil] at written
          simp only [if_neg Bool.false_ne_true, written, List.append_nil]
          rfl
      | cons next rest =>
        have step := walk_new simple append (some (a, .name s)) chain.next.1
          chain.next.2 (h.modify a fun o => o.extend (.name s) (.ref h.length))
        rw [length] at step
        simp only [create_next, write_dict stored, step]
        rfl
  | list elements =>
    cases part with
    | name s => cases takes
    | index k =>
      have outside : elements.length ≤ k := List.getElem?_eq_none_iff.mp missing
      cases Nat.le_antisymm takes outside
      rw [walk_index _ _ _ stored, pad_one stored, child_extend stored takes, if_pos rfl]
      cases rest with
      | nil => rfl
      | cons next rest =>
        cases next with
        | index j => cases chain
        | name t =>
          have starts : Starts (.name t) := chain.next.1
          have step := walk_new simple append (some (a, .index elements.length)) starts chain.next.2
            (h.modify a fun o => o.extend (.index elements.length) (.ref h.length))
          rw [length] at step
          exact step

/-- The loop at an edge that is there. -/
lemma walk_step (rest : List NamePart) {d u : Py} {part : NamePart} (edge : child h d part = some u) :
    ∃ a, d = .ref a ∧ walk false simple append h slot d (part :: rest) =
      walk false simple append h (some (a, part)) u rest := by
  cases d with
  | ref a =>
    refine ⟨a, rfl, ?_⟩
    obtain ⟨o, stored, edge'⟩ := Option.bind_eq_some_iff.mp edge
    cases o with
    | dict entries =>
      cases part with
      | index k => cases edge'
      | name s =>
        have edge' : entries.lookup s = some u := edge'
        rw [walk_name _ _ _ stored, edge']
    | list elements =>
      cases part with
      | name s => cases edge'
      | index k =>
        obtain ⟨less, -⟩ := List.getElem?_eq_some_iff.mp edge'
        have none_ : k + 1 - elements.length = 0 := Nat.sub_eq_zero_of_le less
        rw [walk_index _ _ _ stored, none_, pad, edge]
        rfl
  | _ => cases edge

/-- The loop on a way that is there. -/
lemma walk_follow (rest : List NamePart) {d u : Py} {q : List NamePart} (there : follow (child h) d q = some u) :
    ∃ slot', walk false simple append h slot d (q ++ rest) = walk false simple append h slot' u rest := by
  induction q generalizing d slot with
  | nil =>
    cases there
    exact ⟨slot, rfl⟩
  | cons part q ih =>
    obtain ⟨w, edge, there⟩ := Option.bind_eq_some_iff.mp there
    obtain ⟨a, -, step⟩ := walk_step simple append slot (q ++ rest) edge
    obtain ⟨slot', whole⟩ := ih (some (a, part)) there
    exact ⟨slot', step.trans whole⟩

/-- The loop stops at what is no container for the part of the name. -/
lemma walk_blocked (rest : List NamePart) {d : Py} {part : NamePart} (some_ : d.isNone = false)
    (other : ∀ o ∈ object h d, o.suits part = false) :
    walk false simple append h slot d (part :: rest) = (h, .error .valueError) := by
  cases part with
  | name s =>
    have refused : container false Obj.isDict (.dict []) h slot d = (h, .error .valueError) := by
      cases d with
      | none_ => cases some_
      | ref b =>
        cases stored : h[b]? with
        | none =>
          rw [container, stored]
          rfl
        | some o =>
          cases o with
          | dict entries => cases other _ stored
          | list elements =>
            rw [container, stored]
            rfl
      | _ => rfl
    rw [walk, refused]
  | index k =>
    have refused : container false Obj.isList (.list []) h slot d = (h, .error .valueError) := by
      cases d with
      | none_ => cases some_
      | ref b =>
        cases stored : h[b]? with
        | none =>
          rw [container, stored]
          rfl
        | some o =>
          cases o with
          | dict entries =>
            rw [container, stored]
            rfl
          | list elements => cases other _ stored
      | _ => rfl
    rw [walk, refused]

end walk

/-- The edges of an object lead to addresses below a bound. -/
def Obj.Below (bound : Nat) (o : Obj) : Prop := ∀ p c, o.at_ p = some (.ref c) → c < bound

/-- The edges of all objects lead to objects. -/
def Closed (h : Heap) : Prop := ∀ o ∈ h, o.Below h.length

/-- What a branch changes: one edge of an object, beyond which there are only new objects until the rest of the name
    ends in a value. -/
structure Grafted (h H : Heap) (a : Nat) (part : NamePart) (rest : List NamePart) (v : Py) : Prop where
  longer : h.length ≤ H.length
  kept : ∀ b < h.length, b ≠ a → H[b]? = h[b]?
  others : ∀ p, p ≠ part → child H (.ref a) p = child h (.ref a) p
  dicts : ∀ (b : Nat) (entries : Dict String Py), h[b]? = some (Obj.dict entries) →
    ∃ entries' : Dict String Py, H[b]? = some (Obj.dict entries')
  along : follow (child H) (.ref a) (part :: rest) = some v
  strays : ∀ x u, follow (child H) (.ref a) (part :: x) = some u →
    (∃ y, x = rest ++ y ∧ follow (child H) v y = some u) ∨ (x <+: rest ∧ ∃ b, u = .ref b)

section graft
variable {h : Heap} {a : Nat} {o : Obj} {part : NamePart} {rest : List NamePart} {v : Py}

/-- The way along new objects. -/
lemma follow_spine (g extra : Heap) (starts : Starts part) (chain : Chain part rest) :
    follow (child (g ++ spine g.length part rest v ++ extra)) (.ref g.length) (part :: rest) = some v := by
  induction rest generalizing g part with
  | nil =>
    rw [spine, follow, child_new starts]
    rfl
  | cons next rest ih =>
    have step := ih (g ++ [single part (.ref (g.length + 1))]) chain.next.1 chain.next.2
    have length : (g ++ [single part (.ref (g.length + 1))]).length = g.length + 1 := List.length_append
    rw [length, List.append_assoc _ _ extra] at step
    rw [spine, List.append_cons, List.append_assoc _ _ extra, follow, child_new starts]
    exact step

/-- New objects are on the way, and nothing else is beyond them. -/
lemma spine_strays (g extra : Heap) (starts : Starts part) (chain : Chain part rest) {x : List NamePart} {u : Py}
    (there : follow (child (g ++ spine g.length part rest v ++ extra)) (.ref g.length) x = some u) :
    (∃ y, x = part :: rest ++ y ∧ follow (child (g ++ spine g.length part rest v ++ extra)) v y = some u) ∨
      (x <+: part :: rest ∧ ∃ b, u = .ref b) := by
  induction rest generalizing g part x with
  | nil =>
    cases x with
    | nil =>
      cases there
      exact .inr ⟨List.nil_prefix, g.length, rfl⟩
    | cons p x =>
      rw [spine, List.append_assoc, follow, List.singleton_append, child_single starts] at there
      rw [spine, List.append_assoc, List.singleton_append]
      split at there
      · rename_i same
        subst same
        exact .inl ⟨x, rfl, there⟩
      · cases there
  | cons next rest ih =>
    have length : (g ++ [single part (.ref (g.length + 1))]).length = g.length + 1 := List.length_append
    have later := @ih next (g ++ [single part (.ref (g.length + 1))]) chain.next.1 chain.next.2
    rw [length, ← List.append_cons] at later
    rw [spine] at there ⊢
    cases x with
    | nil =>
      cases there
      exact .inr ⟨List.nil_prefix, g.length, rfl⟩
    | cons p x =>
      have edge := child_single (v := .ref (g.length + 1)) starts g (spine (g.length + 1) next rest v ++ extra) p
      rw [← List.cons_append, ← List.append_assoc] at edge
      rw [follow, edge] at there
      split at there
      · rename_i same
        subst same
        cases later there with
        | inl beyond =>
          obtain ⟨y, same, there⟩ := beyond
          exact .inl ⟨y, congrArg (p :: ·) same, there⟩
        | inr before => exact .inr ⟨List.cons_prefix_cons.mpr ⟨rfl, before.1⟩, before.2⟩
      · cases there

/-- The object that a branch changes. -/
lemma branch_at (stored : h[a]? = some o) (extra : Heap) :
    ∃ w, (branch h a part rest v ++ extra)[a]? = some (o.extend part w) := by
  have inside := (List.getElem?_eq_some_iff.mp stored).1
  have changed (w : Py) (more : Heap) :
      ((h.modify a fun o => o.extend part w) ++ more)[a]? = some (o.extend part w) := by
    rw [List.getElem?_append_left (by rw [List.length_modify]; exact inside), List.getElem?_modify_eq, stored]
    rfl
  cases rest with
  | nil => exact ⟨v, changed v extra⟩
  | cons next rest =>
    rw [branch, List.append_assoc]
    exact ⟨_, changed _ _⟩

/-- The objects that it does not change. -/
lemma branch_kept {b : Nat} (inside : b < h.length) (other : b ≠ a) (extra : Heap) :
    (branch h a part rest v ++ extra)[b]? = h[b]? := by
  have changed (w : Py) (more : Heap) : ((h.modify a fun o => o.extend part w) ++ more)[b]? = h[b]? := by
    rw [List.getElem?_append_left (by rw [List.length_modify]; exact inside), List.getElem?_modify_ne _ _ other.symm]
  cases rest with
  | nil => exact changed v extra
  | cons next rest =>
    rw [branch, List.append_assoc]
    exact changed _ _

/-- What a branch changes. -/
lemma grafted_branch (stored : h[a]? = some o) (takes : o.Takes part) (chain : Chain part rest) (extra : Heap) :
    Grafted h (branch h a part rest v ++ extra) a part rest v where
  longer := by
    rw [List.length_append, branch_length]
    omega
  kept := fun b inside other => branch_kept inside other extra
  others := by
    intro p other
    obtain ⟨w, changed⟩ := @branch_at h a o part rest v stored extra
    rw [child_ref changed, child_ref stored, Obj.at_extend takes, if_neg other]
  dicts := by
    intro b entries there
    have inside := (List.getElem?_eq_some_iff.mp there).1
    by_cases same : b = a
    · subst same
      cases stored.symm.trans there
      obtain ⟨w, changed⟩ := @branch_at h b _ part rest v stored extra
      cases part with
      | name s => exact ⟨_, changed⟩
      | index k => cases takes
    · exact ⟨entries, (branch_kept inside same extra).trans there⟩
  along := by
    cases rest with
    | nil =>
      rw [branch, follow, child_extend stored takes, if_pos rfl]
      rfl
    | cons next rest =>
      have way := follow_spine (v := v) (h.modify a fun o => o.extend part (.ref h.length)) extra chain.next.1
        chain.next.2
      rw [List.length_modify] at way
      rw [branch, follow, List.append_assoc, child_extend stored takes, if_pos rfl, ← List.append_assoc]
      exact way
  strays := by
    intro x u there
    cases rest with
    | nil =>
      rw [branch, follow, child_extend stored takes, if_pos rfl] at there
      exact .inl ⟨x, rfl, there⟩
    | cons next rest =>
      have later := @spine_strays next rest v (h.modify a fun o => o.extend part (.ref h.length)) extra chain.next.1
        chain.next.2 x u
      rw [List.length_modify] at later
      rw [branch, follow, List.append_assoc, child_extend stored takes, if_pos rfl, ← List.append_assoc] at there
      exact later there

/-- An object that is extended leads to addresses below a bound where the new edge does. -/
lemma below_extend {bound : Nat} (takes : o.Takes part) (below : o.Below bound) (new : ∀ c, v = .ref c → c < bound) :
    (o.extend part v).Below bound := by
  intro p c edge
  rw [Obj.at_extend takes] at edge
  split at edge
  · exact new c (Option.some.inj edge)
  · exact below p c edge

/-- The new objects lead to each other and to the value. -/
lemma spine_below (base : Nat) (starts : Starts part) (chain : Chain part rest) {bound : Nat}
    (room : base + rest.length < bound) (new : ∀ c, v = .ref c → c < bound) :
    ∀ o ∈ spine base part rest v, o.Below bound := by
  induction rest generalizing base part with
  | nil =>
    intro o mem p c edge
    cases List.mem_singleton.mp mem
    rw [at_single starts] at edge
    split at edge
    · exact new c (Option.some.inj edge)
    · cases edge
  | cons next rest ih =>
    intro o mem
    rw [List.length_cons] at room
    cases List.mem_cons.mp mem with
    | inl first =>
      subst first
      intro p c edge
      rw [at_single starts] at edge
      split at edge
      · cases edge
        omega
      · cases edge
    | inr later => exact ih (base + 1) chain.next.1 chain.next.2 (by omega) o later

/-- With a branch the edges of all objects lead to objects, where those of the value and of the objects beyond it do. -/
lemma closed_branch (closed : Closed h) (stored : h[a]? = some o) (takes : o.Takes part) (chain : Chain part rest)
    {extra : Heap} (new : ∀ c, v = .ref c → c < h.length + rest.length + extra.length)
    (beyond : ∀ o ∈ extra, o.Below (h.length + rest.length + extra.length)) :
    Closed (branch h a part rest v ++ extra) := by
  have length : (branch h a part rest v ++ extra).length = h.length + rest.length + extra.length := by
    rw [List.length_append, branch_length]
  have changed (w : Py) (new : ∀ c, w = .ref c → c < h.length + rest.length + extra.length) :
      ∀ o' ∈ h.modify a fun o => o.extend part w, o'.Below (h.length + rest.length + extra.length) := by
    intro o' mem
    obtain ⟨b, there⟩ := List.mem_iff_getElem?.mp mem
    rw [List.getElem?_modify] at there
    obtain ⟨o₀, before, same⟩ := Option.map_eq_some_iff.mp there
    have below : o₀.Below (h.length + rest.length + extra.length) := by
      intro p c edge
      have less := closed o₀ (List.mem_iff_getElem?.mpr ⟨b, before⟩) p c edge
      omega
    split at same
    · rename_i here
      subst here
      cases stored.symm.trans before
      rw [← same]
      exact below_extend takes below new
    · cases same
      exact below
  rw [Closed, length]
  intro o' mem
  cases List.mem_append.mp mem with
  | inr more => exact beyond o' more
  | inl mem =>
    cases rest with
    | nil => exact changed v new o' mem
    | cons next rest =>
      have room : h.length + rest.length < h.length + (next :: rest).length + extra.length := by
        rw [List.length_cons]
        omega
      cases List.mem_append.mp mem with
      | inl old =>
        refine changed (.ref h.length) ?_ o' old
        intro c same
        cases same
        omega
      | inr mem => exact spine_below h.length chain.next.1 chain.next.2 room new o' mem

end graft

end Lcls2.ConfigDb.Cdict
