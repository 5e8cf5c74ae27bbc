import Lcls2.ConfigDb.CdictGraft

/-!
# What setting a name keeps

Some cdicts have their dictionaries at the first addresses. Where the object that a branch changes is reached by one
name only (`Alone`), a branch changes what is seen under that name, and nothing else of any cdict.
-/

namespace Lcls2.ConfigDb.Cdict
open Lib

variable {n : Nat}

/-- Every cdict has its dictionary, edges lead to objects, and what a name of a cdict holds is well typed. -/
structure Sound (enumdef : Fin n → Enums) (h : Heap) : Prop where
  roots : ∀ i : Fin n, ∃ entries : Dict String Py, h[(i : Nat)]? = some (Obj.dict entries)
  closed : Closed h
  typed : ∀ (i : Fin n) path u, follow (child h) (.ref i) path = some u → WellTyped (enumdef i) u

/-- An object is reached by one name of one cdict only. -/
def Alone (h : Heap) (i : Fin n) (q : List NamePart) (a : Nat) : Prop :=
  ∀ (j : Fin n) p, follow (child h) (.ref j) p = some (.ref a) → j = i ∧ p = q

section frame
variable {enumdef : Fin n → Enums} {h H : Heap} {i j : Fin n} {q m : List NamePart} {a : Nat} {part : NamePart}
  {rest : List NamePart} {v u : Py}

/-- The dictionary of a cdict is an object. -/
lemma Sound.root_lt (sound : Sound enumdef h) (i : Fin n) : (i : Nat) < h.length := by
  obtain ⟨entries, there⟩ := sound.roots i
  exact (List.getElem?_eq_some_iff.mp there).1

/-- What an edge leads to is an object. -/
lemma Closed.child_lt (closed : Closed h) {d : Py} {c : Nat} (edge : child h d part = some (.ref c)) :
    c < h.length := by
  cases d with
  | ref b =>
    obtain ⟨o, stored, edge⟩ := Option.bind_eq_some_iff.mp edge
    exact closed o (List.mem_iff_getElem?.mpr ⟨b, stored⟩) part c edge
  | _ => cases edge

/-- What a way leads to is an object. -/
lemma Closed.follow_lt (closed : Closed h) {d : Py} (start : ∀ b, d = .ref b → b < h.length) {c : Nat}
    (there : follow (child h) d m = some (.ref c)) : c < h.length := by
  refine follow_closed (S := fun u => ∀ b, u = .ref b → b < h.length) ?_ start there c rfl
  intro u l w _ edge b same
  subst same
  exact closed.child_lt edge

/-- What a name of a cdict leads to is an object. -/
lemma Sound.follow_lt (sound : Sound enumdef h) {c : Nat} (there : follow (child h) (.ref i) m = some (.ref c)) :
    c < h.length := by
  refine sound.closed.follow_lt ?_ there
  intro b same
  cases same
  exact sound.root_lt i

/-- The edges of what a branch does not change. -/
lemma Grafted.child_eq (grafted : Grafted h H a part rest v) {d : Py} (inside : ∀ b, d = .ref b → b < h.length)
    {l : NamePart} (off : ¬ (d = .ref a ∧ l = part)) : child H d l = child h d l := by
  cases d with
  | ref b =>
    by_cases here : b = a
    · subst here
      exact grafted.others l fun same => off ⟨rfl, same⟩
    · rw [child, child, grafted.kept b (inside b rfl) here]
  | _ => rfl

/-- The shape of what a branch does not change. -/
lemma Grafted.shape_eq (grafted : Grafted h H a part rest v) (inside : ∀ b, u = .ref b → b < h.length)
    (off : u ≠ .ref a) : shape H u = shape h u := by
  cases u with
  | ref b =>
    have other : b ≠ a := fun same => off (same ▸ rfl)
    have same : object H (.ref b) = object h (.ref b) := grafted.kept b (inside b rfl) other
    rw [shape, shape, same]
  | _ => rfl

/-- The names that do not go on along the branch lead where they led. -/
lemma frame (sound : Sound enumdef h) (alone : Alone h i q a) (grafted : Grafted h H a part rest v)
    (off : ¬ (j = i ∧ q ++ [part] <+: m)) : follow (child H) (.ref j) m = follow (child h) (.ref j) m := by
  apply follow_congr
  intro p l s u there whole
  apply grafted.child_eq
  · intro b same
    subst same
    exact sound.follow_lt there
  · intro here
    obtain ⟨rfl, rfl⟩ := here
    obtain ⟨rfl, rfl⟩ := alone j p there
    apply off
    refine ⟨rfl, s, ?_⟩
    rw [← whole, List.append_assoc, List.singleton_append]

/-- What is seen under the other names, but for the changed object itself. -/
lemma frame_view (sound : Sound enumdef h) (alone : Alone h i q a) (grafted : Grafted h H a part rest v)
    (off : ¬ (j = i ∧ q ++ [part] <+: m)) (not_here : ¬ (j = i ∧ m = q)) :
    view H (.ref j) m = view h (.ref j) m := by
  rw [view, view, frame sound alone grafted off]
  cases there : follow (child h) (.ref j) m with
  | none => rfl
  | some u =>
    refine congrArg some (grafted.shape_eq ?_ ?_)
    · intro b same
      subst same
      exact sound.follow_lt there
    · intro same
      subst same
      exact not_here (alone j m there)

/-- The changed object is still where it was. -/
lemma frame_here (sound : Sound enumdef h) (alone : Alone h i q a) (grafted : Grafted h H a part rest v)
    (here : follow (child h) (.ref i) q = some (.ref a)) : follow (child H) (.ref i) q = some (.ref a) := by
  rw [frame sound alone grafted, here]
  intro longer
  have length := longer.2.length_le
  rw [List.length_append, List.length_singleton] at length
  omega

/-- What a name along the branch leads to. -/
lemma follow_branch (sound : Sound enumdef h) (alone : Alone h i q a) (grafted : Grafted h H a part rest v)
    (here : follow (child h) (.ref i) q = some (.ref a)) (x : List NamePart) :
    follow (child H) (.ref i) (q ++ part :: x) = follow (child H) (.ref a) (part :: x) :=
  follow_from (frame_here sound alone grafted here)

/-- What the whole name leads to. -/
lemma follow_value (sound : Sound enumdef h) (alone : Alone h i q a) (grafted : Grafted h H a part rest v)
    (here : follow (child h) (.ref i) q = some (.ref a)) (x : List NamePart) :
    follow (child H) (.ref i) (q ++ part :: rest ++ x) = follow (child H) v x := by
  rw [List.append_assoc, List.cons_append, follow_branch sound alone grafted here, ← List.cons_append,
    follow_from grafted.along]

/-- The cdicts stay sound where the value is. -/
lemma Sound.graft (sound : Sound enumdef h) (alone : Alone h i q a) (grafted : Grafted h H a part rest v)
    (here : follow (child h) (.ref i) q = some (.ref a)) (closed : Closed H)
    (typed : ∀ y u, follow (child H) v y = some u → WellTyped (enumdef i) u) : Sound enumdef H where
  roots := by
    intro j
    obtain ⟨entries, there⟩ := sound.roots j
    exact grafted.dicts j entries there
  closed := closed
  typed := by
    intro j path u there
    by_cases along : j = i ∧ q ++ [part] <+: path
    · obtain ⟨rfl, x, rfl⟩ := along
      rw [List.append_assoc, List.singleton_append, follow_branch sound alone grafted here] at there
      cases grafted.strays x u there with
      | inl beyond =>
        obtain ⟨y, -, there⟩ := beyond
        exact typed y u there
      | inr before =>
        obtain ⟨-, b, rfl⟩ := before
        trivial
    · rw [frame sound alone grafted along] at there
      exact sound.typed j path u there

/-- A typed name stays as it is where those along the branch do. -/
lemma typeAt_graft (sound : Sound enumdef h) (alone : Alone h i q a) (grafted : Grafted h H a part rest v)
    (along : ∀ x t, typeAt h (.ref i) (q ++ part :: x) = some t → typeAt H (.ref i) (q ++ part :: x) = some t)
    {path : List NamePart} {t : LeafType} (before : typeAt h (.ref j) path = some t) :
    typeAt H (.ref j) path = some t := by
  by_cases on : j = i ∧ q ++ [part] <+: path
  · obtain ⟨rfl, x, rfl⟩ := on
    rw [List.append_assoc, List.singleton_append] at before ⊢
    exact along x t before
  · rw [typeAt, frame sound alone grafted on]
    exact before

/-- Of the names that are neither on the way to the name that is set nor beyond it, nothing changes. -/
lemma view_graft (sound : Sound enumdef h) (alone : Alone h i q a) (grafted : Grafted h H a part rest v)
    (here : follow (child h) (.ref i) q = some (.ref a)) (new : rest = [] ∨ child h (.ref a) part = none)
    (apart : j = i → ¬ m <+: q ++ part :: rest ∧ ¬ q ++ part :: rest <+: m) :
    view H (.ref j) m = view h (.ref j) m := by
  by_cases along : j = i ∧ q ++ [part] <+: m
  · obtain ⟨rfl, x, rfl⟩ := along
    rw [List.append_assoc, List.singleton_append] at apart ⊢
    obtain ⟨not_before, not_beyond⟩ := apart rfl
    have before : follow (child h) (.ref j) (q ++ part :: x) = none := by
      cases new with
      | inl short =>
        subst short
        refine absurd ⟨x, ?_⟩ not_beyond
        rw [List.append_assoc, List.singleton_append]
      | inr missing => rw [follow_from here, follow, missing, Option.bind_none]
    have after : follow (child H) (.ref j) (q ++ part :: x) = none := by
      rw [follow_branch sound alone grafted here]
      cases there : follow (child H) (.ref a) (part :: x) with
      | none => rfl
      | some u =>
        cases grafted.strays x u there with
        | inl beyond =>
          obtain ⟨y, rfl, -⟩ := beyond
          refine absurd ⟨y, ?_⟩ not_beyond
          rw [List.append_assoc, List.cons_append]
        | inr between =>
          refine absurd ?_ not_before
          exact (List.prefix_append_right_inj q).mpr (List.cons_prefix_cons.mpr ⟨rfl, between.1⟩)
    rw [view, view, before, after]
    rfl
  · refine frame_view sound alone grafted along ?_
    intro here
    obtain ⟨rfl, rfl⟩ := here
    exact (apart rfl).1 (List.prefix_append _ _)

/-- A copy of the dictionary of a cdict shows what the dictionary showed, where the changed object is not beyond it. -/
lemma view_copy (sound : Sound enumdef h) (grafted : Grafted h H a part rest v) {c : Nat} {entries : Dict String Py}
    (copied : H[c]? = some (Obj.dict entries)) (original : h[(j : Nat)]? = some (Obj.dict entries))
    (apart : ∀ l p, follow (child h) (.ref j) (l :: p) ≠ some (.ref a)) (x : List NamePart) :
    view H (.ref c) x = view h (.ref j) x ∧
      ∀ l y, x = l :: y → follow (child H) (.ref c) x = follow (child h) (.ref j) x := by
  cases x with
  | nil =>
    refine ⟨?_, nofun⟩
    have new : object H (.ref c) = some (Obj.dict entries) := copied
    have old : object h (.ref j) = some (Obj.dict entries) := original
    rw [view, view, follow, follow, Option.map_some, Option.map_some, shape, shape, new, old]
  | cons l x =>
    have same : follow (child H) (.ref c) (l :: x) = follow (child h) (.ref j) (l :: x) := by
      rw [follow, follow, child_ref copied, child_ref original]
      apply Option.bind_congr
      intro w edge
      have edge : child h (.ref j) l = some w := (child_ref original l).trans edge
      apply follow_congr
      intro p l' s u there _
      have way : follow (child h) (.ref j) (l :: p) = some u := by
        rw [follow, edge]
        exact there
      apply grafted.child_eq
      · intro b same
        subst same
        exact sound.follow_lt way
      · intro on
        exact apart l p (on.1 ▸ way)
    refine ⟨?_, fun _ _ _ => same⟩
    rw [view, view, same]
    cases there : follow (child h) (.ref j) (l :: x) with
    | none => rfl
    | some u =>
      refine congrArg some (grafted.shape_eq ?_ ?_)
      · intro b same
        subst same
        exact sound.follow_lt there
      · intro same
        exact apart l x (same ▸ there)

end frame

end Lcls2.ConfigDb.Cdict
