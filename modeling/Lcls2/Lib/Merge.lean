import Mathlib

/-!
# Merging sorted lists into rows

Lists that are strictly sorted by key are merged into rows: a row has a key and, for every list, the
element of the list with this key, if there is one. `IsMerge` says that some rows are the merge of
some lists; the merge exists (`exists_isMerge`) and is unique (`IsMerge.unique`).

* `IsMerge.cons` takes the elements with the least key off the front of the lists;
* `IsMerge.filter` merges the lists without the elements that a test throws out, when the test goes
  by the key.
-/

namespace Lcls2.Lib

variable {α κ : Type*} [LinearOrder κ]

/-- A row of a merge. -/
structure Row (κ α : Type*) where
  key : κ
  cells : List (Option α)

/-- The element of a list with a given key. -/
def pick (key : α → κ) (k : κ) (l : List α) : Option α := l.find? (key · = k)

/-- A list without its first element, if that has the given key. -/
def dropKey (key : α → κ) (k : κ) : List α → List α
  | [] => []
  | x :: l => if key x = k then l else x :: l

/-- The rows are the merge of the lists. -/
structure IsMerge (key : α → κ) (lists : List (List α)) (rows : List (Row κ α)) : Prop where
  increasing : rows.Pairwise (·.key < ·.key)
  cells : ∀ r ∈ rows, r.cells = lists.map (pick key r.key)
  covers : ∀ l ∈ lists, ∀ x ∈ l, ∃ r ∈ rows, r.key = key x
  inhabited : ∀ r ∈ rows, ∃ l ∈ lists, ∃ x ∈ l, key x = r.key

variable {key : α → κ} {k : κ}

/-- In a sorted list, what has the key is picked. -/
lemma pick_eq_some {l : List α} (sorted : l.Pairwise (key · < key ·)) {x : α} :
    pick key k l = some x ↔ x ∈ l ∧ key x = k := by
  constructor
  · intro h
    rw [pick] at h
    exact ⟨List.mem_of_find?_eq_some h, by simpa using List.find?_some h⟩
  · rintro ⟨hx, rfl⟩
    induction l with
    | nil => cases hx
    | cons y l ih =>
      cases List.mem_cons.mp hx with
      | inl e =>
        subst e
        simp [pick]
      | inr hx =>
        have lt : key y < key x := List.rel_of_pairwise_cons sorted hx
        have h := ih sorted.of_cons hx
        rw [pick, List.find?_cons_of_neg (by simp [ne_of_lt lt])]
        exact h

lemma pick_eq_none {l : List α} : pick key k l = none ↔ ∀ x ∈ l, key x ≠ k := by
  simp [pick]

/-- Where no key is less than `k`, picking `k` looks at the first element only. -/
lemma pick_head {l : List α} (sorted : l.Pairwise (key · < key ·)) (least : ∀ x ∈ l, k ≤ key x) :
    pick key k l = l.head?.filter (key · = k) := by
  cases l with
  | nil => rfl
  | cons x l =>
    by_cases h : key x = k
    · simp [pick, h, Option.filter_some]
    · have none : pick key k (x :: l) = none := by
        refine pick_eq_none.mpr ?_
        intro y hy
        cases List.mem_cons.mp hy with
        | inl e => exact e ▸ h
        | inr hy =>
          have lt : key x < key y := List.rel_of_pairwise_cons sorted hy
          exact ne_of_gt (lt_of_le_of_lt (least x (by simp)) lt)
      rw [none]
      simp [h, Option.filter_some]

/-- In a sorted list, a bound on the first key bounds all keys. -/
lemma least_of_head {l : List α} (sorted : l.Pairwise (key · < key ·))
    (head : ∀ x ∈ l.head?, k ≤ key x) : ∀ x ∈ l, k ≤ key x := by
  intro x hx
  cases l with
  | nil => cases hx
  | cons y l =>
    have le : k ≤ key y := head y rfl
    cases List.mem_cons.mp hx with
    | inl e => exact e ▸ le
    | inr hx => exact le.trans (le_of_lt (List.rel_of_pairwise_cons sorted hx))

/-- Dropping the least key leaves the larger ones. -/
lemma mem_dropKey {l : List α} (sorted : l.Pairwise (key · < key ·)) (least : ∀ x ∈ l, k ≤ key x)
    {x : α} : x ∈ dropKey key k l ↔ x ∈ l ∧ k < key x := by
  cases l with
  | nil => simp [dropKey]
  | cons y l =>
    have tail : ∀ z ∈ l, k < key z := fun z hz =>
      lt_of_le_of_lt (least y (by simp)) (List.rel_of_pairwise_cons sorted hz)
    rw [dropKey]
    by_cases h : key y = k
    · rw [if_pos h]
      constructor
      · intro hx
        exact ⟨List.mem_cons_of_mem _ hx, tail x hx⟩
      · rintro ⟨hx, lt⟩
        cases List.mem_cons.mp hx with
        | inl e =>
          subst e
          exact absurd lt (by rw [h]; exact lt_irrefl k)
        | inr hx => exact hx
    · rw [if_neg h]
      constructor
      · intro hx
        refine ⟨hx, ?_⟩
        cases List.mem_cons.mp hx with
        | inl e =>
          subst e
          exact lt_of_le_of_ne (least x (by simp)) (Ne.symm h)
        | inr hx => exact tail x hx
      · exact fun h => h.1

lemma dropKey_sublist (l : List α) : (dropKey key k l).Sublist l := by
  cases l with
  | nil => exact List.Sublist.refl _
  | cons x l =>
    rw [dropKey]
    split
    · exact List.sublist_cons_self _ _
    · exact List.Sublist.refl _

/-- Picking a larger key does not see the drop. -/
lemma pick_dropKey {l : List α} (sorted : l.Pairwise (key · < key ·)) (least : ∀ x ∈ l, k ≤ key x)
    {k' : κ} (lt : k < k') : pick key k' (dropKey key k l) = pick key k' l := by
  cases h : pick key k' l with
  | none =>
    refine pick_eq_none.mpr ?_
    intro x hx
    exact pick_eq_none.mp h x ((dropKey_sublist l).subset hx)
  | some x =>
    obtain ⟨hx, rfl⟩ := (pick_eq_some sorted).mp h
    exact (pick_eq_some (sorted.sublist (dropKey_sublist l))).mpr
      ⟨(mem_dropKey sorted least).mpr ⟨hx, lt⟩, rfl⟩

namespace IsMerge

variable {lists : List (List α)} {rows rows' : List (Row κ α)}

/-- There are no rows for empty lists. -/
lemma nil (empty : ∀ l ∈ lists, l = []) : IsMerge key lists [] := by
  refine ⟨.nil, by simp, ?_, by simp⟩
  intro l hl x hx
  rw [empty l hl] at hx
  cases hx

/-- The elements with the least key make the first row. -/
lemma cons (sorted : ∀ l ∈ lists, l.Pairwise (key · < key ·))
    (least : ∀ l ∈ lists, ∀ x ∈ l, k ≤ key x) (attained : ∃ l ∈ lists, ∃ x ∈ l, key x = k)
    (merge : IsMerge key (lists.map (dropKey key k)) rows) :
    IsMerge key lists (⟨k, lists.map (pick key k)⟩ :: rows) := by
  have larger : ∀ r ∈ rows, k < r.key := by
    intro r hr
    obtain ⟨l', hl', x, hx, e⟩ := merge.inhabited r hr
    obtain ⟨l, hl, rfl⟩ := List.mem_map.mp hl'
    rw [← e]
    exact ((mem_dropKey (sorted l hl) (least l hl)).mp hx).2
  refine ⟨List.pairwise_cons.mpr ⟨larger, merge.increasing⟩, ?_, ?_, ?_⟩
  · intro r hr
    cases List.mem_cons.mp hr with
    | inl e => rw [e]
    | inr hr =>
      rw [merge.cells r hr, List.map_map]
      refine List.map_congr_left ?_
      intro l hl
      exact pick_dropKey (sorted l hl) (least l hl) (larger r hr)
  · intro l hl x hx
    cases lt_or_eq_of_le (least l hl x hx) with
    | inl lt =>
      have hx' := (mem_dropKey (sorted l hl) (least l hl)).mpr ⟨hx, lt⟩
      obtain ⟨r, hr, e⟩ := merge.covers _ (List.mem_map_of_mem hl) x hx'
      exact ⟨r, List.mem_cons_of_mem _ hr, e⟩
    | inr e => exact ⟨_, List.mem_cons_self, e⟩
  · intro r hr
    cases List.mem_cons.mp hr with
    | inl e =>
      obtain ⟨l, hl, x, hx, e'⟩ := attained
      exact ⟨l, hl, x, hx, by rw [e, e']⟩
    | inr hr =>
      obtain ⟨l', hl', x, hx, e⟩ := merge.inhabited r hr
      obtain ⟨l, hl, rfl⟩ := List.mem_map.mp hl'
      exact ⟨l, hl, x, (dropKey_sublist l).subset hx, e⟩

/-- The keys of the rows are the keys of the elements. -/
lemma mem_keys (merge : IsMerge key lists rows) :
    k ∈ rows.map (·.key) ↔ ∃ l ∈ lists, ∃ x ∈ l, key x = k := by
  constructor
  · intro h
    obtain ⟨r, hr, rfl⟩ := List.mem_map.mp h
    exact merge.inhabited r hr
  · rintro ⟨l, hl, x, hx, rfl⟩
    obtain ⟨r, hr, e⟩ := merge.covers l hl x hx
    exact List.mem_map.mpr ⟨r, hr, e⟩

/-- Lists have one merge. -/
lemma unique (merge : IsMerge key lists rows) (merge' : IsMerge key lists rows') : rows = rows' := by
  have keys : rows.map (·.key) = rows'.map (·.key) := by
    refine List.Pairwise.eq_of_mem_iff (r := (· < ·)) ?_ ?_ fun k => ?_
    · exact List.pairwise_map.mpr merge.increasing
    · exact List.pairwise_map.mpr merge'.increasing
    · rw [merge.mem_keys, merge'.mem_keys]
  have row : ∀ {rows}, IsMerge key lists rows →
      rows = (rows.map (·.key)).map fun k => ⟨k, lists.map (pick key k)⟩ := by
    intro rows merge
    rw [List.map_map]
    conv_lhs => rw [← List.map_id' rows]
    refine List.map_congr_left ?_
    intro r hr
    simp only [Function.comp_apply, ← merge.cells r hr]
  rw [row merge, row merge', keys]

/-- A test that goes by the key may be made before the merge or after it. -/
lemma filter (merge : IsMerge key lists rows) (sorted : ∀ l ∈ lists, l.Pairwise (key · < key ·))
    {keep : α → Bool} (byKey : ∀ l ∈ lists, ∀ x ∈ l, ∀ l' ∈ lists, ∀ y ∈ l', key x = key y →
      keep x = keep y) :
    IsMerge key (lists.map (·.filter keep)) (rows.filter fun r => r.cells.any (·.any keep)) := by
  have kept : ∀ r ∈ rows, (r.cells.any (·.any keep) = true ↔
      ∃ l ∈ lists, ∃ x ∈ l, key x = r.key ∧ keep x = true) := by
    intro r hr
    rw [merge.cells r hr, List.any_eq_true]
    constructor
    · rintro ⟨c, hc, hkeep⟩
      obtain ⟨l, hl, rfl⟩ := List.mem_map.mp hc
      obtain ⟨x, hpick, hx⟩ := Option.any_eq_true _ _ |>.mp hkeep
      obtain ⟨hmem, hkey⟩ := (pick_eq_some (sorted l hl)).mp hpick
      exact ⟨l, hl, x, hmem, hkey, hx⟩
    · rintro ⟨l, hl, x, hx, hkey, hkeep⟩
      have hpick := (pick_eq_some (sorted l hl)).mpr ⟨hx, hkey⟩
      exact ⟨_, List.mem_map_of_mem hl, by rw [hpick]; exact hkeep⟩
  refine ⟨merge.increasing.filter _, ?_, ?_, ?_⟩
  · intro r hr
    obtain ⟨hr, any⟩ := List.mem_filter.mp hr
    obtain ⟨l₀, hl₀, x₀, hx₀, hkey₀, hkeep₀⟩ := (kept r hr).mp any
    rw [merge.cells r hr, List.map_map]
    refine List.map_congr_left ?_
    intro l hl
    simp only [Function.comp_apply]
    cases h : pick key r.key l with
    | none =>
      symm
      refine pick_eq_none.mpr ?_
      intro x hx
      exact pick_eq_none.mp h x (List.mem_filter.mp hx).1
    | some x =>
      obtain ⟨hx, hkey⟩ := (pick_eq_some (sorted l hl)).mp h
      symm
      refine (pick_eq_some ((sorted l hl).filter _)).mpr ⟨List.mem_filter.mpr ⟨hx, ?_⟩, hkey⟩
      rw [byKey l hl x hx l₀ hl₀ x₀ hx₀ (hkey.trans hkey₀.symm), hkeep₀]
  · intro l' hl' x hx
    obtain ⟨l, hl, rfl⟩ := List.mem_map.mp hl'
    obtain ⟨hx, hkeep⟩ := List.mem_filter.mp hx
    obtain ⟨r, hr, e⟩ := merge.covers l hl x hx
    exact ⟨r, List.mem_filter.mpr ⟨hr, (kept r hr).mpr ⟨l, hl, x, hx, e.symm, hkeep⟩⟩, e⟩
  · intro r hr
    obtain ⟨hr, any⟩ := List.mem_filter.mp hr
    obtain ⟨l, hl, x, hx, hkey, hkeep⟩ := (kept r hr).mp any
    exact ⟨_, List.mem_map_of_mem hl, x, List.mem_filter.mpr ⟨hx, hkeep⟩, hkey⟩

end IsMerge

/-- How many elements there are in the lists. -/
def total (lists : List (List α)) : ℕ := (lists.map List.length).sum

/-- Shorter lists have no more elements. -/
lemma total_map_le {f : List α → List α} (shorter : ∀ l, (f l).length ≤ l.length)
    (lists : List (List α)) : total (lists.map f) ≤ total lists := by
  unfold total
  rw [List.map_map]
  exact List.sum_le_sum fun l _ => shorter l

/-- Dropping a key that is there makes the lists smaller. -/
lemma total_dropKey_lt {lists : List (List α)} (attained : ∃ l ∈ lists, ∃ x ∈ l.head?, key x = k) :
    total (lists.map (dropKey key k)) < total lists := by
  have le : ∀ l : List α, (dropKey key k l).length ≤ l.length :=
    fun l => (dropKey_sublist l).length_le
  obtain ⟨l, hl, x, hx, e⟩ := attained
  have lt : (dropKey key k l).length < l.length := by
    cases l with
    | nil => cases hx
    | cons y l =>
      cases hx
      simp [dropKey, e]
  unfold total
  rw [List.map_map]
  exact List.sum_lt_sum _ _ (fun l _ => le l) ⟨l, hl, lt⟩

/-- Where there are elements, some first element has the least key. -/
lemma exists_least {lists : List (List α)} (sorted : ∀ l ∈ lists, l.Pairwise (key · < key ·))
    (some_elem : ∃ l ∈ lists, l ≠ []) :
    ∃ k, (∀ l ∈ lists, ∀ x ∈ l, k ≤ key x) ∧ ∃ l ∈ lists, ∃ x ∈ l.head?, key x = k := by
  induction lists with
  | nil => simp at some_elem
  | cons l lists ih =>
    have head_least : ∀ x r, l = x :: r → ∀ y ∈ l, key x ≤ key y := by
      rintro x r rfl y hy
      cases List.mem_cons.mp hy with
      | inl e => rw [e]
      | inr hy => exact le_of_lt (List.rel_of_pairwise_cons (sorted _ (by simp)) hy)
    by_cases rest : ∃ l ∈ lists, l ≠ []
    · obtain ⟨k, least, l', hl', x', hx', e'⟩ := ih (fun l hl => sorted l (by simp [hl])) rest
      cases hl : l with
      | nil =>
        refine ⟨k, ?_, l', by simp [hl'], x', hx', e'⟩
        intro m hm y hy
        cases List.mem_cons.mp hm with
        | inl e =>
          rw [e] at hy
          cases hy
        | inr hm => exact least m hm y hy
      | cons x r =>
        cases le_total k (key x) with
        | inl le =>
          refine ⟨k, ?_, l', by simp [hl'], x', hx', e'⟩
          intro m hm y hy
          cases List.mem_cons.mp hm with
          | inl e => exact le.trans (head_least x r hl y (by rw [hl, ← e]; exact hy))
          | inr hm => exact least m hm y hy
        | inr le =>
          refine ⟨key x, ?_, x :: r, by simp, x, by simp, rfl⟩
          intro m hm y hy
          cases List.mem_cons.mp hm with
          | inl e => exact head_least x r hl y (by rw [hl, ← e]; exact hy)
          | inr hm => exact le.trans (least m hm y hy)
    · obtain ⟨m, hm, ne⟩ := some_elem
      have empty : ∀ m ∈ lists, m = [] := by
        intro m hm
        by_contra ne
        exact rest ⟨m, hm, ne⟩
      cases List.mem_cons.mp hm with
      | inl e =>
        cases hl : l with
        | nil => exact absurd (e.trans hl) ne
        | cons x r =>
          refine ⟨key x, ?_, x :: r, by simp, x, by simp, rfl⟩
          intro m hm y hy
          cases List.mem_cons.mp hm with
          | inl e => exact head_least x r hl y (by rw [hl, ← e]; exact hy)
          | inr hm =>
            rw [empty m hm] at hy
            cases hy
      | inr hm => exact absurd (empty m hm) ne

/-- Sorted lists have a merge. -/
lemma exists_isMerge (lists : List (List α)) (sorted : ∀ l ∈ lists, l.Pairwise (key · < key ·)) :
    ∃ rows, IsMerge key lists rows := by
  induction h : total lists using Nat.strong_induction_on generalizing lists with
  | _ n ih =>
    by_cases some_elem : ∃ l ∈ lists, l ≠ []
    · obtain ⟨k, least, attained⟩ := exists_least sorted some_elem
      have lt := total_dropKey_lt attained
      have sorted' : ∀ l ∈ lists.map (dropKey key k), l.Pairwise (key · < key ·) := by
        intro l' hl'
        obtain ⟨l, hl, rfl⟩ := List.mem_map.mp hl'
        exact (sorted l hl).sublist (dropKey_sublist l)
      obtain ⟨rows, merge⟩ := ih _ (h ▸ lt) _ sorted' rfl
      obtain ⟨l, hl, x, hx, e⟩ := attained
      exact ⟨_, merge.cons sorted least ⟨l, hl, x, List.mem_of_head? hx, e⟩⟩
    · refine ⟨[], .nil ?_⟩
      intro l hl
      by_contra ne
      exact some_elem ⟨l, hl, ne⟩

/-- There are at most as many rows as elements. -/
lemma IsMerge.length_le {lists : List (List α)} {rows : List (Row κ α)}
    (merge : IsMerge key lists rows) : rows.length ≤ total lists := by
  have nodup : (rows.map (·.key)).Nodup :=
    List.pairwise_map.mpr (merge.increasing.imp fun lt => ne_of_lt lt)
  have sub : rows.map (·.key) ⊆ lists.flatten.map key := by
    intro k hk
    obtain ⟨l, hl, x, hx, e⟩ := merge.mem_keys.mp hk
    exact List.mem_map.mpr ⟨x, List.mem_flatten.mpr ⟨l, hl, hx⟩, e⟩
  have le := (List.subperm_of_subset nodup sub).length_le
  rw [List.length_map, List.length_map, List.length_flatten] at le
  exact le

end Lcls2.Lib
