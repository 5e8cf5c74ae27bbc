import Lcls2.Psana.MergeViews
import Lcls2.Lib.Scan

/-!
# Building all events

One call of `build_proxy_event` makes the next row of the merge of the selected datagrams, and so the
calls of `build` that it takes to use up the views make all of them (`buildAll_spec`). The headline is
`build_merges_views`: the events do not depend on how they are cut into batches, and a selection only
takes out the L1Accept events that were not selected. `build` has a limit on the events it collects;
`build_over_limit` shows what happens beyond it.
-/

namespace Lcls2.Psana
open Lcls2.Lib MyPyBuffer

/-- The event of a row of the merge. -/
def eventOf (destination : Option (ProxyEvent → Int)) (row : Row Nat PyDgram) : ProxyEvent :=
  let proxyEvt : ProxyEvent :=
    { pydgrams := row.cells, destination := 0,
      service := ((row.cells.findSome? id).map (·.service)).getD 0, timestamp := row.key }
  { proxyEvt with
    destination := if proxyEvt.service = l1Accept then (destination.map (· proxyEvt)).getD 0 else 0 }

section views
variable {sel : List Nat} {lists : List (List PyDgram)} {ts : Nat}

/-- What the selection keeps is not in the part that it skips. -/
lemma mem_dropWhile_keep {l : List PyDgram} {d : PyDgram} (hd : d ∈ l) (hkeep : keep sel d = true) :
    d ∈ l.dropWhile fun d => !keep sel d := by
  induction l with
  | nil => cases hd
  | cons x l ih =>
    by_cases h : keep sel x = true
    · rw [List.dropWhile_cons_of_neg (by simp [h])]
      exact hd
    · rw [List.dropWhile_cons_of_pos (by simpa using h)]
      cases List.mem_cons.mp hd with
      | inl e =>
        subst e
        exact absurd hkeep h
      | inr hd => exact ih hd

/-- Transitions are always kept. -/
lemma keep_transition {d : PyDgram} (h : d.service ≠ l1Accept) : keep sel d = true := by
  have : skipped sel d = false := by simp [skipped, h]
  simp [keep, this]

variable (sel) in
/-- Skipping what is not selected leaves views. -/
lemma Views.dropWhile (views : Views lists) :
    Views (lists.map (·.dropWhile fun d => !keep sel d)) := by
  refine ⟨?_, ?_, ?_⟩
  · intro l' hl'
    obtain ⟨l, hl, rfl⟩ := List.mem_map.mp hl'
    exact (views.sorted l hl).sublist (List.dropWhile_sublist _)
  · intro l' hl' d hd
    obtain ⟨l, hl, rfl⟩ := List.mem_map.mp hl'
    exact views.nonzero l hl d ((List.dropWhile_sublist _).subset hd)
  · intro l' hl' d hd transition m' hm'
    obtain ⟨l, hl, rfl⟩ := List.mem_map.mp hl'
    obtain ⟨m, hm, rfl⟩ := List.mem_map.mp hm'
    obtain ⟨d', hd', hts, htr⟩ :=
      views.transitions l hl d ((List.dropWhile_sublist _).subset hd) transition m hm
    exact ⟨d', mem_dropWhile_keep hd' (keep_transition htr), hts, htr⟩

/-- Dropping the least timestamp leaves views. -/
lemma Views.dropKey (views : Views lists) (least : ∀ l ∈ lists, ∀ x ∈ l, ts ≤ x.timestamp) :
    Views (lists.map (dropKey PyDgram.timestamp ts)) := by
  refine ⟨?_, ?_, ?_⟩
  · intro l' hl'
    obtain ⟨l, hl, rfl⟩ := List.mem_map.mp hl'
    exact (views.sorted l hl).sublist (dropKey_sublist l)
  · intro l' hl' d hd
    obtain ⟨l, hl, rfl⟩ := List.mem_map.mp hl'
    exact views.nonzero l hl d ((dropKey_sublist l).subset hd)
  · intro l' hl' d hd transition m' hm'
    obtain ⟨l, hl, rfl⟩ := List.mem_map.mp hl'
    obtain ⟨m, hm, rfl⟩ := List.mem_map.mp hm'
    obtain ⟨hd, lt⟩ := (mem_dropKey (views.sorted l hl) (least l hl)).mp hd
    obtain ⟨d', hd', hts, htr⟩ := views.transitions l hl d hd transition m hm
    exact ⟨d', (mem_dropKey (views.sorted m hm) (least m hm)).mpr ⟨hd', hts ▸ lt⟩, hts, htr⟩

/-- After the skipping, the first datagram is the first one selected. -/
lemma head_dropWhile (l : List PyDgram) :
    (l.dropWhile fun d => !keep sel d).head? = (l.filter (keep sel)).head? := by
  induction l with
  | nil => rfl
  | cons d l ih =>
    by_cases h : keep sel d = true
    · rw [List.dropWhile_cons_of_neg (by simp [h]), List.filter_cons_of_pos h]
      rfl
    · rw [List.dropWhile_cons_of_pos (by simpa using h), ih, List.filter_cons_of_neg h]

/-- Dropping a timestamp and selecting can change places when the first datagram is selected. -/
lemma filter_dropKey (l : List PyDgram) :
    (dropKey PyDgram.timestamp ts (l.dropWhile fun d => !keep sel d)).filter (keep sel) =
      dropKey PyDgram.timestamp ts (l.filter (keep sel)) := by
  induction l with
  | nil => rfl
  | cons d l ih =>
    by_cases h : keep sel d = true
    · rw [List.dropWhile_cons_of_neg (by simp [h]), List.filter_cons_of_pos h, dropKey, dropKey]
      by_cases same : d.timestamp = ts
      · rw [if_pos same, if_pos same]
      · rw [if_neg same, if_neg same, List.filter_cons_of_pos h]
    · rw [List.dropWhile_cons_of_pos (by simpa using h), ih, List.filter_cons_of_neg h]

variable (sel) in
/-- The selected datagrams of sorted views are sorted. -/
lemma Views.sorted_filter (views : Views lists) :
    ∀ l ∈ lists.map (·.filter (keep sel)),
      l.Pairwise (PyDgram.timestamp · < PyDgram.timestamp ·) := by
  intro l' hl'
  obtain ⟨l, hl, rfl⟩ := List.mem_map.mp hl'
  exact (views.sorted l hl).filter _

end views

section build
variable {dsparms : DsParms} {bufs : List MyPyBuffer} {lists : List (List PyDgram)}
  {rows : List (Row Nat PyDgram)}

/-- The rows that are still to come when these datagrams are. -/
def Rows (dsparms : DsParms) (lists : List (List PyDgram)) (rows : List (Row Nat PyDgram)) : Prop :=
  IsMerge PyDgram.timestamp (lists.map (·.filter (keep dsparms.timestamps))) rows

/-- Whether the filter lets the event of a row pass; it is asked about L1Accepts only. -/
def passesFilter (dsparms : DsParms) (row : Row Nat PyDgram) : Bool :=
  (eventOf none row).service ≠ l1Accept || dsparms.filter.all (· { eventOf none row with destination := 0 })

/-- Without a filter every event passes. -/
lemma filter_passes (noFilter : dsparms.filter = none) : rows.filter (passesFilter dsparms) = rows := by
  rw [List.filter_eq_self]
  intro row _
  rw [passesFilter, noFilter]
  exact Bool.or_true _

/-- An event that has all its datagrams or is an L1Accept passes if the filter lets it. -/
lemma finishEvent_spec {evt : ProxyEvent} (whole : evt.service ≠ l1Accept → ∀ c ∈ evt.pydgrams, c ≠ none) :
    finishEvent dsparms evt = .ok (if evt.service ≠ l1Accept || dsparms.filter.all (· evt) then
      some { evt with
        destination := if evt.service = l1Accept then (dsparms.destination.map (· evt)).getD 0 else 0 }
      else none) := by
  have complete : ¬ (evt.service ≠ l1Accept ∧ evt.pydgrams.any Option.isNone = true) := by
    rintro ⟨transition, missing⟩
    obtain ⟨c, hc, none⟩ := List.any_eq_true.mp missing
    exact whole transition c hc (Option.isNone_iff_eq_none.mp none)
  have accept : (if evt.service = l1Accept then dsparms.filter.all (· evt) else true) =
      (evt.service ≠ l1Accept || dsparms.filter.all (· evt)) := by
    split
    next l1 => simp [l1]
    next transition => simp [transition]
  unfold finishEvent
  extract_lets callback accepted destRank
  have same : accepted = (evt.service ≠ l1Accept || dsparms.filter.all (· evt)) := accept
  rw [same, if_neg complete]
  split
  · rfl
  · rfl

/-- The first loop found no datagram. -/
lemma rest_of_empty {slots : List (Slot × MyPyBuffer)} (adv : List.Forall₂ Advanced lists slots)
    (empty : ∀ l ∈ lists, l = []) : List.Forall₂ Rest (slots.map (·.2)) lists := by
  induction adv with
  | nil => exact .nil
  | @cons l p lists slots h _ ih =>
    have none := empty l (by simp)
    subst none
    exact .cons h.2 (ih fun m hm => empty m (by simp [hm]))

/-- A call of `build_proxy_event` takes the next row, if there is one, and makes its event if the filter lets
    it. -/
lemma buildProxyEvent_spec (rest : List.Forall₂ Rest bufs lists) (views : Views lists)
    (merge : Rows dsparms lists rows) :
    ∃ bufs' lists', List.Forall₂ Rest bufs' lists' ∧ Views lists' ∧ lists'.length = lists.length ∧
      ((rows = [] ∧ total lists' = 0 ∧ buildProxyEvent dsparms bufs = .ok (none, bufs')) ∨
        ∃ row rows', rows = row :: rows' ∧ Rows dsparms lists' rows' ∧
          total lists' < total lists ∧ row.cells.length = lists.length ∧
          buildProxyEvent dsparms bufs = .ok (if passesFilter dsparms row then
            some (eventOf dsparms.destination row) else none, bufs')) := by
  obtain ⟨slots, hslots, adv⟩ := advanceAll_spec dsparms.timestamps rest
  have slot_eq := advanced_slots adv
  have views' := views.dropWhile dsparms.timestamps
  generalize hls : lists.map (·.dropWhile fun d => !keep dsparms.timestamps d) = ls at *
  have length : ls.length = lists.length := by rw [← hls, List.length_map]
  -- the heads after the skipping are the heads of what is selected
  have heads : ∀ k, (lists.map (·.filter (keep dsparms.timestamps))).map
      (fun l => l.head?.filter (PyDgram.timestamp · = k)) =
      ls.map fun l => l.head?.filter (PyDgram.timestamp · = k) := by
    intro k
    rw [← hls, List.map_map, List.map_map]
    refine List.map_congr_left ?_
    intro l _
    simp only [Function.comp_apply, head_dropWhile]
  rw [buildProxyEvent, hslots]
  simp only
  rw [slot_eq]
  cases smallest_spec ls views'.nonzero 0 0 none with
  | inl none =>
    obtain ⟨found, zero⟩ := none
    have empty : ∀ l ∈ ls, l = [] := by
      intro l hl
      cases l with
      | nil => rfl
      | cons d l => exact absurd rfl (zero _ hl d rfl).1
    refine ⟨slots.map (·.2), ls, rest_of_empty adv empty, views', length, .inl ⟨?_, ?_, ?_⟩⟩
    · refine merge.unique (.nil ?_)
      intro l' hl'
      obtain ⟨l, hl, rfl⟩ := List.mem_map.mp hl'
      have h := empty _ (hls ▸ List.mem_map_of_mem hl)
      rw [← List.head?_eq_none_iff, ← head_dropWhile, h]
      rfl
    · have h : ls.map List.length = ls.map fun _ => 0 :=
        List.map_congr_left fun l hl => by rw [empty l hl]; rfl
      rw [total, h]
      simp
    · rw [found]
  | inr some =>
    obtain ⟨pre, l, post, d, split, hd, found, _, before, after⟩ := some
    have hl : l ∈ ls := by simp [split]
    have hdl : d ∈ l := List.mem_of_head? hd
    have least : ∀ m ∈ ls, ∀ x ∈ m, d.timestamp ≤ x.timestamp := by
      intro m hm
      refine least_of_head (views'.sorted m hm) ?_
      intro x hx
      rw [split] at hm
      cases List.mem_append.mp hm with
      | inl hm => exact Nat.le_of_lt (before m hm x hx)
      | inr hm =>
        cases List.mem_cons.mp hm with
        | inl e =>
          subst e
          rw [hd] at hx
          cases hx
          exact le_refl _
        | inr hm => exact after m hm x hx
    have main : ∀ j m, ls[j]? = some m → 0 + j = 0 + pre.length →
        ∃ x ∈ m.head?, x.timestamp = d.timestamp := by
      intro j m hm e
      rw [Nat.zero_add, Nat.zero_add] at e
      subst e
      rw [split, List.getElem?_append_right (le_refl _), Nat.sub_self] at hm
      cases hm
      exact ⟨d, hd, rfl⟩
    obtain ⟨cells, hcells, hpick, hrest⟩ := matchViews_spec adv main
    let row : Row Nat PyDgram :=
      ⟨d.timestamp, (lists.map (·.filter (keep dsparms.timestamps))).map
        (pick PyDgram.timestamp d.timestamp)⟩
    have sorted_sel := views.sorted_filter dsparms.timestamps
    have least_sel : ∀ m ∈ lists.map (·.filter (keep dsparms.timestamps)), ∀ x ∈ m,
        d.timestamp ≤ x.timestamp := by
      intro m' hm'
      obtain ⟨m, hm, rfl⟩ := List.mem_map.mp hm'
      refine least_of_head (sorted_sel _ hm') ?_
      intro x hx
      rw [← head_dropWhile] at hx
      exact least _ (hls ▸ List.mem_map_of_mem hm) x (List.mem_of_head? hx)
    have row_cells : row.cells = cells.map (·.1) := by
      rw [hpick, ← heads]
      refine List.map_congr_left ?_
      intro m hm
      exact pick_head (sorted_sel m hm) (least_sel m hm)
    have first : row.cells.findSome? id = some d := by
      have skip : (pre.map fun l => l.head?.filter (·.timestamp = d.timestamp)).findSome? id =
          none := by
        rw [List.findSome?_eq_none_iff]
        intro c hc
        obtain ⟨m, hm, rfl⟩ := List.mem_map.mp hc
        cases h : m.head? with
        | none => rfl
        | some x =>
          have := before m hm x h
          have ne : ¬ x.timestamp = d.timestamp := by omega
          simp [ne, Option.filter_some]
      rw [row_cells, hpick, split, List.map_append, List.findSome?_append, skip, List.map_cons, hd]
      simp [Option.filter_some]
    have service : ((slots[0 + pre.length]?).map (·.1.service)).getD 0 = d.service := by
      have h : (slots.map (·.1))[0 + pre.length]? = some (slotOf l) := by
        rw [slot_eq, split, Nat.zero_add]
        simp
      rw [List.getElem?_map] at h
      cases hslot : slots[0 + pre.length]? with
      | none =>
        rw [hslot] at h
        cases h
      | some p =>
        rw [hslot] at h
        have h : p.1 = slotOf l := Option.some.inj h
        cases l with
        | nil => cases hd
        | cons x l =>
          cases hd
          simp [h, slotOf]
    have whole : d.service ≠ l1Accept → ∀ c ∈ row.cells, c ≠ none := by
      intro transition c hc none
      rw [row_cells, hpick] at hc
      obtain ⟨m, hm, e⟩ := List.mem_map.mp hc
      rw [← pick_head (views'.sorted m hm) (least m hm), none] at e
      obtain ⟨d', hd', hts, _⟩ := views'.transitions l hl d hdl transition m hm
      exact pick_eq_none.mp e d' hd' hts
    have drop_eq : (lists.map (·.filter (keep dsparms.timestamps))).map
        (dropKey PyDgram.timestamp d.timestamp) =
        (ls.map (dropKey PyDgram.timestamp d.timestamp)).map
          (·.filter (keep dsparms.timestamps)) := by
      rw [← hls, List.map_map, List.map_map, List.map_map]
      refine List.map_congr_left ?_
      intro m _
      exact (filter_dropKey m).symm
    obtain ⟨rows', merge'⟩ := exists_isMerge _
      ((views'.dropKey least).sorted_filter dsparms.timestamps)
    refine ⟨cells.map (·.2), ls.map (dropKey PyDgram.timestamp d.timestamp), hrest,
      views'.dropKey least, by rw [List.length_map, length], .inr ⟨row, rows', ?_, merge', ?_, ?_, ?_⟩⟩
    · refine merge.unique (.cons sorted_sel least_sel ?_ (drop_eq ▸ merge'))
      obtain ⟨m, hm, rfl⟩ := List.mem_map.mp (hls ▸ hl)
      rw [head_dropWhile] at hd
      exact ⟨_, List.mem_map_of_mem hm, d, List.mem_of_head? hd, rfl⟩
    · refine Nat.lt_of_lt_of_le (total_dropKey_lt ⟨l, hl, d, hd, rfl⟩) ?_
      rw [← hls]
      exact total_map_le (fun m => (List.dropWhile_sublist _).length_le) lists
    · simp [row]
    · rw [found]
      simp only
      rw [hcells]
      simp only
      rw [service, finishEvent_spec (by rw [← row_cells]; exact whole)]
      simp only [passesFilter, eventOf, first, ← row_cells, Option.map_some, Option.getD_some]
      rfl

/-- There is more as long as datagrams are to come. -/
lemma hasMore_iff (rest : List.Forall₂ Rest bufs lists) : hasMore bufs = true ↔ 0 < total lists := by
  induction rest with
  | nil => simp [hasMore, total]
  | @cons b l bufs lists h _ ih =>
    have head := h.lt_iff
    have length : l ≠ [] ↔ 0 < l.length := List.length_pos_iff.symm
    rw [hasMore] at ih ⊢
    simp only [List.any_cons, Bool.or_eq_true, decide_eq_true_eq, total, List.map_cons,
      List.sum_cons] at ih ⊢
    rw [ih, head, length]
    omega

/-- What one call of `build` comes to: the events of those of the next `n` rows that pass the filter. -/
structure Built (dsparms : DsParms) (lists : List (List PyDgram)) (rows : List (Row Nat PyDgram))
    (cnIntgEvents n : Nat) (bufs' : List MyPyBuffer) (lists' : List (List PyDgram)) : Prop where
  rest : List.Forall₂ Rest bufs' lists'
  views : Views lists'
  length : lists'.length = lists.length
  merge : Rows dsparms lists' (rows.drop n)
  le : n ≤ rows.length
  total : total lists' ≤ total lists
  progress : cnIntgEvents < dsparms.batchSize → 0 < Lib.total lists →
    Lib.total lists' < Lib.total lists
  limit : dsparms.intgStreamId = none → cnIntgEvents ≤ dsparms.batchSize →
    cnIntgEvents + ((rows.take n).filter (passesFilter dsparms)).length ≤ dsparms.batchSize
  full : dsparms.intgStreamId = none →
    dsparms.batchSize ≤ cnIntgEvents + ((rows.take n).filter (passesFilter dsparms)).length ∨
      Lib.total lists' = 0

variable (dsparms) in
/-- Counting an event does not fail when the integrating stream is one of the views. -/
lemma intgEvents_spec (evt : ProxyEvent)
    (index : ∀ i, dsparms.intgStreamId = some i → i < evt.pydgrams.length) :
    ∃ k, intgEvents dsparms evt = .ok k ∧ (dsparms.intgStreamId = none → k = 1) := by
  unfold intgEvents
  cases hintg : dsparms.intgStreamId with
  | none => exact ⟨1, rfl, fun _ => rfl⟩
  | some stream =>
    have get := List.getElem?_eq_getElem (index stream hintg)
    simp only
    rw [get]
    exact ⟨_, rfl, fun h => by cases h⟩

/-- The loop of `build` makes the next events. -/
lemma buildLoop_spec (cnIntgEvents : Nat) {fuel : Nat}
    (index : ∀ i, dsparms.intgStreamId = some i → i < lists.length)
    (rest : List.Forall₂ Rest bufs lists) (views : Views lists) (merge : Rows dsparms lists rows)
    (hfuel : total lists < fuel) :
    ∃ n bufs' lists',
      buildLoop dsparms fuel cnIntgEvents bufs =
        .ok (((rows.take n).filter (passesFilter dsparms)).map (eventOf dsparms.destination), bufs') ∧
      Built dsparms lists rows cnIntgEvents n bufs' lists' := by
  induction fuel generalizing cnIntgEvents bufs lists rows with
  | zero => omega
  | succ fuel ih =>
    have more := hasMore_iff rest
    rw [buildLoop]
    by_cases go : cnIntgEvents < dsparms.batchSize ∧ hasMore bufs = true
    · rw [if_pos go]
      rw [more] at go
      obtain ⟨bufs₁, lists₁, rest₁, views₁, length₁, outcome⟩ :=
        buildProxyEvent_spec rest views merge
      cases outcome with
      | inl none =>
        -- What is left is not selected, and is used up.
        obtain ⟨rfl, empty, built⟩ := none
        rw [built]
        have merge₁ : Rows dsparms lists₁ [] := by
          refine .nil ?_
          intro l' hl'
          obtain ⟨l, hl, rfl⟩ := List.mem_map.mp hl'
          have zero : l.length = 0 := by
            have := List.single_le_sum (by simp) _ (List.mem_map_of_mem (f := List.length) hl)
            rw [total] at empty
            omega
          rw [List.eq_nil_of_length_eq_zero zero]
          rfl
        obtain ⟨n, bufs', lists', hloop, b⟩ := @ih bufs₁ lists₁ [] cnIntgEvents
          (fun i hi => by rw [length₁]; exact index i hi) rest₁ views₁ merge₁ (by omega)
        refine ⟨n, bufs', lists', hloop, b.rest, b.views, b.length.trans length₁, b.merge, b.le, ?_,
          ?_, b.limit, b.full⟩
        · have := b.total
          omega
        · have := b.total
          omega
      | inr some =>
        obtain ⟨row, rows₁, rfl, merge₁, lt, cells, built⟩ := some
        rw [built]
        have index₁ : ∀ i, dsparms.intgStreamId = some i → i < lists₁.length :=
          fun i hi => by rw [length₁]; exact index i hi
        cases pass : passesFilter dsparms row with
        | false =>
          obtain ⟨n, bufs', lists', hloop, b⟩ := @ih bufs₁ lists₁ rows₁ cnIntgEvents index₁ rest₁ views₁ merge₁
            (by omega)
          have total' := b.total
          have rejected : ((row :: rows₁).take (n + 1)).filter (passesFilter dsparms) =
              (rows₁.take n).filter (passesFilter dsparms) := by
            rw [List.take_succ_cons, List.filter_cons_of_neg (by rw [pass]; exact Bool.false_ne_true)]
          refine ⟨n + 1, bufs', lists', ?_, b.rest, b.views, b.length.trans length₁, b.merge, ?_, ?_, ?_, ?_, ?_⟩
          · rw [rejected]
            exact hloop
          · exact Nat.succ_le_succ b.le
          · omega
          · omega
          · rw [rejected]
            exact b.limit
          · rw [rejected]
            exact b.full
        | true =>
          -- An event counts towards the batch, or only those of the integrating stream do.
          obtain ⟨k, hk, one⟩ := intgEvents_spec dsparms (eventOf dsparms.destination row)
            fun i hi => cells.symm ▸ index i hi
          obtain ⟨n, bufs', lists', hloop, b⟩ := @ih bufs₁ lists₁ rows₁ (cnIntgEvents + k) index₁ rest₁ views₁
            merge₁ (by omega)
          have total' := b.total
          have kept : ((row :: rows₁).take (n + 1)).filter (passesFilter dsparms) =
              row :: (rows₁.take n).filter (passesFilter dsparms) := by
            rw [List.take_succ_cons, List.filter_cons_of_pos pass]
          refine ⟨n + 1, bufs', lists', ?_, b.rest, b.views, b.length.trans length₁, b.merge, ?_, ?_, ?_, ?_, ?_⟩
          · rw [kept]
            simp only [if_true, hk, hloop, List.map_cons]
          · exact Nat.succ_le_succ b.le
          · omega
          · omega
          · intro hintg _
            have := one hintg
            have := b.limit hintg (by omega)
            rw [kept, List.length_cons]
            omega
          · intro hintg
            have := one hintg
            have := b.full hintg
            rw [kept, List.length_cons]
            omega
    · rw [if_neg go]
      rw [more] at go
      refine ⟨0, bufs, lists, by simp, rest, views, rfl, merge, Nat.zero_le _, le_refl _, ?_, ?_, ?_⟩
      · intro h₁ h₂
        exact absurd ⟨h₁, h₂⟩ go
      · exact fun _ h => h
      · intro _
        omega

/-- No more rows than datagrams. -/
lemma Rows.length_le (merge : Rows dsparms lists rows) :
    rows.length ≤ total lists := by
  have le : total (lists.map (·.filter (keep dsparms.timestamps))) ≤ total lists :=
    total_map_le (fun l => List.length_filter_le _ l) lists
  exact (IsMerge.length_le merge).trans le

/-- Settings under which `build` stays within its limit. -/
def WithinLimit (dsparms : DsParms) (lists : List (List PyDgram)) : Prop :=
  (dsparms.intgStreamId = none ∧ dsparms.batchSize ≤ maxBatchSize) ∨ total lists ≤ maxBatchSize

/-- Calling `build` until the views are used up makes all events, in batches of some sizes. -/
lemma buildAll_spec (noFilter : dsparms.filter = none) (positive : 0 < dsparms.batchSize)
    {fuel calls : Nat}
    (index : ∀ i, dsparms.intgStreamId = some i → i < lists.length)
    (limit : WithinLimit dsparms lists)
    (rest : List.Forall₂ Rest bufs lists) (views : Views lists) (merge : Rows dsparms lists rows)
    (hfuel : total lists < fuel) (hcalls : total lists < calls) :
    ∃ batches, buildAll dsparms fuel calls bufs = .ok batches ∧
      batches.flatten = rows.map (eventOf dsparms.destination) := by
  induction calls generalizing bufs lists rows with
  | zero => omega
  | succ calls ih =>
    have more := hasMore_iff rest
    rw [buildAll]
    by_cases go : hasMore bufs = true
    · rw [if_pos go]
      obtain ⟨n, bufs', lists', hloop, b⟩ :=
        buildLoop_spec 0 index rest views merge hfuel
      rw [filter_passes noFilter] at hloop
      have limit_ := b.limit
      rw [filter_passes noFilter, List.length_take] at limit_
      -- Each build uses something up, so that the calls are enough.
      have lt := b.progress positive (more.mp go)
      have few : ((rows.take n).map (eventOf dsparms.destination)).length ≤ maxBatchSize := by
        rw [List.length_map, List.length_take]
        cases limit with
        | inl small =>
          have := limit_ small.1 (Nat.zero_le _)
          omega
        | inr small =>
          have := merge.length_le
          omega
      have limit' : WithinLimit dsparms lists' := by
        cases limit with
        | inl small => exact .inl small
        | inr small => exact .inr (b.total.trans small)
      obtain ⟨batches, hall, flat⟩ := ih (fun i hi => by rw [b.length]; exact index i hi) limit'
        b.rest b.views b.merge (by omega) (by omega)
      refine ⟨(rows.take n).map (eventOf dsparms.destination) :: batches, ?_, ?_⟩
      · rw [build, hloop]
        simp only
        rw [if_pos few]
        simp only
        rw [hall]
      · rw [List.flatten_cons, flat, ← List.map_append, List.take_append_drop]
    · rw [if_neg go]
      refine ⟨[], rfl, ?_⟩
      rw [more] at go
      have le := merge.length_le
      have none : rows = [] := List.eq_nil_of_length_eq_zero (by omega)
      rw [none]
      rfl

end build

section merged
variable {lists : List (List PyDgram)} {rows : List (Row Nat PyDgram)}
  {destination : Option (ProxyEvent → Int)}

/-- Without a selection everything is kept. -/
lemma filter_keep_nil (lists : List (List PyDgram)) :
    lists.map (·.filter (keep [])) = lists := by
  conv_rhs => rw [← List.map_id' lists]
  refine List.map_congr_left ?_
  intro l _
  rw [List.filter_eq_self]
  intro d _
  simp [keep]

/-- Buffers start with all datagrams of their views to come. -/
lemma rest_new (lists : List (List PyDgram)) :
    List.Forall₂ Rest (lists.map MyPyBuffer.new) lists := by
  induction lists with
  | nil => exact .nil
  | cons l lists ih => exact .cons ⟨[], rfl, rfl⟩ ih

/-- Datagrams of one timestamp are all transitions or all L1Accepts. -/
lemma Views.same_kind (views : Views lists) {l l'} (hl : l ∈ lists) (hl' : l' ∈ lists) {x y}
    (hx : x ∈ l) (hy : y ∈ l') (same : x.timestamp = y.timestamp) (h : x.service ≠ l1Accept) :
    y.service ≠ l1Accept := by
  obtain ⟨d, hd, hts, htr⟩ := views.transitions l hl x hx h l' hl'
  have e : d = y := sorted_inj (views.sorted l' hl') hd hy (hts.trans same)
  exact e ▸ htr

/-- The selection goes by the timestamp. -/
lemma Views.keep_byKey (views : Views lists) (sel : List Nat) :
    ∀ l ∈ lists, ∀ x ∈ l, ∀ l' ∈ lists, ∀ y ∈ l', x.timestamp = y.timestamp →
      keep sel x = keep sel y := by
  intro l hl x hx l' hl' y hy same
  have kind : (x.service = l1Accept) = (y.service = l1Accept) := by
    rw [eq_iff_iff, ← not_iff_not]
    exact ⟨views.same_kind hl hl' hx hy same, views.same_kind hl' hl hy hx same.symm⟩
  have skip : skipped sel x = skipped sel y := by
    rw [Bool.eq_iff_iff]
    simp only [skipped, same, Bool.and_eq_true, beq_iff_eq, kind]
  rw [keep, keep, skip]

/-- The first datagram of a row. -/
lemma row_first (views : Views lists) (merge : IsMerge PyDgram.timestamp lists rows) {row}
    (hrow : row ∈ rows) : ∃ l ∈ lists, ∃ d ∈ l, d.timestamp = row.key ∧
      row.cells.findSome? id = some d := by
  obtain ⟨l, hl, x, hx, key⟩ := merge.inhabited row hrow
  have hpick := (pick_eq_some (views.sorted l hl)).mpr ⟨hx, key⟩
  cases h : row.cells.findSome? id with
  | none =>
    have := List.findSome?_eq_none_iff.mp h (some x)
      (by rw [merge.cells row hrow]; exact List.mem_map.mpr ⟨l, hl, hpick⟩)
    cases this
  | some d =>
    obtain ⟨c, hc, e⟩ := List.exists_of_findSome?_eq_some h
    have e : c = some d := e
    subst e
    rw [merge.cells row hrow] at hc
    obtain ⟨m, hm, hpick⟩ := List.mem_map.mp hc
    obtain ⟨hd, hts⟩ := (pick_eq_some (views.sorted m hm)).mp hpick
    exact ⟨m, hm, d, hd, hts, rfl⟩

/-- A row is kept by a selection if its event is a transition or has a selected timestamp. -/
lemma row_kept (views : Views lists) (merge : IsMerge PyDgram.timestamp lists rows) {sel : List Nat}
    (nonempty : sel ≠ []) {row} (hrow : row ∈ rows) :
    row.cells.any (·.any (keep sel)) =
      decide ((eventOf destination row).service ≠ l1Accept ∨ row.key ∈ sel) := by
  obtain ⟨l, hl, d, hd, key, first⟩ := row_first views merge hrow
  have service : (eventOf destination row).service = d.service := by
    simp [eventOf, first]
  have keep_d : keep sel d = decide (d.service ≠ l1Accept ∨ row.key ∈ sel) := by
    have pos : sel.length > 0 := List.length_pos_iff.mpr nonempty
    rw [Bool.eq_iff_iff]
    simp only [keep, skipped, key, pos, decide_true, Bool.true_and, Bool.not_and, Bool.not_not,
      Bool.or_eq_true, List.contains_iff_mem, decide_eq_true_eq, Bool.not_eq_true', beq_eq_false_iff_ne]
    exact or_comm
  rw [service, ← keep_d]
  have cells : ∀ c ∈ row.cells, ∀ x ∈ c, keep sel x = keep sel d := by
    intro c hc x hx
    rw [merge.cells row hrow] at hc
    obtain ⟨m, hm, rfl⟩ := List.mem_map.mp hc
    obtain ⟨hxm, hts⟩ := (pick_eq_some (views.sorted m hm)).mp hx
    exact views.keep_byKey sel m hm x hxm l hl d hd (hts.trans key.symm)
  have mem : some d ∈ row.cells := by
    rw [merge.cells row hrow]
    exact List.mem_map.mpr ⟨l, hl, (pick_eq_some (views.sorted l hl)).mpr ⟨hd, key⟩⟩
  rw [Bool.eq_iff_iff, List.any_eq_true]
  constructor
  · rintro ⟨c, hc, h⟩
    cases c with
    | none => cases h
    | some x =>
      rw [← cells _ hc x rfl]
      exact h
  · intro h
    exact ⟨some d, mem, h⟩

/-- A datagram of the `i`-th view is in the event of its timestamp. -/
lemma cell_iff (views : Views lists) (merge : IsMerge PyDgram.timestamp lists rows) {row}
    (hrow : row ∈ rows) {i : Nat} {l : List PyDgram} (hl : lists[i]? = some l) {d : PyDgram} :
    row.cells[i]? = some (some d) ↔ d ∈ l ∧ d.timestamp = row.key := by
  rw [merge.cells row hrow, List.getElem?_map, hl, Option.map_some, Option.some_inj,
    pick_eq_some (views.sorted l (List.mem_of_getElem? hl))]

end merged

/-- The event builder is an n-way merge: there are events, in the order of their timestamps, such that
    every datagram of every view is in exactly one of them, together with the datagrams of the other
    views that have its timestamp, and calling `build` until there is no more yields these events,
    in batches of whatever sizes, or those of them that are transitions or were selected. -/
theorem build_merges_views {lists : List (List PyDgram)} (views : Views lists)
    (destination : Option (ProxyEvent → Int)) :
    ∃ events : List ProxyEvent,
      events.Pairwise (·.timestamp < ·.timestamp) ∧
      (∀ e ∈ events, e.pydgrams.length = lists.length ∧ ∀ (i : Nat) (d : PyDgram),
        e.pydgrams[i]? = some (some d) → d.timestamp = e.timestamp ∧ ∃ l, lists[i]? = some l ∧ d ∈ l) ∧
      (∀ (i : Nat) (l : List PyDgram), lists[i]? = some l → ∀ d ∈ l,
        ∃! e, e ∈ events ∧ e.pydgrams[i]? = some (some d)) ∧
      (∀ (i j : Nat) (l m : List PyDgram), lists[i]? = some l → lists[j]? = some m →
        ∀ d ∈ l, ∀ x ∈ m, ((∃ e ∈ events, e.pydgrams[i]? = some (some d) ∧ e.pydgrams[j]? = some (some x)) ↔
          d.timestamp = x.timestamp)) ∧
      ∀ dsparms fuel, dsparms.filter = none → dsparms.destination = destination →
        0 < dsparms.batchSize → (∀ i, dsparms.intgStreamId = some i → i < lists.length) →
        WithinLimit dsparms lists → total lists < fuel →
        ∃ batches, buildAll dsparms fuel fuel (lists.map MyPyBuffer.new) = .ok batches ∧
          batches.flatten = if dsparms.timestamps = [] then events
            else events.filter fun e => e.service ≠ l1Accept ∨ e.timestamp ∈ dsparms.timestamps := by
  obtain ⟨rows, merge⟩ := exists_isMerge lists views.sorted
  have find : ∀ (i : Nat) (l : List PyDgram), lists[i]? = some l → ∀ d ∈ l, ∃ row ∈ rows, row.key = d.timestamp := by
    intro i l hl d hd
    exact merge.covers l (List.mem_of_getElem? hl) d hd
  refine ⟨rows.map (eventOf destination), ?_, ?_, ?_, ?_, ?_⟩
  · exact List.pairwise_map.mpr merge.increasing
  · intro e he
    obtain ⟨row, hrow, rfl⟩ := List.mem_map.mp he
    refine ⟨?_, ?_⟩
    · show row.cells.length = _
      rw [merge.cells row hrow, List.length_map]
    · intro i d h
      have h : row.cells[i]? = some (some d) := h
      cases hl : lists[i]? with
      | none =>
        rw [merge.cells row hrow, List.getElem?_map, hl] at h
        cases h
      | some l =>
        obtain ⟨hd, key⟩ := (cell_iff views merge hrow hl).mp h
        exact ⟨key, l, rfl, hd⟩
  · intro i l hl d hd
    obtain ⟨row, hrow, key⟩ := find i l hl d hd
    refine ⟨eventOf destination row, ⟨List.mem_map_of_mem hrow, ?_⟩, ?_⟩
    · exact (cell_iff views merge hrow hl).mpr ⟨hd, key.symm⟩
    · rintro e ⟨he, h⟩
      obtain ⟨row', hrow', rfl⟩ := List.mem_map.mp he
      have key' := ((cell_iff views merge hrow' hl).mp h).2
      rw [sorted_inj merge.increasing hrow hrow' (key.trans key')]
  · intro i j l m hl hm d hd x hx
    constructor
    · rintro ⟨e, he, hi, hj⟩
      obtain ⟨row, hrow, rfl⟩ := List.mem_map.mp he
      exact ((cell_iff views merge hrow hl).mp hi).2.trans
        ((cell_iff views merge hrow hm).mp hj).2.symm
    · intro same
      obtain ⟨row, hrow, key⟩ := find i l hl d hd
      exact ⟨eventOf destination row, List.mem_map_of_mem hrow,
        (cell_iff views merge hrow hl).mpr ⟨hd, key.symm⟩,
        (cell_iff views merge hrow hm).mpr ⟨hx, (key.trans same).symm⟩⟩
  · rintro dsparms fuel noFilter rfl positive index limit hfuel
    by_cases none : dsparms.timestamps = []
    · have merge' : Rows dsparms lists rows := by
        rw [Rows, none, filter_keep_nil]
        exact merge
      rw [if_pos none]
      exact buildAll_spec noFilter positive index limit (rest_new lists) views merge' hfuel hfuel
    · have merge' : Rows dsparms lists _ :=
        merge.filter views.sorted (views.keep_byKey dsparms.timestamps)
      obtain ⟨batches, hall, flat⟩ :=
        buildAll_spec noFilter positive index limit (rest_new lists) views merge' hfuel hfuel
      refine ⟨batches, hall, ?_⟩
      rw [if_neg none, flat, List.filter_map]
      congr 1
      refine List.filter_congr ?_
      intro row hrow
      exact row_kept views merge none hrow

/-- A BeginRun and an L1Accept in each of two views. -/
def twoViews : List (List PyDgram) :=
  [[⟨1, 4, []⟩, ⟨2, l1Accept, [0]⟩], [⟨1, 4, []⟩, ⟨3, l1Accept, [1]⟩]]

/-- Two events a batch. -/
def twoABatch : DsParms where
  timestamps := []
  filter := none
  destination := none
  batchSize := 2
  intgStreamId := none

/-- The two views make three events, in two batches. -/
theorem build_merges_two_views : ∃ batches,
    buildAll twoABatch 5 5 (twoViews.map MyPyBuffer.new) = .ok batches ∧
    batches.flatten.Pairwise (·.timestamp < ·.timestamp) := by
  have views : Views twoViews := by
    refine ⟨?_, ?_, ?_⟩
    · decide +kernel
    · decide +kernel
    · decide +kernel
  obtain ⟨events, increasing, _, _, _, all⟩ := build_merges_views views none
  obtain ⟨batches, hall, flat⟩ := all twoABatch 5 rfl rfl (by decide) (by intro i h; cases h)
    (.inl ⟨rfl, by decide⟩) (by decide)
  refine ⟨batches, hall, ?_⟩
  have all_kept : batches.flatten = events := flat
  rw [all_kept]
  exact increasing

/-- A call that collects more than the limit fails. -/
lemma buildAll_tooMany {dsparms : DsParms} {fuel : Nat} (calls : Nat) {bufs bufs' : List MyPyBuffer}
    {events : List ProxyEvent} (more : hasMore bufs = true)
    (hloop : buildLoop dsparms fuel 0 bufs = .ok (events, bufs'))
    (many : maxBatchSize < events.length) :
    buildAll dsparms fuel (calls + 1) bufs = .error .tooManyEvents := by
  have built : build dsparms fuel bufs = .error .tooManyEvents := by
    rw [build, hloop]
    exact if_neg (Nat.not_le.mpr many)
  rw [buildAll, if_pos more, built]

/-- One view with an event more than `build` may collect. -/
def longView : List PyDgram := (List.range (maxBatchSize + 1)).map fun i => ⟨i + 1, l1Accept, []⟩

/-- A batch size above the limit of `build` does not give batches for every view. -/
theorem build_over_limit : ¬ ∀ (lists : List (List PyDgram)) (dsparms : DsParms) (fuel : Nat),
    Views lists → dsparms.filter = none → 0 < dsparms.batchSize → dsparms.intgStreamId = none →
    total lists < fuel →
    ∃ batches, buildAll dsparms fuel fuel (lists.map MyPyBuffer.new) = .ok batches := by
  intro claim
  let dsparms : DsParms := { twoABatch with batchSize := maxBatchSize + 1 }
  have sorted : longView.Pairwise (PyDgram.timestamp · < PyDgram.timestamp ·) := by
    rw [longView, List.pairwise_map]
    exact List.pairwise_lt_range.imp fun lt => Nat.succ_lt_succ lt
  have views : Views [longView] := by
    refine ⟨?_, ?_, ?_⟩
    · intro l hl
      rw [List.mem_singleton.mp hl]
      exact sorted
    · intro l hl d hd
      rw [List.mem_singleton.mp hl] at hd
      obtain ⟨i, _, rfl⟩ := List.mem_map.mp hd
      exact Nat.succ_ne_zero i
    · intro l hl d hd transition l' hl'
      rw [List.mem_singleton.mp hl] at hd
      rw [List.mem_singleton.mp hl']
      exact ⟨d, hd, rfl, transition⟩
  have length : longView.length = maxBatchSize + 1 := by simp [longView]
  have size : total [longView] = maxBatchSize + 1 := by simp [total, length]
  obtain ⟨rows, merge⟩ := exists_isMerge [longView] views.sorted
  have rows_length : maxBatchSize + 1 ≤ rows.length := by
    have nodup : (longView.map PyDgram.timestamp).Nodup :=
      List.pairwise_map.mpr (sorted.imp fun lt => Nat.ne_of_lt lt)
    have sub : longView.map PyDgram.timestamp ⊆ rows.map (·.key) := by
      intro k hk
      obtain ⟨d, hd, rfl⟩ := List.mem_map.mp hk
      exact merge.mem_keys.mpr ⟨longView, by simp, d, hd, rfl⟩
    have le := (List.subperm_of_subset nodup sub).length_le
    rw [List.length_map, List.length_map, length] at le
    exact le
  have merge' : Rows dsparms [longView] rows := by
    show IsMerge _ ([longView].map (·.filter (keep []))) rows
    rw [filter_keep_nil]
    exact merge
  have noIndex : ∀ i, dsparms.intgStreamId = some i → i < [longView].length := by
    intro i h
    cases h
  have rest := rest_new [longView]
  obtain ⟨n, bufs', lists', hloop, b⟩ := @buildLoop_spec dsparms _ _ _ 0 _ noIndex rest views
    merge' (Nat.lt_add_one (total [longView]))
  rw [filter_passes rfl] at hloop
  have full := b.full rfl
  rw [filter_passes rfl, List.length_take, Nat.min_eq_left b.le] at full
  -- all rows are collected in one call, which is one more than the limit
  have many : maxBatchSize < n := by
    cases full with
    | inl full =>
      rw [Nat.zero_add] at full
      exact full
    | inr empty =>
      have none := b.merge.length_le
      rw [empty, List.length_drop] at none
      omega
  obtain ⟨batches, hall⟩ := claim [longView] dsparms (total [longView] + 1) views rfl
    (Nat.succ_pos maxBatchSize) rfl (Nat.lt_add_one (total [longView]))
  have more : hasMore ([longView].map MyPyBuffer.new) = true := by
    rw [hasMore_iff rest, size]
    exact Nat.succ_pos maxBatchSize
  have tooMany : ¬ ((rows.take n).map (eventOf dsparms.destination)).length ≤ maxBatchSize := by
    have := b.le
    rw [List.length_map, List.length_take]
    omega
  rw [buildAll_tooMany (total [longView]) more hloop (Nat.lt_of_not_le tooMany)] at hall
  cases hall

end Lcls2.Psana
