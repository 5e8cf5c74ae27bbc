import Mathlib
import Lcls2.Lib.Run
import Lcls2.ConfigDb.Mongo

/-!
# Updates of the configuration database

Keys are unique and what a key names never changes, in every run. An update is kept where the entry that
the call read still says of the other devices what the alias's current entry says when the new entry is
inserted above it; nothing in the calls sees to that.
-/

namespace Lcls2.ConfigDb

open Lib

section
variable {Name V : Type*} [LinearOrder Name]

/-- Devices with one entry each, whose documents have been inserted. -/
structure DevicesOk (db : Db Name V) (devices : List (Device Name)) : Prop where
  names : (devices.map (·.device)).Nodup
  refs : ∀ l ∈ devices, ∀ cfg ∈ l.configs, cfg.id < db.nextId

/-- A database whose keys come from its counters. -/
structure Db.Wf (db : Db Name V) : Prop where
  keys : ∀ h, ((db.hutches h).map (·.key)).Nodup
  below : ∀ h seq, db.counters h = some seq → ∀ c ∈ db.hutches h, c.key ≤ seq
  entries : ∀ h, ∀ c ∈ db.hutches h, DevicesOk db c.devices
  ids : ∀ cfg, ((db.configs cfg).map (·.1)).Nodup
  inserted : ∀ cfg, ∀ d ∈ db.configs cfg, d.1 < db.nextId

/-- What `get_configuration` returns for the current entry of an alias. -/
def Db.currentValue (db : Db Name V) (hutch aliasName : Name) (device : Option Name) : Option V :=
  (db.highest hutch aliasName).bind fun c => (db.getConfiguration hutch c.key device).toOption

/-- The value that a device of an alias was last set to, in the calls or before them. -/
def lastSet (db : Db Name V) (hutch aliasName : Name) (device : Option Name) :
    List (Change Name V) → Option V
  | [] => db.currentValue hutch aliasName device
  | change :: done =>
    if change.hutch = hutch ∧ change.aliasName = aliasName ∧ change.device = device then change.value
    else lastSet db hutch aliasName device done

/-- An insertion that loses nothing: above the current entry of the alias, the other devices have the
    values that they have there; below it, it has the value already. -/
def Db.Keeps (db : Db Name V) (h : Name) (c : Entry Name) (set : Option (Option Name × Option V)) :
    Prop :=
  if ∀ d ∈ db.highest h c.aliasName, d.key < c.key then
    ∀ device, (∀ p ∈ set, p.1 ≠ device) →
      (db.valueIn c.devices device).toOption = db.currentValue h c.aliasName device
  else ∀ p ∈ set, db.currentValue h c.aliasName p.1 = p.2

/-- What no operation undoes. -/
structure Db.Le (db db' : Db Name V) : Prop where
  configs : ∀ cfg, ∃ more, db'.configs cfg = db.configs cfg ++ more ∧ ∀ d ∈ more, db.nextId ≤ d.1
  hutches : ∀ h, ∃ more, db'.hutches h = db.hutches h ++ more
  nextId : db.nextId ≤ db'.nextId

variable {db db' : Db Name V}

namespace Db.Le

omit [LinearOrder Name] in
/-- Where the documents stay. -/
lemma of_hutches (configs : db'.configs = db.configs) (nextId : db'.nextId = db.nextId)
    (hutches : ∀ h, ∃ more, db'.hutches h = db.hutches h ++ more) : db.Le db' where
  configs cfg := ⟨[], by rw [configs, List.append_nil], nofun⟩
  hutches := hutches
  nextId := nextId.ge

omit [LinearOrder Name] in
/-- A reference to a document that has been inserted reads the same document from then on. -/
lemma valueOf (le : db.Le db') {cfg : List (Cfg Name)} (refs : ∀ c ∈ cfg, c.id < db.nextId) :
    db'.valueOf cfg = db.valueOf cfg := by
  cases cfg with
  | nil => rfl
  | cons c rest =>
    obtain ⟨more, e, new⟩ := le.configs c.collection
    have old : more.find? (·.1 = c.id) = none := by
      apply List.find?_eq_none.mpr
      intro d hd eq
      have lt := refs c List.mem_cons_self
      have ge := new d hd
      simp only [decide_eq_true_eq] at eq
      omega
    simp only [Db.valueOf, e, List.find?_append, old, Option.or_none]

/-- So does a device of an entry. -/
lemma valueIn (le : db.Le db') {devices : List (Device Name)} (ok : DevicesOk db devices)
    (device : Option Name) : db'.valueIn devices device = db.valueIn devices device := by
  cases e : devices.find? (·.device = device) with
  | none => simp only [Db.valueIn, e]
  | some l =>
    simp only [Db.valueIn, e]
    exact le.valueOf (ok.refs l (List.mem_of_find?_eq_some e))

/-- What a key names stays what it is. -/
lemma getConfiguration (le : db.Le db') (wf : db.Wf) {h : Name} {key : Int}
    (old : ∃ c ∈ db.hutches h, c.key = key) (device : Option Name) :
    db'.getConfiguration h key device = db.getConfiguration h key device := by
  obtain ⟨c, hc, eq⟩ := old
  obtain ⟨more, e⟩ := le.hutches h
  have found : ((db.hutches h).find? (·.key = key)).isSome := by
    apply List.find?_isSome.mpr
    exact ⟨c, hc, by simpa using eq⟩
  obtain ⟨d, hd⟩ := Option.isSome_iff_exists.mp found
  have hd' : (db'.hutches h).find? (·.key = key) = some d := by
    rw [e, List.find?_append, hd, Option.some_or]
  simp only [Db.getConfiguration, hd, hd']
  exact le.valueIn (wf.entries h d (List.mem_of_find?_eq_some hd)) device

end Db.Le

omit [LinearOrder Name] in
/-- Devices stay as they are. -/
lemma DevicesOk.mono {devices : List (Device Name)} (le : db.Le db') (ok : DevicesOk db devices) :
    DevicesOk db' devices where
  names := ok.names
  refs l hl cfg hcfg := (ok.refs l hl cfg hcfg).trans_le le.nextId

/-- The device that is found by its name. -/
lemma find_device {devices : List (Device Name)} (names : (devices.map (·.device)).Nodup)
    {l : Device Name} (hl : l ∈ devices) : devices.find? (·.device = l.device) = some l := by
  induction devices with
  | nil => cases hl
  | cons d devices ih =>
    rw [List.map_cons, List.nodup_cons] at names
    cases hl with
    | head => simp
    | tail _ hl =>
      have ne : d.device ≠ l.device := fun e => names.1 (e ▸ List.mem_map_of_mem hl)
      rw [List.find?_cons_of_neg (by simpa using ne)]
      exact ih names.2 hl

/-- `addDevice` puts the device among the others. -/
lemma addDevice_perm {devices ds : List (Device Name)} {l : Device Name}
    (h : addDevice devices l = .ok ds) : ds.Perm (l :: devices) := by
  simp only [addDevice] at h
  split at h
  · cases h
  · cases h
    exact (List.perm_insertionSort _ _).trans (List.perm_append_singleton _ _)

omit [LinearOrder Name] in
/-- Devices with one more among them. -/
lemma DevicesOk.add {devices ds : List (Device Name)} {l : Device Name} (ok : DevicesOk db devices)
    (new : ∀ d ∈ devices, d.device ≠ l.device) (refs : ∀ cfg ∈ l.configs, cfg.id < db.nextId)
    (perm : ds.Perm (l :: devices)) : DevicesOk db ds where
  names := by
    rw [(perm.map _).nodup_iff, List.map_cons, List.nodup_cons]
    refine ⟨?_, ok.names⟩
    rintro mem
    obtain ⟨d, hd, e⟩ := List.mem_map.mp mem
    exact new d hd e
  refs d hd := by
    cases perm.mem_iff.mp hd with
    | head => exact refs
    | tail _ hd => exact ok.refs d hd

/-- The device that was put there is what is read. -/
lemma DevicesOk.valueIn {devices : List (Device Name)} (ok : DevicesOk db devices) {l : Device Name}
    (hl : l ∈ devices) : db.valueIn devices l.device = db.valueOf l.configs := by
  simp only [Db.valueIn, find_device ok.names hl]

/-- `dropDevice` leaves the other devices. -/
lemma dropDevice_ok {devices ds : List (Device Name)} {device : Option Name} {cfg : Cfg Name}
    (ok : DevicesOk db devices) (h : dropDevice devices device cfg = .ok ds) :
    DevicesOk db ds ∧ ∀ d ∈ ds, d.device ≠ device := by
  unfold dropDevice at h
  split at h
  next e =>
    cases h
    refine ⟨ok, ?_⟩
    intro d hd eq
    exact absurd (List.find?_eq_none.mp e d hd) (by simpa using eq)
  next l e =>
    have hl : l ∈ devices := List.mem_of_find?_eq_some e
    have name : l.device = device := by simpa using List.find?_some e
    split at h
    · cases h
    · cases h
      have sub : (devices.erase l).Sublist devices := List.erase_sublist
      refine ⟨⟨ok.names.sublist (sub.map _), fun d hd => ok.refs d (sub.subset hd)⟩, ?_⟩
      intro d hd eq
      have nodup : devices.Nodup := ok.names.of_map
      have same : d = l := by
        have found := find_device ok.names (sub.subset hd)
        rw [eq, ← name, find_device ok.names hl] at found
        exact (Option.some.inj found).symm
      exact (nodup.mem_erase_iff.mp hd).1 same

/-- `checkDevice` lets only a new device pass. -/
lemma checkDevice_ok {devices ds : List (Device Name)} {device : Option Name} {cfg : List (Cfg Name)}
    (h : checkDevice devices device cfg = .ok ds) : ds = devices ∧ ∀ d ∈ devices, d.device ≠ device := by
  unfold checkDevice at h
  split at h
  next e =>
    cases h
    refine ⟨rfl, ?_⟩
    intro d hd eq
    exact absurd (List.find?_eq_none.mp e d hd) (by simpa using eq)
  next l e =>
    split at h
    · split at h <;> cases h
    · cases h

omit [LinearOrder Name] in
/-- The entry with the highest key is one of the entries. -/
lemma foldl_later_mem {es : List (Entry Name)} {c : Entry Name} (h : es.foldl Entry.later none = some c) :
    c ∈ es := by
  induction es using List.reverseRecOn generalizing c with
  | nil => cases h
  | append_singleton es e ih =>
    rw [List.foldl_concat] at h
    cases m : es.foldl Entry.later none with
    | none =>
      rw [m] at h
      cases h
      exact List.mem_append_right _ List.mem_cons_self
    | some d =>
      simp only [m, Entry.later] at h
      split at h <;> cases h
      · exact List.mem_append_right _ List.mem_cons_self
      · exact List.mem_append_left _ (ih m)

/-- The current entry of an alias is an entry of its hutch. -/
lemma Db.highest_mem {h aliasName : Name} {c : Entry Name} (e : db.highest h aliasName = some c) :
    c ∈ db.hutches h ∧ c.aliasName = aliasName := by
  have mem := List.mem_filter.mp (foldl_later_mem e)
  exact ⟨mem.1, by simpa using mem.2⟩

/-- The value of an alias is that of its current entry. -/
lemma Db.currentValue_eq (wf : db.Wf) {h aliasName : Name} {c : Entry Name}
    (e : db.highest h aliasName = some c) (device : Option Name) :
    db.currentValue h aliasName device = (db.valueIn c.devices device).toOption := by
  have mem := (db.highest_mem e).1
  have found : (db.hutches h).find? (·.key = c.key) = some c := by
    cases f : (db.hutches h).find? (·.key = c.key) with
    | none => exact absurd (List.find?_eq_none.mp f c mem) (by simp)
    | some d =>
      have key : d.key = c.key := by simpa using List.find?_some f
      have same : d = c := List.inj_on_of_nodup_map (wf.keys h) (List.mem_of_find?_eq_some f) mem key
      rw [same]
  simp only [Db.currentValue, e, Option.bind_some, Db.getConfiguration, found]

/-- What a drawn key is. -/
lemma Db.nextKey_ok {h : Name} {r : Int × Db Name V} (e : db.nextKey h = .ok r) :
    ∃ seq, db.counters h = some seq ∧ r.1 = seq + 1 ∧
      r.2 = { db with counters := Function.update db.counters h (some (seq + 1)) } := by
  unfold Db.nextKey at e
  split at e
  next seq eq =>
    cases e
    exact ⟨seq, eq, rfl, rfl⟩
  · cases e

omit [LinearOrder Name] in
/-- A document that has been inserted can be read by its `_id`. -/
lemma Db.Wf.valueOf (wf : db.Wf) [DecidableEq Name] {cfg : Name} {d : Nat × V} (hd : d ∈ db.configs cfg) :
    db.valueOf [⟨d.1, cfg⟩] = .ok d.2 := by
  have found : (db.configs cfg).find? (·.1 = d.1) = some d := by
    cases f : (db.configs cfg).find? (·.1 = d.1) with
    | none => exact absurd (List.find?_eq_none.mp f d hd) (by simp)
    | some d' =>
      have id : d'.1 = d.1 := by simpa using List.find?_some f
      have same : d' = d := List.inj_on_of_nodup_map (wf.ids cfg) (List.mem_of_find?_eq_some f) hd id
      rw [same]
  simp only [Db.valueOf, found]

/-- Inserting a document. -/
lemma Db.le_store (cfg : Name) (value : V) : db.Le (db.store cfg value) where
  configs cfg' := by
    by_cases e : cfg' = cfg
    · subst e
      exact ⟨[(db.nextId, value)], by simp [Db.store], by simp⟩
    · exact ⟨[], by simp [Db.store, e], nofun⟩
  hutches h := ⟨[], (List.append_nil _).symm⟩
  nextId := Nat.le_succ _

/-- The database stays well-formed. -/
lemma Db.Wf.store (wf : db.Wf) (cfg : Name) (value : V) : (db.store cfg value).Wf where
  keys := wf.keys
  below := wf.below
  entries h c hc := (wf.entries h c hc).mono (db.le_store cfg value)
  ids cfg' := by
    by_cases e : cfg' = cfg
    · subst e
      simp only [Db.store, Function.update_self, List.map_append, List.map_singleton]
      apply (wf.ids cfg').append (List.nodup_singleton _)
      rintro id mem new
      obtain ⟨d, hd, rfl⟩ := List.mem_map.mp mem
      exact (wf.inserted cfg' d hd).ne (List.mem_singleton.mp new)
    · simpa only [Db.store, Function.update_of_ne e] using wf.ids cfg'
  inserted cfg' d hd := by
    by_cases e : cfg' = cfg
    · subst e
      simp only [Db.store, Function.update_self, List.mem_append, List.mem_singleton] at hd
      cases hd with
      | inl old => exact (wf.inserted cfg' d old).trans (Nat.lt_succ_self _)
      | inr new => exact new ▸ Nat.lt_succ_self _
    · simp only [Db.store, Function.update_of_ne e] at hd
      exact (wf.inserted cfg' d hd).trans (Nat.lt_succ_self _)

omit [LinearOrder Name] in
/-- Counting keys changes no document. -/
lemma Db.le_counters (counters : Name → Option Int) : db.Le { db with counters } :=
  .of_hutches rfl rfl fun _ => ⟨[], (List.append_nil _).symm⟩

/-- The entries after an insertion. -/
lemma Db.mem_insert {h h' : Name} {c d : Entry Name} (hd : d ∈ (db.insert h c).hutches h') :
    d ∈ db.hutches h' ∨ (h' = h ∧ d = c) := by
  by_cases e : h' = h
  · subst e
    simp only [Db.insert, Function.update_self, List.mem_append, List.mem_singleton] at hd
    exact hd.imp_right fun eq => ⟨rfl, eq⟩
  · simp only [Db.insert, Function.update_of_ne e] at hd
    exact .inl hd

/-- Inserting an entry. -/
lemma Db.le_insert (h : Name) (c : Entry Name) : db.Le (db.insert h c) := by
  refine Db.Le.of_hutches rfl rfl fun h' => ?_
  by_cases e : h' = h
  · subst e
    exact ⟨[c], by simp [Db.insert]⟩
  · exact ⟨[], by simp [Db.insert, e]⟩

/-- A drawn key is above those of the entries. -/
lemma Db.Wf.bump (wf : db.Wf) {h : Name} {seq : Int} (e : db.counters h = some seq) :
    Db.Wf { db with counters := Function.update db.counters h (some (seq + 1)) } where
  keys := wf.keys
  below h' seq' e' c hc := by
    have e' : Function.update db.counters h (some (seq + 1)) h' = some seq' := e'
    by_cases eq : h' = h
    · subst eq
      rw [Function.update_self] at e'
      have le := wf.below h' seq e c hc
      have e' := Option.some.inj e'
      omega
    · rw [Function.update_of_ne eq] at e'
      exact wf.below h' seq' e' c hc
  entries h c hc := (wf.entries h c hc).mono (db.le_counters _)
  ids := wf.ids
  inserted := wf.inserted

/-- An entry under a key that is drawn and not used. -/
lemma Db.Wf.insert (wf : db.Wf) {h : Name} {c : Entry Name} (ok : DevicesOk db c.devices)
    (new : c.key ∉ (db.hutches h).map (·.key)) (below : ∀ seq, db.counters h = some seq → c.key ≤ seq) :
    (db.insert h c).Wf where
  keys h' := by
    by_cases e : h' = h
    · subst e
      simp only [Db.insert, Function.update_self, List.map_append, List.map_singleton]
      apply (wf.keys h').append (List.nodup_singleton _)
      rintro key mem key'
      exact new (List.mem_singleton.mp key' ▸ mem)
    · simpa only [Db.insert, Function.update_of_ne e] using wf.keys h'
  below h' seq e d hd := by
    obtain old | ⟨rfl, rfl⟩ := Db.mem_insert hd
    · exact wf.below h' seq e d old
    · exact below seq e
  entries h' d hd := by
    obtain old | ⟨rfl, rfl⟩ := Db.mem_insert hd
    · exact (wf.entries h' d old).mono (db.le_insert _ _)
    · exact ok.mono (db.le_insert _ _)
  ids := wf.ids
  inserted := wf.inserted

end

section
variable {Name V : Type*} [LinearOrder Name] {db db' : Db Name V} (detName : V → Option Name)

/-- What a client has read. -/
def Pc.Ok (db : Db Name V) : Pc Name V → Prop
  | .saveCount _ c _ _ => DevicesOk db c.devices
  | .saveFind _ c _ _ => DevicesOk db c.devices
  | .saveInsert _ c _ _ => DevicesOk db c.devices
  | .modKey _ c value cfg =>
    DevicesOk db c.devices ∧ (∀ d ∈ c.devices, d.device ≠ detName value) ∧ cfg.id < db.nextId ∧
      db.valueOf [cfg] = .ok value
  | .newCurrent _ cfg _ _ => ∀ c ∈ cfg, c.id < db.nextId
  | .newKey _ cnew cfg _ => DevicesOk db cnew.devices ∧ ∀ c ∈ cfg, c.id < db.nextId
  | .insert _ c set => DevicesOk db c.devices ∧ ∀ p ∈ set, (db.valueIn c.devices p.1).toOption = p.2
  | _ => True

variable {detName}

/-- What a client has read stays as it is. -/
lemma Pc.Ok.mono (le : db.Le db') {pc : Pc Name V} (ok : pc.Ok detName db) : pc.Ok detName db' := by
  cases pc with
  | saveCount h c value cfg => exact DevicesOk.mono le ok
  | saveFind h c value cfg => exact DevicesOk.mono le ok
  | saveInsert h c value cfg => exact DevicesOk.mono le ok
  | modKey h c value cfg =>
    obtain ⟨devices, new, id, read⟩ := ok
    refine ⟨devices.mono le, new, id.trans_le le.nextId, ?_⟩
    rw [le.valueOf (by simpa using id)]
    exact read
  | newCurrent self cfg newalias newdevice => exact fun c hc => (ok c hc).trans_le le.nextId
  | newKey self cnew cfg newdevice =>
    exact ⟨ok.1.mono le, fun c hc => (ok.2 c hc).trans_le le.nextId⟩
  | insert h c set =>
    refine ⟨ok.1.mono le, ?_⟩
    intro p hp
    rw [le.valueIn ok.1]
    exact ok.2 p hp
  | _ => trivial

/-- The hutch and the key of an entry that a client is about to insert. -/
def Pc.drawn : Pc Name V → Option (Name × Int)
  | .insert h c _ => some (h, c.key)
  | _ => none

omit [LinearOrder Name] in
/-- What `Pc.bind` goes on to. -/
lemma Pc.bind_cases {α : Type*} {P : Pc Name V → Prop} (r : Except (Raised Name) α) {k : α → Pc Name V}
    (raise : ∀ e, P (.raise e)) (ok : ∀ a, r = .ok a → P (k a)) : P (.bind r k) := by
  cases r with
  | error e => exact raise e
  | ok a => exact ok a rfl

/-- What an operation does to the database and to the client. -/
inductive Effect (detName : V → Option Name) (db : Db Name V) : Pc Name V → Db Name V × Pc Name V → Prop
  | read {pc pc'} (ok : pc'.Ok detName db) (drawn : pc'.drawn = none) : Effect detName db pc (db, pc')
  | store {pc pc'} (cfg value) (ok : pc'.Ok detName (db.store cfg value)) (drawn : pc'.drawn = none) :
    Effect detName db pc (db.store cfg value, pc')
  | draw {pc pc'} (h seq) (counter : db.counters h = some seq) (ok : pc'.Ok detName db)
      (drawn : ∀ d ∈ pc'.drawn, d = (h, seq + 1)) :
    Effect detName db pc ({ db with counters := Function.update db.counters h (some (seq + 1)) }, pc')
  | insert {h c set last} :
    Effect detName db (.insert h c set) (db.insert h c, .idle last)

/-- Going on with what was read. -/
lemma Effect.bind {α : Type*} {pc : Pc Name V} (r : Except (Raised Name) α) {k : α → Pc Name V}
    (next : ∀ a, r = .ok a → (k a).Ok detName db ∧ (k a).drawn = none) :
    Effect detName db pc (db, .bind r k) := by
  cases r with
  | error e => exact .read trivial rfl
  | ok a => exact .read (next a rfl).1 (next a rfl).2

variable (detName) in
/-- The device is out of the copy of the entry, and its document is there. -/
lemma Pc.Ok.saved {h : Name} {c : Entry Name} {value : V} {cfg : Cfg Name} (ok : DevicesOk db c.devices)
    (id : cfg.id < db.nextId) (read : db.valueOf [cfg] = .ok value) :
    (Pc.saved detName h c value cfg).Ok detName db ∧ (Pc.saved detName h c value cfg).drawn = none := by
  apply Pc.bind_cases (P := fun pc => pc.Ok detName db ∧ pc.drawn = none)
  · intro e
    exact ⟨trivial, rfl⟩
  · intro devices e
    have dropped := dropDevice_ok ok e
    exact ⟨⟨dropped.1, dropped.2, id, read⟩, rfl⟩

/-- The new entry has the device with what it is set to. -/
lemma Pc.Ok.added {h : Name} {c : Entry Name} {kn : Int} {l : Device Name} {devices : List (Device Name)}
    {value : Option V} (ok : DevicesOk db c.devices) (new : ∀ d ∈ c.devices, d.device ≠ l.device)
    (refs : ∀ cfg ∈ l.configs, cfg.id < db.nextId) (read : (db.valueOf l.configs).toOption = value)
    (e : addDevice c.devices l = .ok devices) :
    (Pc.insert h { c with key := kn, devices } (some (l.device, value))).Ok detName db := by
  have perm := addDevice_perm e
  have ok' := ok.add new refs perm
  refine ⟨ok', ?_⟩
  rintro p hp
  cases Option.mem_some.mp hp
  rw [ok'.valueIn (perm.mem_iff.mpr List.mem_cons_self)]
  exact read

/-- What is read of an entry is there. -/
lemma Db.Wf.getCurrent (wf : db.Wf) {self aliasName : Name} {hutch : Option Name} {c : Entry Name}
    (e : db.getCurrent self aliasName hutch = .ok c) : DevicesOk db c.devices := by
  unfold Db.getCurrent at e
  split at e
  next d eq =>
    cases e
    exact wf.entries _ _ (Db.highest_mem eq).1
  · cases e
  · cases e

/-- What `unwind` reads is there. -/
lemma Db.Wf.unwound (wf : db.Wf) {h : Name} {k : Int} {device : Option Name} {cfg : List (Cfg Name)}
    (e : db.unwound h k device = .ok cfg) : ∀ c ∈ cfg, c.id < db.nextId := by
  unfold Db.unwound at e
  split at e
  next doc eq =>
    cases e
    obtain ⟨entry, he, hl⟩ := List.mem_flatMap.mp (List.mem_of_find?_eq_some eq)
    obtain ⟨l, hl', rfl⟩ := List.mem_map.mp hl
    exact (wf.entries h entry he).refs l hl'
  · cases e

/-- An operation reads, inserts a document, draws a key or inserts the entry. -/
lemma Pc.step_effect [DecidableEq V] {detType : V → Option Name} (wf : db.Wf) {pc : Pc Name V} (ok : pc.Ok detName db) :
    Effect detName db pc (pc.step detName detType db) := by
  cases pc with
  | idle last => exact .read trivial rfl
  | addFind h aliasName =>
    simp only [Pc.step]
    split
    · exact .read trivial rfl
    · exact .read trivial rfl
  | addKey h aliasName =>
    simp only [Pc.step]
    split
    next kn db' e =>
      obtain ⟨seq, counter, rfl, rfl⟩ := Db.nextKey_ok e
      refine .draw h seq counter ⟨⟨List.nodup_nil, nofun⟩, nofun⟩ ?_
      rintro d hd
      exact (Option.mem_some.mp hd).symm
    · exact .read trivial rfl
  | modCurrent self aliasName value hutch =>
    apply Effect.bind
    intro c e
    cases detType value with
    | none => exact ⟨trivial, rfl⟩
    | some cfg => exact ⟨wf.getCurrent e, rfl⟩
  | saveCount h c value cfg =>
    simp only [Pc.step]
    split
    · exact .read trivial rfl
    · exact .read ok rfl
  | saveFind h c value cfg =>
    simp only [Pc.step]
    split
    next d e =>
      have hd := List.mem_of_find?_eq_some e
      -- The document that is found again has this value.
      have eq : d.2 = value := by simpa using List.find?_some e
      have read : db.valueOf [⟨d.1, cfg⟩] = .ok value := (wf.valueOf hd).trans (congrArg _ eq)
      have next := Pc.Ok.saved detName (h := h) ok (wf.inserted cfg d hd) read
      exact .read next.1 next.2
    · exact .read ok rfl
  | saveInsert h c value cfg =>
    have hd : (db.nextId, value) ∈ (db.store cfg value).configs cfg := by
      simp [Db.store]
    have read : (db.store cfg value).valueOf [⟨db.nextId, cfg⟩] = .ok value :=
      (wf.store cfg value).valueOf hd
    have next := Pc.Ok.saved detName (h := h) (ok.mono (db.le_store cfg value)) (Nat.lt_succ_self _) read
    exact .store cfg value next.1 next.2
  | modKey h c value cfg =>
    obtain ⟨devices, new, id, read⟩ := ok
    simp only [Pc.step]
    split
    next kn db' e =>
      obtain ⟨seq, counter, rfl, rfl⟩ := Db.nextKey_ok e
      cases added : addDevice c.devices ⟨detName value, [cfg]⟩ with
      | error e => exact .draw h seq counter trivial (by intro d hd; cases hd)
      | ok devices' =>
        refine .draw h seq counter (Pc.Ok.added devices new (by simpa using id) (by rw [read]; rfl) added) ?_
        rintro d hd
        exact (Option.mem_some.mp hd).symm
    · exact .read trivial rfl
  | oldKey self oldhutch oldalias olddevice newalias newdevice =>
    apply Effect.bind
    intro k e
    exact ⟨trivial, rfl⟩
  | unwind self oldhutch k olddevice newalias newdevice =>
    apply Effect.bind
    intro cfg e
    exact ⟨wf.unwound e, rfl⟩
  | newCurrent self cfg newalias newdevice =>
    apply Effect.bind
    intro cnew e
    exact ⟨⟨wf.getCurrent e, ok⟩, rfl⟩
  | newKey self cnew cfg newdevice =>
    simp only [Pc.step]
    split
    next kn db' e =>
      obtain ⟨seq, counter, rfl, rfl⟩ := Db.nextKey_ok e
      cases checked : checkDevice cnew.devices newdevice cfg with
      | error e => exact .draw self seq counter trivial (by intro d hd; cases hd)
      | ok devices =>
        obtain ⟨rfl, new⟩ := checkDevice_ok checked
        show Effect _ _ _ (_, Pc.bind (addDevice _ _) _)
        cases added : addDevice cnew.devices ⟨newdevice, cfg⟩ with
        | error e => exact .draw self seq counter trivial (by intro d hd; cases hd)
        | ok devices' =>
          refine .draw self seq counter (Pc.Ok.added ok.1 new ok.2 rfl added) ?_
          rintro d hd
          exact (Option.mem_some.mp hd).symm
    · exact .read trivial rfl
  | insert h c set => exact .insert

/-- The keys that are drawn and not yet used. -/
structure Drawn {Client : Type*} (db : Db Name V) (pcs : Client → Pc Name V) : Prop where
  fresh : ∀ client d, (pcs client).drawn = some d → d.2 ∉ (db.hutches d.1).map (·.key)
  below : ∀ client d, (pcs client).drawn = some d → ∃ seq, db.counters d.1 = some seq ∧ d.2 ≤ seq
  apart : ∀ client client' d, (pcs client).drawn = some d → (pcs client').drawn = some d → client = client'

section
variable {Client : Type*} [DecidableEq Client] {pcs : Client → Pc Name V} {client : Client}

omit [LinearOrder Name] in
/-- A client that has drawn no key. -/
lemma Drawn.idle (drawn : Drawn db pcs) (hutches : db'.hutches = db.hutches)
    (counters : db'.counters = db.counters) {pc : Pc Name V} (none : pc.drawn = none) :
    Drawn db' (Function.update pcs client pc) := by
  have other : ∀ c d, (Function.update pcs client pc c).drawn = some d → (pcs c).drawn = some d := by
    intro c d h
    by_cases e : c = client
    · subst e
      rw [Function.update_self, none] at h
      cases h
    · rwa [Function.update_of_ne e] at h
  constructor
  · intro c d h
    rw [hutches]
    exact drawn.fresh c d (other c d h)
  · intro c d h
    rw [counters]
    exact drawn.below c d (other c d h)
  · intro c c' d h h'
    exact drawn.apart c c' d (other c d h) (other c' d h')

/-- A client that draws a key. -/
lemma Drawn.draw (drawn : Drawn db pcs) (wf : db.Wf) {h : Name} {seq : Int}
    (counter : db.counters h = some seq) {pc : Pc Name V} (next : ∀ d ∈ pc.drawn, d = (h, seq + 1)) :
    Drawn { db with counters := Function.update db.counters h (some (seq + 1)) }
      (Function.update pcs client pc) := by
  -- every other key of the hutch was drawn before, so it is at most `seq`
  have old : ∀ c key, (pcs c).drawn = some (h, key) → key ≤ seq := by
    intro c key e
    obtain ⟨seq', counter', le⟩ := drawn.below c _ e
    rw [counter] at counter'
    cases counter'
    exact le
  have other : ∀ c d, (Function.update pcs client pc c).drawn = some d →
      (c = client ∧ d = (h, seq + 1)) ∨ (c ≠ client ∧ (pcs c).drawn = some d) := by
    intro c d e
    by_cases eq : c = client
    · subst eq
      rw [Function.update_self] at e
      exact .inl ⟨rfl, next d e⟩
    · rw [Function.update_of_ne eq] at e
      exact .inr ⟨eq, e⟩
  constructor
  · intro c d e mem
    obtain ⟨-, rfl⟩ | ⟨-, e⟩ := other c d e
    · obtain ⟨entry, he, key⟩ := List.mem_map.mp mem
      have le := wf.below h seq counter entry he
      simp only at key
      omega
    · exact drawn.fresh c d e mem
  · intro c d e
    obtain ⟨-, rfl⟩ | ⟨-, e⟩ := other c d e
    · exact ⟨seq + 1, Function.update_self .., le_rfl⟩
    · obtain ⟨seq', counter', le⟩ := drawn.below c d e
      by_cases eq : d.1 = h
      · refine ⟨seq + 1, by simp only [eq, Function.update_self], ?_⟩
        have le := old c d.2 (by rw [e, ← eq])
        omega
      · exact ⟨seq', by simpa only [Function.update_of_ne eq] using counter', le⟩
  · intro c c' d e e'
    obtain ⟨eq, rfl⟩ | ⟨-, was⟩ := other c d e
    · obtain ⟨eq', -⟩ | ⟨-, was'⟩ := other c' _ e'
      · exact eq.trans eq'.symm
      · have le := old c' _ was'
        omega
    · obtain ⟨-, rfl⟩ | ⟨-, was'⟩ := other c' d e'
      · have le := old c _ was
        omega
      · exact drawn.apart c c' d was was'

/-- A client that uses its key. -/
lemma Drawn.insert (drawn : Drawn db pcs) {h : Name} {c : Entry Name} {set last}
    (pc : pcs client = .insert h c set) :
    Drawn (db.insert h c) (Function.update pcs client (.idle last)) := by
  have own : (pcs client).drawn = some (h, c.key) := by rw [pc]; rfl
  have other : ∀ c' d, (Function.update pcs client (.idle last) c').drawn = some d →
      c' ≠ client ∧ (pcs c').drawn = some d := by
    intro c' d e
    by_cases eq : c' = client
    · subst eq
      rw [Function.update_self] at e
      cases e
    · rw [Function.update_of_ne eq] at e
      exact ⟨eq, e⟩
  constructor
  · intro c' d e mem
    obtain ⟨ne, e⟩ := other c' d e
    obtain ⟨entry, he, key⟩ := List.mem_map.mp mem
    obtain old | ⟨eq, rfl⟩ := Db.mem_insert he
    · exact drawn.fresh c' d e (key ▸ List.mem_map_of_mem old)
    · have same : d = (h, entry.key) := Prod.ext eq key.symm
      exact ne (drawn.apart c' client d e (same ▸ own))
  · intro c' d e
    exact drawn.below c' d (other c' d e).2
  · intro c' c'' d e e'
    exact drawn.apart c' c'' d (other c' d e).2 (other c'' d e').2

end

end

section
variable {Client Name V : Type*} [LinearOrder Name] {detName : V → Option Name} {s t : St Client Name V}
  {db : Db Name V}

/-- The current entry of the alias of an entry that is inserted. -/
lemma Db.highest_insert (h : Name) (c : Entry Name) :
    (db.insert h c).highest h c.aliasName = Entry.later (db.highest h c.aliasName) c := by
  simp only [Db.highest, Db.insert, Function.update_self, List.filter_append, List.foldl_append]
  rw [List.filter_cons_of_pos (by simp)]
  rfl

/-- The current entries of the other aliases. -/
lemma Db.highest_insert_other {h h' aliasName : Name} {c : Entry Name}
    (other : ¬(h = h' ∧ c.aliasName = aliasName)) :
    (db.insert h c).highest h' aliasName = db.highest h' aliasName := by
  by_cases e : h' = h
  · subst e
    have ne : c.aliasName ≠ aliasName := fun eq => other ⟨rfl, eq⟩
    simp only [Db.highest, Db.insert, Function.update_self, List.filter_append]
    rw [List.filter_cons_of_neg (by simpa using ne), List.filter_nil, List.append_nil]
  · simp only [Db.highest, Db.insert, Function.update_of_ne e]

/-- An alias has its values as long as its current entry is the same. -/
lemma Db.Le.currentValue {db' : Db Name V} (le : db.Le db') (wf : db.Wf) {h aliasName : Name}
    (same : db'.highest h aliasName = db.highest h aliasName) (device : Option Name) :
    db'.currentValue h aliasName device = db.currentValue h aliasName device := by
  simp only [Db.currentValue, same]
  cases e : db.highest h aliasName with
  | none => rfl
  | some c =>
    simp only [Option.bind_some]
    rw [le.getConfiguration wf ⟨c, (Db.highest_mem e).1, rfl⟩]

/-- The values of the alias of an entry that is inserted: its own if it is above the current one. -/
lemma Db.currentValue_insert (wf : db.Wf) {h : Name} {c : Entry Name} (wf' : (db.insert h c).Wf)
    (ok : DevicesOk db c.devices) (device : Option Name) :
    (db.insert h c).currentValue h c.aliasName device =
      if ∀ d ∈ db.highest h c.aliasName, d.key < c.key then (db.valueIn c.devices device).toOption
      else db.currentValue h c.aliasName device := by
  have le := db.le_insert h c
  have own : (db.insert h c).highest h c.aliasName = some c →
      (db.insert h c).currentValue h c.aliasName device = (db.valueIn c.devices device).toOption := by
    intro e
    rw [Db.currentValue_eq wf' e, le.valueIn ok]
  have new := db.highest_insert h c
  cases e : db.highest h c.aliasName with
  | none =>
    rw [if_pos nofun]
    apply own
    rw [new, e]
    rfl
  | some d =>
    simp only [e, Entry.later] at new
    by_cases lt : d.key < c.key
    · rw [if_pos (by simpa using lt)]
      apply own
      rw [new, if_pos lt]
    · rw [if_neg (by simpa using lt)]
      apply le.currentValue wf
      rw [new, if_neg lt, e]

/-- In every alias each device has the value that it was last set to. -/
def St.Updated (db : Db Name V) (s : St Client Name V) : Prop :=
  ∀ h aliasName device, s.db.currentValue h aliasName device = lastSet db h aliasName device s.done

/-- A step that loses no update. -/
def St.Keeps (s : St Client Name V) : Act Client Name V → Prop
  | .call _ _ => True
  | .op client =>
    match s.pcs client with
    | .insert h c set => s.db.Keeps h c set
    | _ => True

/-- What an entry that is inserted sets. -/
lemma lastSet_insert {h h' aliasName : Name} {device : Option Name} {c : Entry Name}
    {set : Option (Option Name × Option V)} {done : List (Change Name V)} :
    lastSet db h' aliasName device ((Pc.insert h c set).completes.toList ++ done) =
      if h = h' ∧ c.aliasName = aliasName ∧ ∃ p ∈ set, p.1 = device then set.bind (·.2)
      else lastSet db h' aliasName device done := by
  cases set with
  | none => simp [Pc.completes]
  | some p => simp [Pc.completes, lastSet]

/-- What an insertion sets is the last update exactly where it loses nothing. -/
lemma insert_updated (wf : s.db.Wf) {h : Name} {c : Entry Name} {set : Option (Option Name × Option V)}
    (wf' : (s.db.insert h c).Wf) (ok : (Pc.insert h c set).Ok detName s.db) (updated : s.Updated db)
    (edb : t.db = s.db.insert h c) (edone : t.done = (Pc.insert h c set).completes.toList ++ s.done) :
    t.Updated db ↔ s.db.Keeps h c set := by
  have value := Db.currentValue_insert wf wf' ok.1
  have last : ∀ device, lastSet db h c.aliasName device t.done =
      if ∃ p ∈ set, p.1 = device then set.bind (·.2) else s.db.currentValue h c.aliasName device := by
    intro device
    rw [edone, lastSet_insert, ← updated]
    simp only [true_and]
  have reduced : t.Updated db ↔ ∀ device,
      (s.db.insert h c).currentValue h c.aliasName device = lastSet db h c.aliasName device t.done := by
    constructor
    · intro all device
      rw [← all, edb]
    · intro own h' aliasName device
      by_cases same : h = h' ∧ c.aliasName = aliasName
      · obtain ⟨rfl, rfl⟩ := same
        rw [edb]
        exact own device
      · rw [edb, edone, lastSet_insert, if_neg (fun all => same ⟨all.1, all.2.1⟩), ← updated]
        exact (s.db.le_insert h c).currentValue wf (Db.highest_insert_other same) device
  rw [reduced]
  unfold Db.Keeps
  split
  next above =>
    -- the new entry is the current one, and has what the call sets
    constructor
    · intro all device other
      have eq := all device
      rw [value, if_pos above, last, if_neg (fun ⟨p, hp, e⟩ => other p hp e)] at eq
      exact eq
    · intro keeps device
      rw [value, if_pos above, last]
      split
      next own =>
        obtain ⟨p, hp, rfl⟩ := own
        rw [ok.2 p hp, Option.mem_def.mp hp]
        rfl
      next other => exact keeps device fun p hp e => other ⟨p, hp, e⟩
  next below =>
    -- the current entry stays what it was
    constructor
    · intro all p hp
      have eq := all p.1
      rw [value, if_neg below, last, if_pos ⟨p, hp, rfl⟩, Option.mem_def.mp hp] at eq
      exact eq
    · intro keeps device
      rw [value, if_neg below, last]
      split
      next own =>
        obtain ⟨p, hp, rfl⟩ := own
        rw [keeps p hp, Option.mem_def.mp hp]
        rfl
      · rfl

end

section
variable {Client Name V : Type*} [DecidableEq Client] [LinearOrder Name] [DecidableEq V]
  (detName detType : V → Option Name)

/-- What holds between any two operations. -/
structure St.Inv (s : St Client Name V) : Prop where
  wf : s.db.Wf
  pcs : ∀ client, (s.pcs client).Ok detName s.db
  drawn : Drawn s.db s.pcs

variable {detName detType} {s t : St Client Name V} {db : Db Name V}

omit [DecidableEq V] [DecidableEq Client] in
/-- The clients before their first calls. -/
lemma St.Inv.start (wf : db.Wf) : (St.start db : St Client Name V).Inv detName where
  wf := wf
  pcs _ := trivial
  drawn := ⟨nofun, nofun, nofun⟩

/-- What a step is. -/
lemma St.step_cases {a : Act Client Name V} (h : s.step detName detType a = .ok t) :
    (∃ client call last, a = .call client call ∧ s.pcs client = .idle last ∧
      t = { s with pcs := Function.update s.pcs client call.start }) ∨
    ∃ client, a = .op client ∧
      t.db = ((s.pcs client).step detName detType s.db).1 ∧
      t.pcs = Function.update s.pcs client ((s.pcs client).step detName detType s.db).2 ∧
      t.done = (s.pcs client).completes.toList ++ s.done := by
  cases a with
  | call client call =>
    simp only [St.step] at h
    split at h
    next last e =>
      cases h
      exact .inl ⟨client, call, last, rfl, e, rfl⟩
    · cases h
  | op client =>
    simp only [St.step] at h
    split at h
    · cases h
    · cases h
      exact .inr ⟨client, rfl, rfl, rfl, rfl⟩

omit [LinearOrder Name] [DecidableEq V] in
/-- A call has read nothing yet. -/
lemma Call.start_ok [LinearOrder Name] (call : Call Name V) :
    call.start.Ok detName db ∧ call.start.drawn = none := by
  cases call with
  | addAlias self aliasName => exact ⟨trivial, rfl⟩
  | modifyDevice self aliasName value hutch => exact ⟨trivial, rfl⟩
  | transferConfig self oldhutch oldalias olddevice newalias newdevice => exact ⟨trivial, rfl⟩

omit [DecidableEq V] in
/-- The clients of a database that has grown, one of which has moved on. -/
lemma pcs_ok {pcs : Client → Pc Name V} {client : Client} {pc : Pc Name V} {db' : Db Name V}
    (le : db.Le db') (ok : ∀ client, (pcs client).Ok detName db) (next : pc.Ok detName db') (c : Client) :
    (Function.update pcs client pc c).Ok detName db' := by
  by_cases e : c = client
  · subst e
    rwa [Function.update_self]
  · rw [Function.update_of_ne e]
    exact (ok c).mono le

/-- Every step keeps what holds between operations, and the database grows. -/
lemma St.Inv.step (inv : s.Inv detName) {a : Act Client Name V} (h : s.step detName detType a = .ok t) :
    t.Inv detName ∧ s.db.Le t.db := by
  have refl : s.db.Le s.db := .of_hutches rfl rfl fun _ => ⟨[], (List.append_nil _).symm⟩
  obtain ⟨client, call, last, rfl, e, rfl⟩ | ⟨client, rfl, edb, epcs, -⟩ := St.step_cases h
  · have start : call.start.Ok detName s.db ∧ call.start.drawn = none := call.start_ok
    exact ⟨⟨inv.wf, pcs_ok refl inv.pcs start.1, inv.drawn.idle rfl rfl start.2⟩, refl⟩
  · generalize r : (s.pcs client).step detName detType s.db = next at edb epcs
    have effect : Effect detName s.db (s.pcs client) next :=
      r ▸ Pc.step_effect inv.wf (inv.pcs client)
    generalize pc : s.pcs client = before at effect
    suffices next.1.Wf ∧ s.db.Le next.1 ∧ next.2.Ok detName next.1 ∧
        Drawn next.1 (Function.update s.pcs client next.2) by
      obtain ⟨wf, le, ok, drawn⟩ := this
      refine ⟨⟨edb ▸ wf, ?_, ?_⟩, edb ▸ le⟩
      · rw [edb, epcs]
        exact pcs_ok le inv.pcs ok
      · rw [edb, epcs]
        exact drawn
    cases effect with
    | read ok drawn => exact ⟨inv.wf, refl, ok, inv.drawn.idle rfl rfl drawn⟩
    | store cfg value ok drawn =>
      refine ⟨inv.wf.store cfg value, s.db.le_store cfg value, ok, ?_⟩
      have hutches : (s.db.store cfg value).hutches = s.db.hutches := rfl
      exact inv.drawn.idle hutches rfl drawn
    | draw h seq counter ok drawn =>
      exact ⟨inv.wf.bump counter, s.db.le_counters _, ok.mono (s.db.le_counters _),
        inv.drawn.draw inv.wf counter drawn⟩
    | @insert h c set last =>
      have own : (s.pcs client).drawn = some (h, c.key) := by rw [pc]; rfl
      have devices : DevicesOk s.db c.devices := by
        have ok := inv.pcs client
        rw [pc] at ok
        exact ok.1
      have below : ∀ seq, s.db.counters h = some seq → c.key ≤ seq := by
        intro seq counter
        obtain ⟨seq', counter', le⟩ := inv.drawn.below client _ own
        rw [counter] at counter'
        cases counter'
        exact le
      exact ⟨inv.wf.insert devices (inv.drawn.fresh client _ own) below, s.db.le_insert h c, trivial,
        inv.drawn.insert pc⟩

/-- What holds between any two operations of a run. -/
lemma St.Inv.run (wf : db.Wf) {as} {ok : List (Act Client Name V) → St Client Name V → _ → Prop}
    (run : Run (St.step detName detType) ok (St.start db) as s) : s.Inv detName := by
  refine Run.invariant (P := fun _ s => s.Inv detName) ?_ ?_ run
  · exact .start wf
  · intro as s a t inv _ h
    exact (inv.step h).1

/-- What an operation that is no insertion says of the devices. -/
lemma St.Updated.step (inv : s.Inv detName) (updated : s.Updated db) {a : Act Client Name V}
    (h : s.step detName detType a = .ok t) : t.Updated db ↔ s.Keeps a := by
  have next := inv.step h
  -- where no entry is inserted, there is nothing to lose
  have same : t.db.hutches = s.db.hutches → t.done = s.done → t.Updated db := by
    intro hutches done h' aliasName device
    rw [done, ← updated]
    exact next.2.currentValue inv.wf (by simp only [Db.highest, hutches]) device
  obtain ⟨client, call, last, rfl, e, rfl⟩ | ⟨client, rfl, edb, -, edone⟩ := St.step_cases h
  · exact iff_of_true (same rfl rfl) trivial
  · have ok := inv.pcs client
    have effect : Effect detName s.db (s.pcs client) ((s.pcs client).step detName detType s.db) :=
      Pc.step_effect inv.wf ok
    simp only [St.Keeps]
    cases e : s.pcs client with
    | insert h c set =>
      rw [e] at edb ok edone
      have eq : t.db = s.db.insert h c := edb
      exact insert_updated inv.wf (eq ▸ next.1.wf) ok updated eq edone
    | _ =>
      rw [e] at edb edone effect
      refine iff_of_true (same ?_ edone) trivial
      rw [edb]
      generalize Pc.step detName detType s.db _ = out at effect
      cases effect <;> rfl

/-- Keys are unique and what a key names never changes; the updates are kept as long as each insertion
    keeps them, and no longer. -/
theorem updates_kept (wf : db.Wf) :
    (∀ (as : List (Act Client Name V)) s,
      Run (St.step detName detType) (fun _ _ _ => True) (St.start db) as s →
      (∀ h, ((s.db.hutches h).map (·.key)).Nodup) ∧
      ∀ a t, s.step detName detType a = .ok t → ∀ h key device, (∃ c ∈ s.db.hutches h, c.key = key) →
        t.db.getConfiguration h key device = s.db.getConfiguration h key device) ∧
    ∀ (as : List (Act Client Name V)) s,
      Run (St.step detName detType) (fun _ _ _ => True) (St.start db) as s →
      ((∀ cs r, cs <+: as → Run (St.step detName detType) (fun _ _ _ => True) (St.start db) cs r →
          r.Updated db) ↔
        Run (St.step detName detType) (fun _ s a => s.Keeps a) (St.start db) as s) := by
  constructor
  · intro as s run
    have inv := St.Inv.run wf run
    refine ⟨inv.wf.keys, ?_⟩
    intro a t h h' key device old
    exact (inv.step h).2.getConfiguration inv.wf old device
  · intro as s run
    refine Run.everywhere_iff (I := fun _ s => s.Inv detName) (P := fun _ s => s.Updated db)
      (.start wf) (fun h aliasName device => rfl) ?_ ?_ run
    · intro as s a t inv _ h
      exact (inv.step h).1
    · intro as s a t inv updated _ h
      exact updated.step inv h

end

section
variable {Name V : Type*} [LinearOrder Name] [Fintype Name] [DecidableEq V]

/-- Whether an insertion loses nothing can be looked up. -/
instance Db.decidableKeeps (db : Db Name V) (h : Name) (c : Entry Name)
    (set : Option (Option Name × Option V)) : Decidable (db.Keeps h c set) :=
  inferInstanceAs (Decidable (if ∀ d ∈ db.highest h c.aliasName, d.key < c.key then
      ∀ device, (∀ p ∈ set, p.1 ≠ device) →
        (db.valueIn c.devices device).toOption = db.currentValue h c.aliasName device
    else ∀ p ∈ set, db.currentValue h c.aliasName p.1 = p.2))

/-- Whether a step loses no update can be looked up. -/
instance St.decidableKeeps {Client : Type*} (s : St Client Name V) :
    (a : Act Client Name V) → Decidable (s.Keeps a)
  | .call _ _ => .isTrue trivial
  | .op client =>
    match h : s.pcs client with
    | .insert hutch c set => decidable_of_iff (s.db.Keeps hutch c set) (by simp only [St.Keeps, h])
    | .idle _ => .isTrue (by simp only [St.Keeps, h])
    | .addFind .. => .isTrue (by simp only [St.Keeps, h])
    | .addKey .. => .isTrue (by simp only [St.Keeps, h])
    | .modCurrent .. => .isTrue (by simp only [St.Keeps, h])
    | .saveCount .. => .isTrue (by simp only [St.Keeps, h])
    | .saveFind .. => .isTrue (by simp only [St.Keeps, h])
    | .saveInsert .. => .isTrue (by simp only [St.Keeps, h])
    | .modKey .. => .isTrue (by simp only [St.Keeps, h])
    | .oldKey .. => .isTrue (by simp only [St.Keeps, h])
    | .unwind .. => .isTrue (by simp only [St.Keeps, h])
    | .newCurrent .. => .isTrue (by simp only [St.Keeps, h])
    | .newKey .. => .isTrue (by simp only [St.Keeps, h])

end

/-- A hutch with one alias of two devices; a value is the name of its device and a setting. -/
def twoDevices : Db (Fin 2) (Fin 2 × Nat) where
  hutches h := if h = 0 then [⟨0, 0, [⟨some 0, [⟨0, 0⟩]⟩, ⟨some 1, [⟨1, 0⟩]⟩]⟩] else []
  counters h := if h = 0 then some 0 else none
  configs cfg := if cfg = 0 then [(0, (0, 10)), (1, (1, 20))] else []
  nextId := 2

/-- Its entry has the key that was counted last. -/
lemma twoDevices_wf : twoDevices.Wf where
  keys := by decide
  below h seq e c hc := by
    fin_cases h
    · cases e
      obtain rfl := List.mem_singleton.mp hc
      exact le_rfl
    · cases e
  entries h c hc := by
    fin_cases h
    · obtain rfl := List.mem_singleton.mp hc
      exact ⟨by decide, by decide⟩
    · cases hc
  ids := by decide
  inserted := by decide

/-- Two clients change a device each, one after the other. -/
theorem updates_kept_in_turn :
    ∃ as : List (Act (Fin 2) (Fin 2) (Fin 2 × Nat)), ∃ s,
      Run (St.step (fun v => some v.1) fun _ => some 0)
        (fun _ s a => s.Keeps a) (St.start twoDevices) as s ∧
      s.Updated twoDevices ∧ s.db.currentValue 0 0 (some 0) = some (0, 11) ∧
      s.db.currentValue 0 0 (some 1) = some (1, 21) := by
  obtain ⟨s, run, test⟩ := Run.of_replay_any
    (St.step (fun v : Fin 2 × Nat => some v.1) fun _ => some (0 : Fin 2))
    (fun _ s a => s.Keeps a) (St.start twoDevices : St (Fin 2) (Fin 2) (Fin 2 × Nat))
    (.call 0 (.modifyDevice 0 0 (0, 11) none) :: List.replicate 6 (.op 0) ++
      .call 1 (.modifyDevice 0 0 (1, 21) none) :: List.replicate 6 (.op 1))
    (fun s => decide (s.db.currentValue 0 0 (some 0) = some (0, 11) ∧
      s.db.currentValue 0 0 (some 1) = some (1, 21)))
    (by decide +kernel)
  have free : Run _ (fun _ _ _ => True) _ _ s := run.mono fun _ _ _ _ => trivial
  have updated := ((updates_kept twoDevices_wf).2 _ s free).mpr run
  exact ⟨_, s, run, updated _ s List.prefix_rfl free, of_decide_eq_true test⟩

/-- Two clients change a device each at the same time: both calls return a key, and the first change is
    gone. -/
theorem update_lost :
    ∃ as : List (Act (Fin 2) (Fin 2) (Fin 2 × Nat)), ∃ s,
      Run (St.step (fun v => some v.1) fun _ => some 0)
        (fun _ _ _ => True) (St.start twoDevices) as s ∧
      s.pcs 0 = .idle (some (.ok (some 1))) ∧ s.pcs 1 = .idle (some (.ok (some 2))) ∧
      lastSet twoDevices 0 0 (some 0) s.done = some (0, 11) ∧
      s.db.currentValue 0 0 (some 0) = some (0, 10) := by
  obtain ⟨s, run, test⟩ := Run.of_replay_any
    (St.step (fun v : Fin 2 × Nat => some v.1) fun _ => some (0 : Fin 2))
    (fun _ _ _ => True) (St.start twoDevices : St (Fin 2) (Fin 2) (Fin 2 × Nat))
    ([.call 0 (.modifyDevice 0 0 (0, 11) none), .call 1 (.modifyDevice 0 0 (1, 21) none)] ++
      (List.replicate 6 [.op 0, .op 1]).flatten)
    (fun s => decide (s.pcs 0 = .idle (some (.ok (some 1))) ∧ s.pcs 1 = .idle (some (.ok (some 2))) ∧
      lastSet twoDevices 0 0 (some 0) s.done = some (0, 11) ∧
      s.db.currentValue 0 0 (some 0) = some (0, 10)))
    (by decide +kernel)
  exact ⟨_, s, run, of_decide_eq_true test⟩

end Lcls2.ConfigDb
