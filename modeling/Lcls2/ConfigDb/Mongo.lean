import Mathlib

/-!
# The configuration database

Model of `configdb` (`psdaq/configdb/mongoconfigdb.py`). Each operation on the database is atomic and a
call is the sequence of its operations, so a client between two operations is a `Pc`. Names of hutches,
aliases and collections are of one type, as they are strings; a device may be `None`, which is what
`value.get('detName:RO')` gives where there is no such name. A value is a typed JSON dictionary, of which
`detName` and `detType` read the names. An `_id` is a number that no document had before.
-/

namespace Lcls2.ConfigDb

/-- An item of `configs`. -/
structure Cfg (Name : Type*) where
  id : Nat
  collection : Name
  deriving DecidableEq

/-- An item of `devices`. -/
structure Device (Name : Type*) where
  device : Option Name
  configs : List (Cfg Name)
  deriving DecidableEq

/-- A document of a hutch. -/
structure Entry (Name : Type*) where
  aliasName : Name
  key : Int
  devices : List (Device Name)
  deriving DecidableEq

/-- The collections of the database. -/
structure Db (Name V : Type*) where
  hutches : Name → List (Entry Name)
  counters : Name → Option Int
  configs : Name → List (Nat × V)
  nextId : Nat

/-- The classes of the exceptions. -/
inductive Exc where
  | nameError
  | valueError
  | typeError
  | indexError
  | stopIteration
  deriving DecidableEq

/-- An exception with its text, empty where Python itself raises it, and the names in it. -/
structure Raised (Name : Type*) where
  exc : Exc
  msg : String
  args : List (Option Name)
  deriving DecidableEq

section
variable {Name V : Type*}

/-- An exception that Python itself raises. -/
def raised (exc : Exc) : Raised Name := ⟨exc, "", []⟩

/-- Of two entries the one that `sort('key', DESCENDING)` puts first. -/
def Entry.later (m : Option (Entry Name)) (c : Entry Name) : Option (Entry Name) :=
  match m with
  | none => some c
  | some d => if d.key < c.key then some c else some d

variable [DecidableEq Name]

/-- `find({"alias": alias}).sort('key', DESCENDING).limit(1)[0]`. -/
def Db.highest (db : Db Name V) (hutch aliasName : Name) : Option (Entry Name) :=
  ((db.hutches hutch).filter (·.aliasName = aliasName)).foldl Entry.later none

/-- `get_key` with an alias. -/
def Db.getKey (db : Db Name V) (aliasName hutch : Name) : Except (Raised Name) Int :=
  match db.highest hutch aliasName with
  | some d => .ok d.key
  | none => .error ⟨.nameError, "Failed to get key for alias/hutch:%s %s", [some aliasName, some hutch]⟩

/-- `get_key` without an alias; where there is no counter, the text of its error is made of a `None`. -/
def Db.nextKey (db : Db Name V) (hutch : Name) : Except (Raised Name) (Int × Db Name V) :=
  match db.counters hutch with
  | some seq => .ok (seq + 1, { db with counters := Function.update db.counters hutch (some (seq + 1)) })
  | none => .error (raised .typeError)

/-- `get_current`; where no hutch is given, the text of its error is made of a `None`. -/
def Db.getCurrent (db : Db Name V) (self : Name) (aliasName : Name) (hutch : Option Name) :
    Except (Raised Name) (Entry Name) :=
  match db.highest (hutch.getD self) aliasName, hutch with
  | some d, _ => .ok d
  | none, some h =>
    .error ⟨.nameError, "Failed to get current key for alias/hutch:%s %s", [some aliasName, some h]⟩
  | none, none => .error (raised .typeError)

/-- `hc.insert_one(c)`. -/
def Db.insert (db : Db Name V) (hutch : Name) (c : Entry Name) : Db Name V :=
  { db with hutches := Function.update db.hutches hutch (db.hutches hutch ++ [c]) }

/-- The `insert_one` of `save_device_config`. -/
def Db.store (db : Db Name V) (cfg : Name) (value : V) : Db Name V :=
  { db with
    configs := Function.update db.configs cfg (db.configs cfg ++ [(db.nextId, value)])
    nextId := db.nextId + 1 }

/-- What `get_configuration` makes of the `configs` of a device. -/
def Db.valueOf (db : Db Name V) (cfg : List (Cfg Name)) : Except (Raised Name) V :=
  match cfg with
  | [] => .error (raised .indexError)
  | c :: _ =>
    match (db.configs c.collection).find? (·.1 = c.id) with
    | some r => .ok r.2
    | none => .error (raised .typeError)

/-- What `get_configuration` makes of an entry. -/
def Db.valueIn (db : Db Name V) (devices : List (Device Name)) (device : Option Name) :
    Except (Raised Name) V :=
  match devices.find? (·.device = device) with
  | some l => db.valueOf l.configs
  | none => .error ⟨.valueError, "get_configuration: No device %s!", [device]⟩

/-- `get_configuration` of a key. -/
def Db.getConfiguration (db : Db Name V) (hutch : Name) (key : Int) (device : Option Name) :
    Except (Raised Name) V :=
  match (db.hutches hutch).find? (·.key = key) with
  | some c => db.valueIn c.devices device
  | none => .error (raised .typeError)

/-- The loop over the devices in `modify_device`. -/
def dropDevice (devices : List (Device Name)) (device : Option Name) (cfg : Cfg Name) :
    Except (Raised Name) (List (Device Name)) :=
  match devices.find? (·.device = device) with
  | none => .ok devices
  | some l =>
    if l.configs = [cfg] then .error ⟨.valueError, "modify_device error: No config values changed.", []⟩
    else .ok (devices.erase l)

/-- The loop over the devices in `transfer_config`; there is no `cfgs`. -/
def checkDevice (devices : List (Device Name)) (newdevice : Option Name) (cfg : List (Cfg Name)) :
    Except (Raised Name) (List (Device Name)) :=
  match devices.find? (·.device = newdevice) with
  | none => .ok devices
  | some l =>
    match l.configs, cfg with
    | a :: _, b :: _ =>
      if a.collection ≠ b.collection then
        .error ⟨.valueError, "transfer_config: Different collections!", []⟩
      else .error ⟨.nameError, "name 'cfgs' is not defined", []⟩
    | _, _ => .error (raised .indexError)

/-- The first result of the `aggregate` in `transfer_config`. -/
def Db.unwound (db : Db Name V) (oldhutch : Name) (k : Int) (olddevice : Option Name) :
    Except (Raised Name) (List (Cfg Name)) :=
  match ((db.hutches oldhutch).flatMap fun c => c.devices.map fun l => (c.key, l)).find?
      fun doc => doc.1 = k ∧ doc.2.device = olddevice with
  | some doc => .ok doc.2.configs
  | none => .error (raised .stopIteration)

end

section
variable {Name V : Type*} [LinearOrder Name]

/-- How `sort` compares two devices that have names. -/
def Device.le (a b : Device Name) : Prop :=
  match a.device, b.device with
  | some x, some y => x ≤ y
  | _, _ => True

/-- Comparing devices is comparing names. -/
instance : DecidableRel (fun a b : Device Name => a.le b) := fun a b =>
  match a, b with
  | ⟨some x, _⟩, ⟨some y, _⟩ => inferInstanceAs (Decidable (x ≤ y))
  | ⟨none, _⟩, _ => .isTrue trivial
  | ⟨some _, _⟩, ⟨none, _⟩ => .isTrue trivial

/-- `devices.append(l)` with the `sort` after it, which compares a `None` with nothing. -/
def addDevice (devices : List (Device Name)) (l : Device Name) :
    Except (Raised Name) (List (Device Name)) :=
  let devices := devices ++ [l]
  if 1 < devices.length ∧ devices.any (·.device.isNone) then .error (raised .typeError)
  else .ok (devices.insertionSort Device.le)

end

/-- A call with its arguments; `self` is the hutch of the client. -/
inductive Call (Name V : Type*) where
  | addAlias (self aliasName : Name)
  | modifyDevice (self aliasName : Name) (value : V) (hutch : Option Name)
  | transferConfig (self oldhutch oldalias : Name) (olddevice : Option Name) (newalias : Name)
      (newdevice : Option Name)

/-- What a call returns or raises. -/
abbrev Outcome (Name : Type*) := Except (Raised Name) (Option Int)

/-- A client before its next operation on the database. `set` in an insertion is the device that the call
    sets, with the value it sets it to; no operation reads it. -/
inductive Pc (Name V : Type*) where
  | idle (last : Option (Outcome Name))
  | addFind (hutch aliasName : Name)
  | addKey (hutch aliasName : Name)
  | modCurrent (self aliasName : Name) (value : V) (hutch : Option Name)
  | saveCount (hutch : Name) (c : Entry Name) (value : V) (cfg : Name)
  | saveFind (hutch : Name) (c : Entry Name) (value : V) (cfg : Name)
  | saveInsert (hutch : Name) (c : Entry Name) (value : V) (cfg : Name)
  | modKey (hutch : Name) (c : Entry Name) (value : V) (cfg : Cfg Name)
  | oldKey (self oldhutch oldalias : Name) (olddevice : Option Name) (newalias : Name)
      (newdevice : Option Name)
  | unwind (self oldhutch : Name) (k : Int) (olddevice : Option Name) (newalias : Name)
      (newdevice : Option Name)
  | newCurrent (self : Name) (cfg : List (Cfg Name)) (newalias : Name) (newdevice : Option Name)
  | newKey (self : Name) (cnew : Entry Name) (cfg : List (Cfg Name)) (newdevice : Option Name)
  | insert (hutch : Name) (c : Entry Name) (set : Option (Option Name × Option V))
  deriving DecidableEq

section
variable {Name V : Type*}

/-- A call that raises. -/
def Pc.raise (e : Raised Name) : Pc Name V := .idle (some (.error e))

/-- Going on with what a computation gives, or raising what it raises. -/
def Pc.bind {α : Type*} (r : Except (Raised Name) α) (k : α → Pc Name V) : Pc Name V :=
  match r with
  | .ok a => k a
  | .error e => .raise e

/-- A call up to its first operation. -/
def Call.start : Call Name V → Pc Name V
  | .addAlias self aliasName => .addFind self aliasName
  | .modifyDevice self aliasName value hutch => .modCurrent self aliasName value hutch
  | .transferConfig self oldhutch oldalias olddevice newalias newdevice =>
    .oldKey self oldhutch oldalias olddevice newalias newdevice

variable [LinearOrder Name] [DecidableEq V] (detName detType : V → Option Name)

/-- `modify_device` from its call of `save_device_config` on to the next operation. -/
def Pc.saved (hutch : Name) (c : Entry Name) (value : V) (cfg : Cfg Name) : Pc Name V :=
  .bind (dropDevice c.devices (detName value) cfg) fun devices =>
    .modKey hutch { c with devices } value cfg

/-- The next operation of a client, and what the call does up to the one after it. -/
def Pc.step (db : Db Name V) : Pc Name V → Db Name V × Pc Name V
  | .idle last => (db, .idle last)
  | .addFind hutch aliasName =>
    if (db.hutches hutch).any (·.aliasName = aliasName) then (db, .idle (some (.ok none)))
    else (db, .addKey hutch aliasName)
  | .addKey hutch aliasName =>
    match db.nextKey hutch with
    | .ok (kn, db) => (db, .insert hutch ⟨aliasName, kn, []⟩ none)
    | .error e => (db, .raise e)
  | .modCurrent self aliasName value hutch =>
    (db, .bind (db.getCurrent self aliasName hutch) fun c =>
      match detType value with
      | some cfg => .saveCount (hutch.getD self) c value cfg
      | none => .raise ⟨.valueError, "modify_device: value has no detType set!", []⟩)
  | .saveCount hutch c value cfg =>
    if (db.configs cfg).length = 0 then
      (db, .raise ⟨.nameError, "save_device_config: No documents found for %s.", [some cfg]⟩)
    else (db, .saveFind hutch c value cfg)
  | .saveFind hutch c value cfg =>
    match (db.configs cfg).find? (·.2 = value) with
    | some d => (db, .saved detName hutch c value ⟨d.1, cfg⟩)
    | none => (db, .saveInsert hutch c value cfg)
  | .saveInsert hutch c value cfg =>
    (db.store cfg value, .saved detName hutch c value ⟨db.nextId, cfg⟩)
  | .modKey hutch c value cfg =>
    match db.nextKey hutch with
    | .ok (kn, db) =>
      (db, .bind (addDevice c.devices ⟨detName value, [cfg]⟩) fun devices =>
        .insert hutch { c with key := kn, devices } (some (detName value, some value)))
    | .error e => (db, .raise e)
  | .oldKey self oldhutch oldalias olddevice newalias newdevice =>
    (db, .bind (db.getKey oldalias oldhutch) fun k =>
      .unwind self oldhutch k olddevice newalias newdevice)
  | .unwind self oldhutch k olddevice newalias newdevice =>
    (db, .bind (db.unwound oldhutch k olddevice) fun cfg => .newCurrent self cfg newalias newdevice)
  | .newCurrent self cfg newalias newdevice =>
    (db, .bind (db.getCurrent self newalias none) fun cnew => .newKey self cnew cfg newdevice)
  | .newKey self cnew cfg newdevice =>
    match db.nextKey self with
    | .ok (kn, db) =>
      (db, .bind (checkDevice cnew.devices newdevice cfg) fun devices =>
        .bind (addDevice devices ⟨newdevice, cfg⟩) fun devices =>
          .insert self { cnew with key := kn, devices } (some (newdevice, (db.valueOf cfg).toOption)))
    | .error e => (db, .raise e)
  | .insert hutch c set => (db.insert hutch c, .idle (some (.ok (set.map fun _ => c.key))))

end

/-- What a completed call has set. -/
structure Change (Name V : Type*) where
  hutch : Name
  aliasName : Name
  device : Option Name
  value : Option V

/-- The database and its clients, with what the calls have set so far, the last one first. -/
structure St (Client Name V : Type*) where
  db : Db Name V
  pcs : Client → Pc Name V
  done : List (Change Name V)

/-- A client calls, or does its next operation. -/
inductive Act (Client Name V : Type*) where
  | call (client : Client) (call : Call Name V)
  | op (client : Client)

section
variable {Client Name V : Type*} [DecidableEq Client] [LinearOrder Name] [DecidableEq V]
  (detName detType : V → Option Name)

/-- What an operation completes. -/
def Pc.completes : Pc Name V → Option (Change Name V)
  | .insert hutch c (some set) => some ⟨hutch, c.aliasName, set.1, set.2⟩
  | _ => none

/-- A step of the system; a client has one call at a time. -/
def St.step (s : St Client Name V) : Act Client Name V → Except Unit (St Client Name V)
  | .call client call =>
    match s.pcs client with
    | .idle _ => .ok { s with pcs := Function.update s.pcs client call.start }
    | _ => .error ()
  | .op client =>
    match s.pcs client with
    | .idle _ => .error ()
    | pc =>
      let next := pc.step detName detType s.db
      .ok {
        db := next.1
        pcs := Function.update s.pcs client next.2
        done := pc.completes.toList ++ s.done }

/-- Every client before its first call. -/
def St.start (db : Db Name V) : St Client Name V :=
  { db, pcs := fun _ => .idle none, done := [] }

end

end Lcls2.ConfigDb
