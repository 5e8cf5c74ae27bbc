import Mathlib
import Lcls2.Lib.Packets
import Lcls2.Bld.Packing
import Lcls2.Drp.Bld

/-!
# From publishing to receiving

The receivers take the entries out of the packets as they were put in, but see their pulse IDs and time
stamps only up to the widths of the differences. So what is received is what was published exactly where
every entry fits in the buffer and is within these widths of the first entry of its packet.
-/

namespace Lcls2.Bld

open Lib

variable {T : Nat}

/-- The pulse ID that is seen of an entry of a packet with a given first entry. -/
def Entry.seenPulseId (f e : Entry T) : UInt64 := f.pulseId + ((e.pulseId - f.pulseId) &&& 0xfff)

/-- The time stamp that is seen. -/
def Entry.seenTimeStamp (f e : Entry T) : UInt64 := f.timeStamp + ((e.timeStamp - f.timeStamp) &&& 0xfffff)

/-- The two differences are in the word side by side. -/
lemma Header.offsets_toNat (pulseId timeStamp q0 q1 : UInt64) :
    (Header.offsets pulseId timeStamp q0 q1).toNat =
      (pulseId - q0).toNat % 4096 * 1048576 + (timeStamp - q1).toNat % 1048576 := by
  have low : ((pulseId - q0) &&& 0xfff).toNat = (pulseId - q0).toNat % 4096 := by
    rw [UInt64.toNat_and]
    exact Nat.and_two_pow_sub_one_eq_mod _ 12
  have low' : ((timeStamp - q1) &&& 0xfffff).toNat = (timeStamp - q1).toNat % 1048576 := by
    rw [UInt64.toNat_and]
    exact Nat.and_two_pow_sub_one_eq_mod _ 20
  have side : ((pulseId - q0).toNat % 4096) <<< 20 + (timeStamp - q1).toNat % 1048576 = _ :=
    Nat.shiftLeft_add_eq_or_of_lt (Nat.mod_lt _ (Nat.two_pow_pos 20)) _
  rw [Nat.shiftLeft_eq] at side
  rw [Header.offsets, UInt32.toNat_or, UInt64.toNat_toUInt32, UInt64.toNat_toUInt32, UInt64.toNat_shiftLeft,
    low, low']
  simp only [Nat.shiftLeft_eq, UInt64.toNat_ofNat, Nat.reducePow, Nat.reduceMod] at side ⊢
  rw [side]
  congr 1
  · omega
  · omega

/-- The pulse ID is read back up to 12 bits. -/
lemma Header.offsets_pulseId (pulseId timeStamp q0 q1 : UInt64) :
    (Header.offsets pulseId timeStamp q0 q1 >>> 20).toUInt64 = (pulseId - q0) &&& 0xfff := by
  apply UInt64.toNat_inj.mp
  have mask : (pulseId - q0).toNat &&& 4095 = (pulseId - q0).toNat % 4096 :=
    Nat.and_two_pow_sub_one_eq_mod _ 12
  rw [UInt32.toNat_toUInt64, UInt32.toNat_shiftRight, Header.offsets_toNat, UInt64.toNat_and]
  simp only [Nat.shiftRight_eq_div_pow, UInt32.toNat_ofNat, UInt64.toNat_ofNat, Nat.reducePow, Nat.reduceMod]
  omega

/-- The time stamp is read back up to 20 bits. -/
lemma Header.offsets_timeStamp (pulseId timeStamp q0 q1 : UInt64) :
    (Header.offsets pulseId timeStamp q0 q1 &&& 0xfffff).toUInt64 = (timeStamp - q1) &&& 0xfffff := by
  apply UInt64.toNat_inj.mp
  have mask : ∀ n, n &&& 1048575 = n % 1048576 := fun n => Nat.and_two_pow_sub_one_eq_mod n 20
  rw [UInt32.toNat_toUInt64, UInt32.toNat_and, Header.offsets_toNat, UInt64.toNat_and]
  simp only [UInt32.toNat_ofNat, UInt64.toNat_ofNat, Nat.reducePow, Nat.reduceMod, mask]
  omega

/-- A buffer with a packet in it, read up to some of its entries. -/
structure Cursor (buffer : Bytes) (size next : Nat) (f : Entry T) (rest : List (Entry T)) : Prop where
  pulseId : word64 buffer 0 = f.pulseId
  timeStamp : word64 buffer 8 = f.timeStamp
  bytes : slice buffer next size = rest.flatMap f.bytes
  size : size = next + (4 + T) * rest.length

/-- A slice in two parts. -/
lemma slice_split {buffer before after : Bytes} {start stop : Nat}
    (h : slice buffer start stop = before ++ after) (le : start + before.length ≤ stop) :
    slice buffer start (start + before.length) = before ∧
      slice buffer (start + before.length) stop = after := by
  constructor
  · have h' : slice (slice buffer start stop) 0 before.length = _ := slice_slice buffer 0 le
    rw [Nat.add_zero] at h'
    rw [← h', h, slice, List.take_left, List.drop_zero]
  · rw [slice] at h
    rw [slice, ← List.drop_drop, h, List.drop_left]

/-- The next entry. -/
lemma Cursor.entry {buffer : Bytes} {size next : Nat} {f e : Entry T} {rest : List (Entry T)}
    (c : Cursor buffer size next f (e :: rest)) :
    word32 buffer next = Header.offsets e.pulseId e.timeStamp f.pulseId f.timeStamp ∧
      slice buffer (next + 4) (next + 4 + T) = e.payload.1 ∧ next + 4 + T ≤ size ∧
      Cursor buffer size (next + 4 + T) f rest := by
  have size := c.size
  rw [List.length_cons, Nat.mul_add, Nat.mul_one] at size
  have bytes := c.bytes
  rw [List.flatMap_cons] at bytes
  have entry := slice_split bytes (by
    rw [Entry.bytes_length]
    omega)
  rw [Entry.bytes_length, ← Nat.add_assoc] at entry
  have parts := slice_split entry.1 (by
    rw [toLe_length]
    omega)
  rw [toLe_length] at parts
  exact ⟨word32_of_slice parts.1, parts.2, by omega, c.pulseId, c.timeStamp, entry.2, by omega⟩

/-- A packet that has just been received. -/
lemma Cursor.recv (buffer : Bytes) (id : UInt32) (f : Entry T) (rest : List (Entry T)) :
    let packet := encode id (f :: rest)
    let buffer := writeAt buffer 0 packet
    Cursor buffer packet.length (20 + T) f rest ∧ word32 buffer 16 = id ∧
      slice buffer 20 (20 + T) = f.payload.1 := by
  intro packet buffer'
  have e : buffer' = Header.first f.pulseId f.timeStamp id ++
      (f.payload.1 ++ (rest.flatMap f.bytes ++ buffer.drop packet.length)) := by
    simp only [buffer', packet, writeAt, List.take_zero, List.nil_append, Nat.zero_add, encode,
      List.append_assoc]
  have read := Header.first_read e
  have length : packet.length = 20 + T + (4 + T) * rest.length := by
    simp only [packet, encode, List.length_append, Header.first_length, f.payload.2,
      table_length f.bytes_length]
  refine ⟨⟨read.1, read.2.1, ?_, length⟩, read.2.2, ?_⟩
  · have h := slice_append (Header.first f.pulseId f.timeStamp id ++ f.payload.1) (rest.flatMap f.bytes)
      (buffer.drop packet.length)
    rw [List.length_append, Header.first_length, f.payload.2, table_length f.bytes_length, ← length] at h
    simpa only [e, List.append_assoc] using h
  · have h := slice_append (Header.first f.pulseId f.timeStamp id) f.payload.1
      (rest.flatMap f.bytes ++ buffer.drop packet.length)
    rw [Header.first_length, f.payload.2] at h
    simpa only [e, List.append_assoc] using h

/-- The first entry of a packet is seen as it is. -/
lemma Entry.seen_self (f : Entry T) : f.seenPulseId f = f.pulseId ∧ f.seenTimeStamp f = f.timeStamp := by
  constructor
  · rw [Entry.seenPulseId, sub_self, UInt64.zero_and, add_zero]
  · rw [Entry.seenTimeStamp, sub_self, UInt64.zero_and, add_zero]

/-- What `fetch` returns of an entry. -/
def Entry.fetched (f e : Entry T) : UInt64 × Option Bytes := (f.seenPulseId e, some e.payload.1)

/-- A packet that fits a receiver's buffer, and what is seen of its entries. -/
def Opens {β : Type*} (seen : Entry T → Entry T → β) (id : UInt32) (packet : Bytes) (bs : List β) : Prop :=
  ∃ f rest, packet = encode id (f :: rest) ∧ packet.length ≤ Header.MTU ∧ bs = (f :: rest).map (seen f)

/-- The entries that a client has yet to fetch from its packet. -/
def Client.At (T : Nat) (id : UInt32) (c : Client) (bs : List (UInt64 × Option Bytes)) : Prop :=
  c.id = id ∧ ((bs = [] ∧ c.bufferSize < c.bufferNext + T) ∨
    ∃ (f : Entry T) (rest : List (Entry T)),
      Cursor c.buffer c.bufferSize c.bufferNext f rest ∧ bs = rest.map f.fetched)

/-- A packet that is used up is followed by the next one. -/
lemma Client.At.empty {id : UInt32} {c : Client} (pos : 0 < T) (at_ : c.At T id []) :
    c.bufferSize < c.bufferNext + T := by
  obtain ⟨-, ⟨-, lt⟩ | ⟨f, rest, cursor, e⟩⟩ := at_
  · exact lt
  · have none := List.map_eq_nil_iff.mp e.symm
    subst none
    have size := cursor.size
    rw [List.length_nil, Nat.mul_zero, Nat.add_zero] at size
    omega

/-- A client fetches the entries of its packets. -/
lemma Client.reader (pos : 0 < T) (id : UInt32) :
    Reader (fun c packets => Client.fetch c T packets) (Client.At T id) (Opens (T := T) Entry.fetched id) where
  next c b bs packets at_ := by
    obtain ⟨name, ⟨e, -⟩ | ⟨f, rest, cursor, e⟩⟩ := at_
    · cases e
    · cases rest with
      | nil => cases e
      | cons entry rest =>
        cases e
        obtain ⟨word, payload, le, cursor'⟩ := cursor.entry
        have more : ¬c.bufferNext + T > c.bufferSize := by omega
        refine ⟨{ c with bufferNext := c.bufferNext + 4 + T }, ?_, name, .inr ⟨f, rest, cursor', rfl⟩⟩
        unfold Client.fetch
        rw [if_neg more]
        simp only [Header.pulseId, Header.sizeofNext, word, cursor.pulseId, payload,
          Header.offsets_pulseId]
        rfl
  wait c at_ := by
    have less : c.bufferNext + T > c.bufferSize := Client.At.empty pos at_
    simp only [Client.fetch, if_pos less]
  recv c packet bs packets at_ opens := by
    have less : c.bufferNext + T > c.bufferSize := Client.At.empty pos at_
    obtain ⟨f, rest, rfl, fits, rfl⟩ := opens
    obtain ⟨cursor, name, payload⟩ := Cursor.recv c.buffer id f rest
    refine ⟨_, _, { c with
      buffer := writeAt c.buffer 0 (encode id (f :: rest))
      bufferSize := (encode id (f :: rest)).length
      bufferNext := 20 + T }, rfl, ?_, at_.1, .inr ⟨f, rest, cursor, rfl⟩⟩
    rw [Client.fetch, if_pos less]
    simp only [List.take_of_length_le fits, Header.id, Header.pulseId, Header.sizeofFirst, name, at_.1,
      cursor.pulseId, payload, ne_eq, not_true_eq_false, if_false, Entry.fetched, f.seen_self.1]

end Lcls2.Bld

namespace Lcls2.Drp

open Lib Lcls2.Bld

variable {T : Nat}

/-- The receiver's layout of a packet of the LCLS-II style. -/
structure Bld.Layout (T : Nat) (b : Bld) : Prop where
  timestampPos : b.timestampPos = 8
  pulseIdPos : b.pulseIdPos = 0
  headerSize : b.headerSize = 20
  payloadSize : b.payloadSize = T
  timestampCorr : b.timestampCorr = 0

/-- The entries that are left in the receiver's packet. -/
def Bld.At (T : Nat) (b : Bld) (bs : List UInt64) : Prop :=
  b.Layout T ∧ ((bs = [] ∧ b.bufferSize < b.position + T + 4) ∨
    ∃ (f : Entry T) (rest : List (Entry T)),
      Cursor b.buffer b.bufferSize b.position f rest ∧ 0 < b.position ∧ bs = rest.map f.seenTimeStamp)

/-- A packet that is used up is followed by the next one. -/
lemma Bld.At.empty {b : Bld} (at_ : b.At T []) : b.bufferSize < b.position + T + 4 := by
  obtain ⟨-, ⟨-, lt⟩ | ⟨f, rest, cursor, -, e⟩⟩ := at_
  · exact lt
  · have none := List.map_eq_nil_iff.mp e.symm
    subst none
    have size := cursor.size
    rw [List.length_nil, Nat.mul_zero, Nat.add_zero] at size
    omega

/-- A receiver goes through the entries of its packets. -/
lemma Bld.reader (T : Nat) (id : UInt32) :
    Reader Bld.next (Bld.At T) (Opens (T := T) Entry.seenTimeStamp id) where
  next b t bs packets at_ := by
    obtain ⟨layout, ⟨e, -⟩ | ⟨f, rest, cursor, pos, e⟩⟩ := at_
    · cases e
    · cases rest with
      | nil => cases e
      | cons entry rest =>
        cases e
        obtain ⟨word, payload, le, cursor'⟩ := cursor.entry
        have more : ¬b.position + b.payloadSize + 4 > b.bufferSize := by
          rw [layout.payloadSize]
          omega
        unfold Bld.next
        rw [if_neg more, if_neg pos.ne']
        refine ⟨_, Option.some_inj.mpr (Prod.ext ?_ rfl), ?_, .inr ⟨f, rest, ?_, ?_, rfl⟩⟩
        · simp only [Bld.headerTimestamp, layout.timestampPos, layout.timestampCorr, cursor.timeStamp, word,
            Header.offsets_timeStamp, sub_zero]
          rfl
        · exact ⟨layout.1, layout.2, layout.3, layout.4, layout.5⟩
        · show Cursor b.buffer b.bufferSize (b.position + 4 + b.payloadSize) f rest
          rw [layout.payloadSize]
          exact cursor'
        · exact Nat.add_pos_left (Nat.add_pos_left pos 4) _
  wait b at_ := by
    have less : b.position + b.payloadSize + 4 > b.bufferSize := by
      rw [at_.1.payloadSize]
      exact Bld.At.empty at_
    simp only [Bld.next, if_pos less]
  recv b packet bs packets at_ opens := by
    have layout := at_.1
    have less : b.position + b.payloadSize + 4 > b.bufferSize := by
      rw [layout.payloadSize]
      exact Bld.At.empty at_
    obtain ⟨f, rest, rfl, fits, rfl⟩ := opens
    obtain ⟨cursor, -, -⟩ := Cursor.recv b.buffer id f rest
    have fits' : (encode id (f :: rest)).length ≤ Bld.MTU := fits.trans (by decide)
    rw [Bld.next, if_pos less]
    refine ⟨_, _, _, rfl, Option.some_inj.mpr (Prod.ext ?_ rfl), ?_, .inr ⟨f, rest, ?_, ?_, rfl⟩⟩
    · simp only [Bld.first, Bld.headerTimestamp, List.take_of_length_le fits', layout.timestampPos,
        layout.timestampCorr, cursor.timeStamp, sub_zero, f.seen_self.2]
    · exact ⟨layout.1, layout.2, layout.3, layout.4, layout.5⟩
    · show Cursor (writeAt b.buffer 0 ((encode id (f :: rest)).take Bld.MTU)) _ (b.headerSize + b.payloadSize)
        f rest
      rw [layout.headerSize, layout.payloadSize, List.take_of_length_le fits']
      exact cursor
    · show 0 < b.headerSize + b.payloadSize
      rw [layout.headerSize]
      omega

end Lcls2.Drp

namespace Lcls2.Bld

open Lib

variable {T : Nat}

/-- An entry whose differences to another fit their widths. -/
def Near (f e : Entry T) : Prop :=
  e.pulseId.toNat - f.pulseId.toNat < 2 ^ 12 ∧ e.timeStamp.toNat - f.timeStamp.toNat < 2 ^ 20

/-- Every entry is near the first one of the packet that it is put in. -/
def InReach : List (Entry T) → List (Op T) → Prop
  | _, [] => True
  | _, .flush :: ops => InReach [] ops
  | held, .publish e :: ops =>
    Near (held.headD e) e ∧ InReach (if Closes held e then [] else held ++ [e]) ops

/-- A packet whose entries are near the first. -/
def Exact : List (Entry T) → Prop
  | [] => True
  | f :: rest => ∀ e ∈ rest, Near f e

/-- An entry is near itself. -/
lemma Near.refl (e : Entry T) : Near e e := by
  constructor
  · rw [Nat.sub_self]
    exact Nat.two_pow_pos 12
  · rw [Nat.sub_self]
    exact Nat.two_pow_pos 20

/-- A packet that grows. -/
lemma Exact.concat {held : List (Entry T)} {e : Entry T} :
    Exact (held ++ [e]) ↔ Exact held ∧ Near (held.headD e) e := by
  cases held with
  | nil => exact ⟨fun _ => ⟨trivial, .refl e⟩, fun _ => nofun⟩
  | cons f rest =>
    constructor
    · intro all
      exact ⟨fun e' h => all e' (List.mem_append_left _ h), all e (List.mem_append_right _ List.mem_cons_self)⟩
    · rintro ⟨before, last⟩ e' h
      cases List.mem_append.mp h with
      | inl h => exact before e' h
      | inr h => exact List.mem_singleton.mp h ▸ last

/-- What is held is the start of a packet. -/
lemma pack_extends {held : List (Entry T)} (ne : held ≠ []) (ops : List (Op T)) :
    ∃ more, held ++ more ∈ pack held ops := by
  induction ops generalizing held with
  | nil => exact ⟨[], by simp [pack, ne]⟩
  | cons op ops ih =>
    cases op with
    | flush => exact ⟨[], by simp [pack, ne]⟩
    | publish e =>
      rw [pack]
      split
      · exact ⟨[e], List.mem_cons_self⟩
      · have grown : held ++ [e] ≠ [] := by simp
        obtain ⟨more, mem⟩ := ih grown
        refine ⟨e :: more, ?_⟩
        rw [List.append_assoc] at mem
        exact mem

/-- The start of a packet whose entries are near the first. -/
lemma Exact.of_append {held more : List (Entry T)} (h : Exact (held ++ more)) : Exact held := by
  cases held with
  | nil => trivial
  | cons f rest => exact fun e he => h e (List.mem_append_left _ he)

/-- The packet that a flush sends. -/
lemma forall_mem_held {P : List (Entry T) → Prop} {held : List (Entry T)} (h : held ≠ [] → P held) :
    ∀ packet ∈ (if held = [] then [] else [held]), P packet := by
  intro packet mem
  split at mem
  · cases mem
  next ne => exact List.mem_singleton.mp mem ▸ h ne

/-- The packets are those of entries near the first if every entry is when it is put in. -/
lemma pack_exact {held : List (Entry T)} (exact : Exact held) (ops : List (Op T)) :
    (∀ packet ∈ pack held ops, Exact packet) ↔ InReach held ops := by
  induction ops generalizing held with
  | nil => exact iff_of_true (forall_mem_held fun _ => exact) trivial
  | cons op ops ih =>
    have empty : Exact ([] : List (Entry T)) := trivial
    cases op with
    | flush =>
      rw [pack, InReach, List.forall_mem_append, ih empty]
      exact and_iff_right (forall_mem_held fun _ => exact)
    | publish e =>
      rw [pack, InReach]
      split
      next closes =>
        rw [List.forall_mem_cons, ih empty, Exact.concat]
        exact and_congr_left' (and_iff_right exact)
      next stays =>
        by_cases near : Near (held.headD e) e
        · rw [ih (Exact.concat.mpr ⟨exact, near⟩)]
          exact (and_iff_right near).symm
        · -- the packet that the entry is put in is not exact
          refine iff_of_false ?_ (fun all => near all.1)
          intro all
          have grown : held ++ [e] ≠ [] := by simp
          obtain ⟨more, mem⟩ := pack_extends grown ops
          exact near (Exact.concat.mp (all _ mem).of_append).2

/-- The packets hold what is published in its order. -/
lemma pack_flatten (held : List (Entry T)) (ops : List (Op T)) :
    (pack held ops).flatten = held ++ published ops := by
  have last : ∀ held : List (Entry T), (if held = [] then [] else [held]).flatten = held := by
    intro held
    split
    next e => exact e.symm
    · rw [List.flatten_singleton]
  induction ops generalizing held with
  | nil => rw [pack, published, last, List.append_nil]
  | cons op ops ih =>
    cases op with
    | flush => rw [pack, published, List.flatten_append, last, ih, List.nil_append]
    | publish e =>
      rw [pack, published]
      split
      · rw [List.flatten_cons, ih, List.nil_append, List.append_assoc]
        rfl
      · rw [ih, List.append_assoc]
        rfl

/-- A packet with no entry fits. -/
lemma packetSize_nil : packetSize T ([] : List (Entry T)).length ≤ Header.MTU := by
  rw [packetSize, List.length_nil, Nat.mul_zero]
  decide

/-- Packets have entries, and fit the buffer. -/
lemma pack_fits {held : List (Entry T)} {ops : List (Op T)} (room : Room held ops)
    (fits : packetSize T held.length ≤ Header.MTU) :
    ∀ packet ∈ pack held ops, packet ≠ [] ∧ packetSize T packet.length ≤ Header.MTU := by
  induction ops generalizing held with
  | nil => exact forall_mem_held fun ne => ⟨ne, fits⟩
  | cons op ops ih =>
    cases op with
    | flush =>
      rw [pack, List.forall_mem_append]
      exact ⟨forall_mem_held fun ne => ⟨ne, fits⟩, ih room packetSize_nil⟩
    | publish e =>
      have grown : packetSize T (held ++ [e]).length ≤ Header.MTU := by
        rw [List.length_append]
        exact room.1
      have room := room.2
      rw [pack]
      split
      next closes =>
        rw [if_pos closes] at room
        rw [List.forall_mem_cons]
        exact ⟨⟨by simp, grown⟩, ih room packetSize_nil⟩
      next stays =>
        rw [if_neg stays] at room
        exact ih room grown

/-- What is seen of a packet. -/
def seenOf {β : Type*} (seen : Entry T → Entry T → β) : List (Entry T) → List β
  | [] => []
  | f :: rest => (f :: rest).map (seen f)

/-- The packets that are sent, and what is seen of them. -/
lemma opens_pack {β : Type*} (seen : Entry T → Entry T → β) (id : UInt32) {ops : List (Op T)}
    (room : Room [] ops) :
    List.Forall₂ (Opens seen id) ((pack [] ops).map (encode id)) ((pack [] ops).map (seenOf seen)) := by
  rw [List.forall₂_map_left_iff, List.forall₂_map_right_iff, List.forall₂_same]
  intro packet mem
  obtain ⟨ne, fits⟩ := pack_fits room packetSize_nil packet mem
  rw [← encode_length id ne] at fits
  cases packet with
  | nil => exact absurd rfl ne
  | cons f rest => exact ⟨f, rest, rfl, fits, rfl⟩

/-- Lists with the same beginnings. -/
lemma forall_take_eq {β : Type*} {xs ys : List β} : (∀ n, xs.take n = ys.take n) ↔ xs = ys := by
  constructor
  · intro all
    have h := all (max xs.length ys.length)
    rwa [List.take_of_length_le (le_max_left _ _), List.take_of_length_le (le_max_right _ _)] at h
  · rintro rfl n
    rfl

/-- Two ways to see the packets agree as a whole if they do for each packet. -/
lemma flatten_map_eq {β : Type*} {f g : List (Entry T) → List β} {packets : List (List (Entry T))}
    (length : ∀ packet, (f packet).length = (g packet).length) :
    (packets.map f).flatten = (packets.map g).flatten ↔ ∀ packet ∈ packets, f packet = g packet := by
  induction packets with
  | nil => exact iff_of_true rfl nofun
  | cons packet packets ih =>
    rw [List.map_cons, List.map_cons, List.flatten_cons, List.flatten_cons, List.forall_mem_cons, ← ih]
    constructor
    · intro h
      exact List.append_inj h (length packet)
    · rintro ⟨first, others⟩
      rw [first, others]

/-- What is seen of the packets is what was published if it is for the entries of each packet. -/
lemma seen_eq_published {β : Type*} {seen : Entry T → Entry T → β} {entry : Entry T → β}
    (self : ∀ e, seen e e = entry e) (ops : List (Op T)) :
    ((pack [] ops).map (seenOf seen)).flatten = (published ops).map entry ↔
      ∀ f rest, f :: rest ∈ pack [] ops → ∀ e ∈ rest, seen f e = entry e := by
  have parts : (published ops).map entry = ((pack [] ops).map (List.map entry)).flatten := by
    rw [← List.map_flatten, pack_flatten, List.nil_append]
  have length : ∀ packet, (seenOf seen packet).length = (packet.map entry).length := by
    intro packet
    cases packet with
    | nil => rfl
    | cons f rest => rw [seenOf, List.length_map, List.length_map]
  rw [parts, flatten_map_eq length]
  constructor
  · intro all f rest mem e he
    have h := all _ mem
    rw [seenOf, List.map_inj_left] at h
    exact h e (List.mem_cons_of_mem f he)
  · intro all packet mem
    cases packet with
    | nil => rfl
    | cons f rest =>
      rw [seenOf, List.map_inj_left]
      intro e he
      cases he with
      | head => exact self f
      | tail _ he => exact all f rest mem e he

/-- A difference is seen as it is if it fits the mask. -/
lemma seen_difference {x y : UInt64} (le : x ≤ y) {mask : UInt64} {k : Nat} (width : mask.toNat = 2 ^ k - 1) :
    x + ((y - x) &&& mask) = y ↔ y.toNat - x.toNat < 2 ^ k := by
  have whole : x + (y - x) = y := add_sub_cancel x y
  conv_lhs =>
    rhs
    rw [← whole]
  rw [add_right_inj, ← UInt64.toNat_inj, UInt64.toNat_and, width, Nat.and_two_pow_sub_one_eq_mod,
    UInt64.toNat_sub_of_le _ _ le, Nat.mod_eq_iff_lt (Nat.two_pow_pos k).ne']

/-- A client whose payloads have no bytes goes on where it should wait. -/
lemma Client.reads_empty {id : UInt32} {n m : Nat} {c : Client} {packets : List (List (Entry 0))}
    (name : c.id = id) (left : m = 0 ∨ c.bufferNext + 4 * m ≤ c.bufferSize + 4)
    (fits : ∀ packet ∈ packets, packet ≠ [] ∧ packetSize 0 packet.length ≤ Header.MTU) :
    min n (m + packets.flatten.length) ≤
      (reads (fun c packets => Client.fetch c 0 packets) n c (packets.map (encode id))).length := by
  induction n generalizing m c packets with
  | zero => rw [Nat.zero_min]; exact Nat.zero_le _
  | succ n ih =>
    rw [reads]
    by_cases used : c.bufferNext + 0 > c.bufferSize
    · have none : m = 0 := by omega
      subst none
      cases packets with
      | nil => simp
      | cons packet packets =>
        rw [List.forall_mem_cons] at fits
        cases packet with
        | nil => exact absurd rfl fits.1.1
        | cons f rest =>
          have small := fits.1.2
          rw [← encode_length id fits.1.1] at small
          obtain ⟨cursor, name', payload⟩ := Cursor.recv c.buffer id f rest
          have size := cursor.size
          have step : ∃ result, Client.fetch c 0 (encode id (f :: rest) :: packets.map (encode id)) =
              some (result, { c with
                buffer := writeAt c.buffer 0 (encode id (f :: rest))
                bufferSize := (encode id (f :: rest)).length
                bufferNext := 20 }, packets.map (encode id)) := by
            simp only [Client.fetch, if_pos used, List.take_of_length_le small, Header.id, name', name, ne_eq,
              not_true_eq_false, if_false]
            exact ⟨_, rfl⟩
          obtain ⟨result, step⟩ := step
          rw [List.map_cons, step]
          have left : 20 + 4 * rest.length ≤ (encode id (f :: rest)).length + 4 := by
            have size := cursor.size
            omega
          have more := ih (c := { c with
            buffer := writeAt c.buffer 0 (encode id (f :: rest))
            bufferSize := (encode id (f :: rest)).length
            bufferNext := 20 }) name (.inr left) fits.2
          simp only [List.length_cons, List.flatten_cons, List.length_append] at more ⊢
          refine le_trans ?_ (Nat.succ_le_succ more)
          omega
    · have step : ∃ result, Client.fetch c 0 (packets.map (encode id)) =
          some (result, { c with bufferNext := c.bufferNext + 4 }, packets.map (encode id)) := by
        unfold Client.fetch
        rw [if_neg used]
        exact ⟨_, rfl⟩
      obtain ⟨result, step⟩ := step
      rw [step]
      have left' : m - 1 = 0 ∨ c.bufferNext + 4 + 4 * (m - 1) ≤ c.bufferSize + 4 := by omega
      have more := ih (c := { c with bufferNext := c.bufferNext + 4 }) name left' fits
      refine le_trans ?_ (Nat.succ_le_succ more)
      omega

/-- What the receivers see is what was published, and no byte is written outside the buffer, if and only if
    a payload has a byte, every entry fits in the buffer after those that it is sent with, and its pulse ID
    and time stamp are within 12 and 20 bits of those of the first of them. -/
theorem round_trip (id : UInt32) (server client : Memory Header.MTU) (receiver : Memory Drp.Bld.MTU)
    {ops : List (Op T)}
    (increasing : (published ops).Pairwise fun a b => a.pulseId < b.pulseId ∧ a.timeStamp < b.timeStamp) :
    (∃ s, (ops ++ [Op.flush]).foldlM Server.step (Server.new id server) = .ok s ∧
      (∀ n, reads (fun c packets => Client.fetch c T packets) n (Client.new id client) s.sent =
        ((published ops).map fun e => (e.pulseId, some e.payload.1)).take n) ∧
      ∀ n, reads Drp.Bld.next n (Drp.Bld.new T receiver) s.sent =
        ((published ops).map (·.timeStamp)).take n) ↔
    0 < T ∧ Room [] ops ∧ InReach [] ops := by
  have holds : (Server.new id server).Holds id ([] : List (Entry T)) := ⟨rfl, server.2, rfl, rfl⟩
  by_cases room : Room [] ops
  · obtain ⟨s, run, sent⟩ := (holds.run ops).1 room
    have sent : s.sent = (pack [] ops).map (encode id) := sent
    have fits := pack_fits room packetSize_nil
    have ordered : ∀ f rest, f :: rest ∈ pack [] ops → ∀ e ∈ rest,
        f.pulseId < e.pulseId ∧ f.timeStamp < e.timeStamp := by
      intro f rest mem
      have sub := List.sublist_flatten_of_mem mem
      rw [pack_flatten, List.nil_append] at sub
      exact (List.pairwise_cons.mp (increasing.sublist sub)).1
    -- every entry is near the first of its packet exactly if both are seen as they are
    have near : InReach [] ops ↔ ∀ f rest, f :: rest ∈ pack [] ops → ∀ e ∈ rest, Near f e := by
      have empty : Exact ([] : List (Entry T)) := trivial
      rw [← pack_exact empty]
      constructor
      · intro all f rest mem
        exact all _ mem
      · intro all packet mem
        cases packet with
        | nil => trivial
        | cons f rest => exact all f rest mem
    have stamps : (∀ n, reads Drp.Bld.next n (Drp.Bld.new T receiver) s.sent =
        ((published ops).map (·.timeStamp)).take n) ↔
        ∀ f rest, f :: rest ∈ pack [] ops → ∀ e ∈ rest, e.timeStamp.toNat - f.timeStamp.toNat < 2 ^ 20 := by
      have start : Drp.Bld.At T (Drp.Bld.new T receiver) [] :=
        ⟨⟨rfl, rfl, rfl, rfl, rfl⟩, .inl ⟨rfl, by show 0 < 0 + T + 4; omega⟩⟩
      have seen := fun n => (Drp.Bld.reader T id).reads_eq (n := n) start
        (opens_pack Entry.seenTimeStamp id room)
      simp only [sent, seen, List.nil_append]
      rw [forall_take_eq, seen_eq_published fun e => e.seen_self.2]
      refine forall_congr' fun f => forall_congr' fun rest => forall_congr' fun mem =>
        forall_congr' fun e => forall_congr' fun he => ?_
      exact seen_difference (UInt64.le_of_lt (ordered f rest mem e he).2) rfl
    cases T with
    | zero =>
      refine iff_of_false ?_ fun all => absurd all.1 (Nat.lt_irrefl 0)
      rintro ⟨s', run', fetched, -⟩
      rw [run] at run'
      cases run'
      have start : (1 : Nat) = 0 ∨ 0 + 4 * 1 ≤ 0 + 4 := .inr le_rfl
      have name : (Client.new id client).id = id := rfl
      have more := Client.reads_empty (n := (published ops).length + 1) name start fits
      rw [← sent, fetched, pack_flatten, List.length_take, List.length_map, List.nil_append] at more
      omega
    | succ k =>
      have pulses : (∀ n, reads (fun c packets => Client.fetch c (k + 1) packets) n (Client.new id client)
          s.sent = ((published ops).map fun e => (e.pulseId, some e.payload.1)).take n) ↔
          ∀ f rest, f :: rest ∈ pack [] ops → ∀ e ∈ rest, e.pulseId.toNat - f.pulseId.toNat < 2 ^ 12 := by
        have start : Client.At (k + 1) id (Client.new id client) [] :=
          ⟨rfl, .inl ⟨rfl, by show 0 < 0 + (k + 1); omega⟩⟩
        have seen := fun n => (Client.reader (Nat.succ_pos k) id).reads_eq (n := n) start
          (opens_pack Entry.fetched id room)
        simp only [sent, seen, List.nil_append]
        rw [forall_take_eq, seen_eq_published fun e => congrArg (·, some e.payload.1) e.seen_self.1]
        refine forall_congr' fun f => forall_congr' fun rest => forall_congr' fun mem =>
          forall_congr' fun e => forall_congr' fun he => ?_
        rw [Entry.fetched, Prod.mk.injEq, and_iff_left rfl]
        exact seen_difference (UInt64.le_of_lt (ordered f rest mem e he).1) rfl
      rw [near, and_iff_right (Nat.succ_pos k), and_iff_right room]
      constructor
      · rintro ⟨s', run', fetched, stamped⟩ f rest mem e he
        rw [run] at run'
        cases run'
        exact ⟨pulses.mp fetched f rest mem e he, stamps.mp stamped f rest mem e he⟩
      · intro all
        refine ⟨s, run, pulses.mpr ?_, stamps.mpr ?_⟩
        · exact fun f rest mem e he => (all f rest mem e he).1
        · exact fun f rest mem e he => (all f rest mem e he).2
  · have fault := (holds.run ops).2 room
    refine iff_of_false ?_ fun all => room all.2.1
    rintro ⟨s, run, -⟩
    rw [fault] at run
    cases run

/-- Memory that is all zero. -/
@[irreducible] def zeros (size : Nat) : Memory size := ⟨List.replicate size 0, List.length_replicate⟩

/-- A pulse and a later one. -/
def twoPulses (T : Nat) (pulseId : UInt64) : List (Op T) :=
  [.publish ⟨1, 10, zeros T⟩, .publish ⟨pulseId, 20, zeros T⟩]

/-- Both are held where the second fits and is within 1023 of the first. -/
lemma twoPulses_room {T : Nat} {pulseId : UInt64}
    (stays : ¬Closes [] (⟨1, 10, zeros T⟩ : Entry T)) (fits : packetSize T 2 ≤ Header.MTU) :
    Room [] (twoPulses T pulseId) := by
  refine ⟨le_trans ?_ fits, ?_⟩
  · exact Nat.add_le_add_left (Nat.mul_le_mul_left _ one_le_two) _
  · rw [if_neg stays]
    exact ⟨fits, by split <;> trivial⟩

/-- Two pulses next to each other. -/
theorem round_trip_pair :
    ∃ s, (twoPulses 1 2 ++ [Op.flush]).foldlM Server.step (Server.new 7 (zeros Header.MTU)) = .ok s ∧
      (∀ n, reads (fun c packets => Client.fetch c 1 packets) n (Client.new 7 (zeros Header.MTU)) s.sent =
        [(1, some (zeros 1).1), (2, some (zeros 1).1)].take n) ∧
      ∀ n, reads Drp.Bld.next n (Drp.Bld.new 1 (zeros Drp.Bld.MTU)) s.sent = [10, 20].take n := by
  have increasing : (published (twoPulses 1 2)).Pairwise
      fun a b => a.pulseId < b.pulseId ∧ a.timeStamp < b.timeStamp := by
    refine List.pairwise_pair.mpr ?_
    decide
  have stays : ¬Closes [] (⟨1, 10, zeros 1⟩ : Entry 1) := by decide
  have reach : InReach [] (twoPulses 1 2) := by
    refine ⟨.refl _, ?_⟩
    rw [if_neg stays]
    exact ⟨⟨by decide, by decide⟩, by split <;> trivial⟩
  exact (round_trip 7 (zeros _) (zeros _) (zeros _) increasing).mpr
    ⟨Nat.one_pos, twoPulses_room stays (by decide), reach⟩

/-- A pulse ID that is 5000 above the one before it is received as one that is 904 above it; and of two
    payloads of 4086 bytes the second is written past the end of the buffer. -/
theorem pulse_truncated :
    (∃ s, (twoPulses 1 5001 ++ [Op.flush]).foldlM Server.step (Server.new 7 (zeros Header.MTU)) = .ok s ∧
      reads (fun c packets => Client.fetch c 1 packets) 2 (Client.new 7 (zeros Header.MTU)) s.sent =
        [(1, some (zeros 1).1), (905, some (zeros 1).1)]) ∧
    (twoPulses 4086 2 ++ [Op.flush]).foldlM Server.step (Server.new 7 (zeros Header.MTU)) =
      .error .outOfBounds := by
  have holds : ∀ {T : Nat}, (Server.new 7 (zeros Header.MTU)).Holds 7 ([] : List (Entry T)) :=
    ⟨rfl, (zeros _).2, rfl, rfl⟩
  constructor
  · have room : Room [] (twoPulses 1 5001) := twoPulses_room (by decide) (by decide)
    obtain ⟨s, run, sent⟩ := (holds.run _).1 room
    have sent : s.sent = (pack [] (twoPulses 1 5001)).map (encode 7) := sent
    refine ⟨s, run, ?_⟩
    have start : Client.At 1 7 (Client.new 7 (zeros Header.MTU)) [] := ⟨rfl, .inl ⟨rfl, Nat.one_pos⟩⟩
    rw [sent, (Client.reader Nat.one_pos 7).reads_eq start (opens_pack Entry.fetched 7 room)]
    decide +kernel
  · apply (holds.run _).2
    rintro ⟨-, second⟩
    rw [if_neg (by decide)] at second
    exact absurd second.1 (by decide)

end Lcls2.Bld
