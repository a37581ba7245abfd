import TinyMq.Broker.WireRoundTrip
import TinyMq.Broker.Destination
import TinyMq.Storage.Sweep

/-!
The places where stored bytes are read or patched at a fixed offset without being decoded:
the replay reads priority and delivery time, the sweep the expiration, and a commit
patches the delivery time in the cache and in the transaction buffer.
-/
namespace TinyMqStoredOffsets
open ByteStrings AssocLists TinyMqTom TinyMqSweep TinyMqMessage TinyMqDestination
open TinyMqWireFormat TinyMqWireRoundTrip

/-- `Message::Type` of the five classes. -/
def typeByte : Body → UInt8
  | .text _ => 1
  | .stream _ => 2
  | .bytes _ => 3
  | .map _ => 4
  | .object _ _ => 5

/-- What a record and the cache of a message hold. -/
def storageBytes (json : Json) (c : Content) : Bytes := typeByte c.body :: toBytes json c

/-- Behind type, magic, number, uuid, reliability, timestamp, expiration and delivery time. -/
def kPriorityOffset : Nat := 1 + 1 + 8 + 16 + 1 + 8 + 8 + 8

def priorityFromStorageBytes (data : Bytes) : Int :=
  if data.length < kPriorityOffset + 4 then 4
  else if data.getD 1 0 ≠ 2 then 4
  else clampPriority (intLe 4 (slice kPriorityOffset 4 data))

/-- Behind type, magic, number, uuid, reliability, timestamp and expiration. -/
def kDeliveryTimeOffset : Nat := 1 + 1 + 8 + 16 + 1 + 8 + 8

def deliveryTimeFromStorageBytes (nowMs : Int) (data : Bytes) : Int :=
  if data.length < kDeliveryTimeOffset + 8 then 0
  else if data.getD 1 0 ≠ 2 then 0
  else
    let deliveryTime := intLe 8 (slice kDeliveryTimeOffset 8 data)
    if deliveryTime < 0 ∨ nowMs + kMaxFutureHeaderMs < deliveryTime then 0 else deliveryTime

/-- Eight bytes at an offset, when they are there and the record has headers. -/
def patchSlot (offset : Nat) (data : Bytes) (value : Int) : Bytes :=
  if data.length < offset + 8 then data
  else if data.getD 1 0 ≠ 2 then data
  else overwrite data offset (leInt 8 value)

/-- `Message::patchCachedDeliveryTime` on the cached bytes. -/
def patchCachedDeliveryTime (data : Bytes) (deliveryTime : Int) : Bytes :=
  patchSlot (1 + 1 + 8 + 16 + 1 + 8 + 8) data deliveryTime

/-- `TransactionBuffer.cpp`, on the buffered bytes. -/
def patchDeliveryTimeInBytes (data : Bytes) (deliveryTime : Int) : Bytes :=
  patchSlot (1 + 1 + 8 + 16 + 1 + 8 + 8) data deliveryTime

section Decoded
variable {json : Json}

def withNumbers (h : Headers) (m : Content) : Content :=
  { m with headers := takeNumbers m.headers h }

theorem readData_numbers (h : Headers) (m : Content) (bytes : Bytes) (off : Nat) :
    readData json (withNumbers h m) bytes off = (readData json m bytes off).map (withNumbers h) := by
  unfold readData
  split
  · rw [Option.map_map, show (withNumbers h m).body = m.body from rfl]
    rfl
  · rfl

theorem readProperties_numbers (h : Headers) (m : Content) (bytes : Bytes) (off : Nat) :
    readProperties json (withNumbers h m) bytes off =
      (readProperties json m bytes off).map (withNumbers h) := by
  unfold readProperties
  split
  · rfl
  · dsimp only
    split
    · rw [show (withNumbers h m).properties = m.properties from rfl]
      cases json.parseObject (slice (off + 4) (leNat (slice off 4 bytes)) bytes) with
      | none => rfl
      | some o =>
        simp only [Option.bind_some]
        cases fromJSON json m.properties o with
        | none => rfl
        | some ps => exact readData_numbers h { m with properties := ps } bytes _
    · exact readData_numbers h m bytes _

theorem readStrings_numbers (h : Headers) (m : Content) (bytes : Bytes) (off : Nat) :
    readStrings json (withNumbers h m) bytes off =
      (readStrings json m bytes off).map (withNumbers h) := by
  unfold readStrings
  cases readString bytes off with
  | none => rfl
  | some a =>
    dsimp only
    cases readString bytes a.2 with
    | none => rfl
    | some b =>
      dsimp only
      cases readString bytes b.2 with
      | none => rfl
      | some c =>
        dsimp only
        cases readString bytes c.2 with
        | none => rfl
        | some d =>
          exact readProperties_numbers h { m with headers := { m.headers with
            messageId := a.1, replyTo := b.1, correlationId := c.1, type := d.1 } } bytes d.2

theorem fromBytes_numbers {c : Content} (number : Fits 8 c.number) (headers : MachineHeaders c.headers)
    (m : Content) : fromBytes json m (toBytes json c) =
      (readStrings json { m with number := c.number, uuid := c.uuid, reliability := c.reliability }
        (variablePart json c) 0).map (withNumbers c.headers) := by
  rw [fromBytes_headers m number, readHeaders_written _ headers]
  exact readStrings_numbers c.headers
    { m with number := c.number, uuid := c.uuid, reliability := c.reliability } _ 0

theorem decoded_expiration {c c' m : Content} (number : Fits 8 c.number)
    (headers : MachineHeaders c.headers) (read : fromBytes json m (toBytes json c) = some c') :
    c'.headers.expiration = c.headers.expiration := by
  rw [fromBytes_numbers number headers] at read
  obtain ⟨old, _, rfl⟩ := Option.map_eq_some_iff.mp read
  rfl

theorem Machine.later {c : Content} (headers : MachineHeaders c.headers) {t : Int} (fits : Fits 8 t) :
    MachineHeaders (c.withDeliveryTime t).headers :=
  ⟨headers.timestamp, headers.expiration, fits, headers.priority, headers.deliveryCount⟩

theorem fromBytes_later {c : Content} (number : Fits 8 c.number) (headers : MachineHeaders c.headers)
    {t : Int} (fits : Fits 8 t) (m : Content) :
    fromBytes json m (toBytes json (c.withDeliveryTime t)) =
      (fromBytes json m (toBytes json c)).map (·.withDeliveryTime t) := by
  rw [fromBytes_numbers (c := c.withDeliveryTime t) number (Machine.later headers fits),
    fromBytes_numbers number headers, Option.map_map]
  rfl

end Decoded

section Offsets
variable {json : Json}

def beforeExpiration (c : Content) : Bytes :=
  typeByte c.body :: fixedPart c ++ leInt 8 c.headers.timestamp

def behindDeliveryTime (json : Json) (c : Content) : Bytes :=
  leInt 4 c.headers.priority ++ (leInt 4 c.headers.deliveryCount ++
    (if c.headers.redelivered then 1 else 0) :: variablePart json c)

theorem storageBytes_layout (c : Content) : storageBytes json c =
    beforeExpiration c ++ (leInt 8 c.headers.expiration ++ (leInt 8 c.headers.deliveryTime ++
      behindDeliveryTime json c)) := by
  simp [storageBytes, toBytes_layout, beforeExpiration, behindDeliveryTime, numbersPart]

theorem beforeExpiration_length (c : Content) : (beforeExpiration c).length = kExpirationOffset := by
  simp [beforeExpiration, kFixed, kExpirationOffset]

theorem storageBytes_second (c : Content) : (storageBytes json c).getD 1 0 = 2 := by
  simp [storageBytes, toBytes]

theorem storageBytes_long (c : Content) : 55 ≤ (storageBytes json c).length := by
  rw [storageBytes_layout]
  simp only [List.length_append, beforeExpiration_length, leInt_length, behindDeliveryTime,
    kExpirationOffset]
  omega

theorem priority_read (c : Content) (fits : Fits 4 c.headers.priority) :
    priorityFromStorageBytes (storageBytes json c) = clampPriority c.headers.priority := by
  have long := @storageBytes_long json c
  have read : slice kPriorityOffset 4 (storageBytes json c) = leInt 4 c.headers.priority :=
    slice_at (show _ = beforeExpiration c ++ leInt 8 c.headers.expiration ++
      leInt 8 c.headers.deliveryTime ++ (leInt 4 c.headers.priority ++
      (leInt 4 c.headers.deliveryCount ++ (if c.headers.redelivered then 1 else 0) ::
      variablePart json c)) by simp [storageBytes_layout, behindDeliveryTime])
      (by simp [beforeExpiration_length, kExpirationOffset, kPriorityOffset]) (by simp)
  unfold priorityFromStorageBytes
  rw [if_neg (by simp only [kPriorityOffset]; omega), if_neg (not_not_intro (storageBytes_second c)), read,
    intLe_leInt (by decide) fits]

theorem deliveryTime_read (nowMs : Int) (c : Content) (fits : Fits 8 c.headers.deliveryTime) :
    deliveryTimeFromStorageBytes nowMs (storageBytes json c) =
      if 0 ≤ c.headers.deliveryTime ∧ c.headers.deliveryTime ≤ nowMs + kMaxFutureHeaderMs then
        c.headers.deliveryTime
      else 0 := by
  have long := @storageBytes_long json c
  have read : slice kDeliveryTimeOffset 8 (storageBytes json c) = leInt 8 c.headers.deliveryTime :=
    slice_at (show _ = beforeExpiration c ++ leInt 8 c.headers.expiration ++
      (leInt 8 c.headers.deliveryTime ++ behindDeliveryTime json c) by simp [storageBytes_layout])
      (by simp [beforeExpiration_length, kExpirationOffset, kDeliveryTimeOffset]) (by simp)
  unfold deliveryTimeFromStorageBytes
  rw [if_neg (by simp only [kDeliveryTimeOffset]; omega), if_neg (not_not_intro (storageBytes_second c)), read]
  simp only [intLe_leInt (by decide : 0 < 8) fits]
  split
  · rw [if_neg (by omega)]
  · rw [if_pos (by omega)]

theorem expired_read (nowMs : Int) (c : Content) (fits : Fits 8 c.headers.expiration) :
    Expired nowMs ((storageBytes json c).take kPrefixLen) ↔
      c.headers.expiration ≠ 0 ∧ c.headers.expiration ≤ nowMs := by
  have long := @storageBytes_long json c
  have head : (storageBytes json c).take kPrefixLen =
      beforeExpiration c ++ leInt 8 c.headers.expiration := by
    rw [storageBytes_layout, ← List.append_assoc]
    exact List.take_left' (by simp [beforeExpiration_length, kPrefixLen])
  have read : expirationAt ((storageBytes json c).take kPrefixLen) = c.headers.expiration := by
    have part : slice kExpirationOffset 8 (beforeExpiration c ++ leInt 8 c.headers.expiration) =
        leInt 8 c.headers.expiration :=
      slice_at (show _ = beforeExpiration c ++ (leInt 8 c.headers.expiration ++ []) by simp)
        (beforeExpiration_length c) (by simp)
    rw [head]
    unfold expirationAt
    rw [part]
    exact intLe_leInt (by decide) fits
  have second : ((storageBytes json c).take kPrefixLen).getD kMagicOffset 0 = 2 := by
    rw [head]
    simp [beforeExpiration, fixedPart, kMagicOffset]
  have size : kPrefixLen ≤ ((storageBytes json c).take kPrefixLen).length := by
    rw [List.length_take]
    simp only [kPrefixLen, kExpirationOffset]
    omega
  unfold Expired
  rw [read]
  exact ⟨fun expired => expired.2.2, fun expired => ⟨size, second, expired⟩⟩

theorem patched (c : Content) (t : Int) :
    patchSlot kDeliveryTimeOffset (storageBytes json c) t = storageBytes json (c.withDeliveryTime t) := by
  have long := @storageBytes_long json c
  have place : (beforeExpiration c ++ leInt 8 c.headers.expiration).length = kDeliveryTimeOffset := by
    simp [beforeExpiration_length, kExpirationOffset, kDeliveryTimeOffset]
  have layout : storageBytes json c = beforeExpiration c ++ leInt 8 c.headers.expiration ++
      leInt 8 c.headers.deliveryTime ++ behindDeliveryTime json c := by simp [storageBytes_layout]
  have after : storageBytes json (c.withDeliveryTime t) =
      beforeExpiration c ++ leInt 8 c.headers.expiration ++ leInt 8 t ++
        behindDeliveryTime json c := by
    rw [storageBytes_layout, ← List.append_assoc, ← List.append_assoc]
    rfl
  unfold patchSlot
  rw [if_neg (by simp only [kDeliveryTimeOffset]; omega), if_neg (not_not_intro (storageBytes_second c)), after,
    layout, ← place]
  exact overwrite_middle _ _ _ _ (by simp)

theorem shellOf_reads (env : Env) (oid : Nat) (uuid : UUID) {c : Content}
    (headers : MachineHeaders c.headers) (location : Nat) :
    let shell := (shellOf env oid uuid c location).content.headers
    shell.priority = priorityFromStorageBytes (storageBytes json c) ∧
      shell.deliveryTime = deliveryTimeFromStorageBytes env.nowMs (storageBytes json c) := by
  refine ⟨(priority_read c headers.priority).symm, ?_⟩
  rw [deliveryTime_read env.nowMs c headers.deliveryTime]
  simp only [shellOf, storedDeliveryTime]
  split
  · rw [if_neg (by omega)]
  · rw [if_pos (by omega)]

/-- What the readers and patchers make of the stored bytes of a message. -/
structure ReadsAlike (json : Json) (c : Content) : Prop where
  priority : priorityFromStorageBytes (storageBytes json c) = clampPriority c.headers.priority
  deliveryTime : ∀ nowMs, deliveryTimeFromStorageBytes nowMs (storageBytes json c) =
    if 0 ≤ c.headers.deliveryTime ∧ c.headers.deliveryTime ≤ nowMs + kMaxFutureHeaderMs then
      c.headers.deliveryTime
    else 0
  expiration : ∀ m c', fromBytes json m (toBytes json c) = some c' → ∀ nowMs oid,
    (Expired nowMs ((storageBytes json c).take kPrefixLen) ↔
      (⟨oid, c', none, none, 0⟩ : Message).isExpired nowMs = true)
  cached : ∀ t, Fits 8 t → ∀ m,
    patchCachedDeliveryTime (storageBytes json c) t = storageBytes json (c.withDeliveryTime t) ∧
    fromBytes json m (patchCachedDeliveryTime (storageBytes json c) t).tail =
      (fromBytes json m (toBytes json c)).map (·.withDeliveryTime t)
  buffered : ∀ t, Fits 8 t → ∀ m,
    patchDeliveryTimeInBytes (storageBytes json c) t = storageBytes json (c.withDeliveryTime t) ∧
    fromBytes json m (patchDeliveryTimeInBytes (storageBytes json c) t).tail =
      (fromBytes json m (toBytes json c)).map (·.withDeliveryTime t)

/-- What they make of bytes that are too short for them or have no headers. -/
structure LeavesAlone (data : Bytes) : Prop where
  priority : data.length < 55 ∨ data.getD 1 0 ≠ 2 → priorityFromStorageBytes data = 4
  deliveryTime : data.length < 51 ∨ data.getD 1 0 ≠ 2 →
    ∀ nowMs, deliveryTimeFromStorageBytes nowMs data = 0
  expiration : data.length < 43 ∨ data.getD 1 0 ≠ 2 →
    ∀ nowMs, ¬ Expired nowMs (data.take kPrefixLen)
  cached : data.length < 51 ∨ data.getD 1 0 ≠ 2 → ∀ t, patchCachedDeliveryTime data t = data
  buffered : data.length < 51 ∨ data.getD 1 0 ≠ 2 → ∀ t, patchDeliveryTimeInBytes data t = data

theorem patchSlot_alone {offset : Nat} {data : Bytes}
    (alone : data.length < offset + 8 ∨ data.getD 1 0 ≠ 2) (t : Int) :
    patchSlot offset data t = data := by
  unfold patchSlot
  split
  · rfl
  · rename_i long
    rw [if_pos (alone.resolve_left long)]

theorem leaves_alone (data : Bytes) : LeavesAlone data := by
  refine ⟨?_, ?_, ?_, fun alone t => patchSlot_alone alone t, fun alone t => patchSlot_alone alone t⟩
  · intro alone
    unfold priorityFromStorageBytes
    split
    · rfl
    · rename_i long
      rw [if_pos (alone.resolve_left long)]
  · intro alone nowMs
    unfold deliveryTimeFromStorageBytes
    split
    · rfl
    · rename_i long
      rw [if_pos (alone.resolve_left long)]
  · rintro alone nowMs ⟨size, second, _⟩
    rw [List.length_take] at size
    have long : kPrefixLen ≤ data.length := by omega
    have magic : data.getD 1 0 = 2 := by
      rw [← second]
      simp [List.getD_eq_getElem?_getD, kMagicOffset, kPrefixLen, kExpirationOffset]
    rcases alone with short | other
    · exact absurd long (by simp only [kPrefixLen, kExpirationOffset]; omega)
    · exact other magic

/-- The readers and patchers at fixed offsets agree with the codec on the stored bytes of every
    message, and leave alone what is too short or has no headers. -/
theorem offsets_agree (json : Json) :
    (∀ c : Content, Fits 8 c.number → MachineHeaders c.headers → ReadsAlike json c) ∧
      ∀ data, LeavesAlone data := by
  refine ⟨?_, leaves_alone⟩
  intro c number headers
  have decoded : ∀ t, Fits 8 t → ∀ m, fromBytes json m (storageBytes json (c.withDeliveryTime t)).tail =
      (fromBytes json m (toBytes json c)).map (·.withDeliveryTime t) :=
    fun t fits m => fromBytes_later number headers fits m
  refine ⟨priority_read c headers.priority, fun nowMs => deliveryTime_read nowMs c headers.deliveryTime,
    ?_, ?_, ?_⟩
  · intro m c' read nowMs oid
    rw [expired_read nowMs c headers.expiration]
    simp [Message.isExpired, decoded_expiration number headers read]
  · intro t fits m
    have same : patchCachedDeliveryTime (storageBytes json c) t = _ := patched c t
    exact ⟨same, by rw [same, decoded t fits m]⟩
  · intro t fits m
    have same : patchDeliveryTimeInBytes (storageBytes json c) t = _ := patched c t
    exact ⟨same, by rw [same, decoded t fits m]⟩

theorem letter_offsets : ReadsAlike letterJson letter ∧
    priorityFromStorageBytes (storageBytes letterJson letter) = 9 := by
  have number : Fits 8 letter.number := by
    unfold Fits
    decide
  have headers : MachineHeaders letter.headers := by
    refine ⟨?_, ?_, ?_, ?_, ?_⟩ <;> unfold Fits <;> decide
  have reads := (offsets_agree letterJson).1 letter number headers
  exact ⟨reads, reads.priority⟩

end Offsets

end TinyMqStoredOffsets
