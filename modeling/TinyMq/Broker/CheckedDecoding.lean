import TinyMq.Broker.WireFormat

/-!
`Message::fromBytes` with the positions that it reads and the sums of `size_t` that it
compares. A read at or behind the end of the buffer stops it. What the decoder passes to
`setDataFromBytes` is kept apart from what that makes of it.
-/
namespace TinyMqCheckedDecoding
open ByteStrings TinyMqMessage TinyMqWireFormat

section Buffers

/-- `thrown` is an exception of the JSON parser, of a conversion or of an allocation. -/
inductive Stop where
  | outOfBounds
  | thrown
  deriving DecidableEq

abbrev Checked := Except Stop

def plus (a b : Nat) : Nat := (a + b) % 2 ^ 64

/-- `bytes[i]`. -/
def byteAt (bytes : Bytes) (i : Nat) : Checked UInt8 :=
  match bytes[i]? with
  | some b => .ok b
  | none => .error .outOfBounds

/-- `memcpy` out of the buffer, or a range of it. -/
def copy (bytes : Bytes) (off len : Nat) : Checked Bytes :=
  if off + len ≤ bytes.length then .ok (slice off len bytes) else .error .outOfBounds

def orThrow : Option α → Checked α
  | some a => .ok a
  | none => .error .thrown

/-- A message as `fromBytes` leaves it but for its body, and what it calls `setDataFromBytes` with,
    if it does. -/
structure Decoded where
  message : Content
  data : Option Bytes

end Buffers

section Decoder
variable (json : Json)

def checkedReadString (bytes : Bytes) (off : Nat) : Checked (Option (Str × Nat)) :=
  if bytes.length < plus off 4 then .ok none
  else do
    let len := leNat (← copy bytes off 4)
    let off := plus off 4
    if bytes.length < plus off len then .ok none
    else do
      let out ← copy bytes off len
      .ok (some (out, plus off len))

def decodeData (m : Content) (bytes : Bytes) (off : Nat) : Checked Decoded :=
  if off < bytes.length then do
    let data ← copy bytes off (bytes.length - off)
    .ok ⟨m, some data⟩
  else .ok ⟨m, none⟩

def decodeProperties (m : Content) (bytes : Bytes) (off : Nat) : Checked Decoded :=
  if bytes.length < plus off 4 then .ok ⟨m, none⟩
  else do
    let propsLen := leNat (← copy bytes off 4)
    let off := plus off 4
    if 0 < propsLen ∧ plus off propsLen ≤ bytes.length then do
      let propsJson ← copy bytes off propsLen
      let res ← orThrow (json.parseObject propsJson)
      let ps ← orThrow (fromJSON json m.properties res)
      decodeData { m with properties := ps } bytes (plus off propsLen)
    else decodeData m bytes off

def decodeStrings (m : Content) (bytes : Bytes) (off : Nat) : Checked Decoded := do
  match ← checkedReadString bytes off with
  | none => .ok ⟨m, none⟩
  | some (messageId, off) =>
    let m := Content.setHeaders m { m.headers with messageId := messageId }
    match ← checkedReadString bytes off with
    | none => .ok ⟨m, none⟩
    | some (replyTo, off) =>
      let m := Content.setHeaders m { m.headers with replyTo := replyTo }
      match ← checkedReadString bytes off with
      | none => .ok ⟨m, none⟩
      | some (correlationId, off) =>
        let m := Content.setHeaders m { m.headers with correlationId := correlationId }
        match ← checkedReadString bytes off with
        | none => .ok ⟨m, none⟩
        | some (type, off) =>
          decodeProperties json (Content.setHeaders m { m.headers with type := type }) bytes off

def decodeHeaders (m : Content) (bytes : Bytes) (off : Nat) : Checked Decoded :=
  if bytes.length < plus off kHdrNums then .ok ⟨m, none⟩
  else do
    let timestamp ← copy bytes off 8
    let expiration ← copy bytes (plus off 8) 8
    let deliveryTime ← copy bytes (plus off 16) 8
    let priority ← copy bytes (plus off 24) 4
    let deliveryCount ← copy bytes (plus off 28) 4
    let redelivered ← byteAt bytes (plus off 32)
    let headers := { m.headers with
      timestamp := intLe 8 timestamp,
      expiration := intLe 8 expiration,
      deliveryTime := intLe 8 deliveryTime,
      priority := intLe 4 priority,
      deliveryCount := intLe 4 deliveryCount,
      redelivered := redelivered ≠ 0 }
    decodeStrings json (Content.setHeaders m headers) bytes (plus off kHdrNums)

/-- Records from before the magic byte. A vector of more than `max_size()` bytes is not made. -/
def decodeLegacy (m : Content) (bytes : Bytes) : Checked Decoded :=
  if bytes.length < 8 then .ok ⟨m, none⟩
  else do
    let propsSize := leNat (← copy bytes 0 8)
    if 2 ^ 63 ≤ propsSize then .error .thrown
    else do
      let props ←
        if 0 < propsSize ∧ plus 8 propsSize ≤ bytes.length then copy bytes 8 propsSize
        else .ok (List.replicate propsSize 0)
      let m ← orThrow (setPropertiesFromBytes json m props)
      decodeData m bytes (plus 8 propsSize)

/-- `Message::fromBytes` up to its call of `setDataFromBytes`. -/
def decode (m : Content) (bytes : Bytes) : Checked Decoded :=
  if bytes = [] then .ok ⟨m, none⟩
  else do
    let magic ← byteAt bytes 0
    if magic = 1 ∨ magic = 2 then
      if bytes.length < kFixed then .ok ⟨m, none⟩
      else do
        let number ← copy bytes 1 8
        let uuid ← copy bytes 9 16
        let reliability ← byteAt bytes 25
        let m := { m with
          number := intLe 8 number,
          uuid := copyFrom uuid,
          reliability := if reliability ≠ 0 then .PERSISTENT else .NOT_PERSISTENT }
        if magic = 2 then decodeHeaders json m bytes kFixed
        else decodeProperties json (Content.setHeaders m {}) bytes kFixed
    else decodeLegacy json m bytes

/-- `setDataFromBytes`. The classes other than `ObjectMessage` take the whole vector. -/
def checkedSetData (body : Body) (bytes : Bytes) : Checked Body :=
  match body with
  | .object _ _ =>
    if bytes.length < 4 then .ok (.object [] [])
    else do
      let nameLen := leNat (← copy bytes 0 4)
      if bytes.length < plus 4 nameLen then .ok (.object [] [])
      else do
        let className ← copy bytes 4 nameLen
        let off := plus 4 nameLen
        if off < bytes.length then do
          let body ← copy bytes off (bytes.length - off)
          .ok (.object className body)
        else .ok (.object className [])
  | _ => orThrow (setDataFromBytes json body bytes)

def complete (d : Decoded) : Checked Content :=
  match d.data with
  | none => .ok d.message
  | some data => do
    let body ← checkedSetData json d.message.body data
    .ok { d.message with body := body }

def checkedFromBytes (m : Content) (bytes : Bytes) : Checked Content := do
  let d ← decode json m bytes
  complete json d

end Decoder

section Bounds
variable {json : Json} {bytes : Bytes} {off : Nat}

theorem plus_small {a b : Nat} (small : a + b < 2 ^ 64) : plus a b = a + b := Nat.mod_eq_of_lt small

theorem copy_inside {len : Nat} (inside : off + len ≤ bytes.length) :
    copy bytes off len = .ok (slice off len bytes) := if_pos inside

theorem byteAt_inside (inside : off < bytes.length) : byteAt bytes off = .ok (bytes.getD off 0) := by
  unfold byteAt
  rw [List.getElem?_eq_getElem inside, List.getD_eq_getElem?_getD, List.getElem?_eq_getElem inside]
  rfl

theorem leNat_slice_lt (off width : Nat) (bytes : Bytes) :
    leNat (slice off width bytes) < 256 ^ width := by
  have size : (slice off width bytes).length ≤ width := List.length_take_le ..
  calc leNat (slice off width bytes) < 256 ^ (slice off width bytes).length := leNat_lt _
    _ ≤ 256 ^ width := Nat.pow_le_pow_right (by decide) size

theorem slice_rest (bytes : Bytes) (off : Nat) :
    slice off (bytes.length - off) bytes = bytes.drop off := by
  unfold slice
  exact List.take_of_length_le (List.length_drop ..).le

/- The buffer is shorter than `2 ^ 63`, so the sum of an offset inside it and a length of four bytes
   does not wrap round. -/
theorem checkedReadString_inside (short : bytes.length < 2 ^ 63) (inside : off ≤ bytes.length) :
    checkedReadString bytes off = .ok (readString bytes off) := by
  unfold checkedReadString readString
  rw [plus_small (by omega)]
  by_cases cut : bytes.length < off + 4
  · rw [if_pos cut, if_pos cut]
  · have counted := leNat_slice_lt off 4 bytes
    rw [if_neg cut, if_neg cut, copy_inside (by omega)]
    dsimp only [bind, Except.bind]
    rw [plus_small (by omega)]
    split
    · rfl
    · rw [copy_inside (by omega)]

theorem readString_read {s : Str} {off' : Nat} (read : readString bytes off = some (s, off')) :
    off' = off + 4 + leNat (slice off 4 bytes) ∧
      s = slice (off + 4) (leNat (slice off 4 bytes)) bytes ∧ off' ≤ bytes.length := by
  unfold readString at read
  split at read
  · cases read
  · dsimp only at read
    split at read
    · cases read
    · cases read
      exact ⟨rfl, rfl, by omega⟩

theorem readString_inside {s : Str} {off' : Nat} (read : readString bytes off = some (s, off')) :
    off' ≤ bytes.length := (readString_read read).2.2

theorem checkedSetData_inside (short : bytes.length < 2 ^ 63) (body : Body) :
    checkedSetData json body bytes = orThrow (setDataFromBytes json body bytes) := by
  cases body with
  | object className body =>
    unfold checkedSetData setDataFromBytes
    by_cases cut : bytes.length < 4
    · simp only [if_pos cut]
      rfl
    · have counted := leNat_slice_lt 0 4 bytes
      simp only [if_neg cut]
      rw [copy_inside (by omega)]
      dsimp only [bind, Except.bind]
      rw [plus_small (by omega)]
      split
      · rfl
      · rw [copy_inside (by omega)]
        dsimp only
        split
        · rw [copy_inside (by omega), slice_rest]
          rfl
        · rw [List.drop_eq_nil_of_le (by omega)]
          rfl
  | _ => rfl

end Bounds

section Refinement
variable {json : Json} {bytes : Bytes} {off : Nat} {m : Content}

theorem ok_bind (a : α) (f : α → Checked β) : ((.ok a : Checked α) >>= f) = f a := rfl

theorem orThrow_bind (a : Option α) (f : α → Option β) :
    (orThrow a >>= fun x => orThrow (f x)) = orThrow (a.bind f) := by
  cases a <;> rfl

theorem decodeData_refines (short : bytes.length < 2 ^ 63) :
    (decodeData m bytes off >>= complete json) = orThrow (readData json m bytes off) := by
  unfold decodeData readData
  by_cases more : off < bytes.length
  · have shorter : (bytes.drop off).length < 2 ^ 63 := by
      rw [List.length_drop]
      omega
    rw [if_pos more, if_pos more, copy_inside (by omega), slice_rest]
    change complete json ⟨m, some (bytes.drop off)⟩ = _
    unfold complete
    dsimp only
    rw [checkedSetData_inside shorter]
    cases setDataFromBytes json m.body (bytes.drop off) <;> rfl
  · rw [if_neg more, if_neg more]
    rfl

theorem decodeProperties_refines (short : bytes.length < 2 ^ 63) (inside : off ≤ bytes.length) :
    (decodeProperties json m bytes off >>= complete json) = orThrow (readProperties json m bytes off) := by
  unfold decodeProperties readProperties
  rw [plus_small (by omega)]
  by_cases cut : bytes.length < off + 4
  · rw [if_pos cut, if_pos cut]
    rfl
  · have counted := leNat_slice_lt off 4 bytes
    rw [if_neg cut, if_neg cut, copy_inside (by omega), ok_bind]
    dsimp only
    rw [plus_small (by omega)]
    split
    · rw [copy_inside (by omega), ok_bind]
      simp only [bind_assoc, decodeData_refines short, orThrow_bind]
    · exact decodeData_refines short

theorem decodeStrings_refines (short : bytes.length < 2 ^ 63) (inside : off ≤ bytes.length) :
    (decodeStrings json m bytes off >>= complete json) = orThrow (readStrings json m bytes off) := by
  unfold decodeStrings readStrings
  rw [checkedReadString_inside short inside, ok_bind]
  cases first : readString bytes off with
  | none => rfl
  | some r =>
    obtain ⟨messageId, off⟩ := r
    dsimp only
    rw [checkedReadString_inside short (readString_inside first), ok_bind]
    cases second : readString bytes off with
    | none => rfl
    | some r =>
      obtain ⟨replyTo, off⟩ := r
      dsimp only
      rw [checkedReadString_inside short (readString_inside second), ok_bind]
      cases third : readString bytes off with
      | none => rfl
      | some r =>
        obtain ⟨correlationId, off⟩ := r
        dsimp only
        rw [checkedReadString_inside short (readString_inside third), ok_bind]
        cases fourth : readString bytes off with
        | none => rfl
        | some r =>
          obtain ⟨type, off⟩ := r
          exact decodeProperties_refines short (readString_inside fourth)

theorem decodeHeaders_refines (short : bytes.length < 2 ^ 63) (inside : off ≤ bytes.length) :
    (decodeHeaders json m bytes off >>= complete json) = orThrow (readHeaders json m bytes off) := by
  unfold decodeHeaders readHeaders
  have size : kHdrNums = 33 := rfl
  rw [size, plus_small (by omega)]
  by_cases cut : bytes.length < off + 33
  · rw [if_pos cut, if_pos cut]
    rfl
  · rw [if_neg cut, if_neg cut, plus_small (by omega), plus_small (by omega), plus_small (by omega),
      plus_small (by omega), plus_small (by omega), copy_inside (by omega), copy_inside (by omega),
      copy_inside (by omega), copy_inside (by omega), copy_inside (by omega),
      byteAt_inside (by omega)]
    exact decodeStrings_refines short (by omega)

theorem decodeLegacy_refines (short : bytes.length < 2 ^ 63) :
    (decodeLegacy json m bytes >>= complete json) = orThrow (readLegacy json m bytes) := by
  unfold decodeLegacy readLegacy
  by_cases cut : bytes.length < 8
  · rw [if_pos cut, if_pos cut]
    rfl
  · rw [if_neg cut, if_neg cut, copy_inside (by omega), ok_bind]
    dsimp only
    by_cases long : 2 ^ 63 ≤ leNat (slice 0 8 bytes)
    · rw [if_pos long, if_pos long]
      rfl
    · rw [if_neg long, if_neg long, plus_small (by omega)]
      by_cases whole : 0 < leNat (slice 0 8 bytes) ∧ 8 + leNat (slice 0 8 bytes) ≤ bytes.length
      · rw [if_pos whole, if_pos whole, copy_inside whole.2, ok_bind]
        simp only [bind_assoc, decodeData_refines short, orThrow_bind]
      · rw [if_neg whole, if_neg whole, ok_bind]
        simp only [bind_assoc, decodeData_refines short, orThrow_bind]

theorem checkedFromBytes_refines (short : bytes.length < 2 ^ 63) :
    checkedFromBytes json m bytes = orThrow (fromBytes json m bytes) := by
  change (decode json m bytes >>= complete json) = _
  unfold decode fromBytes
  cases bytes with
  | nil => rfl
  | cons magic rest =>
    have first : byteAt (magic :: rest) 0 = .ok magic := rfl
    rw [if_neg (List.cons_ne_nil magic rest), first, ok_bind, List.head?_cons]
    dsimp only
    split
    · by_cases cut : (magic :: rest).length < kFixed
      · rw [if_pos cut, if_pos cut]
        rfl
      · have size : kFixed = 26 := rfl
        rw [size] at cut
        rw [size, if_neg cut, if_neg cut, copy_inside (by omega), copy_inside (by omega),
          byteAt_inside (by omega), ok_bind, ok_bind, ok_bind]
        split
        · exact decodeHeaders_refines short (by omega)
        · exact decodeProperties_refines short (by omega)
    · exact decodeLegacy_refines short

/-- No read of the decoder leaves its buffer. -/
theorem decoding_inside (json : Json) (m : Content) (bytes : Bytes) (short : bytes.length < 2 ^ 63) :
    checkedFromBytes json m bytes ≠ .error .outOfBounds := by
  rw [checkedFromBytes_refines short]
  cases fromBytes json m bytes <;> simp [orThrow]

def noDocuments : Json where
  stringify := fun _ => []
  parse := fun _ => none
  convert := fun _ _ => none

/-- A size that wraps round when it is added to the eight bytes of its own field. -/
theorem wrapping_size_inside : checkedFromBytes noDocuments { body := .object [] [] }
    (248 :: List.replicate 7 255 ++ [0]) ≠ .error .outOfBounds :=
  decoding_inside noDocuments { body := .object [] [] } (248 :: List.replicate 7 255 ++ [0]) (by decide)

end Refinement
end TinyMqCheckedDecoding
