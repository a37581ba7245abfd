import TinyMq.Broker.TruncatedRecords

/-!
Records from before the magic byte: the size of a JSON document, the document that
`propertiesToJSON` made of a message, and its data. `fromBytes` tells them from the later
formats by their first byte, which is the lowest one of that size.
-/
namespace TinyMqLegacyRecords
open ByteStrings DelimitedText AssocLists TinyMqTom TinyMqTransactionBuffer TinyMqMessage
  TinyMqWireFormat TinyMqWireRoundTrip TinyMqCodecLosses TinyMqCheckedDecoding

section Documents

/-- `PersistentInfo::Transaction`, `Payload` and `Sent`. -/
structure Paths where
  dataPath : Str := []
  propertiesPath : Str := []

structure PersistentInfo where
  transaction : Paths := {}
  payload : Paths := {}
  sent : Paths := {}

def text (t : Str) : Var := .value (.string t)

def Paths.toJSON (p : Paths) : Object :=
  Object.set (str ['p','r','o','p','e','r','t','i','e','s','P','a','t','h']) (text p.propertiesPath)
    (Object.set (str ['d','a','t','a','P','a','t','h']) (text p.dataPath) [])

def PersistentInfo.toJSON (info : PersistentInfo) : Object :=
  Object.set (str ['s','e','n','t']) (.object info.sent.toJSON) <|
  Object.set (str ['p','a','y','l','o','a','d']) (.object info.payload.toJSON) <|
  Object.set (str ['t','r','a','n','s','a','c','t','i','o','n']) (.object info.transaction.toJSON) []

def reliabilityText : Reliability → Str
  | .NOT_PERSISTENT => str ['N','O','T','_','P','E','R','S','I','S','T','E','N','T']
  | .PERSISTENT => str ['P','E','R','S','I','S','T','E','N','T']

/-- `Message::propertiesToJSON`. -/
def propertiesToJSON (c : Content) (info : PersistentInfo) : Object :=
  Object.set (str ['p','e','r','s','i','s','t','e','n','t','I','n','f','o']) (.object info.toJSON) <|
  Object.set (str ['r','e','l','i','a','b','i','l','i','t','y']) (text (reliabilityText c.reliability)) <|
  Object.set (str ['u','u','i','d']) (text (str (uuidText c.uuid))) <|
  Object.set (str ['n','u','m','b','e','r']) (.value (.long (BitVec.ofInt 64 c.number))) <|
  Object.set (str ['p','r','o','p','e','r','t','i','e','s']) (.object (toJSON c.properties)) []

def legacyRecord (json : Json) (c : Content) (info : PersistentInfo) (d : Bytes) : Bytes :=
  let p := json.stringify (propertiesToJSON c info)
  leBytes 8 p.length ++ p ++ d

end Documents

section Reading
variable {json : Json} {c : Content} {info : PersistentInfo} {m : Content} {d : Bytes}

theorem getString_written (converts : Converts json) {o : Object} {name t : Str}
    (written : get o name = some (text t)) : json.getString o name = some t := by
  have same := converts (.string t)
  simp only [getValueType] at same
  unfold Json.getString Json.getValue
  rw [written]
  dsimp only [text]
  rw [same]

theorem paths_written (converts : Converts json) (p : Paths) {o : Object} {part : Text}
    (written : get o (str part) = some (.object p.toJSON)) :
    json.paths o part = some (p.dataPath, p.propertiesPath) := by
  have first : get p.toJSON (str ['d','a','t','a','P','a','t','h']) = some (text p.dataPath) := by
    rw [Paths.toJSON, get_set_other (by decide), get_set_same]
  have second : get p.toJSON (str ['p','r','o','p','e','r','t','i','e','s','P','a','t','h']) =
      some (text p.propertiesPath) := get_set_same ..
  unfold Json.paths getObject
  rw [written]
  simp only [Option.bind_eq_bind, Option.bind_some, getString_written converts first,
    getString_written converts second]

theorem str_chars {t : Text} (ascii : ∀ c ∈ t, c.toNat < 256) :
    (str t).map (fun b => Char.ofNat b.toNat) = t := by
  have each : ∀ c ∈ t, ((fun b : UInt8 => Char.ofNat b.toNat) ∘ fun c => UInt8.ofNat c.toNat) c = id c := by
    intro c member
    have small := ascii c member
    rw [Function.comp_apply, UInt8.toNat_ofNat', Nat.mod_eq_of_lt (by omega), Char.ofNat_toNat, id]
  rw [str, List.map_map, List.map_congr_left each, List.map_id]

theorem uuid_written (u : UUID) :
    parseUuid ((str (uuidText u)).map fun b => Char.ofNat b.toNat) = some u := by
  have ascii : ∀ n, (hexDigit (n % 16)).toNat < 256 := by
    intro n
    have digits : ∀ i < 16, (hexDigit i).toNat < 256 := by decide
    exact digits (n % 16) (Nat.mod_lt n (by decide))
  rw [str_chars (uuidText_chars ascii (by decide) u), parseUuid_uuidText]

theorem document_number (converts : Converts json) :
    json.getValue .LONG_TYPE (propertiesToJSON c info) (str ['n','u','m','b','e','r']) =
      some (.long (BitVec.ofInt 64 c.number)) := by
  have written : get (propertiesToJSON c info) (str ['n','u','m','b','e','r']) =
      some (.value (.long (BitVec.ofInt 64 c.number))) := by
    rw [propertiesToJSON, get_set_other (by decide), get_set_other (by decide),
      get_set_other (by decide), get_set_same]
  have same := converts (.long (BitVec.ofInt 64 c.number))
  unfold Json.getValue
  rw [written]
  exact same

theorem document_read (converts : Converts json) (number : Fits 8 c.number)
    (returns : Returns json (propertiesToJSON c info)) :
    setPropertiesFromBytes json m (json.stringify (propertiesToJSON c info)) =
      (fromJSON json [] (toJSON c.properties)).map fun ps =>
        { m with number := c.number, uuid := c.uuid, reliability := c.reliability, properties := ps } := by
  have uuid : get (propertiesToJSON c info) (str ['u','u','i','d']) =
      some (text (str (uuidText c.uuid))) := by
    rw [propertiesToJSON, get_set_other (by decide), get_set_other (by decide), get_set_same]
  have reliability : get (propertiesToJSON c info)
      (str ['r','e','l','i','a','b','i','l','i','t','y']) = some (text (reliabilityText c.reliability)) := by
    rw [propertiesToJSON, get_set_other (by decide), get_set_same]
  have persistInfo : getObject (propertiesToJSON c info)
      (str ['p','e','r','s','i','s','t','e','n','t','I','n','f','o']) = some info.toJSON := by
    rw [getObject, propertiesToJSON, get_set_same]
  have payload : get info.toJSON (str ['p','a','y','l','o','a','d']) =
      some (.object info.payload.toJSON) := by
    rw [PersistentInfo.toJSON, get_set_other (by decide), get_set_same]
  have sent : get info.toJSON (str ['s','e','n','t']) = some (.object info.sent.toJSON) :=
    get_set_same ..
  have transaction : get info.toJSON (str ['t','r','a','n','s','a','c','t','i','o','n']) =
      some (.object info.transaction.toJSON) := by
    rw [PersistentInfo.toJSON, get_set_other (by decide), get_set_other (by decide), get_set_same]
  have properties : getObject (propertiesToJSON c info)
      (str ['p','r','o','p','e','r','t','i','e','s']) = some (toJSON c.properties) := by
    rw [getObject, propertiesToJSON, get_set_other (by decide), get_set_other (by decide),
      get_set_other (by decide), get_set_other (by decide), get_set_same]
  have signed : (BitVec.ofInt 64 c.number).toInt = c.number :=
    BitVec.toInt_ofInt_eq_self (by decide) number.1 number.2
  have kind : (if reliabilityText c.reliability = str ['P','E','R','S','I','S','T','E','N','T'] then
      Reliability.PERSISTENT else .NOT_PERSISTENT) = c.reliability := by
    cases c.reliability <;> decide
  unfold setPropertiesFromBytes
  rw [if_neg returns.2, Json.parseObject, returns.1]
  simp only [Option.bind_eq_bind, Option.bind_some, document_number converts, signed,
    getString_written converts uuid, uuid_written, getString_written converts reliability, persistInfo,
    paths_written converts _ payload, paths_written converts _ sent,
    paths_written converts _ transaction, properties, kind]
  cases fromJSON json [] (toJSON c.properties) <;> rfl

/-- The record is not taken for one of the later formats, and gives back what was written. -/
def ReadsLegacy (json : Json) (m c : Content) (info : PersistentInfo) (d : Bytes) : Prop :=
  (legacyRecord json c info d).head? ∉ [some 1, some 2] ∧
  ∃ r, decode json m (legacyRecord json c info d) = .ok ⟨r, if d = [] then none else some d⟩ ∧
    r.number = c.number ∧ r.uuid = c.uuid ∧ r.reliability = c.reliability ∧
    ∀ name, get r.properties name = get c.properties name

theorem legacy_decoded (returns : Returns json (propertiesToJSON c info))
    (short : (legacyRecord json c info d).length < 2 ^ 63) :
    decodeLegacy json m (legacyRecord json c info d) =
      (orThrow (setPropertiesFromBytes json m (json.stringify (propertiesToJSON c info))) >>= fun m =>
        .ok ⟨m, if d = [] then none else some d⟩) := by
  obtain ⟨p, same⟩ : ∃ p, p = json.stringify (propertiesToJSON c info) := ⟨_, rfl⟩
  have filled : 0 < p.length := by
    rw [same]
    exact List.length_pos_iff.mpr returns.2
  have layout : legacyRecord json c info d = leBytes 8 p.length ++ (p ++ d) := by
    rw [legacyRecord, same, List.append_assoc]
  have size : (leBytes 8 p.length ++ (p ++ d)).length = 8 + p.length + d.length := by
    simp only [List.length_append, leBytes_length]
    omega
  rw [layout, size] at short
  have word : p.length < 256 ^ 8 := by omega
  have document : slice 8 p.length (leBytes 8 p.length ++ (p ++ d)) = p :=
    slice_at rfl (leBytes_length ..) rfl
  have behind : (leBytes 8 p.length ++ (p ++ d)).drop (8 + p.length) = d := by
    rw [← List.drop_drop, List.drop_left' (leBytes_length ..), List.drop_left]
  have rest := slice_rest (leBytes 8 p.length ++ (p ++ d)) (8 + p.length)
  rw [behind, size] at rest
  rw [layout, ← same]
  unfold decodeLegacy
  rw [if_neg (by omega), copy_inside (by omega), ok_bind, slice_here (leBytes_length ..),
    leNat_leBytes word]
  dsimp only
  rw [if_neg (by omega), plus_small (by omega), if_pos ⟨filled, by omega⟩, copy_inside (by omega),
    document, ok_bind]
  congr 1
  funext m
  unfold decodeData
  rw [size]
  by_cases empty : d = []
  · rw [if_pos empty, empty, List.length_nil, if_neg (by omega)]
  · have some_ : 0 < d.length := List.length_pos_iff.mpr empty
    rw [if_neg empty, if_pos (by omega), copy_inside (by omega), rest]
    rfl

theorem ofNat_eq_iff (n k : Nat) (small : k < 256) : UInt8.ofNat n = UInt8.ofNat k ↔ n % 256 = k := by
  rw [← UInt8.toNat_inj, UInt8.toNat_ofNat', UInt8.toNat_ofNat', Nat.mod_eq_of_lt small]

/-- A record of the oldest format comes back exactly when the size of its document does not end with
    the byte of a later format, and its properties hold no null and no empty array. -/
theorem legacy_reads_iff (converts : Converts json) (number : Fits 8 c.number)
    (names : (c.properties.map Prod.fst).Nodup) (returns : Returns json (propertiesToJSON c info))
    (short : (legacyRecord json c info d).length < 2 ^ 63) :
    ReadsLegacy json m c info d ↔
      (json.stringify (propertiesToJSON c info)).length % 256 ∉ [1, 2] ∧ Stored c.properties := by
  obtain ⟨n, size⟩ : ∃ n, n = (json.stringify (propertiesToJSON c info)).length := ⟨_, rfl⟩
  obtain ⟨rest, layout⟩ : ∃ rest, legacyRecord json c info d = UInt8.ofNat n :: rest := by
    rw [size]
    exact ⟨_, rfl⟩
  have magic : (legacyRecord json c info d).head? ∉ [some 1, some 2] ↔ n % 256 ∉ [1, 2] := by
    have one := ofNat_eq_iff n 1 (by decide)
    have two := ofNat_eq_iff n 2 (by decide)
    rw [layout, List.head?_cons]
    simp only [List.mem_cons, List.not_mem_nil, or_false, Option.some.injEq]
    exact not_congr (or_congr one two)
  have exact_ := fromJSON_exact converts names
  have decoded : n % 256 ∉ [1, 2] → decode json m (legacyRecord json c info d) =
      (orThrow ((fromJSON json [] (toJSON c.properties)).map fun ps =>
        { m with number := c.number, uuid := c.uuid, reliability := c.reliability, properties := ps }) >>=
          fun m => .ok ⟨m, if d = [] then none else some d⟩) := by
    intro other
    rw [← magic, layout, List.head?_cons] at other
    have first : byteAt (UInt8.ofNat n :: rest) 0 = .ok (UInt8.ofNat n) := rfl
    have later : ¬ (UInt8.ofNat n = 1 ∨ UInt8.ofNat n = 2) := by simpa using other
    rw [← document_read converts number returns, ← legacy_decoded returns short, layout]
    unfold decode
    rw [if_neg (List.cons_ne_nil _ _), first, ok_bind, if_neg later]
  unfold ReadsLegacy
  rw [magic, ← size]
  constructor
  · rintro ⟨other, r, same, _, _, _, properties⟩
    refine ⟨other, exact_.mp ?_⟩
    rw [decoded other] at same
    cases read : fromJSON json [] (toJSON c.properties) with
    | none =>
      rw [read] at same
      cases same
    | some ps =>
      rw [read] at same
      cases same
      exact ⟨ps, rfl, properties⟩
  · rintro ⟨other, stored⟩
    obtain ⟨ps, read, properties⟩ := exact_.mpr stored
    rw [decoded other, read]
    exact ⟨other, _, rfl, rfl, rfl, rfl, properties⟩

def note : Content :=
  { number := 7, uuid := 1, reliability := .PERSISTENT, properties := letter.properties,
    body := .text [] }

theorem note_stored : Stored note.properties := by
  intro p member
  rw [List.mem_singleton.mp member]
  exact ⟨_, by simp, rfl⟩

def filed (n : Nat) : PersistentInfo := { payload := { dataPath := List.replicate n 97 } }

/-- `{"dataPath":"…","propertiesPath":""}` -/
def pathsText (path : Str) : Bytes :=
  str ['{','"','d','a','t','a','P','a','t','h','"',':','"'] ++
    path ++ str ['"',',','"','p','r','o','p','e','r','t','i','e','s','P','a','t','h','"',':','"','"','}']

/-- `{"number":7,"persistentInfo":{"payload":…,"sent":…,"transaction":…},"properties":…,`
    `"reliability":"PERSISTENT","uuid":"00000000-0000-0000-0000-000000000001"}` -/
def noteText (n : Nat) : Bytes :=
  str ['{','"','n','u','m','b','e','r','"',':','7',',','"','p','e','r','s','i','s','t','e','n',
    't','I','n','f','o','"',':','{','"','p','a','y','l','o','a','d','"',':'] ++
    pathsText (List.replicate n 97) ++ str [',','"','s','e','n','t','"',':'] ++ pathsText [] ++
    str [',','"','t','r','a','n','s','a','c','t','i','o','n','"',':'] ++ pathsText [] ++
    str ['}',',','"','p','r','o','p','e','r','t','i','e','s','"',':'] ++ letterText ++
    str [',','"','r','e','l','i','a','b','i','l','i','t','y','"',':','"','P','E','R','S','I','S',
      'T','E','N','T','"',',','"','u','u','i','d','"',':','"','0','0','0','0','0','0','0','0',
      '-','0','0','0','0','-','0','0','0','0','-','0','0','0','0','-','0','0','0','0','0','0',
      '0','0','0','0','0','1','"','}']

def noteJson (n : Nat) : Json where
  stringify _ := noteText n
  parse bytes :=
    if bytes = noteText n then some (.object (propertiesToJSON note (filed n))) else none
  convert type v := if getValueType v = type then some v else none

theorem pathless_reads : ReadsLegacy (noteJson 0) { body := .text [] } note (filed 0) [104] :=
  (legacy_reads_iff (fun v => if_pos rfl) ⟨by decide, by decide⟩ (by decide)
    ⟨by simp [noteJson], by decide⟩ (by decide +kernel)).mpr ⟨by decide +kernel, note_stored⟩

/-- With a path of 221 characters it is 513: the record is taken for one of the format 0x01, and its
    number is made of what is left of the size and the first brace of the document. -/
theorem filed_note_misread :
    ((decode (noteJson 221) { body := .text [] }
      (legacyRecord (noteJson 221) note (filed 221) [104])).toOption.map fun r => r.message.number) =
        some 8863084066665136130 ∧
      ¬ ReadsLegacy (noteJson 221) { body := .text [] } note (filed 221) [104] := by
  have magic : (legacyRecord (noteJson 221) note (filed 221) [104]).head? = some 1 := by decide +kernel
  refine ⟨by decide +kernel, ?_⟩
  intro reads
  exact reads.1 (by rw [magic]; decide)

end Reading
end TinyMqLegacyRecords
