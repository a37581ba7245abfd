import TinyMq.Broker.Message
import TinyMq.Broker.TransactionBuffer

/-!
The wire format of a message: `Message::toBytes` and `fromBytes`, the codecs of the
five kinds of body and the JSON documents of properties, map and stream bodies. What
`Poco::JSON` makes of a document is a parameter.
-/
namespace TinyMqWireFormat
open ByteStrings DelimitedText AssocLists TinyMqTom TinyMqTransactionBuffer TinyMqMessage

def str (t : Text) : Str := t.map fun c => UInt8.ofNat c.toNat

section Json

/-- `Poco::Dynamic::Var` in a JSON document: an object has its names in the order of a
    `std::map`. -/
inductive Var where
  | null
  | value (v : Value)
  | array (items : List Var)
  | object (fields : List (Str × Var))

abbrev Object := Assoc Str Var

/-- `Object::set`. -/
def Object.set (name : Str) (v : Var) : Object → Object
  | [] => [(name, v)]
  | f :: fields =>
    if f.1 = name then (name, v) :: fields
    else if name < f.1 then (name, v) :: f :: fields
    else f :: Object.set name v fields

/-- `Poco::JSON`: `Stringifier`, `Parser` and the conversions of `Var`; `none` is an
    exception. -/
structure Json where
  stringify : Object → Bytes
  parse : Bytes → Option Var
  convert : ValueType → Value → Option Value

/-- `Object::getValue<T>`. -/
def Json.getValue (json : Json) (type : ValueType) (object : Object) (name : Str) : Option Value :=
  match get object name with
  | some (.value v) => json.convert type v
  | _ => none

def Json.getString (json : Json) (object : Object) (name : Str) : Option Str :=
  match json.getValue .STRING_TYPE object name with
  | some (.string s) => some s
  | _ => none

/-- `Object::getObject`; `none` is its null pointer. -/
def getObject (object : Object) (name : Str) : Option Object :=
  match get object name with
  | some (.object o) => some o
  | _ => none

/-- `Object::getArray`; `none` is its null pointer. -/
def getArray (object : Object) (name : Str) : Option (List Var) :=
  match get object name with
  | some (.array items) => some items
  | _ => none

/-- `Array::getElement<byte>`. -/
def Json.byteElement (json : Json) : Var → Option UInt8
  | .value v =>
    match json.convert .BYTE_TYPE v with
    | some (.byte b) => some b
    | _ => none
  | _ => none

/-- `parse` and `extract<Object::Ptr>`. -/
def Json.parseObject (json : Json) (bytes : Bytes) : Option Object :=
  match json.parse bytes with
  | some (.object o) => some o
  | _ => none

end Json

section Properties

/-- `property::getValueType`. -/
def getValueType : Value → ValueType
  | .boolean _ => .BOOLEAN_TYPE
  | .character _ => .CHAR_TYPE
  | .byte _ => .BYTE_TYPE
  | .short _ => .SHORT_TYPE
  | .integer _ => .INTEGER_TYPE
  | .long _ => .LONG_TYPE
  | .float _ => .FLOAT_TYPE
  | .double _ => .DOUBLE_TYPE
  | .string _ => .STRING_TYPE
  | .bytes _ => .BYTE_ARRAY_TYPE

def getValueTypeName : ValueType → Str
  | .BOOLEAN_TYPE => str ['B','O','O','L','E','A','N']
  | .BYTE_TYPE => str ['B','Y','T','E']
  | .CHAR_TYPE => str ['C','H','A','R']
  | .SHORT_TYPE => str ['S','H','O','R','T']
  | .INTEGER_TYPE => str ['I','N','T','E','G','E','R']
  | .LONG_TYPE => str ['L','O','N','G']
  | .DOUBLE_TYPE => str ['D','O','U','B','L','E']
  | .FLOAT_TYPE => str ['F','L','O','A','T']
  | .STRING_TYPE => str ['S','T','R','I','N','G']
  | .BYTE_ARRAY_TYPE => str ['B','Y','T','E','_','A','R','R','A','Y']

/-- `none` stands for `NULL_TYPE` and `UNKNOWN_TYPE`, which no reader does anything with. -/
def getValueTypeFromString (typeName : Str) : Option ValueType :=
  [.BOOLEAN_TYPE, .BYTE_TYPE, .CHAR_TYPE, .SHORT_TYPE, .INTEGER_TYPE, .LONG_TYPE, .DOUBLE_TYPE,
    .FLOAT_TYPE, .STRING_TYPE, .BYTE_ARRAY_TYPE].find? fun type => getValueTypeName type = typeName

def typeKey : Str := str ['t','y','p','e']

def valueKey : Str := str ['v','a','l','u','e']

/-- A raw value in a document: a byte array is an array of numbers there. -/
def valueToJSON : Value → Var
  | .bytes data => .array (data.map fun b => .value (.byte b))
  | v => .value v

/-- What the visitors of `toJSON` make of one entry. -/
def entryToJSON : Property → Var
  | .value v => .object [(typeKey, .value (.string (getValueTypeName (getValueType v)))),
      (valueKey, valueToJSON v)]
  | .null type => .object [(typeKey, .value (.string (getValueTypeName type))), (valueKey, .null)]

/-- `Properties::toJSON`. -/
def toJSON (ps : Properties) : Object :=
  ps.foldl (fun o p => Object.set p.1 (entryToJSON p.2) o) []

/-- The switch over the type of one entry; nothing comes of a type that is unknown and of an
    array that is absent or empty. -/
def Json.readEntry (json : Json) (o : Object) : Option (Option Value) :=
  match json.getString o typeKey with
  | none => none
  | some typeName =>
    match getValueTypeFromString typeName with
    | none => some none
    | some .BYTE_ARRAY_TYPE =>
      match getArray o valueKey with
      | none => some none
      | some items =>
        match items.mapM json.byteElement with
        | none => none
        | some [] => some none
        | some data => some (some (.bytes data))
    | some type => (json.getValue type o valueKey).map some

/-- `Properties::fromJSON`, name after name. -/
def fromJSON (json : Json) (ps : Properties) : Object → Option Properties
  | [] => some ps
  | (name, .object o) :: fields =>
    match json.readEntry o with
    | none => none
    | some none => fromJSON json ps fields
    | some (some v) => fromJSON json (setProperty ps name (.value v)) fields
  | _ :: fields => fromJSON json ps fields

def streamKey : Str := str ['s','t','r','e','a','m']

/-- `PropertiesStream::toJSON`. -/
def streamToJSON (values : List Value) : Object :=
  [(streamKey, .array (values.map fun v => entryToJSON (.value v)))]

/-- The loop of `PropertiesStream::fromJSON`. -/
def readStream (json : Json) (values : List Value) : List Var → Option (List Value)
  | [] => some values
  | .object o :: items =>
    match json.readEntry o with
    | none => none
    | some none => readStream json values items
    | some (some v) => readStream json (values ++ [v]) items
  | _ :: _ => none

def streamFromJSON (json : Json) (values : List Value) (o : Object) : Option (List Value) :=
  match getArray o streamKey with
  | none => some values
  | some items => readStream json values items

end Properties

section Bodies
variable (json : Json)

/-- `dataAsBytes` of the five classes. -/
def dataAsBytes : Body → Bytes
  | .text text => text
  | .bytes data => data
  | .map entries => if entries = [] then [] else json.stringify (toJSON entries)
  | .stream values => if values = [] then [] else json.stringify (streamToJSON values)
  | .object className body =>
    let nameLen := className.length % 2 ^ 32
    leBytes 4 nameLen ++ className.take nameLen ++ body

/-- `setDataFromBytes` of the five classes. -/
def setDataFromBytes : Body → Bytes → Option Body
  | .text _, bytes => some (.text bytes)
  | .bytes _, bytes => some (.bytes bytes)
  | .map _, bytes =>
    if bytes = [] then some (.map [])
    else (json.parseObject bytes).bind fun o => (fromJSON json [] o).map .map
  | .stream _, bytes =>
    if bytes = [] then some (.stream [])
    else (json.parseObject bytes).bind fun o => (streamFromJSON json [] o).map .stream
  | .object _ _, bytes =>
    if bytes.length < 4 then some (.object [] [])
    else
      let nameLen := leNat (slice 0 4 bytes)
      if bytes.length < 4 + nameLen then some (.object [] [])
      else some (.object (slice 4 nameLen bytes) (bytes.drop (4 + nameLen)))

end Bodies

section Codec

/-- `UUID::copyTo`: in network order. -/
def copyTo (u : UUID) : Bytes := (leBytes 16 u.toNat).reverse

def copyFrom (buffer : Bytes) : UUID := BitVec.ofNat 128 (leNat buffer.reverse)

/-- The part of a string that its four bytes of length can count. -/
def counted (s : Str) : Nat := s.length % 2 ^ 32

def writeString (s : Str) : Bytes := leBytes 4 (counted s) ++ s.take (counted s)

/-- `none` is its `false`; otherwise the string and the offset behind it. -/
def readString (bytes : Bytes) (off : Nat) : Option (Str × Nat) :=
  if bytes.length < off + 4 then none
  else
    let len := leNat (slice off 4 bytes)
    let off := off + 4
    if bytes.length < off + len then none else some (slice off len bytes, off + len)

def kFixed : Nat := 1 + 8 + 16 + 1

def kHdrNums : Nat := 8 * 3 + 4 * 2 + 1

def Reliability.byte : Reliability → UInt8
  | .NOT_PERSISTENT => 0
  | .PERSISTENT => 1

/-- The parts of a message in their order. The buffer has room for the full header strings,
    so what the lengths cannot count is left over as zeros at the end. -/
def toBytes (json : Json) (c : Content) : Bytes :=
  let data := dataAsBytes json c.body
  let propsJson := if c.properties = [] then [] else json.stringify (toJSON c.properties)
  let propsLen := propsJson.length % 2 ^ 32
  let strings := [c.headers.messageId, c.headers.replyTo, c.headers.correlationId, c.headers.type]
  [2] ++ leInt 8 c.number ++ copyTo c.uuid ++ [Reliability.byte c.reliability] ++
    leInt 8 c.headers.timestamp ++ leInt 8 c.headers.expiration ++
    leInt 8 c.headers.deliveryTime ++ leInt 4 c.headers.priority ++
    leInt 4 c.headers.deliveryCount ++ [if c.headers.redelivered then 1 else 0] ++
    (strings.map writeString).flatten ++
    leBytes 4 propsLen ++ propsJson.take propsLen ++ data ++
    List.replicate (strings.map fun s => s.length - counted s).sum 0

/-- The end of `fromBytes`: the body, when there are bytes left. -/
def readData (json : Json) (m : Content) (bytes : Bytes) (off : Nat) : Option Content :=
  if off < bytes.length then
    (setDataFromBytes json m.body (bytes.drop off)).map fun body => { m with body := body }
  else some m

/-- The properties and the body. -/
def readProperties (json : Json) (m : Content) (bytes : Bytes) (off : Nat) : Option Content :=
  if bytes.length < off + 4 then some m
  else
    let propsLen := leNat (slice off 4 bytes)
    let off := off + 4
    if 0 < propsLen ∧ off + propsLen ≤ bytes.length then
      (json.parseObject (slice off propsLen bytes)).bind fun o =>
        (fromJSON json m.properties o).bind fun ps =>
          readData json { m with properties := ps } bytes (off + propsLen)
    else readData json m bytes off

def Content.setHeaders (m : Content) (headers : Headers) : Content := { m with headers := headers }

/-- The header strings; a truncated one ends the reading. -/
def readStrings (json : Json) (m : Content) (bytes : Bytes) (off : Nat) : Option Content :=
  match readString bytes off with
  | none => some m
  | some (messageId, off) =>
    let m := Content.setHeaders m { m.headers with messageId := messageId }
    match readString bytes off with
    | none => some m
    | some (replyTo, off) =>
      let m := Content.setHeaders m { m.headers with replyTo := replyTo }
      match readString bytes off with
      | none => some m
      | some (correlationId, off) =>
        let m := Content.setHeaders m { m.headers with correlationId := correlationId }
        match readString bytes off with
        | none => some m
        | some (type, off) =>
          readProperties json (Content.setHeaders m { m.headers with type := type }) bytes off

/-- The numbers of the headers, then their strings. -/
def readHeaders (json : Json) (m : Content) (bytes : Bytes) (off : Nat) : Option Content :=
  if bytes.length < off + kHdrNums then some m
  else
    let headers := { m.headers with
      timestamp := intLe 8 (slice off 8 bytes),
      expiration := intLe 8 (slice (off + 8) 8 bytes),
      deliveryTime := intLe 8 (slice (off + 16) 8 bytes),
      priority := intLe 4 (slice (off + 24) 4 bytes),
      deliveryCount := intLe 4 (slice (off + 28) 4 bytes),
      redelivered := bytes.getD (off + 32) 0 ≠ 0 }
    readStrings json (Content.setHeaders m headers) bytes (off + kHdrNums)

/-- `dataPath` and `propertiesPath` of one part of the persistent info. -/
def Json.paths (json : Json) (persistInfo : Object) (part : Text) : Option (Str × Str) := do
  let info ← getObject persistInfo (str part)
  let dataPath ← json.getString info (str ['d','a','t','a','P','a','t','h'])
  let propertiesPath ←
    json.getString info (str ['p','r','o','p','e','r','t','i','e','s','P','a','t','h'])
  some (dataPath, propertiesPath)

/-- The document of the oldest records. The paths have to be there; nothing of what is modelled
    holds them. -/
def setPropertiesFromBytes (json : Json) (m : Content) (bytes : Bytes) : Option Content :=
  let m := { m with properties := [] }
  if bytes = [] then some m
  else do
    let object ← json.parseObject bytes
    let number ← match json.getValue .LONG_TYPE object (str ['n','u','m','b','e','r']) with
      | some (.long n) => some n.toInt
      | _ => none
    let uuid ← json.getString object (str ['u','u','i','d'])
    let uuid ← parseUuid (uuid.map fun b => Char.ofNat b.toNat)
    let reliability ← json.getString object (str ['r','e','l','i','a','b','i','l','i','t','y'])
    let persistInfo ←
      getObject object (str ['p','e','r','s','i','s','t','e','n','t','I','n','f','o'])
    let _ ← json.paths persistInfo ['p','a','y','l','o','a','d']
    let _ ← json.paths persistInfo ['s','e','n','t']
    let _ ← json.paths persistInfo ['t','r','a','n','s','a','c','t','i','o','n']
    let properties ← getObject object (str ['p','r','o','p','e','r','t','i','e','s'])
    let ps ← fromJSON json m.properties properties
    let reliability :=
      if reliability = str ['P','E','R','S','I','S','T','E','N','T'] then .PERSISTENT
      else .NOT_PERSISTENT
    some { m with number := number, uuid := uuid, reliability := reliability, properties := ps }

/-- Records from before the magic byte: the size of the document, the document, the body. A
    size that no vector has is an exception. -/
def readLegacy (json : Json) (m : Content) (bytes : Bytes) : Option Content :=
  if bytes.length < 8 then some m
  else
    let propsSize := leNat (slice 0 8 bytes)
    if 2 ^ 63 ≤ propsSize then none
    else
      let props :=
        if 0 < propsSize ∧ 8 + propsSize ≤ bytes.length then slice 8 propsSize bytes
        else List.replicate propsSize 0
      (setPropertiesFromBytes json m props).bind fun m => readData json m bytes (8 + propsSize)

/-- `Message::fromBytes`; `none` is an exception of the JSON parser or of a conversion. -/
def fromBytes (json : Json) (m : Content) (bytes : Bytes) : Option Content :=
  match bytes.head? with
  | none => some m
  | some magic =>
    if magic = 1 ∨ magic = 2 then
      if bytes.length < kFixed then some m
      else
        let m := { m with
          number := intLe 8 (slice 1 8 bytes),
          uuid := copyFrom (slice 9 16 bytes),
          reliability := if bytes.getD 25 0 ≠ 0 then .PERSISTENT else .NOT_PERSISTENT }
        if magic = 2 then readHeaders json m bytes kFixed
        else readProperties json (Content.setHeaders m {}) bytes kFixed
    else readLegacy json m bytes

end Codec

end TinyMqWireFormat
