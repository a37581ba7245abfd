import TinyMq.Lib.AssocLists
import TinyMq.Lib.BandQueue
import TinyMq.Storage.TomFile

/-!
`Message.h`: a message as the broker handles it. The cached storage bytes
`[type][toBytes()]` are held as the content they encode; the wire format itself
is another matter. An object identity stands for the address of a message: the
in-flight chain of a consumer asks whether this very object is linked into it.
-/
namespace TinyMqMessage
open ByteStrings AssocLists BandQueues TinyMqTom

/-- `std::string`. -/
abbrev Str := Bytes

/-- A value of one of the ten raw property types; the floating point ones as bits. -/
inductive Value where
  | boolean (v : Bool)
  | character (v : UInt8)
  | byte (v : UInt8)
  | short (v : BitVec 16)
  | integer (v : BitVec 32)
  | long (v : BitVec 64)
  | float (bits : BitVec 32)
  | double (bits : BitVec 64)
  | string (v : Str)
  | bytes (v : Bytes)
  deriving DecidableEq

inductive ValueType where
  | BOOLEAN_TYPE
  | BYTE_TYPE
  | CHAR_TYPE
  | SHORT_TYPE
  | INTEGER_TYPE
  | LONG_TYPE
  | DOUBLE_TYPE
  | FLOAT_TYPE
  | STRING_TYPE
  | BYTE_ARRAY_TYPE
  deriving DecidableEq

/-- `Poco::Nullable` of a raw type. -/
inductive Property where
  | value (v : Value)
  | null (type : ValueType)
  deriving DecidableEq

abbrev Properties := Assoc Str Property

/-- `Properties::setProperty` emplaces: a name that is there keeps its value. -/
def setProperty (ps : Properties) (name : Str) (p : Property) : Properties :=
  match get ps name with
  | some _ => ps
  | none => put ps name p

inductive Body where
  | text (text : Str)
  | stream (values : List Value)
  | bytes (data : Bytes)
  | map (entries : Properties)
  | object (className : Str) (body : Bytes)
  deriving DecidableEq

/-- The empty body of a shell of the same message type. -/
def Body.shell : Body → Body
  | text _ => .text []
  | stream _ => .stream []
  | bytes _ => .bytes []
  | map _ => .map []
  | object _ _ => .object [] []

inductive Reliability where
  | NOT_PERSISTENT
  | PERSISTENT
  deriving DecidableEq

structure Headers where
  messageId : Str := []
  timestamp : Int := 0
  expiration : Int := 0
  deliveryTime : Int := 0
  priority : Int := 4
  deliveryCount : Int := 0
  redelivered : Bool := false
  replyTo : Str := []
  correlationId : Str := []
  type : Str := []
  deriving DecidableEq

/-- Everything `toBytes` writes. -/
structure Content where
  number : Int := 0
  uuid : UUID := 0
  reliability : Reliability := .NOT_PERSISTENT
  headers : Headers := {}
  properties : Properties := []
  body : Body
  deriving DecidableEq

/-- A message object. `location` is the cached record location, `none` for the
    maximal tom id; `pendingDeliveryDelay` is never written. -/
structure Message where
  oid : Nat
  content : Content
  cachedStorageBytes : Option Content := none
  location : Option Nat := none
  pendingDeliveryDelay : Int := 0
  deriving DecidableEq

/-- What a selector can read of a message. -/
abbrev Selector := Properties → Bool

def Message.uuid (m : Message) : UUID := m.content.uuid

def Message.isPersistent (m : Message) : Bool := m.content.reliability = .PERSISTENT

def Message.isExpired (m : Message) (nowMs : Int) : Bool :=
  m.content.headers.expiration ≠ 0 ∧ m.content.headers.expiration ≤ nowMs

/-- `copy()`: a new object, in no chain, with everything else of the old one. -/
def Message.copy (m : Message) (oid : Nat) : Message := { m with oid := oid }

def Content.withDeliveryTime (c : Content) (t : Int) : Content :=
  { c with headers := { c.headers with deliveryTime := t } }

def Message.setDeliveryTime (m : Message) (t : Int) : Message :=
  { m with content := m.content.withDeliveryTime t }

def Message.patchCachedDeliveryTime (m : Message) (t : Int) : Message :=
  { m with cachedStorageBytes := m.cachedStorageBytes.map (·.withDeliveryTime t) }

def Message.refreshCachedStorageBytes (m : Message) : Message :=
  if m.isPersistent then { m with cachedStorageBytes := some m.content } else m

/-- Ten years in milliseconds. -/
def kMaxFutureHeaderMs : Int := 315360000000

/-- A band is first in, first out for the messages of one enqueuing thread; those of two threads may
stand in it in any order. The calls below enqueue one after the other. -/
abbrev QueueT := BandQueue 10 Message

/-- `std::clamp` of a priority to the bands of the queue. -/
def clampPriority (p : Int) : Int := max 0 (min p 9)

def Message.band (m : Message) : Fin 10 :=
  ⟨(clampPriority m.content.headers.priority).toNat, by unfold clampPriority; omega⟩

end TinyMqMessage
