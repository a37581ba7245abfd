import TinyMq.Broker.Message
import TinyMq.Broker.Store
import TinyMq.Broker.TransactionBuffer

/-!
`Destination.cpp` with the parts of `Consumer.cpp`, `Producer.cpp` and
`DeliveryScheduler.cpp` that work on one destination. A call takes the state and
gives the new one; asynchronous removals count as done when the call returns.
The iteration order of the consumer map is the order of a list, and `rehash`
is the map's freedom to change it. A message that passes its redelivery limit
leaves the destination as an output: the dead-letter queue is another one.
-/
namespace TinyMqDestination
open DelimitedText AssocLists BandQueues TinyMqTom TinyMqMessage TinyMqStore
open TinyMqTransactionBuffer

inductive DestinationType where
  | Queue
  | Topic
  | TemporaryQueue
  | TemporaryTopic
  deriving DecidableEq

inductive AcknowledgeMode where
  | SESSION_TRANSACTED
  | AUTO_ACKNOWLEDGE
  | CLIENT_ACKNOWLEDGE
  | INDIVIDUAL_ACKNOWLEDGE
  | DUPS_OK_ACKNOWLEDGE
  deriving DecidableEq

/-- The queue all consumers of a queue share, or a subscriber's own one. -/
inductive QueueId where
  | shared
  | own (consumer : Nat)
  deriving DecidableEq

/-- The destination's storage, or that of a durable subscription, by its directory. -/
inductive StorageId where
  | shared
  | sub (directory : Text)
  deriving DecidableEq

/-- Where the code asks for a random uuid. -/
inductive RandomUse where
  | push (number : Int) (consumer : Nat)
  | offline (number : Int) (subscription : Text)
  deriving DecidableEq

/-- What a call finds in its environment: the clock, the uuid generator and
    whether the device fails the append of a record. -/
structure Env where
  nowMs : Int
  stamp : Stamp
  random : RandomUse → UUID
  appendFails : StorageId → Nat → Bool

structure SendOptions where
  deliveryMode : Reliability := .NOT_PERSISTENT
  priority : Int := 4
  timeToLive : Int := 0
  deliveryDelay : Int := 0
  deriving DecidableEq

structure Consumer where
  mode : AcknowledgeMode
  queue : QueueId
  storage : StorageId
  selector : Option Selector
  inFlight : List Message := []
  transactQueue : QueueT := .empty
  pendingAcks : List (Nat × UUID) := []

structure Producer where
  mode : AcknowledgeMode
  transactQueue : QueueT := .empty
  disableMessageID : Bool := false
  disableMessageTimestamp : Bool := false
  default : Option SendOptions := none

structure DurableSubState where
  name : Text
  directory : Text
  active : Option Nat
  selector : Option Selector

def DurableSubState.storage (sub : DurableSubState) : StorageId := .sub sub.directory

structure RedeliveryPolicy where
  maxRedeliveries : Int := 6
  backoffMs : Int := 0
  maxBackoffMs : Int := 60000
  deadLetterQueue : Option Nat := none

structure Destination where
  type : DestinationType
  messageCounter : Int := 0
  consumers : List Nat := []
  objects : Assoc Nat Consumer := []
  producers : Assoc Nat Producer := []
  queueMade : Bool := false
  queues : QueueId → QueueT := fun _ => .empty
  defaultConsumer : Option Nat := none
  stores : StorageId → Store Content := fun _ => {}
  buffer : TransactionBuffer Content := loadTransactionLog []
  pending : List (Int × QueueId × Message) := []
  schedulerStopped : Bool := false
  durableSubs : Assoc Text DurableSubState := []
  consumerToSubName : Assoc Nat Text := []
  redeliveryPolicy : RedeliveryPolicy := {}
  nextOid : Nat := 0

def Destination.isQueueFamily (d : Destination) : Bool :=
  d.type = .Queue ∨ d.type = .TemporaryQueue

def Destination.isTopicFamily (d : Destination) : Bool :=
  d.type = .Topic ∨ d.type = .TemporaryTopic

/-- `selector && !selector->matches(message)`, turned round. -/
def accepts (selector : Option Selector) (m : Message) : Bool :=
  match selector with
  | none => true
  | some matching => matching m.content.properties

def Destination.setObject (d : Destination) (cid : Nat) (c : Consumer) : Destination :=
  { d with objects := put d.objects cid c }

def Destination.setQueue (d : Destination) (q : QueueId) (queue : QueueT) : Destination :=
  { d with queues := Function.update d.queues q queue }

def Destination.enqueue (d : Destination) (q : QueueId) (m : Message) : Destination :=
  d.setQueue q ((d.queues q).enqueue m.band m)

/-- `std::multimap::emplace`: behind the entries of the same key. -/
def insertPending (t : Int) (q : QueueId) (m : Message) (pending : List (Int × QueueId × Message)) :
    List (Int × QueueId × Message) :=
  pending.takeWhile (·.1 ≤ t) ++ (t, q, m) :: pending.dropWhile (·.1 ≤ t)

/-- A delivery time too far ahead is taken for garbage and reset, in the header
    and in the cached bytes. -/
def clampFuture (env : Env) (m : Message) : Message :=
  if 0 < m.content.headers.deliveryTime ∧
      kMaxFutureHeaderMs < m.content.headers.deliveryTime - env.nowMs then
    (m.setDeliveryTime 0).patchCachedDeliveryTime 0
  else m

def Destination.enqueueOrSchedule (env : Env) (d : Destination) (q : QueueId) (m : Message) :
    Destination :=
  let m := clampFuture env m
  let t := m.content.headers.deliveryTime
  if t = 0 ∨ t ≤ env.nowMs then d.enqueue q m
  else if d.schedulerStopped then
    if m.isPersistent then d else d.enqueue q m
  else { d with pending := insertPending t q m d.pending }

/-- One round of the scheduler's drain loop: the first entry, when it is due. -/
def Destination.deliverDue (env : Env) (d : Destination) : Destination :=
  match d.pending with
  | [] => d
  | (t, q, m) :: rest =>
    if t ≤ env.nowMs then ({ d with pending := rest } : Destination).enqueue q m else d

def Destination.appendRecord (env : Env) (d : Destination) (sid : StorageId) (uuid : UUID)
    (content : Content) : Destination × Option Nat :=
  let (s, r) := (d.stores sid).append uuid content (env.appendFails sid (d.stores sid).log.length)
  ({ d with stores := Function.update d.stores sid s }, r)

def Destination.removeRecord (d : Destination) (sid : StorageId) (rec : Nat × UUID) : Destination :=
  { d with stores := Function.update d.stores sid ((d.stores sid).remove rec.1 rec.2) }

/-- The record of a message: its cached location, else the uuid lookup. -/
def Destination.locate (d : Destination) (c : Consumer) (m : Message) : Option (Nat × UUID) :=
  match m.location with
  | some location => some (location, m.uuid)
  | none => ((d.stores c.storage).record m.uuid).map fun location => (location, m.uuid)

def Destination.removeLocated (d : Destination) (c : Consumer) (m : Message) : Destination :=
  match d.locate c m with
  | none => d
  | some rec => d.removeRecord c.storage rec

/-- A persistent message that is done with takes its record along. -/
def Destination.dropRecord (c : Consumer) (d : Destination) (m : Message) : Destination :=
  if m.isPersistent then d.removeLocated c m else d

/-- The copy of a sent message for one consumer: a message without a uuid gets one. -/
def pushCopy (env : Env) (oid : Nat) (number : Int) (cid : Nat) (m : Message) : Message :=
  let uuid := if m.uuid = 0 then env.random (.push number cid) else m.uuid
  { m.copy oid with content := { m.content with uuid := uuid, number := number } }

def Destination.preparePush (env : Env) (d : Destination) (cid : Nat) (c : Consumer)
    (number : Int) (transactionId : Text) (m : Message) : Destination × Message :=
  let copy := pushCopy env d.nextOid number cid m
  let d := { d with nextOid := d.nextOid + 1 }
  if copy.isPersistent then
    let copy := { copy with cachedStorageBytes := some copy.content }
    if transactionId ≠ [] then
      ({ d with buffer := d.buffer.addMessage env.stamp transactionId copy.uuid copy.content }, copy)
    else
      let (d, r) := d.appendRecord env c.storage copy.uuid copy.content
      (d, { copy with location := r })
  else (d, copy)

/-- `producer.transactQueue().enqueue`. -/
def Destination.stage (d : Destination) (pid : Nat) (m : Message) : Destination :=
  match get d.producers pid with
  | none => d
  | some p =>
    { d with
      producers :=
        put d.producers pid { p with transactQueue := p.transactQueue.enqueue m.band m } }

def Destination.push (env : Env) (number : Int) (pid : Nat) (transactionId : Text) (m : Message)
    (d : Destination) (cid : Nat) : Destination :=
  match get d.objects cid with
  | none => d
  | some c =>
    if accepts c.selector m then
      let (d, msg) := d.preparePush env cid c number transactionId m
      if transactionId = [] then
        if msg.content.headers.deliveryTime ≠ 0 then d.enqueueOrSchedule env c.queue msg
        else d.enqueue c.queue msg
      else d.stage pid msg
    else d

def Destination.persistToOfflineSub (env : Env) (m : Message) (d : Destination)
    (entry : Text × DurableSubState) : Destination :=
  let uuid := if m.uuid = 0 then env.random (.offline m.content.number entry.1) else m.uuid
  (d.appendRecord env entry.2.storage uuid { m.content with uuid := uuid }).1

/-- The loop over the offline subscriptions that `save` and `deliverCommitted` share. -/
def Destination.persistOffline (env : Env) (d : Destination) (m : Message) : Destination :=
  d.durableSubs.foldl (fun d entry =>
    if entry.2.active.isSome then d
    else if accepts entry.2.selector m then d.persistToOfflineSub env m entry
    else d) d

/-- The consumers a send or a delivery reaches: on a queue the first one only. -/
def Destination.targets (d : Destination) : List Nat :=
  if d.isQueueFamily then d.consumers.take 1 else d.consumers

def Destination.save (env : Env) (d : Destination) (pid : Nat) (transactionId : Text)
    (m : Message) : Destination :=
  let number := d.messageCounter
  let d := { d with messageCounter := number + 1 }
  let d := d.targets.foldl (Destination.push env number pid transactionId m) d
  if d.isTopicFamily ∧ m.isPersistent ∧ transactionId = [] then d.persistOffline env m else d

inductive SendError where
  | priorityRange
  | negativeDuration
  | durationTooLong
  deriving DecidableEq

def validateSendOptions (opts : SendOptions) : Except SendError Unit :=
  if opts.priority < 0 ∨ 9 < opts.priority then .error .priorityRange
  else if opts.timeToLive < 0 ∨ opts.deliveryDelay < 0 then .error .negativeDuration
  else if kMaxFutureHeaderMs < opts.timeToLive ∨ kMaxFutureHeaderMs < opts.deliveryDelay then
    .error .durationTooLong
  else .ok ()

def applyOptions (env : Env) (m : Message) (opts : SendOptions) (transactional : Bool) : Message :=
  let expiration := if 0 < opts.timeToLive then env.nowMs + opts.timeToLive else 0
  let deliveryTime :=
    if ¬ transactional ∧ 0 < opts.deliveryDelay then env.nowMs + opts.deliveryDelay else 0
  { m with
    content := { m.content with
      reliability := opts.deliveryMode,
      headers := { m.content.headers with
        priority := opts.priority, expiration := expiration, deliveryTime := deliveryTime } },
    pendingDeliveryDelay := if transactional then opts.deliveryDelay else 0 }

def idPrefix : Str := [73, 68, 58]

/-- The provider headers that `dispatch` fills in. -/
def fillHeaders (env : Env) (p : Producer) (m : Message) : Message :=
  let h := m.content.headers
  let messageId :=
    if p.disableMessageID then []
    else if h.messageId = [] then idPrefix ++ (uuidText m.uuid).map fun c => UInt8.ofNat c.toNat
    else h.messageId
  let timestamp :=
    if p.disableMessageTimestamp then 0
    else if h.timestamp = 0 then env.nowMs else h.timestamp
  { m with content := { m.content with
      headers := { h with messageId := messageId, timestamp := timestamp } } }

/-- The message as `send` hands it to the destination: the producer's defaults
    replace its own settings, then the provider headers are filled in. -/
def prepared (env : Env) (p : Producer) (transactionId : Text) (m : Message) : Message :=
  match p.default with
  | none => fillHeaders env p m
  | some opts => fillHeaders env p (applyOptions env m opts (transactionId ≠ []))

/-- `Producer::send` without options; the message argument comes back as the call left it. -/
def Destination.send (env : Env) (d : Destination) (pid : Nat) (transactionId : Text)
    (m : Message) : Destination × Message :=
  match get d.producers pid with
  | none => (d, m)
  | some p =>
    let m := prepared env p transactionId m
    (d.save env pid transactionId m, m)

def Destination.sendWith (env : Env) (d : Destination) (pid : Nat) (transactionId : Text)
    (m : Message) (opts : SendOptions) : Destination × Except SendError Message :=
  match get d.producers pid with
  | none => (d, .ok m)
  | some p =>
    match validateSendOptions opts with
    | .error e => (d, .error e)
    | .ok _ =>
      let m := fillHeaders env p (applyOptions env m opts (transactionId ≠ []))
      (d.save env pid transactionId m, .ok m)

/-- A commit starts the clock of a delayed transactional send. -/
def resolveDelay (env : Env) (m : Message) : Message :=
  if 0 < m.pendingDeliveryDelay then
    let t := env.nowMs + m.pendingDeliveryDelay
    let m := { m.setDeliveryTime t with pendingDeliveryDelay := 0 }
    if m.isPersistent then m.patchCachedDeliveryTime t else m
  else m

def Destination.patchPending (env : Env) (d : Destination) (m : Message) : Destination :=
  if 0 < m.pendingDeliveryDelay ∧ m.isPersistent then
    { d with
      buffer := d.buffer.patchDeliveryTime m.uuid
        (·.withDeliveryTime (env.nowMs + m.pendingDeliveryDelay)) }
  else d

def Destination.commitTransaction (env : Env) (d : Destination) (transactionId : Text) :
    Destination :=
  if transactionId = [] then d
  else
    let (buffer, batch) := d.buffer.commitTransaction env.stamp transactionId
    { d with
      buffer := buffer,
      stores := Function.update d.stores .shared
        ((d.stores .shared).appendBatch (env.appendFails .shared) batch) }

def Destination.deliverTo (env : Env) (m : Message) (d : Destination) (cid : Nat) : Destination :=
  match get d.objects cid with
  | none => d
  | some c =>
    ({ d with nextOid := d.nextOid + 1 } : Destination).enqueueOrSchedule env c.queue
      (m.copy d.nextOid)

def Destination.deliverCommitted (env : Env) (d : Destination) (m : Message) : Destination :=
  if d.isQueueFamily then
    match d.consumers with
    | [] => d
    | cid :: _ =>
      match get d.objects cid with
      | none => d
      | some c => d.enqueueOrSchedule env c.queue m
  else
    let d := d.consumers.foldl (Destination.deliverTo env m) d
    if m.isPersistent then d.persistOffline env m else d

def Destination.clearStaged (d : Destination) (pid : Nat) (p : Producer) : Destination :=
  { d with producers := put d.producers pid { p with transactQueue := .empty } }

def Destination.commitProducer (env : Env) (d : Destination) (pid : Nat) (transactionId : Text) :
    Destination :=
  match get d.producers pid with
  | none => d
  | some p =>
    if p.mode = .SESSION_TRANSACTED then
      let drained := p.transactQueue.toList
      let d := drained.foldl (Destination.patchPending env) (d.clearStaged pid p)
      let d := d.commitTransaction env transactionId
      (drained.map (resolveDelay env)).foldl (Destination.deliverCommitted env) d
    else d

def Destination.rollbackProducer (env : Env) (d : Destination) (pid : Nat) (transactionId : Text) :
    Destination :=
  match get d.producers pid with
  | none => d
  | some p =>
    if p.mode = .SESSION_TRANSACTED then
      let d := if transactionId = [] then d
        else { d with buffer := d.buffer.rollbackTransaction env.stamp transactionId }
      d.clearStaged pid p
    else d

/-- The message after the read of its bytes: from the cache, else from the storage. -/
def Destination.rehydrate (d : Destination) (c : Consumer) (m : Message) : Message :=
  if m.isPersistent then
    match m.cachedStorageBytes with
    | some content => { m with content := content, cachedStorageBytes := none }
    | none =>
      match ((d.stores c.storage).record m.uuid).bind (d.stores c.storage).data with
      | none => m
      | some content => { m with content := content }
  else m

/-- How a received message is kept until it is acknowledged. -/
def track (c : Consumer) (m : Message) : Consumer :=
  match c.mode with
  | .SESSION_TRANSACTED => { c with transactQueue := c.transactQueue.enqueue m.band m }
  | .AUTO_ACKNOWLEDGE => c
  | _ => { c with inFlight := c.inFlight ++ [m] }

/-- `recv`; `patience` is how many expired messages fit into the caller's timeout. -/
def Destination.recv (env : Env) (cid : Nat) : Nat → Destination → Destination × Option Message
  | patience, d =>
    match get d.objects cid with
    | none => (d, none)
    | some c =>
      match (d.queues c.queue).dequeue with
      | none => (d, none)
      | some (m, q) =>
        let d := d.setQueue c.queue q
        let m := d.rehydrate c m
        if m.isExpired env.nowMs then
          match patience with
          | 0 => (d.dropRecord c m, none)
          | patience + 1 => (d.dropRecord c m).recv env cid patience
        else (d.setObject cid (track c m), some m)

/- What one round of `recv` does, and what follows for a whole call: a round ends it
   or drops an expired message and goes on while there is patience. -/
theorem recv_rounds (env : Env) {cid : Nat}
    {P : Nat → Destination → Destination × Option Message → Prop}
    (absent : ∀ patience d, get d.objects cid = none → P patience d (d, none))
    (empty : ∀ patience d c, get d.objects cid = some c → (d.queues c.queue).dequeue = none →
      P patience d (d, none))
    (given : ∀ patience d c m q, get d.objects cid = some c →
      (d.queues c.queue).dequeue = some (m, q) →
      ((d.setQueue c.queue q).rehydrate c m).isExpired env.nowMs = false →
      P patience d
        ((d.setQueue c.queue q).setObject cid (track c ((d.setQueue c.queue q).rehydrate c m)),
          some ((d.setQueue c.queue q).rehydrate c m)))
    (last : ∀ d c m q, get d.objects cid = some c → (d.queues c.queue).dequeue = some (m, q) →
      ((d.setQueue c.queue q).rehydrate c m).isExpired env.nowMs = true →
      P 0 d ((d.setQueue c.queue q).dropRecord c ((d.setQueue c.queue q).rehydrate c m), none))
    (expired : ∀ patience d c m q r, get d.objects cid = some c →
      (d.queues c.queue).dequeue = some (m, q) →
      ((d.setQueue c.queue q).rehydrate c m).isExpired env.nowMs = true →
      P patience ((d.setQueue c.queue q).dropRecord c ((d.setQueue c.queue q).rehydrate c m)) r →
      P (patience + 1) d r)
    (patience : Nat) (d : Destination) : P patience d (d.recv env cid patience) := by
  induction patience generalizing d with
  | zero =>
    unfold Destination.recv
    split
    · rename_i object
      exact absent 0 d object
    · rename_i c object
      split
      · rename_i nothing
        exact empty 0 d c object nothing
      · rename_i m q next
        dsimp only
        split
        · rename_i late
          exact last d c m q object next late
        · rename_i early
          exact given 0 d c m q object next (by simpa using early)
  | succ patience ih =>
    unfold Destination.recv
    split
    · rename_i object
      exact absent _ d object
    · rename_i c object
      split
      · rename_i nothing
        exact empty _ d c object nothing
      · rename_i m q next
        dsimp only
        split
        · rename_i late
          exact expired patience d c m q _ object next late (ih _)
        · rename_i early
          exact given _ d c m q object next (by simpa using early)

theorem recv_rule {env : Env} {cid : Nat} {P : Destination → Destination × Option Message → Prop}
    (idle : ∀ d, P d (d, none))
    (given : ∀ d c m q, get d.objects cid = some c → (d.queues c.queue).dequeue = some (m, q) →
      P d ((d.setQueue c.queue q).setObject cid (track c ((d.setQueue c.queue q).rehydrate c m)),
        some ((d.setQueue c.queue q).rehydrate c m)))
    (expired : ∀ d c m q r, get d.objects cid = some c →
      (d.queues c.queue).dequeue = some (m, q) →
      P ((d.setQueue c.queue q).dropRecord c ((d.setQueue c.queue q).rehydrate c m)) r → P d r)
    (patience : Nat) (d : Destination) : P d (d.recv env cid patience) :=
  recv_rounds env (P := fun _ => P) (fun _ d _ => idle d) (fun _ d _ _ _ => idle d)
    (fun _ d c m q object next _ => given d c m q object next)
    (fun d c m q object next _ => expired d c m q _ object next (idle _))
    (fun _ d c m q r object next _ rest => expired d c m q r object next rest) patience d

def kDupsOkBatch : Nat := 100

def Destination.flushPendingAcks (d : Destination) (cid : Nat) (c : Consumer) : Destination :=
  (c.pendingAcks.foldl (fun d rec => d.removeRecord c.storage rec) d).setObject cid
    { c with pendingAcks := [] }

def Destination.acknowledgeOn (d : Destination) (cid : Nat) (m : Message) : Destination :=
  match get d.objects cid with
  | none => d
  | some c =>
    if c.mode = .SESSION_TRANSACTED then d
    else
      let c := { c with inFlight := c.inFlight.filter (·.oid ≠ m.oid) }
      let d := d.setObject cid c
      if m.isPersistent then
        match d.locate c m with
        | none => d
        | some rec =>
          if c.mode = .DUPS_OK_ACKNOWLEDGE then
            let c := { c with pendingAcks := c.pendingAcks ++ [rec] }
            if kDupsOkBatch ≤ c.pendingAcks.length then d.flushPendingAcks cid c
            else d.setObject cid c
          else d.removeRecord c.storage rec
      else d

/-- `min(backoffMs * 2^(deliveryCount-1), maxBackoffMs)`. -/
def backoffDelay (policy : RedeliveryPolicy) (deliveryCount : Int) : Int :=
  let raw := policy.backoffMs * 2 ^ (deliveryCount - 1).toNat
  if raw < policy.maxBackoffMs then raw else policy.maxBackoffMs

def countRedelivery (m : Message) : Message :=
  { m with content := { m.content with
      headers := { m.content.headers with
        redelivered := true, deliveryCount := m.content.headers.deliveryCount + 1 } } }

/-- `redeliver`; the second component holds the message when it goes to the dead-letter queue. -/
def Destination.redeliver (env : Env) (c : Consumer) (sessionClosing : Bool) (d : Destination)
    (m : Message) : Destination × Option Message :=
  let m := countRedelivery m
  let count := m.content.headers.deliveryCount
  let policy := d.redeliveryPolicy
  if 0 ≤ policy.maxRedeliveries ∧ policy.maxRedeliveries < count then
    (d.dropRecord c m, some m)
  else
    let applyBackoff := !sessionClosing && decide (0 < policy.backoffMs)
    let m := m.setDeliveryTime (if applyBackoff then env.nowMs + backoffDelay policy count else 0)
    let m := m.refreshCachedStorageBytes
    (if applyBackoff then d.enqueueOrSchedule env c.queue m else d.enqueue c.queue m, none)

/-- The loop of `recover` and `rollback` over the messages they took out. -/
def Destination.redeliverAll (env : Env) (c : Consumer) (sessionClosing : Bool) :
    Destination → List Message → Destination × List Message
  | d, [] => (d, [])
  | d, m :: ms =>
    let (d, dead) := d.redeliver env c sessionClosing m
    let (d, more) := d.redeliverAll env c sessionClosing ms
    (d, dead.toList ++ more)

def Destination.recover (env : Env) (d : Destination) (cid : Nat) : Destination × List Message :=
  match get d.objects cid with
  | none => (d, [])
  | some c =>
    (d.setObject cid { c with inFlight := [] }).redeliverAll env c false c.inFlight

def Destination.rollbackConsumer (env : Env) (d : Destination) (cid : Nat)
    (sessionClosing : Bool) : Destination × List Message :=
  match get d.objects cid with
  | none => (d, [])
  | some c =>
    if c.mode = .SESSION_TRANSACTED then
      (d.setObject cid { c with transactQueue := .empty }).redeliverAll env c sessionClosing
        c.transactQueue.toList
    else (d, [])

def Destination.commitConsumer (d : Destination) (cid : Nat) : Destination :=
  match get d.objects cid with
  | none => d
  | some c =>
    if c.mode = .SESSION_TRANSACTED then
      c.transactQueue.toList.foldl (Destination.dropRecord c)
        (d.setObject cid { c with transactQueue := .empty })
    else d

/-- `deliveryTimeFromStorageBytes`: a stored time out of range is taken for garbage. -/
def storedDeliveryTime (env : Env) (content : Content) : Int :=
  let t := content.headers.deliveryTime
  if t < 0 ∨ env.nowMs + kMaxFutureHeaderMs < t then 0 else t

/-- The shell a stored record comes back as. -/
def shellOf (env : Env) (oid : Nat) (uuid : UUID) (content : Content) (location : Nat) : Message :=
  let t := storedDeliveryTime env content
  { oid := oid,
    content := {
      uuid := uuid, reliability := .PERSISTENT, body := content.body.shell,
      headers := { priority := clampPriority content.headers.priority, deliveryTime := t } },
    cachedStorageBytes := some (content.withDeliveryTime t),
    location := some location }

def Destination.replayFromStorage (env : Env) (d : Destination) (q : QueueId) (sid : StorageId) :
    Destination :=
  (d.stores sid).scan.foldl (fun d x =>
    ({ d with nextOid := d.nextOid + 1 } : Destination).enqueueOrSchedule env q
      (shellOf env d.nextOid x.1.key x.1.data x.2)) d

def Destination.createDefaultConsumer (d : Destination) (id : Nat) (mode : AcknowledgeMode) :
    Destination :=
  if d.isQueueFamily then
    { d with
      queueMade := true,
      defaultConsumer := some id,
      objects := put d.objects id ⟨mode,.shared,.shared,none,[],.empty,[]⟩,
      consumers := d.consumers ++ [id] }
  else d

/-- The default consumer leaves the map and is destroyed: nobody else holds it. -/
def Destination.dropDefault (d : Destination) : Destination :=
  match d.defaultConsumer with
  | none => d
  | some old =>
    { d with
      consumers := d.consumers.erase old,
      defaultConsumer := none,
      objects := erase d.objects old }

def Destination.createConsumer (env : Env) (d : Destination) (id : Nat) (mode : AcknowledgeMode)
    (selector : Option Selector) : Destination :=
  if d.isQueueFamily then
    let d := d.dropDefault
    let d := d.setObject id ⟨mode,.shared,.shared,selector,[],.empty,[]⟩
    let d := if d.queueMade then d.replayFromStorage env .shared .shared else d
    { d with consumers := d.consumers ++ [id] }
  else
    let d := d.setObject id ⟨mode,.own id,.shared,selector,[],.empty,[]⟩
    { d with consumers := d.consumers ++ [id] }

def durableKey (clientID subscriptionName : Text) : Text :=
  if clientID = [] then subscriptionName
  else clientID ++ Char.ofNat 31 :: subscriptionName

def durableDirectory (clientID subscriptionName : Text) : Text :=
  let durable := ['d','u','r','a','b','l','e','-']
  if clientID = [] then durable ++ subscriptionName
  else durable ++ clientID ++ '-' :: subscriptionName

inductive DurableError where
  | notATopic
  | alreadyActive
  deriving DecidableEq

/-- Attach a consumer to a subscription that is in the registry. -/
def Destination.attachDurable (env : Env) (d : Destination) (id : Nat) (mode : AcknowledgeMode)
    (key : Text) (sub : DurableSubState) (selector : Option Selector) : Destination :=
  let d := d.setObject id ⟨mode,.own id,sub.storage,selector,[],.empty,[]⟩
  let d := d.replayFromStorage env (.own id) sub.storage
  { d with
    consumers := d.consumers ++ [id],
    durableSubs := put d.durableSubs key { sub with selector := selector, active := some id },
    consumerToSubName := put d.consumerToSubName id key }

def Destination.createDurableConsumer (env : Env) (d : Destination) (id : Nat)
    (mode : AcknowledgeMode) (clientID subscriptionName : Text) (selector : Option Selector) :
    Destination × Except DurableError Unit :=
  if ¬ d.isTopicFamily then (d, .error .notATopic)
  else
    let key := durableKey clientID subscriptionName
    match get d.durableSubs key with
    | none =>
      let sub : DurableSubState :=
        ⟨subscriptionName,durableDirectory clientID subscriptionName,none,selector⟩
      (d.attachDurable env id mode key sub selector, .ok ())
    | some sub =>
      if sub.active.isSome then (d, .error .alreadyActive)
      else (d.attachDurable env id mode key sub selector, .ok ())

def Destination.deleteConsumer (d : Destination) (id : Nat) : Destination :=
  let d := { d with consumers := d.consumers.erase id }
  match get d.consumerToSubName id with
  | none => d
  | some key =>
    let subs := match get d.durableSubs key with
      | none => d.durableSubs
      | some sub => put d.durableSubs key { sub with active := none }
    { d with durableSubs := subs, consumerToSubName := erase d.consumerToSubName id }

/-- The subscription goes with its directory. -/
def Destination.deleteSubscription (d : Destination) (clientID subscriptionName : Text) :
    Destination :=
  let key := durableKey clientID subscriptionName
  match get d.durableSubs key with
  | none => d
  | some sub =>
    let d := match sub.active with
      | none => d
      | some id => d.deleteConsumer id
    { d with stores := Function.update d.stores sub.storage {},
             durableSubs := erase d.durableSubs key }

/-- `~Consumer()`, when the last pointer to the consumer goes. -/
def Destination.destroyConsumer (env : Env) (d : Destination) (cid : Nat) :
    Destination × List Message :=
  match get d.objects cid with
  | none => (d, [])
  | some c =>
    let (d, dead) := (d.flushPendingAcks cid c).rollbackConsumer env cid false
    ({ d with objects := erase d.objects cid }, dead)

def Destination.createProducer (d : Destination) (id : Nat) (mode : AcknowledgeMode) :
    Destination :=
  { d with producers := put d.producers id { mode := mode } }

/-- `createProducer` dereferences `_consumers.begin()` on a queue. -/
def Destination.producerSafe (d : Destination) : Prop := d.isQueueFamily → d.consumers ≠ []

def Destination.deleteProducer (env : Env) (d : Destination) (id : Nat) (transactionId : Text) :
    Destination :=
  let d := d.rollbackProducer env id transactionId
  { d with producers := erase d.producers id }

/-- The map may hold its consumers in any order. -/
def Destination.rehash (d : Destination) (consumers : List Nat) : Destination :=
  if consumers.Perm d.consumers then { d with consumers := consumers } else d

/-- The process ends cleanly and the destination is created again on its directory.
    Objects of the new process are told from those of the old one. -/
def Destination.restart (env : Env) (d : Destination) : Destination :=
  { type := d.type,
    nextOid := d.nextOid,
    stores := fun sid => (d.stores sid).reopen,
    buffer := (loadTransactionLog d.buffer.transactionLog).recover env.stamp }

def calm : Env := ⟨0,⟨[],by simp,by simp⟩,fun _ => 1,fun _ _ => false⟩

def letter (oid : Nat) (uuid : UUID) : Message :=
  { oid := oid, content := { uuid := uuid, reliability := .PERSISTENT, body := .text [104, 105] } }

end TinyMqDestination
