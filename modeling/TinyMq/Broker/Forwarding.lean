import TinyMq.Broker.DistinctRecords
import TinyMq.Broker.Fanout

/-!
Sending a message on while a consumer still holds it. `send` writes the options and the
provider headers into the object it is given, which is the one in the consumer's chain;
`acknowledgeOn`, `commit` and `recover` read it there. The copies that go out keep the uuid.
-/
namespace TinyMqForwarding
open DelimitedText AssocLists BandQueues TombstoneLog TinyMqTom TinyMqMessage TinyMqStore
open TinyMqDestination TinyMqTransactionBuffer TinyMqFrames TinyMqQueueRuns TinyMqPlaces
open TinyMqOrigins TinyMqInversion TinyMqDistinctRecords TinyMqFanout TinyMqRecords

section Object

/-- The options a send applies: those of the call, else the defaults of the producer. -/
def applied (p : Producer) (opts : Option SendOptions) : Option SendOptions := opts.or p.default

def sentAs (env : Env) (p : Producer) (transactionId : Text) (opts : Option SendOptions)
    (m : Message) : Message :=
  match opts with
  | none => prepared env p transactionId m
  | some opts => fillHeaders env p (applyOptions env m opts (transactionId ≠ []))

def StaysPersistent (p : Producer) (opts : Option SendOptions) : Prop :=
  ∀ o, applied p opts = some o → o.deliveryMode = .PERSISTENT

/-- The send leaves everything as it is that a redelivery does not reset. -/
structure Kept (env : Env) (p : Producer) (transactionId : Text) (opts : Option SendOptions)
    (m : Message) : Prop where
  mode : StaysPersistent p opts
  priority : ∀ o, applied p opts = some o → o.priority = m.content.headers.priority
  expiration : ∀ o, applied p opts = some o →
    (if 0 < o.timeToLive then env.nowMs + o.timeToLive else 0) = m.content.headers.expiration
  delay : ∀ o, applied p opts = some o →
    (if transactionId = [] then 0 else o.deliveryDelay) = m.pendingDeliveryDelay
  messageId : p.disableMessageID = true ↔ m.content.headers.messageId = []
  timestamp : if p.disableMessageTimestamp then m.content.headers.timestamp = 0
    else m.content.headers.timestamp = 0 → env.nowMs = 0

variable (env : Env) (p : Producer) (transactionId : Text) (opts : Option SendOptions) (m : Message)

theorem sentAs_applied : sentAs env p transactionId opts m =
    match applied p opts with
    | none => fillHeaders env p m
    | some o => fillHeaders env p (applyOptions env m o (transactionId ≠ [])) := by
  unfold sentAs applied prepared
  cases opts <;> rfl

theorem sentAs_oid : (sentAs env p transactionId opts m).oid = m.oid := by
  rw [sentAs_applied]
  split <;> rfl

theorem sentAs_uuid : (sentAs env p transactionId opts m).uuid = m.uuid := by
  rw [sentAs_applied]
  split <;> rfl

theorem sentAs_location : (sentAs env p transactionId opts m).location = m.location := by
  rw [sentAs_applied]
  split <;> rfl

variable {env p transactionId opts m}

theorem sentAs_persistent (persistent : m.content.reliability = .PERSISTENT) :
    (sentAs env p transactionId opts m).content.reliability = .PERSISTENT ↔
      StaysPersistent p opts := by
  rw [sentAs_applied]
  unfold StaysPersistent
  cases applied p opts with
  | none => exact iff_of_true persistent fun o none_ => by cases none_
  | some o =>
    constructor
    · rintro stays o' same
      cases same
      exact stays
    · exact fun stays => stays o rfl

theorem fillHeaders_messageId (env : Env) (p : Producer) (m : Message) :
    (fillHeaders env p m).content.headers.messageId = m.content.headers.messageId ↔
      (p.disableMessageID = true ↔ m.content.headers.messageId = []) := by
  unfold fillHeaders
  by_cases off : p.disableMessageID = true
  · simp [off, eq_comm]
  · by_cases empty : m.content.headers.messageId = [] <;> simp [off, empty, idPrefix]

theorem fillHeaders_timestamp (env : Env) (p : Producer) (m : Message) :
    (fillHeaders env p m).content.headers.timestamp = m.content.headers.timestamp ↔
      if p.disableMessageTimestamp then m.content.headers.timestamp = 0
      else m.content.headers.timestamp = 0 → env.nowMs = 0 := by
  unfold fillHeaders
  by_cases off : p.disableMessageTimestamp = true
  · simp [off, eq_comm]
  · by_cases zero : m.content.headers.timestamp = 0 <;> simp [off, zero]

theorem sentAs_kept (persistent : m.content.reliability = .PERSISTENT) :
    (sentAs env p transactionId opts m).setDeliveryTime 0 = m.setDeliveryTime 0 ↔
      Kept env p transactionId opts m := by
  rw [sentAs_applied]
  cases chosen : applied p opts with
  | none =>
    dsimp only
    constructor
    · intro same
      have messageId := congrArg (fun x => x.content.headers.messageId) same
      have timestamp := congrArg (fun x => x.content.headers.timestamp) same
      refine ⟨?_, ?_, ?_, ?_, (fillHeaders_messageId env p m).mp messageId,
        (fillHeaders_timestamp env p m).mp timestamp⟩ <;> simp [StaysPersistent, chosen]
    · intro kept
      have filled : (fillHeaders env p m).setDeliveryTime 0 =
          { m with content := { m.content with headers := { m.content.headers with
            messageId := (fillHeaders env p m).content.headers.messageId,
            timestamp := (fillHeaders env p m).content.headers.timestamp,
            deliveryTime := 0 } } } := rfl
      rw [filled, (fillHeaders_messageId env p m).mpr kept.messageId,
        (fillHeaders_timestamp env p m).mpr kept.timestamp]
      rfl
  | some o =>
    dsimp only
    have filled : (fillHeaders env p (applyOptions env m o (transactionId ≠ []))).setDeliveryTime 0 =
        { m with
          content := { m.content with
            reliability := o.deliveryMode,
            headers := { m.content.headers with
              messageId := (fillHeaders env p m).content.headers.messageId,
              timestamp := (fillHeaders env p m).content.headers.timestamp,
              priority := o.priority,
              expiration := if 0 < o.timeToLive then env.nowMs + o.timeToLive else 0,
              deliveryTime := 0 } },
          pendingDeliveryDelay :=
            (applyOptions env m o (transactionId ≠ [])).pendingDeliveryDelay } := rfl
    have later : (applyOptions env m o (transactionId ≠ [])).pendingDeliveryDelay =
        if transactionId = [] then 0 else o.deliveryDelay := by
      by_cases inside : transactionId = [] <;> simp [applyOptions, inside]
    rw [filled, later]
    constructor
    · intro same
      have messageId := congrArg (fun x => x.content.headers.messageId) same
      have timestamp := congrArg (fun x => x.content.headers.timestamp) same
      have mode := congrArg (fun x => x.content.reliability) same
      have priority := congrArg (fun x => x.content.headers.priority) same
      have expiration := congrArg (fun x => x.content.headers.expiration) same
      have delay := congrArg (fun x => x.pendingDeliveryDelay) same
      refine ⟨?_, ?_, ?_, ?_, (fillHeaders_messageId env p m).mp messageId,
        (fillHeaders_timestamp env p m).mp timestamp⟩ <;> intro o' same' <;> rw [chosen] at same' <;>
        cases same'
      · exact mode.trans persistent
      · exact priority
      · exact expiration
      · exact delay
    · intro kept
      rw [(fillHeaders_messageId env p m).mpr kept.messageId, (fillHeaders_timestamp env p m).mpr kept.timestamp,
        kept.mode o chosen, kept.priority o chosen, kept.expiration o chosen, kept.delay o chosen,
        ← persistent]
      rfl

end Object

section Chain

def chain (c : Consumer) : List Message :=
  if c.mode = .SESSION_TRANSACTED then c.transactQueue.toList else c.inFlight

/-- A consumer holds an object; what has its address is that object. -/
structure Holds (d : Destination) (cid : Nat) (c : Consumer) (x : Message) : Prop where
  object : get d.objects cid = some c
  held : x ∈ chain c
  one : ∀ y ∈ chain c, y.oid = x.oid → y = x

def written (x y : Message) : Message := if y.oid = x.oid then x else y

/-- The consumer after something wrote into an object it holds; it stays in its place. -/
def rewriteHeld (x : Message) (c : Consumer) : Consumer :=
  if c.mode = .SESSION_TRANSACTED then { c with transactQueue := c.transactQueue.map (written x) }
  else { c with inFlight := c.inFlight.map (written x) }

def rewrite (d : Destination) (cid : Nat) (x : Message) : Destination :=
  match get d.objects cid with
  | none => d
  | some c => d.setObject cid (rewriteHeld x c)

/-- The same storages, queues and chain; the chain is one of addresses. -/
structure SameEffect (cid : Nat) (d e : Destination) : Prop where
  stores : d.stores = e.stores
  queues : d.queues = e.queues
  pending : d.pending = e.pending
  chain : (get d.objects cid).map (fun c => (chain c).map Message.oid) =
    (get e.objects cid).map fun c => (TinyMqForwarding.chain c).map Message.oid
  acks : (get d.objects cid).map Consumer.pendingAcks = (get e.objects cid).map Consumer.pendingAcks

theorem SameEffect.of_eq {cid : Nat} {d e : Destination} (same : d = e) : SameEffect cid d e := by
  subst same
  exact ⟨rfl, rfl, rfl, rfl, rfl⟩

variable {d : Destination} {cid : Nat} {c : Consumer} {m x : Message}

theorem rewrite_object (object : get d.objects cid = some c) :
    get (rewrite d cid x).objects cid = some (rewriteHeld x c) := by
  simp [rewrite, object, Destination.setObject]

theorem rewrite_setObject (object : get d.objects cid = some c) (c' : Consumer) :
    (rewrite d cid x).setObject cid c' = d.setObject cid c' := by
  simp [rewrite, object, Destination.setObject]

theorem rewrite_tracked (object : get d.objects cid = some c)
    (untransacted : c.mode ≠ .SESSION_TRANSACTED) :
    get (rewrite d cid x).objects cid =
      some { c with inFlight := c.inFlight.map (written x) } := by
  rw [rewrite_object object, rewriteHeld, if_neg untransacted]

theorem rewrite_received (object : get d.objects cid = some c)
    (transacted : c.mode = .SESSION_TRANSACTED) :
    get (rewrite d cid x).objects cid =
      some { c with transactQueue := c.transactQueue.map (written x) } := by
  rw [rewrite_object object, rewriteHeld, if_pos transacted]

theorem rewriteHeld_mode (x : Message) (c : Consumer) : (rewriteHeld x c).mode = c.mode := by
  unfold rewriteHeld
  split <;> rfl

theorem rewriteHeld_queue (x : Message) (c : Consumer) : (rewriteHeld x c).queue = c.queue := by
  unfold rewriteHeld
  split <;> rfl

theorem rewriteHeld_chain (x : Message) (c : Consumer) :
    chain (rewriteHeld x c) = (chain c).map (written x) := by
  unfold chain
  rw [rewriteHeld_mode]
  by_cases transacted : c.mode = .SESSION_TRANSACTED
  · simp only [rewriteHeld, transacted, if_true, toList_map]
  · simp only [rewriteHeld, transacted, if_false]

theorem written_alike {β : Type} {f g : Message → β} {x y m : Message}
    (one : y.oid = x.oid → y = m) (object : f x = g m) (others : f y = g y) :
    f (written x y) = g y := by
  unfold written
  split
  · rename_i here
    rw [one here]
    exact object
  · exact others

theorem written_oid (x y : Message) : (written x y).oid = y.oid := by
  unfold written
  split
  · rename_i here
    exact here.symm
  · rfl

theorem rewrite_same (object : get d.objects cid = some c) :
    SameEffect cid (rewrite d cid x) d := by
  have oids : ((chain c).map (written x)).map Message.oid = (chain c).map Message.oid := by
    rw [List.map_map]
    exact List.map_congr_left fun y _ => written_oid x y
  refine
    { stores := ?stores
      queues := ?queues
      pending := ?pending
      chain := ?chain
      acks := ?acks }
  case stores =>
    simp [rewrite, object, Destination.setObject]
  case queues =>
    simp [rewrite, object, Destination.setObject]
  case pending =>
    simp [rewrite, object, Destination.setObject]
  case chain =>
    rw [rewrite_object object, object, Option.map_some, Option.map_some, rewriteHeld_chain, oids]
  case acks =>
    rw [rewrite_object object, object, Option.map_some, Option.map_some]
    unfold rewriteHeld
    split <;> rfl

theorem filter_written (x : Message) (l : List Message) :
    (l.map (written x)).filter (fun y => y.oid ≠ x.oid) = l.filter fun y => y.oid ≠ x.oid := by
  induction l with
  | nil => rfl
  | cons y l ih =>
    by_cases here : y.oid = x.oid
    · simp only [List.map_cons, written, here, if_true]
      simpa [here] using ih
    · simp only [List.map_cons, written, here, if_false]
      simpa [here] using ih

theorem locate_same {c' : Consumer} (storage : c'.storage = c.storage) (uuid : x.uuid = m.uuid)
    (location : x.location = m.location) (d : Destination) : d.locate c' x = d.locate c m := by
  unfold Destination.locate
  rw [location, uuid, storage]

theorem acknowledgeOn_written (object : get d.objects cid = some c)
    (untransacted : c.mode ≠ .SESSION_TRANSACTED) (oid : x.oid = m.oid) (uuid : x.uuid = m.uuid)
    (location : x.location = m.location) (persistent : x.isPersistent = m.isPersistent) :
    (rewrite d cid x).acknowledgeOn cid x = d.acknowledgeOn cid m := by
  have filtered := filter_written x c.inFlight
  rw [oid] at filtered
  unfold Destination.acknowledgeOn
  rw [rewrite_tracked object untransacted, object]
  dsimp only
  rw [if_neg untransacted, if_neg untransacted, oid, filtered, rewrite_setObject object, persistent]
  split
  · rw [locate_same rfl uuid location]
  · rfl

theorem dropRecord_written {c' : Consumer} (storage : c'.storage = c.storage)
    (uuid : x.uuid = m.uuid) (location : x.location = m.location)
    (persistent : x.isPersistent = m.isPersistent) (d : Destination) :
    d.dropRecord c' x = d.dropRecord c m := by
  unfold Destination.dropRecord Destination.removeLocated
  rw [persistent, locate_same storage uuid location, storage]

theorem redeliver_written {c' : Consumer} (storage : c'.storage = c.storage)
    (queue : c'.queue = c.queue) (same : x.setDeliveryTime 0 = m.setDeliveryTime 0) (env : Env)
    (closing : Bool) (d : Destination) :
    (d.redeliver env c' closing x).1 = (d.redeliver env c closing m).1 := by
  have read : ∀ {β : Type} (f : Message → β),
      f ((countRedelivery x).setDeliveryTime 0) = f ((countRedelivery m).setDeliveryTime 0) :=
    fun f => congrArg (fun y => f (countRedelivery y)) same
  have counted : ∀ t, (countRedelivery x).setDeliveryTime t =
      (countRedelivery m).setDeliveryTime t := fun t => read fun y => y.setDeliveryTime t
  have count : (countRedelivery x).content.headers.deliveryCount =
      (countRedelivery m).content.headers.deliveryCount :=
    read fun y => y.content.headers.deliveryCount
  have uuid : (countRedelivery x).uuid = (countRedelivery m).uuid := read fun y => y.uuid
  have location : (countRedelivery x).location = (countRedelivery m).location :=
    read fun y => y.location
  have persistent : (countRedelivery x).isPersistent = (countRedelivery m).isPersistent :=
    read fun y => y.isPersistent
  unfold Destination.redeliver
  dsimp only
  rw [count, counted, queue, dropRecord_written storage uuid location persistent]
  split <;> rfl

theorem redeliverAll_written {c' : Consumer} (storage : c'.storage = c.storage)
    (queue : c'.queue = c.queue) (same : x.setDeliveryTime 0 = m.setDeliveryTime 0) (env : Env)
    (closing : Bool) {l : List Message} (one : ∀ y ∈ l, y.oid = x.oid → y = m) (d : Destination) :
    (d.redeliverAll env c' closing (l.map (written x))).1 = (d.redeliverAll env c closing l).1 := by
  induction l generalizing d with
  | nil => rfl
  | cons y l ih =>
    have first : (d.redeliver env c' closing (written x y)).1 =
        (d.redeliver env c closing y).1 :=
      @written_alike _ (fun y => (d.redeliver env c' closing y).1)
        (fun y => (d.redeliver env c closing y).1) x y m (one y (by simp))
        (redeliver_written storage queue same env closing d)
        (redeliver_written storage queue rfl env closing d)
    rw [List.map_cons, Destination.redeliverAll, Destination.redeliverAll]
    dsimp only
    rw [first]
    exact ih (fun z inside => one z (List.mem_cons_of_mem y inside)) _

theorem recover_written (object : get d.objects cid = some c)
    (untransacted : c.mode ≠ .SESSION_TRANSACTED) (one : ∀ y ∈ chain c, y.oid = x.oid → y = m)
    (same : x.setDeliveryTime 0 = m.setDeliveryTime 0) (env : Env) :
    ((rewrite d cid x).recover env cid).1 = (d.recover env cid).1 := by
  have all : ∀ y ∈ c.inFlight, y.oid = x.oid → y = m := by
    intro y inside
    exact one y (by rwa [chain, if_neg untransacted])
  unfold Destination.recover
  rw [rewrite_tracked object untransacted, object]
  dsimp only
  rw [rewrite_setObject object]
  exact @redeliverAll_written c m x { c with inFlight := c.inFlight.map (written x) } rfl rfl same env
    false _ all _

theorem dropRecords_written {c' : Consumer} (storage : c'.storage = c.storage)
    (uuid : x.uuid = m.uuid) (location : x.location = m.location)
    (persistent : x.isPersistent = m.isPersistent) {l : List Message}
    (one : ∀ y ∈ l, y.oid = x.oid → y = m) (d : Destination) :
    (l.map (written x)).foldl (Destination.dropRecord c') d =
      l.foldl (Destination.dropRecord c) d := by
  induction l generalizing d with
  | nil => rfl
  | cons y l ih =>
    have first : d.dropRecord c' (written x y) = d.dropRecord c y :=
      @written_alike _ (d.dropRecord c') _ x y m (one y (by simp))
        (dropRecord_written storage uuid location persistent d)
        (dropRecord_written storage rfl rfl rfl d)
    rw [List.map_cons, List.foldl_cons, List.foldl_cons, first]
    exact ih (fun z inside => one z (List.mem_cons_of_mem y inside)) _

theorem commitConsumer_written (object : get d.objects cid = some c)
    (transacted : c.mode = .SESSION_TRANSACTED) (one : ∀ y ∈ chain c, y.oid = x.oid → y = m)
    (uuid : x.uuid = m.uuid) (location : x.location = m.location)
    (persistent : x.isPersistent = m.isPersistent) :
    (rewrite d cid x).commitConsumer cid = d.commitConsumer cid := by
  have all : ∀ y ∈ c.transactQueue.toList, y.oid = x.oid → y = m := by
    intro y inside
    exact one y (by rwa [chain, if_pos transacted])
  unfold Destination.commitConsumer
  rw [rewrite_received object transacted, object]
  dsimp only
  rw [if_pos transacted, if_pos transacted, rewrite_setObject object, toList_map]
  exact @dropRecords_written c m x { c with transactQueue := c.transactQueue.map (written x) } rfl
    uuid location persistent _ all _

end Chain

section Undisturbed

/-- Whatever has happened meanwhile, an acknowledgement does with the object `x` what it does
    with the object `m`. -/
def AckUndisturbed (m x : Message) : Prop :=
  ∀ d cid c, Holds d cid c m →
    SameEffect cid ((rewrite d cid x).acknowledgeOn cid x) (d.acknowledgeOn cid m)

def CommitUndisturbed (m x : Message) : Prop :=
  ∀ d cid c, Holds d cid c m →
    SameEffect cid ((rewrite d cid x).commitConsumer cid) (d.commitConsumer cid)

/-- A transacted session refuses to recover. -/
def RecoverUndisturbed (m x : Message) : Prop :=
  ∀ env d cid c, Holds d cid c m → c.mode ≠ .SESSION_TRANSACTED →
    SameEffect cid ((rewrite d cid x).recover env cid).1 (d.recover env cid).1

/-- A consumer that holds one message, and a queue with that consumer. -/
def holder (mode : AcknowledgeMode) (m : Message) : Consumer :=
  ⟨mode,.shared,.shared,none,[m],BandQueue.empty.enqueue m.band m,[]⟩

def oneHeld (mode : AcknowledgeMode) (m : Message) : Destination where
  type := .Queue
  objects := [(0, holder mode m)]
  stores := fun _ => { index := fun _ => some 0 }
  redeliveryPolicy := { maxRedeliveries := -1 }

variable {env : Env} {p : Producer} {transactionId : Text} {opts : Option SendOptions}
variable {m x : Message}

theorem single_toList (b : Fin 10) (m : Message) :
    ((BandQueue.empty : QueueT).enqueue b m).toList = [m] := by
  have perm := enqueue_perm (BandQueue.empty : QueueT) b m
  rw [toList_empty] at perm
  exact List.perm_singleton.mp perm

theorem holder_chain (mode : AcknowledgeMode) (m : Message) : chain (holder mode m) = [m] := by
  unfold chain
  split
  · exact single_toList _ m
  · rfl

theorem oneHeld_holds (mode : AcknowledgeMode) (m : Message) :
    Holds (oneHeld mode m) 0 (holder mode m) m := by
  refine ⟨rfl, ?_, ?_⟩
  · rw [holder_chain]
    exact List.mem_singleton.mpr rfl
  · intro y inside _
    rw [holder_chain] at inside
    exact List.mem_singleton.mp inside

theorem oneHeld_dropped (mode : AcknowledgeMode) (persistent : m.isPersistent = true)
    (c : Consumer) :
    ((((oneHeld mode m).setObject 0 c).dropRecord (holder mode m) m).stores .shared).index
      m.uuid = none := by
  unfold Destination.dropRecord Destination.removeLocated Destination.locate
  rw [if_pos persistent]
  cases m.location <;>
    simp [oneHeld, holder, Destination.setObject, Store.record, Destination.removeRecord,
      Store.remove]

theorem dropRecord_volatile (volatile : ¬ x.isPersistent = true) (d : Destination) (c : Consumer) :
    d.dropRecord c x = d := if_neg volatile

theorem isPersistent_iff (m : Message) :
    m.isPersistent = true ↔ m.content.reliability = .PERSISTENT := by
  simp [Message.isPersistent]

theorem sentAs_isPersistent (persistent : m.content.reliability = .PERSISTENT) :
    (sentAs env p transactionId opts m).isPersistent = m.isPersistent ↔ StaysPersistent p opts := by
  rw [(isPersistent_iff m).mpr persistent, isPersistent_iff]
  exact sentAs_persistent persistent

theorem acknowledgeOn_transacted {d : Destination} {cid : Nat} {c : Consumer}
    (object : get d.objects cid = some c) (transacted : c.mode = .SESSION_TRANSACTED)
    (m : Message) : d.acknowledgeOn cid m = d := by
  unfold Destination.acknowledgeOn
  rw [object]
  exact if_pos transacted

theorem acknowledgeOn_individual {d : Destination} {cid : Nat} {c : Consumer}
    (object : get d.objects cid = some c) (mode : c.mode = .INDIVIDUAL_ACKNOWLEDGE) (m : Message) :
    d.acknowledgeOn cid m =
      (d.setObject cid { c with inFlight := c.inFlight.filter (·.oid ≠ m.oid) }).dropRecord c m := by
  have individual : ¬ c.mode = .SESSION_TRANSACTED ∧ ¬ c.mode = .DUPS_OK_ACKNOWLEDGE := by
    rw [mode]
    decide
  unfold Destination.acknowledgeOn
  rw [object]
  simp only [if_neg individual.1, if_neg individual.2]
  rfl

theorem oneHeld_kept (mode : AcknowledgeMode) (volatile : ¬ x.isPersistent = true)
    (c c' : Consumer) :
    ((((oneHeld mode m).setObject 0 c).dropRecord c' x).stores .shared).index m.uuid = some 0 := by
  rw [dropRecord_volatile volatile]
  rfl

theorem ack_undisturbed (persistent : m.content.reliability = .PERSISTENT) :
    AckUndisturbed m (sentAs env p transactionId opts m) ↔ StaysPersistent p opts := by
  rw [← @sentAs_isPersistent env p transactionId opts m persistent]
  constructor
  · intro undisturbed
    by_contra differ
    rw [(isPersistent_iff m).mpr persistent] at differ
    have holds := oneHeld_holds .INDIVIDUAL_ACKNOWLEDGE m
    have stores := (undisturbed _ 0 _ holds).stores
    rw [acknowledgeOn_individual holds.object rfl, acknowledgeOn_individual
      (rewrite_object holds.object) (rewriteHeld_mode _ _), rewrite_setObject holds.object]
      at stores
    have index := congrFun (congrArg Store.index (congrFun stores .shared)) m.uuid
    rw [oneHeld_kept _ differ, oneHeld_dropped _ ((isPersistent_iff m).mpr persistent)] at index
    cases index
  · intro stays d cid c holds
    by_cases transacted : c.mode = .SESSION_TRANSACTED
    · rw [acknowledgeOn_transacted holds.object transacted,
        acknowledgeOn_transacted (rewrite_object holds.object)
          ((rewriteHeld_mode _ c).trans transacted)]
      exact rewrite_same holds.object
    · exact SameEffect.of_eq (acknowledgeOn_written holds.object transacted (sentAs_oid ..)
        (sentAs_uuid ..) (sentAs_location ..) stays)

theorem commitConsumer_untransacted {d : Destination} {cid : Nat} {c : Consumer}
    (object : get d.objects cid = some c) (untransacted : c.mode ≠ .SESSION_TRANSACTED) :
    d.commitConsumer cid = d := by
  unfold Destination.commitConsumer
  rw [object]
  exact if_neg untransacted

theorem commitConsumer_one {d : Destination} {cid : Nat} {c : Consumer}
    (object : get d.objects cid = some c) (transacted : c.mode = .SESSION_TRANSACTED)
    (one : chain c = [m]) : d.commitConsumer cid =
      (d.setObject cid { c with transactQueue := .empty }).dropRecord c m := by
  rw [chain, if_pos transacted] at one
  unfold Destination.commitConsumer
  rw [object]
  dsimp only
  rw [if_pos transacted, one]
  rfl

theorem commit_undisturbed (persistent : m.content.reliability = .PERSISTENT) :
    CommitUndisturbed m (sentAs env p transactionId opts m) ↔ StaysPersistent p opts := by
  rw [← @sentAs_isPersistent env p transactionId opts m persistent]
  constructor
  · intro undisturbed
    by_contra differ
    rw [(isPersistent_iff m).mpr persistent] at differ
    have holds := oneHeld_holds .SESSION_TRANSACTED m
    have here : chain (rewriteHeld (sentAs env p transactionId opts m)
        (holder .SESSION_TRANSACTED m)) = [sentAs env p transactionId opts m] := by
      rw [rewriteHeld_chain, holder_chain, List.map_singleton, written,
        if_pos (sentAs_oid ..).symm]
    have stores := (undisturbed _ 0 _ holds).stores
    rw [commitConsumer_one holds.object rfl (holder_chain _ m), commitConsumer_one
      (rewrite_object holds.object) (rewriteHeld_mode _ _) here, rewrite_setObject holds.object]
      at stores
    have index := congrFun (congrArg Store.index (congrFun stores .shared)) m.uuid
    rw [oneHeld_kept _ differ, oneHeld_dropped _ ((isPersistent_iff m).mpr persistent)] at index
    cases index
  · intro stays d cid c holds
    by_cases transacted : c.mode = .SESSION_TRANSACTED
    · have one : ∀ y ∈ chain c, y.oid = (sentAs env p transactionId opts m).oid → y = m := by
        rw [sentAs_oid]
        exact holds.one
      exact SameEffect.of_eq (commitConsumer_written holds.object transacted one
        (sentAs_uuid ..) (sentAs_location ..) stays)
    · rw [commitConsumer_untransacted holds.object transacted,
        commitConsumer_untransacted (rewrite_object holds.object)
          (by rwa [rewriteHeld_mode])]
      exact rewrite_same holds.object

theorem putBack_content (m : Message) :
    (putBack m).content = ((countRedelivery m).setDeliveryTime 0).content := by
  unfold putBack Message.refreshCachedStorageBytes
  split <;> rfl

theorem putBack_delay (m : Message) : (putBack m).pendingDeliveryDelay = m.pendingDeliveryDelay := by
  unfold putBack Message.refreshCachedStorageBytes
  split <;> rfl

theorem recover_one {d : Destination} {cid : Nat} {c : Consumer}
    (object : get d.objects cid = some c) (chain_ : c.inFlight = [m])
    (unlimited : d.redeliveryPolicy.maxRedeliveries = -1)
    (immediate : d.redeliveryPolicy.backoffMs = 0) (env : Env) :
    (d.recover env cid).1 = (d.setObject cid { c with inFlight := [] }).enqueue c.queue (putBack m) := by
  have still : (d.setObject cid { c with inFlight := [] }).redeliveryPolicy.backoffMs = 0 := immediate
  have within : ∀ x ∈ [m], ¬ Limited (d.setObject cid { c with inFlight := [] }) x := by
    intro x _ limited
    have bound : 0 ≤ d.redeliveryPolicy.maxRedeliveries := limited.1
    omega
  unfold Destination.recover
  rw [object]
  dsimp only
  rw [chain_, redeliverAll_within still within]
  rfl

theorem oneHeld_enqueued (mode : AcknowledgeMode) (c : Consumer) (x : Message) :
    ((((oneHeld mode m).setObject 0 c).enqueue .shared x).queues .shared).toList = [x] := by
  have added : ((((oneHeld mode m).setObject 0 c).enqueue .shared x).queues .shared) =
      (BandQueue.empty : QueueT).enqueue x.band x := by
    simp [Destination.enqueue, Destination.setQueue, Destination.setObject, oneHeld]
  rw [added]
  exact single_toList _ x

theorem sentAs_frame (env : Env) (p : Producer) (transactionId : Text) (opts : Option SendOptions)
    (m : Message) :
    (sentAs env p transactionId opts m).setDeliveryTime 0 =
      { m with
        content := { m.content with
          reliability := (sentAs env p transactionId opts m).content.reliability,
          headers := { m.content.headers with
            messageId := (sentAs env p transactionId opts m).content.headers.messageId,
            timestamp := (sentAs env p transactionId opts m).content.headers.timestamp,
            priority := (sentAs env p transactionId opts m).content.headers.priority,
            expiration := (sentAs env p transactionId opts m).content.headers.expiration,
            deliveryTime := 0 } },
        pendingDeliveryDelay := (sentAs env p transactionId opts m).pendingDeliveryDelay } := by
  rw [sentAs_applied]
  split <;> rfl

theorem recover_undisturbed (persistent : m.content.reliability = .PERSISTENT) :
    RecoverUndisturbed m (sentAs env p transactionId opts m) ↔
      Kept env p transactionId opts m := by
  constructor
  · intro undisturbed
    have holds := oneHeld_holds .INDIVIDUAL_ACKNOWLEDGE m
    have individual : (holder .INDIVIDUAL_ACKNOWLEDGE m).mode ≠ .SESSION_TRANSACTED := by
      intro same
      cases same
    have here : (rewriteHeld (sentAs env p transactionId opts m)
        (holder .INDIVIDUAL_ACKNOWLEDGE m)).inFlight = [sentAs env p transactionId opts m] := by
      have all := rewriteHeld_chain (sentAs env p transactionId opts m)
        (holder .INDIVIDUAL_ACKNOWLEDGE m)
      rw [holder_chain, List.map_singleton, written, if_pos (sentAs_oid ..).symm] at all
      exact all
    have queues := (undisturbed env _ 0 _ holds individual).queues
    rw [recover_one holds.object rfl rfl rfl,
      recover_one (rewrite_object holds.object) here rfl rfl, rewrite_setObject holds.object] at queues
    have lists := congrArg BandQueue.toList (congrFun queues .shared)
    have queue : (rewriteHeld (sentAs env p transactionId opts m)
        (holder .INDIVIDUAL_ACKNOWLEDGE m)).queue = .shared := rewriteHeld_queue _ _
    rw [queue, oneHeld_enqueued] at lists
    have back := lists.trans (oneHeld_enqueued _ _ _)
    have same := List.singleton_injective back
    have content := congrArg Message.content same
    have delay := congrArg Message.pendingDeliveryDelay same
    rw [putBack_content, putBack_content] at content
    rw [putBack_delay, putBack_delay] at delay
    let sent := sentAs env p transactionId opts m
    have read : ∀ {β : Type} (f : Content → β),
        f ((countRedelivery sent).setDeliveryTime 0).content =
          f ((countRedelivery m).setDeliveryTime 0).content := fun f => congrArg f content
    have reliability : sent.content.reliability = m.content.reliability :=
      read fun c => c.reliability
    have messageId : sent.content.headers.messageId = m.content.headers.messageId :=
      read fun c => c.headers.messageId
    have timestamp : sent.content.headers.timestamp = m.content.headers.timestamp :=
      read fun c => c.headers.timestamp
    have priority : sent.content.headers.priority = m.content.headers.priority :=
      read fun c => c.headers.priority
    have expiration : sent.content.headers.expiration = m.content.headers.expiration :=
      read fun c => c.headers.expiration
    refine (sentAs_kept persistent).mp ?_
    rw [sentAs_frame, delay, reliability, messageId, timestamp, priority, expiration]
    rfl
  · intro kept env' d cid c holds untransacted
    have one : ∀ y ∈ chain c, y.oid = (sentAs env p transactionId opts m).oid → y = m := by
      rw [sentAs_oid]
      exact holds.one
    exact SameEffect.of_eq (recover_written holds.object untransacted one
      ((sentAs_kept persistent).mpr kept) env')

end Undisturbed

section Copies

/-- The storages have got more records at most, and none that failed works again. -/
structure Appended (d d' : Destination) : Prop where
  log : ∀ sid, (d.stores sid).log <+: (d'.stores sid).log
  failed : ∀ sid, (d.stores sid).good = false → (d'.stores sid).good = false

theorem Appended.same {d d' : Destination} (stores : d'.stores = d.stores) : Appended d d' := by
  constructor
  · intro sid
    rw [stores]
  · intro sid failed
    rwa [stores]

theorem Appended.trans {a b c : Destination} (one : Appended a b) (two : Appended b c) :
    Appended a c :=
  ⟨fun sid => (one.log sid).trans (two.log sid), fun sid gone => two.failed sid (one.failed sid gone)⟩

theorem appendRecord_appended (env : Env) (d : Destination) (sid : StorageId) (uuid : UUID)
    (content : Content) : Appended d (d.appendRecord env sid uuid content).1 := by
  have one : (d.stores sid).log <+: ((d.appendRecord env sid uuid content).1.stores sid).log ∧
      ((d.stores sid).good = false →
        ((d.appendRecord env sid uuid content).1.stores sid).good = false) := by
    by_cases ok : (d.stores sid).good = true ∧ env.appendFails sid (d.stores sid).log.length = false
    · simp [Destination.appendRecord, Store.append, TombstoneLog.append, ok]
    · simp [Destination.appendRecord, Store.append, ok]
  constructor
  · intro other
    by_cases here : other = sid
    · rw [here]
      exact one.1
    · simp [Destination.appendRecord, Function.update_of_ne here]
  · intro other
    by_cases here : other = sid
    · rw [here]
      exact one.2
    · simp [Destination.appendRecord, Function.update_of_ne here]

theorem appendRecord_location (env : Env) (d : Destination) (sid : StorageId) (uuid : UUID)
    (content : Content) :
    (d.appendRecord env sid uuid content).2 = some (d.stores sid).log.length ∨
      (d.appendRecord env sid uuid content).2 = none ∧
        ((d.appendRecord env sid uuid content).1.stores sid).good = false := by
  by_cases ok : (d.stores sid).good = true ∧ env.appendFails sid (d.stores sid).log.length = false
  · left
    simp [Destination.appendRecord, Store.append, ok]
  · right
    simp [Destination.appendRecord, Store.append, ok]

/-- The location of a persistent message is none of an old record of the storage, or it has
    none and the storage has failed. -/
def Behind (d d' : Destination) (sid : StorageId) (x : Message) : Prop :=
  x.isPersistent = true → (∃ n, x.location = some n ∧ (d.stores sid).log.length ≤ n) ∨
    x.location = none ∧ (d'.stores sid).good = false

theorem Behind.mono {d₀ d e e' : Destination} {sid : StorageId} {x : Message}
    (behind : Behind d e sid x) (before : Appended d₀ d) (after : Appended e e') :
    Behind d₀ e' sid x := by
  intro persistent
  rcases behind persistent with ⟨n, location, far⟩ | ⟨location, gone⟩
  · exact Or.inl ⟨n, location, (before.log sid).length_le.trans far⟩
  · exact Or.inr ⟨location, after.failed sid gone⟩

/-- Everything somewhere was there before, or waits for a consumer with a location of its own. -/
def Fresh (d d' : Destination) : Prop :=
  ∀ place x, x ∈ messagesAt d' place → x ∈ messagesAt d place ∨
    ∃ cid c, get d.objects cid = some c ∧ Waits c.queue place ∧ Behind d d' c.storage x

theorem enqueueOrSchedule_fresh {env : Env} {d : Destination} {q : QueueId} {m x : Message}
    {place : Place} (there : x ∈ messagesAt (d.enqueueOrSchedule env q m) place) :
    x ∈ messagesAt d place ∨ Waits q place ∧ Retimed m x := by
  have clamped := clampFuture_retimed env m
  have puts : ∀ {y : Message} {at_ : Place} {e : Destination}, Puts at_ y d e → Waits q at_ →
      Retimed m y → x ∈ messagesAt e place → x ∈ messagesAt d place ∨ Waits q place ∧ Retimed m x := by
    intro y at_ e one waits retimed inside
    by_cases here : place = at_
    · subst here
      rcases List.mem_cons.mp (one.1.mem_iff.mp inside) with rfl | old
      · exact Or.inr ⟨waits, retimed⟩
      · exact Or.inl old
    · rw [one.2 place here] at inside
      exact Or.inl inside
  rcases enqueueOrSchedule_cases env d q m with now | dropped | later
  · rw [now] at there
    exact puts (enqueue_puts d q _) (Or.inl rfl) clamped there
  · rw [dropped] at there
    exact Or.inl there
  · rw [later] at there
    exact puts (schedule_puts d _ q _) (Or.inr rfl) clamped there

theorem Behind.retimed {d d' : Destination} {sid : StorageId} {x y : Message}
    (behind : Behind d d' sid x) (retimed : Retimed x y) : Behind d d' sid y := by
  intro persistent
  rw [retimed.persistent] at persistent
  rw [retimed.location]
  exact behind persistent

theorem preparePush_fresh (env : Env) (d : Destination) (cid : Nat) (c : Consumer) (number : Int)
    (m : Message) :
    Still d (d.preparePush env cid c number [] m).1 ∧
      Appended d (d.preparePush env cid c number [] m).1 ∧
      Behind d (d.preparePush env cid c number [] m).1 c.storage
        (d.preparePush env cid c number [] m).2 := by
  let counted : Destination := { d with nextOid := d.nextOid + 1 }
  let copy := pushCopy env d.nextOid number cid m
  have still : Still d counted := by
    intro place
    cases place <;> rfl
  by_cases persistent : copy.isPersistent = true
  · have prepared : d.preparePush env cid c number [] m =
        ((counted.appendRecord env c.storage copy.uuid copy.content).1,
          { copy with
            cachedStorageBytes := some copy.content,
            location := (counted.appendRecord env c.storage copy.uuid copy.content).2 }) := by
      unfold Destination.preparePush
      dsimp only
      rw [if_pos persistent, if_neg (by simp)]
      rfl
    rw [prepared]
    have numbered : Appended d counted := Appended.same rfl
    refine ⟨still.trans (stores_still counted _),
      numbered.trans (appendRecord_appended env counted _ _ _), ?_⟩
    intro _
    rcases appendRecord_location env counted c.storage copy.uuid copy.content with own | gone
    · exact Or.inl ⟨_, own, le_refl _⟩
    · exact Or.inr gone
  · have prepared : d.preparePush env cid c number [] m = (counted, copy) := by
      unfold Destination.preparePush
      dsimp only
      rw [if_neg persistent]
    rw [prepared]
    exact ⟨still, Appended.same rfl, fun contrary => absurd contrary persistent⟩

theorem push_fresh (env : Env) (number : Int) (pid : Nat) (m : Message) (d : Destination)
    (cid : Nat) : Fresh d (Destination.push env number pid [] m d cid) ∧
      Appended d (Destination.push env number pid [] m d cid) := by
  have nothing : Fresh d d ∧ Appended d d := ⟨fun _ _ inside => Or.inl inside, Appended.same rfl⟩
  unfold Destination.push
  split
  · exact nothing
  · rename_i c object
    split
    · obtain ⟨still, appended, behind⟩ := preparePush_fresh env d cid c number m
      have given : ∀ e : Destination, e.stores = (d.preparePush env cid c number [] m).1.stores →
          (∀ place x, x ∈ messagesAt e place →
            x ∈ messagesAt (d.preparePush env cid c number [] m).1 place ∨
              Waits c.queue place ∧ Retimed (d.preparePush env cid c number [] m).2 x) →
          Fresh d e ∧ Appended d e := by
        intro e stores places
        have after := Appended.same stores
        refine ⟨?_, appended.trans after⟩
        intro place x inside
        rcases places place x inside with old | ⟨waits, retimed⟩
        · rw [still place] at old
          exact Or.inl old
        · exact Or.inr ⟨cid, c, object, waits,
            (behind.retimed retimed).mono (Appended.same rfl) after⟩
      dsimp only
      rw [if_pos rfl]
      split
      · exact given _ (enqueueOrSchedule_stores ..) fun place x inside =>
          enqueueOrSchedule_fresh inside
      · refine given _ rfl fun place x inside => ?_
        have puts := enqueue_puts (d.preparePush env cid c number [] m).1 c.queue
          (d.preparePush env cid c number [] m).2
        by_cases here : place = .queued c.queue
        · subst here
          rcases List.mem_cons.mp (puts.1.mem_iff.mp inside) with rfl | old
          · exact Or.inr ⟨Or.inl rfl, Retimed.refl _⟩
          · exact Or.inl old
        · rw [puts.2 place here] at inside
          exact Or.inl inside
    · exact nothing

theorem Fresh.trans {a b c : Destination} (one : Fresh a b) (two : Fresh b c)
    (objects : b.objects = a.objects) (before : Appended a b) (after : Appended b c) :
    Fresh a c := by
  intro place x inside
  rcases two place x inside with old | ⟨cid, k, object, waits, behind⟩
  · rcases one place x old with older | ⟨cid, k, object, waits, behind⟩
    · exact Or.inl older
    · exact Or.inr ⟨cid, k, object, waits, behind.mono (Appended.same rfl) after⟩
  · rw [objects] at object
    exact Or.inr ⟨cid, k, object, waits, behind.mono before (Appended.same rfl)⟩

theorem pushes_fresh (env : Env) (number : Int) (pid : Nat) (m : Message) (l : List Nat)
    (d : Destination) :
    Fresh d (l.foldl (Destination.push env number pid [] m) d) ∧
      Appended d (l.foldl (Destination.push env number pid [] m) d) := by
  induction l generalizing d with
  | nil => exact ⟨fun _ _ inside => Or.inl inside, Appended.same rfl⟩
  | cons cid l ih =>
    obtain ⟨first, appended⟩ := push_fresh env number pid m d cid
    obtain ⟨rest, later⟩ := ih (Destination.push env number pid [] m d cid)
    rw [List.foldl_cons]
    exact ⟨first.trans rest (push_same env d number pid [] m cid).objects appended later,
      appended.trans later⟩

theorem persistOffline_appended (env : Env) (d : Destination) (m : Message) :
    Appended d (d.persistOffline env m) := by
  have loop : ∀ (subs : Assoc Text DurableSubState) (d : Destination), Appended d
      (subs.foldl (fun d entry =>
        if entry.2.active.isSome then d
        else if accepts entry.2.selector m then d.persistToOfflineSub env m entry
        else d) d) := by
    intro subs
    induction subs with
    | nil => exact fun d => Appended.same rfl
    | cons entry subs ih =>
      intro d
      rw [List.foldl_cons]
      split
      · exact ih d
      · split
        · exact (appendRecord_appended env d _ _ _).trans (ih _)
        · exact ih d
  exact loop d.durableSubs d

theorem save_fresh (env : Env) (d : Destination) (pid : Nat) (m : Message) :
    Fresh d (d.save env pid [] m) ∧ Appended d (d.save env pid [] m) := by
  let counted : Destination := { d with messageCounter := d.messageCounter + 1 }
  have still : Still d counted := by
    intro place
    cases place <;> rfl
  obtain ⟨fresh, grown⟩ := pushes_fresh env d.messageCounter pid m d.targets counted
  have numbered : Appended d counted := Appended.same rfl
  have appended := numbered.trans grown
  have pushed : Fresh d (d.targets.foldl (Destination.push env d.messageCounter pid [] m) counted) := by
    intro place x inside
    rw [← still place]
    exact fresh place x inside
  unfold Destination.save
  dsimp only
  split
  · obtain ⟨stores, shape⟩ := persistOffline_frame env
      (d.targets.foldl (Destination.push env d.messageCounter pid [] m) counted) m
    have more := persistOffline_appended env
      (d.targets.foldl (Destination.push env d.messageCounter pid [] m) counted) m
    refine ⟨?_, appended.trans more⟩
    have quiet : Fresh (d.targets.foldl (Destination.push env d.messageCounter pid [] m) counted)
        ((d.targets.foldl (Destination.push env d.messageCounter pid [] m) counted).persistOffline
          env m) := by
      intro place x inside
      rw [shape] at inside
      rw [stores_still] at inside
      exact Or.inl inside
    have objects : (d.targets.foldl (Destination.push env d.messageCounter pid [] m)
        counted).objects = d.objects := by
      have same := same_fold (l := d.targets)
        (fun e cid _ => push_same env e d.messageCounter pid [] m cid) counted
      exact same.objects
    exact pushed.trans quiet objects appended more
  · exact ⟨pushed, appended⟩

/- A message that is located behind a record, or nowhere in a storage that has failed, leaves
   that record alone when it is dropped. -/
theorem Behind.spares {d d' : Destination} {sid : StorageId} {x z : Message}
    (behind : Behind d d' sid x) (location : z.location = x.location)
    (persistent : z.isPersistent = x.isPersistent) {later : Destination}
    (failed : (d'.stores sid).good = false → (later.stores sid).good = false) {taker : Consumer}
    (storage : taker.storage = sid) {n : Nat} (old : n < (d.stores sid).log.length) :
    ((later.dropRecord taker z).stores sid).log[n]? = (later.stores sid).log[n]? := by
  subst storage
  unfold Destination.dropRecord
  split
  · rename_i keeps
    rw [persistent] at keeps
    unfold Destination.removeLocated Destination.locate
    rw [location]
    rcases behind keeps with ⟨i, at_, far⟩ | ⟨nowhere, gone⟩
    · have apart : i ≠ n := by omega
      rw [at_]
      simp only [Destination.removeRecord, Function.update_self, Store.remove]
      split
      · rw [TombstoneLog.remove, List.getElem?_modify]
        simp [apart]
      · rfl
    · rw [nowhere]
      have stuck : ∀ rec, (later.removeRecord taker.storage rec).stores = later.stores := by
        intro rec
        simp [Destination.removeRecord, Store.remove, failed gone]
      dsimp only
      split
      · rfl
      · rw [stuck]
  · rfl

theorem dropRecord_takes {later : Destination} {taker : Consumer} {z : Message} {n : Nat}
    (persistent : z.isPersistent = true) (location : z.location = some n)
    (good : (later.stores taker.storage).good = true) {e : Entry UUID Content}
    (record : (later.stores taker.storage).log[n]? = some e) :
    ((later.dropRecord taker z).stores taker.storage).log[n]? = some { e with removed := true } := by
  unfold Destination.dropRecord Destination.removeLocated Destination.locate
  rw [if_pos persistent, location]
  simp only [Destination.removeRecord, Function.update_self, Store.remove, good, if_true]
  rw [TombstoneLog.remove, List.getElem?_modify, record]
  simp

/-- Everything somewhere was there before, or is staged with this location. -/
def Carrying (pid : Nat) (location : Option Nat) (d d' : Destination) : Prop :=
  ∀ place x, x ∈ messagesAt d' place →
    x ∈ messagesAt d place ∨ place = .staged pid ∧ x.location = location

theorem stage_carrying (d : Destination) (pid : Nat) (x : Message) :
    Carrying pid x.location d (d.stage pid x) := by
  unfold Destination.stage
  split
  · exact fun _ _ inside => Or.inl inside
  · rename_i p found
    intro place y inside
    by_cases here : place = .staged pid
    · subst here
      simp only [messagesAt, get_put_same, stagedBy, Option.map_some, Option.getD_some] at inside
      rcases List.mem_cons.mp ((enqueue_perm p.transactQueue x.band x).mem_iff.mp inside) with
        rfl | old
      · exact Or.inr ⟨rfl, rfl⟩
      · left
        simpa [messagesAt, found, stagedBy] using old
    · rw [setProducer_other here] at inside
      exact Or.inl inside

theorem push_carrying (env : Env) (number : Int) (pid : Nat) {transactionId : Text}
    (inside : transactionId ≠ []) (m : Message) (d : Destination) (cid : Nat) :
    Carrying pid m.location d (Destination.push env number pid transactionId m d cid) := by
  unfold Destination.push
  split
  · exact fun _ _ inside => Or.inl inside
  · rename_i c object
    split
    · have still : Still d (d.preparePush env cid c number transactionId m).1 ∧
          (d.preparePush env cid c number transactionId m).2.location = m.location := by
        unfold Destination.preparePush
        dsimp only
        rw [if_pos inside]
        split
        · refine ⟨?_, rfl⟩
          intro place
          cases place <;> rfl
        · refine ⟨?_, rfl⟩
          intro place
          cases place <;> rfl
      dsimp only
      intro place x there
      rcases stage_carrying _ pid _ place x there with old | ⟨staged, location⟩
      · rw [still.1 place] at old
        exact Or.inl old
      · exact Or.inr ⟨staged, location.trans still.2⟩
    · exact fun _ _ inside => Or.inl inside

theorem save_carrying (env : Env) (d : Destination) (pid : Nat) {transactionId : Text}
    (inside : transactionId ≠ []) (m : Message) :
    Carrying pid m.location d (d.save env pid transactionId m) := by
  have loop : ∀ (l : List Nat) (e : Destination), Carrying pid m.location d e →
      Carrying pid m.location d
        (l.foldl (Destination.push env d.messageCounter pid transactionId m) e) := by
    intro l
    induction l with
    | nil => exact fun e carrying => carrying
    | cons cid l ih =>
      intro e carrying
      rw [List.foldl_cons]
      refine ih _ ?_
      intro place x there
      rcases push_carrying env d.messageCounter pid inside m e cid place x there with old | new
      · exact carrying place x old
      · exact Or.inr new
  unfold Destination.save
  dsimp only
  rw [if_neg fun all => inside all.2.2]
  refine loop _ _ ?_
  intro place x there
  cases place <;> exact Or.inl there

end Copies

section Lookups

theorem appends_index_other (fails : Nat → Bool) (items : List (UUID × Content)) {u : UUID}
    (other : ∀ x ∈ items, x.1 ≠ u) (s : Store Content) :
    (appends fails s items).index u = s.index u := by
  induction items generalizing s with
  | nil => rfl
  | cons x items ih =>
    have rest := ih (fun y inside => other y (List.mem_cons_of_mem x inside))
      (s.append x.1 x.2 (fails s.log.length)).1
    have step : (s.append x.1 x.2 (fails s.log.length)).1.index u = s.index u := by
      unfold Store.append
      split
      · exact Function.update_of_ne (other x List.mem_cons_self).symm _ _
      · rfl
    exact rest.trans step

theorem appends_index_moved {fails : Nat → Bool} (takes : ∀ n, fails n = false)
    (items : List (UUID × Content)) {u : UUID} {s : Store Content} (good : s.good = true)
    (there : ∃ x ∈ items, x.1 = u) :
    ∃ n, s.log.length ≤ n ∧ (appends fails s items).index u = some n := by
  induction items generalizing s with
  | nil =>
    obtain ⟨x, inside, _⟩ := there
    cases inside
  | cons x items ih =>
    have stored : (s.append x.1 x.2 (fails s.log.length)).1 =
        { s with
          log := TombstoneLog.append s.log x.1 x.2,
          index := Function.update s.index x.1 (some s.log.length) } := by
      unfold Store.append
      rw [if_pos ⟨good, takes _⟩]
    have unfolded : appends fails s (x :: items) =
        appends fails (s.append x.1 x.2 (fails s.log.length)).1 items := rfl
    rw [unfolded, stored]
    by_cases later : ∃ y ∈ items, y.1 = u
    · obtain ⟨n, behind, entry⟩ := @ih { s with
        log := TombstoneLog.append s.log x.1 x.2,
        index := Function.update s.index x.1 (some s.log.length) } good later
      refine ⟨n, le_trans ?_ behind, entry⟩
      simp [TombstoneLog.append]
    · have here : x.1 = u := by
        obtain ⟨y, inside, same⟩ := there
        rcases List.mem_cons.mp inside with rfl | more
        · exact same
        · exact absurd ⟨y, more, same⟩ later
      refine ⟨s.log.length, le_refl _, ?_⟩
      rw [appends_index_other fails items (fun y inside same => later ⟨y, inside, same⟩), here]
      exact Function.update_self ..

/-- The device takes what is appended to the storage, whose entry for the uuid is of a record. -/
structure Takes (env : Env) (d : Destination) (sid : StorageId) (u : UUID) : Prop where
  good : (d.stores sid).good = true
  works : ∀ n, env.appendFails sid n = false
  indexed : ∀ n, (d.stores sid).index u = some n → n < (d.stores sid).log.length

/- After a call that appends records a message resolves to the record it had exactly when it has
   its location with it or none of the records goes by its uuid to the consumer's storage. -/
theorem locate_appended {env : Env} {d d' : Destination} {records : List Addressed}
    (grown : Appends env d d' records) {c : Consumer} {m x : Message} (uuid : x.uuid = m.uuid)
    (location : x.location = m.location) (takes : Takes env d c.storage m.uuid) :
    d'.locate c x = d.locate c m ↔
      m.location ≠ none ∨ ∀ r ∈ records, r.1 = c.storage → r.2.1 ≠ m.uuid := by
  unfold Destination.locate Store.record
  rw [location, uuid]
  cases cached : m.location with
  | some n => simp
  | none =>
    have listed : (∀ r ∈ records, r.1 = c.storage → r.2.1 ≠ m.uuid) ↔
        ∀ x ∈ recordsFor c.storage records, x.1 ≠ m.uuid := by
      simp only [recordsFor, List.mem_map, List.mem_filter, decide_eq_true_eq]
      constructor
      · rintro other x ⟨r, ⟨inside, here⟩, rfl⟩
        exact other r inside here
      · intro other r inside here
        exact other r.2 ⟨r, ⟨inside, here⟩, rfl⟩
    simp only [ne_eq, not_true_eq_false, false_or]
    rw [listed, grown.stores, appendAll_at]
    constructor
    · intro same x inside equal
      obtain ⟨n, behind, entry⟩ := appends_index_moved takes.works
        (recordsFor c.storage records) takes.good ⟨x, inside, equal⟩
      rw [entry, Option.map_some] at same
      obtain ⟨k, before, pair⟩ := Option.map_eq_some_iff.mp same.symm
      have near := takes.indexed k before
      have one : k = n := congrArg Prod.fst pair
      omega
    · intro other
      rw [appends_index_other _ _ other]

theorem push_storeless (env : Env) (number : Int) (pid : Nat) {transactionId : Text}
    (inside : transactionId ≠ []) (m : Message) (d : Destination) (cid : Nat) :
    (Destination.push env number pid transactionId m d cid).stores = d.stores := by
  have staged : ∀ (e : Destination) x, (e.stage pid x).stores = e.stores := by
    intro e x
    unfold Destination.stage
    split <;> rfl
  unfold Destination.push
  split
  · rfl
  · rename_i c object
    split
    · dsimp only
      rw [staged]
      unfold Destination.preparePush
      dsimp only
      rw [if_pos inside]
      split <;> rfl
    · rfl

theorem save_storeless (env : Env) (d : Destination) (pid : Nat) {transactionId : Text}
    (inside : transactionId ≠ []) (m : Message) :
    (d.save env pid transactionId m).stores = d.stores := by
  have loop : ∀ (l : List Nat) (e : Destination), e.stores = d.stores →
      (l.foldl (Destination.push env d.messageCounter pid transactionId m) e).stores = d.stores := by
    intro l
    induction l with
    | nil => exact fun e same => same
    | cons cid l ih =>
      intro e same
      rw [List.foldl_cons]
      exact ih _ ((push_storeless env d.messageCounter pid inside m e cid).trans same)
  unfold Destination.save
  dsimp only
  rw [if_neg fun all => inside all.2.2]
  exact loop _ _ rfl

end Lookups

def forward (env : Env) (d : Destination) (pid : Nat) (transactionId : Text)
    (opts : Option SendOptions) (m : Message) : Destination :=
  match opts with
  | none => (d.send env pid transactionId m).1
  | some opts => (d.sendWith env pid transactionId m opts).1

theorem forward_save {env : Env} {d : Destination} {pid : Nat} {p : Producer}
    (found : get d.producers pid = some p) (transactionId : Text) {opts : Option SendOptions}
    (valid : ∀ o, opts = some o → validateSendOptions o = .ok ()) (m : Message) :
    forward env d pid transactionId opts m =
      d.save env pid transactionId (sentAs env p transactionId opts m) := by
  unfold forward
  cases opts with
  | none => simp only [Destination.send, found, sentAs]
  | some o => simp only [Destination.sendWith, found, valid o rfl, sentAs]

def keptRun : List Call :=
  [.createDefaultConsumer 0 .INDIVIDUAL_ACKNOWLEDGE,
    .createConsumer calm 1 .INDIVIDUAL_ACKNOWLEDGE none, .createProducer 5 .INDIVIDUAL_ACKNOWLEDGE,
    .send calm 5 [] (letter 0 7), .recv calm 1 0]

def keptLetter : Message :=
  ((step ((keptRun.take 4).foldl next { type := .Queue }) (.recv calm 1 0)).2).getD (letter 0 7)

end TinyMqForwarding
