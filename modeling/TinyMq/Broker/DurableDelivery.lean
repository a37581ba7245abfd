import TinyMq.Broker.DurableSubs
import TinyMq.Broker.ReceiveBudget
import TinyMq.Broker.StoredBacklog
import TinyMq.Broker.CachedLocations

/-!
What a durable subscriber is owed and what it gets. A ledger beside the topic notes the
persistent messages that a subscription takes and that were not acknowledged. While no such
message is published between a restart and the reconnection of the subscriber, every one
of them waits for the subscriber when it connects again.
-/
namespace TinyMqDurableDelivery
open DelimitedText AssocLists BandQueues Machines TombstoneLog TinyMqTom TinyMqMessage TinyMqStore
open TinyMqDestination TinyMqFrames TinyMqPlaces TinyMqOrigins TinyMqQueueRuns TinyMqRecords
open TinyMqDurableRegistry TinyMqDurableSubs TinyMqLabelledRecords TinyMqCachedLocations
open TinyMqLazyAcks TinyMqReceiveBudget TinyMqStoredBacklog TinyMqSubscriptionFiles TinyMqWireFormat

structure Subscription where
  clientID : Text
  name : Text
  selector : Option Selector

def Subscription.key (w : Subscription) : Text := durableKey w.clientID w.name

def Subscription.directory (w : Subscription) : Text := durableDirectory w.clientID w.name

def Subscription.storage (w : Subscription) : StorageId := .sub w.directory

/-- A topic and the ledger of one subscription: whether it has been created and not
    unsubscribed, the consumers whose files were deleted with it, what `recv` handed to each
    consumer, and the messages it is owed, with the uuids they are stored under. -/
structure Ledger where
  topic : Destination
  isOpen : Bool := false
  gone : List Nat := []
  handed : List (Nat × Message) := []
  owed : List (UUID × Message) := []

def caller : Call → Option Nat
  | .recv _ cid _ | .acknowledgeOn cid _ | .destroyConsumer _ cid => some cid
  | _ => none

/-- The call on the topic. A consumer whose files are deleted reaches no storage. -/
def effect (opens : Paths) (s : Ledger) (call : Call) : Destination :=
  match caller call with
  | some cid =>
    if cid ∈ s.gone then { next s.topic call with stores := s.topic.stores } else next s.topic call
  | none => nextWith opens s.topic call

/-- The message a plain send publishes, as the consumers and the subscriptions are given it. -/
def published (d : Destination) : Call → Option (Env × Message)
  | .send env pid t m => (get d.producers pid).map fun p => (env, prepared env p t m)
  | .sendWith env pid t m opts =>
    match get d.producers pid, validateSendOptions opts with
    | some p, .ok _ => some (env, fillHeaders env p (applyOptions env m opts (t ≠ [])))
    | _, _ => none
  | _ => none

/-- The uuid of the subscription's record: a message without one gets a random one. -/
def filedAs (w : Subscription) (d : Destination) (env : Env) (m : Message) : UUID :=
  if m.uuid = 0 then
    match (get d.durableSubs w.key).bind DurableSubState.active with
    | some id => env.random (.push d.messageCounter id)
    | none => env.random (.offline m.content.number w.key)
  else m.uuid

/-- The subscription takes the message, and the message is to survive. -/
def Concerns (w : Subscription) (s : Ledger) (m : Message) : Prop :=
  s.isOpen = true ∧ m.isPersistent = true ∧ accepts w.selector m = true

instance (w : Subscription) (s : Ledger) (m : Message) : Decidable (Concerns w s m) :=
  inferInstanceAs (Decidable (_ ∧ _))

def onStorage (w : Subscription) (s : Ledger) (cid : Nat) : Bool :=
  (get s.topic.objects cid).any (fun c => decide (c.storage = w.storage)) && !s.gone.contains cid

def users (w : Subscription) (d : Destination) : List Nat :=
  (d.objects.filter (·.2.storage = w.storage)).map Prod.fst

def owing (w : Subscription) (s : Ledger) : Option (Env × Message) → List (UUID × Message)
  | some (env, m) => if Concerns w s m then [(filedAs w s.topic env m, m)] else []
  | none => []

def advance (opens : Paths) (w : Subscription) (s : Ledger) (call : Call) : Ledger :=
  let topic := effect opens s call
  match call with
  | .createDurableConsumer env id mode clientID name selector =>
    let joins : Bool := clientID = w.clientID ∧ name = w.name ∧
      (s.topic.createDurableConsumer env id mode clientID name selector).2.isOk
    { s with topic := topic, isOpen := s.isOpen || joins, gone := s.gone.filter (· ≠ id),
             handed := s.handed.filter (·.1 ≠ id) }
  | .deleteSubscription clientID name =>
    if clientID = w.clientID ∧ name = w.name then
      { s with topic := topic, isOpen := false, gone := s.gone ++ users w s.topic, owed := [] }
    else { s with topic := topic }
  | .recv env cid _ =>
    { s with
      topic := topic, handed := s.handed ++ (step s.topic call).2.toList.map fun m => (cid, m),
      owed := if onStorage w s cid then s.owed.filter fun o => !o.2.isExpired env.nowMs else s.owed }
  | .acknowledgeOn cid m =>
    { s with
      topic := topic, owed := if onStorage w s cid then s.owed.filter (·.1 ≠ m.uuid) else s.owed }
  | .restart _ => { s with topic := topic, gone := [], handed := [] }
  | _ => { s with topic := topic, owed := s.owed ++ owing w s (published s.topic call) }

def NewConsumer (d : Destination) (id : Nat) : Prop :=
  get d.objects id = none ∧ ∀ p, Waits (.own id) p → messagesAt d p = []

/-- The calls of the sessions without transactions on a topic, its restarts and the steps of
    its scheduler. A consumer acknowledges what it was handed, the subscriber keeps its
    selector and the subscription's storage does not fail. -/
def Permitted (w : Subscription) (s : Ledger) : Call → Prop
  | .createProducer _ _ | .deleteConsumer _ | .deleteSubscription _ _ | .recv _ _ _ | .deliverDue _
  | .rehash _ | .restart _ => True
  | .createConsumer _ id mode _ => NewConsumer s.topic id ∧ mode ≠ .SESSION_TRANSACTED
  | .createDurableConsumer _ id mode clientID name selector =>
    NewConsumer s.topic id ∧ mode ≠ .SESSION_TRANSACTED ∧
      (clientID = w.clientID ∧ name = w.name → selector = w.selector)
  | .destroyConsumer _ id => id ∉ s.topic.consumers
  | .send env _ t _ | .sendWith env _ t _ _ => t = [] ∧ ∀ n, env.appendFails w.storage n = false
  | .acknowledgeOn cid m => (cid, m) ∈ s.handed
  | _ => False

/-- Another subscription has another name in the registry and a directory beside this one's. -/
def Apart (opens : Paths) (w : Subscription) (clientID name : Text) : Prop :=
  clientID = w.clientID ∧ name = w.name ∨
    durableKey clientID name ≠ w.key ∧ Beside opens (durableDirectory clientID name) w.directory

/-- The subscription is in the registry when a message concerns it, no two subscriptions
    share a name in the registry or a directory, or have one below the other, and what a
    receive may find in the queue can be read. -/
def Heeded (opens : Paths) (json : Json) (w : Subscription) (s : Ledger) (call : Call) : Prop :=
  (∀ env m, published s.topic call = some (env, m) → Concerns w s m →
    get s.topic.durableSubs w.key ≠ none) ∧
  match call with
  | .createDurableConsumer _ _ _ clientID name _ => Apart opens w clientID name ∧
      ∀ k sub, get s.topic.durableSubs k = some sub →
        sub.directory = durableDirectory clientID name → k = durableKey clientID name
  | .deleteSubscription clientID name => Apart opens w clientID name
  | .recv _ cid _ => ∀ c, get s.topic.objects cid = some c → Readable json c s.topic
  | _ => True

/-- What the calls of `recv` return, without a timeout; one that throws is followed by the next. -/
def receives (json : Json) (env : Env) (cid : Nat) : Nat → Destination → List Message
  | 0, _ => []
  | n + 1, d =>
    match recvTimed (readBytes json) (-1) cid (fun _ => ⟨env.nowMs, 0⟩) d with
    | (_, .returned none) => []
    | (d, .returned (some m)) => m :: receives json env cid n d
    | (d, .thrown) => receives json env cid n d

/-- A due message is among those that the subscriber receives one after the other, the other
    ones wait with the scheduler for the subscriber's queue. -/
def Gets (json : Json) (env : Env) (id : Nat) (d : Destination) (uuid : UUID) (m : Message) : Prop :=
  let t := storedDeliveryTime env m.content
  ∃ number, let content := ({ m.content with uuid := uuid, number := number }).withDeliveryTime t
    if t = 0 ∨ t ≤ env.nowMs then
      ∃ x ∈ receives json env id (d.queues (.own id)).toList.length d, x.content = content
    else ∃ x, (t, QueueId.own id, x) ∈ d.pending ∧ x.cachedStorageBytes = some content

/-- The bytes of the subscription's records of the uuid give their content back. -/
def ReadsBack (json : Json) (env : Env) (w : Subscription) (d : Destination) (uuid : UUID) : Prop :=
  ∀ x ∈ (d.stores w.storage).scan, x.1.key = uuid → ∀ oid,
    let shell := shellOf env oid x.1.key x.1.data x.2
    let content := x.1.data.withDeliveryTime (storedDeliveryTime env x.1.data)
    readContent json shell content = some { shell with content := content }

/-- Whenever the subscriber connects it gets every message that it is owed, that has not
    expired and whose bytes can be read. -/
def Outlives (json : Json) (w : Subscription) (s : Ledger) : Prop :=
  ∀ env id mode, Permitted w s (.createDurableConsumer env id mode w.clientID w.name w.selector) →
    ∀ d, s.topic.createDurableConsumer env id mode w.clientID w.name w.selector = (d, .ok ()) →
      ∀ o ∈ s.owed, o.2.isExpired env.nowMs = false → ReadsBack json env w s.topic o.1 →
        Gets json env id d o.1 o.2

def Belongs (opens : Paths) (w : Subscription) (k : Text) (sub : DurableSubState) : Prop :=
  k = w.key ∧ sub.directory = w.directory ∧ sub.selector = w.selector ∨
    k ≠ w.key ∧ Beside opens sub.directory w.directory

/-- What every call keeps. -/
structure Intact (opens : Paths) (w : Subscription) (s : Ledger) : Prop where
  registry : Registry s.topic
  labelled : Labelled s.topic
  running : s.topic.schedulerStopped = false
  entries : ∀ k sub, get s.topic.durableSubs k = some sub → Belongs opens w k sub
  backlog : Backlog w.storage s.gone s.topic s.handed s.owed

section Topic
variable {opens : Paths} {json : Json} {w : Subscription} {s : Ledger} {call : Call}

theorem effect_topic (opens : Paths) (s : Ledger) (call : Call) :
    effect opens s call = { next s.topic call with stores := (effect opens s call).stores } ∧
      ((effect opens s call).stores = (nextWith opens s.topic call).stores ∨
        (effect opens s call).stores = s.topic.stores) := by
  unfold effect
  split
  · split
    · exact ⟨rfl, Or.inr rfl⟩
    · rename_i called _
      refine ⟨rfl, Or.inl ?_⟩
      cases call with
      | deleteSubscription clientID name => cases called
      | _ => rfl
  · exact ⟨nextWith_eq opens s.topic call, Or.inl rfl⟩

/- Only a call of a consumer whose files are deleted is cut off from the storages. -/
theorem effect_next {cid : Nat} (by_ : caller call = some cid) (present : cid ∉ s.gone) :
    effect opens s call = next s.topic call := by
  unfold effect
  rw [by_]
  exact if_neg present

theorem advance_topic (opens : Paths) (w : Subscription) (s : Ledger) (call : Call) :
    (advance opens w s call).topic = effect opens s call := by
  cases call with
  | deleteSubscription clientID name =>
    unfold advance
    dsimp only
    split <;> rfl
  | _ => rfl

theorem permitted_possible (intact : Intact opens w s) (permitted : Permitted w s call)
    (heeded : Heeded opens json w s call) : Possible s.topic call := by
  have absent : ∀ id, NewConsumer s.topic id → id ∉ s.topic.consumers := by
    intro id new member
    obtain ⟨c, object, _⟩ := intact.registry.attached id member
    rw [new.1] at object
    cases object
  cases call with
  | createDefaultConsumer id mode => exact permitted.elim
  | createConsumer env id mode selector => exact absent id permitted.1
  | createDurableConsumer env id mode clientID name selector =>
    exact ⟨absent id permitted.1, heeded.2.2⟩
  | destroyConsumer env id => exact permitted
  | _ => trivial

theorem step_registered (intact : Intact opens w s) (permitted : Permitted w s call)
    (heeded : Heeded opens json w s call) : Registry (advance opens w s call).topic := by
  rw [advance_topic, (effect_topic opens s call).1]
  refine (step_registry s.topic call intact.registry
    (permitted_possible intact permitted heeded)).steady ?_
  exact Same.steady (same_registry rfl)

theorem step_labels (intact : Intact opens w s) : Labelled (advance opens w s call).topic := by
  have after := step_labelled intact.labelled call
  rw [advance_topic, (effect_topic opens s call).1]
  refine ⟨?_, after.buffered⟩
  rcases (effect_topic opens s call).2 with same | same
  · rw [same]
    intro sid
    rcases nextWith_stores opens s.topic call sid with kept | removed
    · rw [kept]
      exact after.stores sid
    · rw [removed]
      exact sound_empty Content.uuid
  · rw [same]
    exact intact.labelled.stores

theorem Stays.running {d d' : Destination} (stays : Stays d d') :
    d'.schedulerStopped = d.schedulerStopped := by
  unfold Stays at stays
  rw [stays]

/- A connection fails and changes nothing, or the consumer attaches to a subscription without
   one: to that of the registry, or to a new one. -/
theorem createDurable_cases {d : Destination} (topic : d.isTopicFamily = true) (env : Env) (id : Nat)
    (mode : AcknowledgeMode) (clientID name : Text) (selector : Option Selector) :
    (∃ e, d.createDurableConsumer env id mode clientID name selector = (d, .error e)) ∨
      ∃ sub, d.createDurableConsumer env id mode clientID name selector =
          (d.attachDurable env id mode (durableKey clientID name) sub selector, .ok ()) ∧
        (get d.durableSubs (durableKey clientID name) = some sub ∨
          get d.durableSubs (durableKey clientID name) = none ∧
            sub.directory = durableDirectory clientID name) := by
  unfold Destination.createDurableConsumer
  rw [if_neg (not_not.mpr topic)]
  dsimp only
  split
  · rename_i absent
    exact Or.inr ⟨_, rfl, Or.inr ⟨absent, rfl⟩⟩
  · rename_i sub found
    split
    · exact Or.inl ⟨_, rfl⟩
    · exact Or.inr ⟨sub, rfl, Or.inl found⟩

theorem attachDurable_running (env : Env) (d : Destination) (id : Nat) (mode : AcknowledgeMode)
    (key : Text) (sub : DurableSubState) (selector : Option Selector) :
    (d.attachDurable env id mode key sub selector).schedulerStopped = d.schedulerStopped :=
  (Stays.running (replayFromStorage_stays env (d.setObject id
    ⟨mode,.own id,sub.storage,selector,[],.empty,[]⟩) (.own id) sub.storage) :)

theorem deleteConsumer_running (d : Destination) (id : Nat) :
    (d.deleteConsumer id).schedulerStopped = d.schedulerStopped := by
  unfold Destination.deleteConsumer
  dsimp only
  split <;> rfl

theorem step_running (intact : Intact opens w s) (permitted : Permitted w s call) :
    (next s.topic call).schedulerStopped = false := by
  refine Eq.trans ?_ intact.running
  have notQueue := topic_notQueue intact.registry.topic
  cases call with
  | createProducer id mode => exact Stays.running (createProducer_stays s.topic id mode)
  | send env pid t m => exact Stays.running (send_stays env s.topic pid t m)
  | sendWith env pid t m opts => exact Stays.running (sendWith_stays env s.topic pid t m opts)
  | recv env cid patience =>
    refine recv_rule (P := fun d r => r.1.schedulerStopped = d.schedulerStopped) (fun _ => rfl)
      (fun _ _ _ _ _ _ => rfl) ?_ patience s.topic
    intro d c m q r _ _ rest
    rw [rest, dropRecord_spec]
    rfl
  | acknowledgeOn cid m =>
    cases object : get s.topic.objects cid with
    | none => simp only [next, step, Destination.acknowledgeOn, object]
    | some c =>
      obtain ⟨stores, c', shape⟩ := acknowledgeOn_shape (m := m) object
        (intact.backlog.own cid c object).2
      simp only [next, step, shape]
  | deliverDue env => exact Stays.running (deliverDue_stays env s.topic)
  | createConsumer env id mode selector =>
    simp only [next, step, Destination.createConsumer, notQueue]
    rfl
  | createDurableConsumer env id mode clientID name selector =>
    simp only [next, step, Destination.createDurableConsumer]
    split
    · rfl
    · split
      · exact attachDurable_running env s.topic id mode _ _ selector
      · split
        · rfl
        · exact attachDurable_running env s.topic id mode _ _ selector
  | deleteConsumer id => exact deleteConsumer_running s.topic id
  | destroyConsumer env id =>
    cases object : get s.topic.objects id with
    | none => simp only [next, step, Destination.destroyConsumer, object]
    | some c =>
      simp only [next, step, destroyConsumer_spec env object (intact.backlog.own id c object).2]
  | deleteSubscription clientID name =>
    simp only [next, step, Destination.deleteSubscription]
    split
    · rfl
    · split
      · rfl
      · exact deleteConsumer_running s.topic _
  | rehash l =>
    simp only [next, step, Destination.rehash]
    split <;> rfl
  | restart env => exact intact.running.symm
  | _ => exact permitted.elim

theorem deleteConsumer_entries {d : Destination} (entries : ∀ k sub, get d.durableSubs k = some sub →
    Belongs opens w k sub) (id : Nat) :
    ∀ k sub, get (d.deleteConsumer id).durableSubs k = some sub → Belongs opens w k sub := by
  intro k sub found
  unfold Destination.deleteConsumer at found
  dsimp only at found
  split at found
  · exact entries k sub found
  · rename_i key _
    dsimp only at found
    split at found
    · exact entries k sub found
    · rename_i old here
      by_cases same : k = key
      · rw [same, get_put_same, Option.some.injEq] at found
        rw [← found, same]
        exact entries key old here
      · rw [get_put_other _ _ same] at found
        exact entries k sub found

theorem attached_belongs (intact : Intact opens w s) {clientID name : Text} {selector : Option Selector}
    (keeps : clientID = w.clientID ∧ name = w.name → selector = w.selector)
    (apart : Apart opens w clientID name) {sub : DurableSubState}
    (from_ : get s.topic.durableSubs (durableKey clientID name) = some sub ∨
      get s.topic.durableSubs (durableKey clientID name) = none ∧
        sub.directory = durableDirectory clientID name) (active : Option Nat) :
    Belongs opens w (durableKey clientID name) { sub with selector := selector, active := active } := by
  rcases apart with same | other
  · have key : durableKey clientID name = w.key := by
      rw [same.1, same.2]
      rfl
    refine Or.inl ⟨key, ?_, keeps same⟩
    rcases from_ with found | ⟨_, new⟩
    · rcases intact.entries _ sub found with ⟨_, directory, _⟩ | ⟨elsewhere, _⟩
      · exact directory
      · exact absurd key elsewhere
    · exact new.trans (by rw [same.1, same.2]; rfl)
  · refine Or.inr ⟨other.1, ?_⟩
    rcases from_ with found | ⟨_, new⟩
    · rcases intact.entries _ sub found with ⟨here, _⟩ | ⟨_, elsewhere⟩
      · exact absurd here other.1
      · exact elsewhere
    · rw [new]
      exact other.2

theorem step_entries (intact : Intact opens w s) (permitted : Permitted w s call)
    (heeded : Heeded opens json w s call) :
    ∀ k sub, get (next s.topic call).durableSubs k = some sub → Belongs opens w k sub := by
  have old : (next s.topic call).durableSubs = s.topic.durableSubs →
      ∀ k sub, get (next s.topic call).durableSubs k = some sub → Belongs opens w k sub := by
    intro same
    rw [same]
    exact intact.entries
  have notQueue := topic_notQueue intact.registry.topic
  cases call with
  | createConsumer env id mode selector =>
    refine old ?_
    simp only [next, step, Destination.createConsumer, notQueue]
    rfl
  | createDurableConsumer env id mode clientID name selector =>
    simp only [next, step] at old ⊢
    rcases createDurable_cases intact.registry.topic env id mode clientID name selector with
      ⟨e, failed⟩ | ⟨sub, joined, from_⟩
    · rw [failed] at old ⊢
      exact old rfl
    · rw [joined]
      intro k sub' found
      have replayed := (replayFromStorage_same env (s.topic.setObject id
        ⟨mode,.own id,sub.storage,selector,[],.empty,[]⟩) (.own id) sub.storage).subs
      simp only [Destination.attachDurable, replayed] at found
      by_cases same : k = durableKey clientID name
      · rw [same, get_put_same, Option.some.injEq] at found
        rw [same, ← found]
        exact attached_belongs intact permitted.2.2 heeded.2.1 from_ _
      · rw [get_put_other _ _ same] at found
        exact intact.entries k sub' found
  | deleteConsumer id => exact deleteConsumer_entries intact.entries id
  | destroyConsumer env id =>
    refine old ?_
    cases object : get s.topic.objects id with
    | none => simp only [next, step, Destination.destroyConsumer, object]
    | some c =>
      simp only [next, step, destroyConsumer_spec env object (intact.backlog.own id c object).2]
  | deleteSubscription clientID name =>
    simp only [next, step, Destination.deleteSubscription] at old ⊢
    split at old
    · exact old rfl
    · rename_i sub _
      intro k sub' found
      have before : ∀ {subs : Assoc Text DurableSubState}, get (erase subs
          (durableKey clientID name)) k = some sub' → get subs k = some sub' := by
        intro subs here
        by_cases same : k = durableKey clientID name
        · rw [same, get_erase_same] at here
          cases here
        · rw [get_erase_other _ same] at here
          exact here
      cases active : sub.active with
      | none =>
        rw [active] at found
        exact intact.entries k sub' (before found)
      | some id =>
        rw [active] at found
        exact deleteConsumer_entries intact.entries id k sub' (before found)
  | rehash l =>
    refine old ?_
    simp only [next, step, Destination.rehash]
    split <;> rfl
  | restart env =>
    intro k sub found
    cases found
  | createDefaultConsumer id mode => exact permitted.elim
  | _ => exact old (step_steady s.topic rfl).subs

end Topic

section Calls
variable {opens : Paths} {json : Json} {w : Subscription} {s : Ledger}

theorem createConsumer_backlog (intact : Intact opens w s) (env : Env) (id : Nat) (mode : AcknowledgeMode)
    (selector : Option Selector) (plain : mode ≠ .SESSION_TRANSACTED) :
    Backlog w.storage s.gone (s.topic.createConsumer env id mode selector) s.handed s.owed := by
  have shape : s.topic.createConsumer env id mode selector =
      { s.topic.setObject id ⟨mode,.own id,.shared,selector,[],.empty,[]⟩ with
        consumers := s.topic.consumers ++ [id] } := by
    simp only [Destination.createConsumer, topic_notQueue intact.registry.topic]
    rfl
  rw [shape]
  refine intact.backlog.quiet ⟨rfl, ?_, ?_, fun _ _ _ _ place _ inside =>
    waits_same place inside rfl rfl⟩
  · intro cid c object
    by_cases here : cid = id
    · rw [here, Destination.setObject, get_put_same, Option.some.injEq] at object
      rw [← object, here]
      exact ⟨rfl, plain⟩
    · rw [Destination.setObject, get_put_other _ _ here] at object
      exact intact.backlog.own cid c object
  · rintro cid c ⟨object, storage, present⟩
    by_cases here : cid = id
    · rw [here, Destination.setObject, get_put_same, Option.some.injEq] at object
      rw [← object] at storage
      cases storage
    · rw [Destination.setObject, get_put_other _ _ here] at object
      exact ⟨c, ⟨object, storage, present⟩, rfl⟩

theorem createDurable_backlog (intact : Intact opens w s) (env : Env) {id : Nat} {mode : AcknowledgeMode}
    (clientID name : Text) (selector : Option Selector) (new : NewConsumer s.topic id)
    (plain : mode ≠ .SESSION_TRANSACTED) :
    Backlog w.storage (s.gone.filter (· ≠ id))
      (s.topic.createDurableConsumer env id mode clientID name selector).1
      (s.handed.filter (·.1 ≠ id)) s.owed := by
  rcases createDurable_cases intact.registry.topic env id mode clientID name selector with
    ⟨e, failed⟩ | ⟨sub, joined, _⟩
  · rw [failed]
    have quiet : Quiet w.storage s.gone (s.gone.filter (· ≠ id)) s.topic s.topic := by
      refine ⟨rfl, intact.backlog.own, ?_, fun _ _ _ p place _ inside => ⟨p, place, inside⟩⟩
      rintro cid c ⟨object, storage, present⟩
      refine ⟨c, ⟨object, storage, ?_⟩, rfl⟩
      intro member
      refine present (List.mem_filter.mpr ⟨member, ?_⟩)
      rw [decide_eq_true_eq]
      rintro rfl
      rw [new.1] at object
      cases object
    exact (intact.backlog.quiet quiet).fewer (List.filter_subset_self _) (List.Subset.refl _)
  · rw [joined]
    let c : Consumer := ⟨mode,.own id,sub.storage,selector,[],.empty,[]⟩
    have placed := setObject_backlog intact.backlog new.2 (c := c) rfl plain rfl
    have replayed := replay_backlog placed env (get_put_same s.topic.objects id c)
    exact replayed.same rfl rfl rfl rfl

theorem users_gone {d : Destination} {gone : List Nat} (cid : Nat) (c : Consumer) :
    ¬ Works w.storage (gone ++ users w d) d cid c := by
  rintro ⟨object, storage, present⟩
  refine present (List.mem_append_right _ (List.mem_map.mpr ⟨(cid, c), ?_, rfl⟩))
  exact List.mem_filter.mpr ⟨get_mem object, by simpa using storage⟩

theorem deleteConsumer_backlog {gone : List Nat} {d : Destination} {handed : List (Nat × Message)}
    {owed : List (UUID × Message)} (log : Backlog w.storage gone d handed owed) (id : Nat) :
    Backlog w.storage gone (d.deleteConsumer id) handed owed := by
  unfold Destination.deleteConsumer
  dsimp only
  split <;> exact log.same rfl rfl rfl rfl

theorem unsubscribe_store (intact : Intact opens w s) {clientID name : Text}
    (apart : Apart opens w clientID name) :
    (unsubscribe opens s.topic clientID name).stores w.storage = s.topic.stores w.storage ∨
      clientID = w.clientID ∧ name = w.name ∧
        (unsubscribe opens s.topic clientID name).stores w.storage = {} := by
  cases found : get s.topic.durableSubs (durableKey clientID name) with
  | none =>
    left
    unfold unsubscribe
    rw [found]
  | some sub =>
    rcases intact.entries _ sub found with ⟨here, directory, _⟩ | ⟨elsewhere, beside⟩
    · rcases apart with own | ⟨other, _⟩
      · refine Or.inr ⟨own.1, own.2, ?_⟩
        unfold unsubscribe
        rw [found]
        dsimp only
        rw [directory]
        exact if_pos (List.prefix_refl _)
      · exact absurd here other
    · left
      refine unsubscribe_beside ?_
      intro sub' found'
      rw [found, Option.some.injEq] at found'
      rw [← found']
      exact beside

theorem unsubscribe_backlog (intact : Intact opens w s) {clientID name : Text}
    (apart : Apart opens w clientID name) :
    Backlog w.storage (advance opens w s (.deleteSubscription clientID name)).gone
      (unsubscribe opens s.topic clientID name)
      (advance opens w s (.deleteSubscription clientID name)).handed
      (advance opens w s (.deleteSubscription clientID name)).owed := by
  obtain ⟨objects, queues, pending⟩ := unsubscribe_kept opens s.topic clientID name
  have stores := unsubscribe_store intact apart
  have log := intact.backlog
  unfold advance
  dsimp only
  split
  · have nobody : ∀ cid c, ¬ Works w.storage (s.gone ++ users w s.topic)
        (unsubscribe opens s.topic clientID name) cid c := by
      intro cid c works
      unfold Works at works
      rw [objects] at works
      exact users_gone cid c works
    refine ⟨?_, by rw [objects]; exact log.own, fun cid c works => (nobody cid c works).elim,
      fun cid c works => (nobody cid c works).elim, fun x _ c works => (nobody x.1 c works).elim,
      fun o member => by cases member⟩
    rcases stores with same | ⟨_, _, empty⟩
    · rw [same]
      exact log.good
    · rw [empty]
  · rename_i other
    rcases stores with same | ⟨client, sub, _⟩
    · exact log.same same objects queues pending
    · exact absurd ⟨client, sub⟩ other

theorem published_save {call : Call} (permitted : Permitted w s call) {env : Env} {m : Message}
    (pub : published s.topic call = some (env, m)) :
    ∃ pid, next s.topic call = s.topic.save env pid [] m ∧
      ∀ n, env.appendFails w.storage n = false := by
  cases call with
  | send env' pid t m' =>
    obtain ⟨rfl, works⟩ := permitted
    obtain ⟨p, producer, same⟩ := Option.map_eq_some_iff.mp pub
    obtain ⟨rfl, rfl⟩ := Prod.mk.inj same
    exact ⟨pid, by simp only [next, step, Destination.send, producer], works⟩
  | sendWith env' pid t m' opts =>
    obtain ⟨rfl, works⟩ := permitted
    simp only [published] at pub
    split at pub
    · rename_i p _ producer valid
      obtain ⟨rfl, rfl⟩ := Prod.mk.inj (Option.some.inj pub)
      exact ⟨pid, by simp only [next, step, Destination.sendWith, producer, valid], works⟩
    · cases pub
  | _ => cases pub

theorem unpublished_same {call : Call} (sends : ∃ env pid t m,
    call = .send env pid t m ∨ ∃ opts, call = .sendWith env pid t m opts)
    (nothing : published s.topic call = none) : next s.topic call = s.topic := by
  obtain ⟨env, pid, t, m, rfl | ⟨opts, rfl⟩⟩ := sends
  · have missing : get s.topic.producers pid = none := Option.map_eq_none_iff.mp nothing
    simp only [next, step, Destination.send, missing]
  · simp only [published] at nothing
    simp only [next, step, Destination.sendWith]
    cases producer : get s.topic.producers pid with
    | none => rfl
    | some p =>
      cases valid : validateSendOptions opts with
      | error e => rfl
      | ok _ => simp [producer, valid] at nothing

theorem mem_recordsFor {sid : StorageId} {records : List Addressed} {r : UUID × Content}
    (member : (sid, r) ∈ records) : r ∈ recordsFor sid records :=
  List.mem_map.mpr ⟨(sid, r), List.mem_filter.mpr ⟨member, by simp⟩, rfl⟩

theorem published_record (intact : Intact opens w s) {m : Message} (concerns : Concerns w s m) (env : Env)
    {sub : DurableSubState} (found : get s.topic.durableSubs w.key = some sub) :
    ∃ content, (filedAs w s.topic env m, content) ∈
        recordsFor w.storage (sendRecords env s.topic m) ∧
      Says (filedAs w s.topic env m) m content := by
  obtain ⟨_, persistent, takes⟩ := concerns
  have topic := intact.registry.topic
  have own : sub.storage = w.storage ∧ sub.selector = w.selector := by
    rcases intact.entries w.key sub found with ⟨_, directory, selector⟩ | ⟨other, _⟩
    · exact ⟨congrArg StorageId.sub directory, selector⟩
    · exact absurd rfl other
  cases active : sub.active with
  | none =>
    refine ⟨{ m.content with uuid := filedAs w s.topic env m }, mem_recordsFor ?_, m.content.number, rfl⟩
    refine List.mem_append_right _ ?_
    unfold offlineRecords
    rw [if_pos ⟨topic, persistent⟩]
    refine List.mem_flatMap.mpr ⟨(w.key, sub), get_mem found, ?_⟩
    unfold offlineRecord filedAs
    simp [active, own.1, own.2, takes, found]
  | some id =>
    obtain ⟨member, _, c, object, storage, selector⟩ := intact.registry.online w.key sub id found active
    refine ⟨_, mem_recordsFor ?_, s.topic.messageCounter, rfl⟩
    refine List.mem_append_left _ (List.mem_flatMap.mpr ⟨id, ?_, ?_⟩)
    · simpa [Destination.targets, topic_notQueue topic] using member
    · unfold pushRecords filedAs
      simp [object, selector, own.2, takes, persistent, storage, own.1, found, active, pushCopy,
        Message.uuid]
      rfl

theorem publish_backlog (intact : Intact opens w s) {call : Call} (permitted : Permitted w s call)
    (heeded : Heeded opens json w s call) (sends : ∃ env pid t m,
      call = .send env pid t m ∨ ∃ opts, call = .sendWith env pid t m opts) :
    Backlog w.storage s.gone (next s.topic call) s.handed
      (s.owed ++ owing w s (published s.topic call)) := by
  cases pub : published s.topic call with
  | none =>
    rw [unpublished_same sends pub]
    simpa [owing] using intact.backlog
  | some given =>
    obtain ⟨env, m⟩ := given
    obtain ⟨pid, saved, works⟩ := published_save permitted pub
    have after := save_backlog intact.backlog works pid m
    rw [saved]
    unfold owing
    dsimp only
    split
    · rename_i concerns
      refine { after with kept := ?_ }
      intro o member
      rcases List.mem_append.mp member with old | new
      · exact after.kept o old
      · rw [List.mem_singleton.mp new]
        cases found : get s.topic.durableSubs w.key with
        | none => exact absurd found (heeded.1 env m pub concerns)
        | some sub =>
          obtain ⟨content, record, told⟩ := published_record intact concerns env found
          exact save_keeps intact.backlog works pid record told
    · simpa using after

theorem onStorage_works {cid : Nat} (here : onStorage w s cid = true) :
    ∃ c, Works w.storage s.gone s.topic cid c := by
  unfold onStorage at here
  rw [Bool.and_eq_true] at here
  cases object : get s.topic.objects cid with
  | none =>
    rw [object] at here
    cases here.1
  | some c =>
    rw [object] at here
    exact ⟨c, object, by simpa using here.1, by simpa using here.2⟩

theorem works_onStorage {cid : Nat} {c : Consumer} (works : Works w.storage s.gone s.topic cid c) :
    onStorage w s cid = true := by
  obtain ⟨object, storage, present⟩ := works
  simp [onStorage, object, storage, present]

theorem effect_store (call : Call) {cid : Nat} (by_ : caller call = some cid)
    (off : ∀ c, ¬ Works w.storage s.gone s.topic cid c)
    (elsewhere : (∀ c, get s.topic.objects cid = some c → c.storage ≠ w.storage) →
      (next s.topic call).stores w.storage = s.topic.stores w.storage) :
    (effect opens s call).stores w.storage = s.topic.stores w.storage := by
  unfold effect
  rw [by_]
  dsimp only
  split
  · rfl
  · rename_i present
    exact elsewhere fun c object storage => off c ⟨object, storage, present⟩

theorem recv_ledger (intact : Intact opens w s) (env : Env) (cid patience : Nat) :
    Backlog w.storage s.gone (effect opens s (.recv env cid patience))
      (advance opens w s (.recv env cid patience)).handed (advance opens w s (.recv env cid patience)).owed := by
  have log := intact.backlog
  by_cases here : onStorage w s cid = true
  · obtain ⟨c, works⟩ := onStorage_works here
    rw [effect_next rfl works.2.2]
    unfold advance
    dsimp only
    rw [if_pos here]
    refine recv_backlog (log.fewer (List.Subset.refl _) (List.filter_subset_self _)) intact.labelled
      works env patience ?_
    intro o member
    simpa using (List.mem_filter.mp member).2
  · have off : ∀ c, ¬ Works w.storage s.gone s.topic cid c :=
      fun c works => here (works_onStorage works)
    have less := recv_lessened env cid patience s.topic
    have store : (effect opens s (.recv env cid patience)).stores w.storage =
        s.topic.stores w.storage :=
      effect_store (.recv env cid patience) rfl off fun other => less.stores w.storage other
    have after : Backlog w.storage s.gone (effect opens s (.recv env cid patience)) s.handed s.owed := by
      rw [(effect_topic opens s (.recv env cid patience)).1]
      exact log.cutOff less store
    unfold advance
    dsimp only
    rw [if_neg here]
    refine { after with handed := ?_ }
    intro x member c works
    rcases List.mem_append.mp member with old | new
    · exact after.handed x old c works
    · obtain ⟨m, _, rfl⟩ := List.mem_map.mp new
      obtain ⟨object, rest⟩ := works
      rw [(effect_topic opens s (.recv env cid patience)).1] at object
      obtain ⟨c', works', _⟩ := less.works ⟨object, rest⟩
      exact absurd works' (off c')

theorem acknowledge_ledger (intact : Intact opens w s) {cid : Nat} {m : Message}
    (handed : (cid, m) ∈ s.handed) :
    Backlog w.storage s.gone (effect opens s (.acknowledgeOn cid m))
      s.handed (advance opens w s (.acknowledgeOn cid m)).owed := by
  have log := intact.backlog
  by_cases here : onStorage w s cid = true
  · obtain ⟨c, works⟩ := onStorage_works here
    rw [effect_next rfl works.2.2]
    unfold advance
    dsimp only
    rw [if_pos here]
    refine acknowledge_backlog (log.fewer (List.Subset.refl _) (List.filter_subset_self _))
      (intact.labelled.stores _) works (log.handed _ handed c works) ?_
    intro o member
    simpa using (List.mem_filter.mp member).2
  · have off : ∀ c, ¬ Works w.storage s.gone s.topic cid c :=
      fun c works => here (works_onStorage works)
    have store : (effect opens s (.acknowledgeOn cid m)).stores w.storage = s.topic.stores w.storage := by
      refine effect_store _ rfl off ?_
      intro other
      cases object : get s.topic.objects cid with
      | none => simp only [next, step, Destination.acknowledgeOn, object]
      | some c =>
        simp only [next, step]
        rw [(acknowledgeOn_spec object (log.own cid c object).2).1]
        exact Function.update_of_ne (fun same => other c object same.symm) _ _
    rw [(effect_topic opens s (.acknowledgeOn cid m)).1]
    unfold advance
    dsimp only
    rw [if_neg here]
    exact acknowledge_quiet log m off store

theorem destroy_ledger (intact : Intact opens w s) (env : Env) (cid : Nat) :
    Backlog w.storage s.gone (effect opens s (.destroyConsumer env cid)) s.handed s.owed := by
  have log := intact.backlog
  rw [(effect_topic opens s (.destroyConsumer env cid)).1]
  refine destroy_backlog log env cid ?_
  by_cases here : onStorage w s cid = true
  · obtain ⟨c, works⟩ := onStorage_works here
    refine Or.inr ⟨c, works, ?_⟩
    rw [effect_next rfl works.2.2]
    simp only [next, step]
    rw [destroyConsumer_spec env works.1 (log.own cid c works.1).2]
    simp only [works.2.1, Function.update_self]
  · refine Or.inl (effect_store _ rfl (fun c works => here (works_onStorage works)) ?_)
    intro other
    cases object : get s.topic.objects cid with
    | none => simp only [next, step, Destination.destroyConsumer, object]
    | some c =>
      simp only [next, step]
      rw [destroyConsumer_spec env object (log.own cid c object).2]
      exact Function.update_of_ne (fun same => other c object same.symm) _ _

theorem restart_backlog (intact : Intact opens w s) (env : Env) :
    Backlog w.storage [] (s.topic.restart env) [] s.owed := by
  have nobody : ∀ cid c, ¬ Works w.storage [] (s.topic.restart env) cid c := by
    rintro cid c ⟨object, _⟩
    cases object
  refine ⟨rfl, fun cid c object => (by cases object), fun cid c works => (nobody cid c works).elim,
    fun cid c works => (nobody cid c works).elim, fun x member => (by cases member), ?_⟩
  intro o member
  obtain ⟨n, e, here, live, key, told, _⟩ := intact.backlog.kept o member
  exact ⟨n, e, here, live, key, told, fun cid c works => (nobody cid c works).elim⟩

theorem step_backlog (intact : Intact opens w s) {call : Call} (permitted : Permitted w s call)
    (heeded : Heeded opens json w s call) : Backlog w.storage (advance opens w s call).gone (advance opens w s call).topic
      (advance opens w s call).handed (advance opens w s call).owed := by
  have log := intact.backlog
  have unowed : ∀ {d}, Backlog w.storage s.gone d s.handed s.owed →
      Backlog w.storage s.gone d s.handed (s.owed ++ owing w s none) := by
    intro d after
    rw [owing, List.append_nil]
    exact after
  rw [advance_topic]
  cases call with
  | createDefaultConsumer id mode => exact permitted.elim
  | createConsumer env id mode selector =>
    have after := createConsumer_backlog intact env id mode selector permitted.2
    exact unowed after
  | createDurableConsumer env id mode clientID name selector =>
    exact createDurable_backlog intact env clientID name selector permitted.1 permitted.2.1
  | deleteConsumer id => exact unowed (deleteConsumer_backlog log id)
  | destroyConsumer env id => exact unowed (destroy_ledger intact env id)
  | deleteSubscription clientID name => exact unsubscribe_backlog intact heeded.2
  | createProducer id mode =>
    have after : Backlog w.storage s.gone (s.topic.createProducer id mode) s.handed s.owed :=
      log.same rfl rfl rfl rfl
    exact unowed after
  | send env pid t m =>
    exact publish_backlog intact permitted heeded ⟨env, pid, t, m, Or.inl rfl⟩
  | sendWith env pid t m opts =>
    exact publish_backlog intact permitted heeded ⟨env, pid, t, m, Or.inr ⟨opts, rfl⟩⟩
  | recv env cid patience => exact recv_ledger intact env cid patience
  | acknowledgeOn cid m => exact acknowledge_ledger intact permitted
  | deliverDue env => exact unowed (deliverDue_backlog log env)
  | rehash l =>
    have after : Backlog w.storage s.gone (s.topic.rehash l) s.handed s.owed := by
      unfold Destination.rehash
      split
      · exact log.same rfl rfl rfl rfl
      · exact log
    exact unowed after
  | restart env => exact restart_backlog intact env
  | _ => exact permitted.elim

theorem step_intact (opens : Paths) (json : Json) (w : Subscription) (s : Ledger) (call : Call) (intact : Intact opens w s)
    (meets : Permitted w s call ∧ Heeded opens json w s call) : Intact opens w (advance opens w s call) where
  registry := step_registered intact meets.1 meets.2
  labelled := step_labels intact
  running := by
    rw [advance_topic, (effect_topic opens s call).1]
    exact step_running intact meets.1
  entries := by
    rw [advance_topic, (effect_topic opens s call).1]
    exact step_entries intact meets.1 meets.2
  backlog := step_backlog intact meets.1 meets.2

end Calls

section Connection
variable {d : Destination} {env : Env} {q : QueueId}

theorem shell_unclamped (env : Env) (oid : Nat) (uuid : UUID) (content : Content) (location : Nat) :
    clampFuture env (shellOf env oid uuid content location) =
      shellOf env oid uuid content location := by
  have near : ¬ (0 < storedDeliveryTime env content ∧
      kMaxFutureHeaderMs < storedDeliveryTime env content - env.nowMs) := by
    unfold storedDeliveryTime
    dsimp only
    split
    · simp
    · omega
  exact if_neg near

/-- The shell of a record waits in the queue, or with the scheduler until it is due. -/
def Awaits (env : Env) (q : QueueId) (d : Destination) (x : Entry UUID Content × Nat) : Prop :=
  let t := storedDeliveryTime env x.1.data
  ∃ oid, if t = 0 ∨ t ≤ env.nowMs then
      shellOf env oid x.1.key x.1.data x.2 ∈ (d.queues q).toList
    else (t, q, shellOf env oid x.1.key x.1.data x.2) ∈ d.pending

theorem shell_awaits (running : d.schedulerStopped = false) (oid : Nat)
    (x : Entry UUID Content × Nat) :
    Awaits env q (d.enqueueOrSchedule env q (shellOf env oid x.1.key x.1.data x.2)) x := by
  refine ⟨oid, ?_⟩
  unfold Destination.enqueueOrSchedule
  rw [shell_unclamped]
  by_cases due : storedDeliveryTime env x.1.data = 0 ∨ storedDeliveryTime env x.1.data ≤ env.nowMs
  · rw [if_pos due]
    have now : (shellOf env oid x.1.key x.1.data x.2).content.headers.deliveryTime = 0 ∨
        (shellOf env oid x.1.key x.1.data x.2).content.headers.deliveryTime ≤ env.nowMs := due
    dsimp only
    rw [if_pos now]
    exact (enqueue_puts d q _).1.mem_iff.mpr (List.mem_cons_self)
  · rw [if_neg due]
    have later : ¬ ((shellOf env oid x.1.key x.1.data x.2).content.headers.deliveryTime = 0 ∨
        (shellOf env oid x.1.key x.1.data x.2).content.headers.deliveryTime ≤ env.nowMs) := due
    dsimp only
    rw [if_neg later, if_neg (by rw [running]; simp)]
    exact (TinyMqHolders.insertPending_perm _ _ _ _).mem_iff.mpr (List.mem_cons_self)

theorem Awaits.enqueueOrSchedule {x : Entry UUID Content × Nat} (awaits : Awaits env q d x)
    (m : Message) : Awaits env q (d.enqueueOrSchedule env q m) x := by
  obtain ⟨oid, here⟩ := awaits
  refine ⟨oid, ?_⟩
  rcases enqueueOrSchedule_cases env d q m with now | dropped | later
  · rw [now]
    split at here
    · rename_i due
      rw [if_pos due]
      exact (enqueue_puts d q _).1.mem_iff.mpr (List.mem_cons_of_mem _ here)
    · rename_i due
      rw [if_neg due]
      exact here
  · rw [dropped]
    exact here
  · rw [later]
    split at here
    · rename_i due
      rw [if_pos due]
      exact here
    · rename_i due
      rw [if_neg due]
      exact (TinyMqHolders.insertPending_perm _ _ _ _).mem_iff.mpr (List.mem_cons_of_mem _ here)

theorem replay_awaits {records : List (Entry UUID Content × Nat)} (running : d.schedulerStopped = false) :
    ∀ x, x ∈ records ∨ Awaits env q d x → Awaits env q (records.foldl (fun d x =>
      ({ d with nextOid := d.nextOid + 1 } : Destination).enqueueOrSchedule env q
        (shellOf env d.nextOid x.1.key x.1.data x.2)) d) x := by
  induction records generalizing d with
  | nil =>
    rintro x (inside | here)
    · cases inside
    · exact here
  | cons y records ih =>
    let counted : Destination := { d with nextOid := d.nextOid + 1 }
    have going : (counted.enqueueOrSchedule env q (shellOf env d.nextOid y.1.key y.1.data y.2)
        ).schedulerStopped = false :=
      (Stays.running (enqueueOrSchedule_stays env counted q _)).trans running
    intro x here
    rw [List.foldl_cons]
    refine ih going x ?_
    rcases here with inside | awaits
    · rcases List.mem_cons.mp inside with rfl | later
      · exact Or.inr (shell_awaits (d := counted) running d.nextOid x)
      · exact Or.inl later
    · have before : Awaits env q counted x := awaits
      exact Or.inr (before.enqueueOrSchedule _)

theorem receives_waiting {json : Json} {cid : Nat} {l : List Message} {n : Nat} (few : l.length ≤ n)
    {c : Consumer} (object : get d.objects cid = some c) (own : c.queue = .own cid)
    (waiting : (d.queues (.own cid)).toList = l) {x : Message} (inside : x ∈ l) {content : Content}
    (persistent : x.isPersistent = true) (bytes : x.cachedStorageBytes = some content)
    (back : readContent json x content = some { x with content := content })
    (lives : Message.isExpired { x with content := content } env.nowMs = false) :
    ∃ m ∈ receives json env cid n d, m.content = content := by
  induction l generalizing n d c with
  | nil => cases inside
  | cons y l ih =>
    obtain ⟨n, rfl⟩ := Nat.exists_eq_succ_of_ne_zero (n := n) (by
      rintro rfl
      simp at few)
    have first : ∃ e r, taken (readBytes json) c d = some (e, r) := by
      cases found : taken (readBytes json) c d with
      | none =>
        have nothing := taken_none found
        rw [own, waiting] at nothing
        cases nothing
      | some next => exact ⟨next.1, next.2, rfl⟩
    obtain ⟨e, r, found⟩ := first
    obtain ⟨y', order, read, objects, _⟩ := taken_first found
    rw [own, waiting, List.cons.injEq] at order
    obtain ⟨rfl, rest⟩ := order
    have reads : x = y → r = some { x with content := content, cachedStorageBytes := none } := by
      rintro rfl
      rw [read]
      unfold readBytes
      rw [if_pos persistent, bytes]
      dsimp only
      rw [back, Option.map_some]
    have one := @recvTimed_eq (readBytes json) (-1) cid c d (fun _ => ⟨env.nowMs, 0⟩) object
    rw [found] at one
    cases r with
    | none =>
      dsimp only at one
      have other : x ≠ y := by
        intro same
        cases reads same
      have unfolded : receives json env cid (n + 1) d = receives json env cid n e := by
        rw [receives, one]
      rw [unfolded]
      refine ih (by simpa using few) (c := c) ?_ own (own ▸ rest.symm)
        ((List.mem_cons.mp inside).resolve_left other)
      rw [objects]
      exact object
    | some m =>
      dsimp only at one
      by_cases late : m.isExpired env.nowMs = true
      · -- The call goes on as a call on the rest of the queue.
        rw [if_pos late, if_neg (by simp [spent])] at one
        have other : x ≠ y := by
          intro same
          rw [Option.some.inj (reads same)] at late
          rw [show Message.isExpired { x with content := content, cachedStorageBytes := none }
            env.nowMs = false from lives] at late
          cases late
        have left : ((skip (readBytes json) c d).queues (.own cid)).toList = l := by
          rw [← own, skip_queue, own, waiting]
          rfl
        have same : receives json env cid (n + 1) d =
            receives json env cid (n + 1) (skip (readBytes json) c d) := by
          rw [receives, one, receives]
          rfl
        rw [same]
        refine ih (by simp at few; omega) (c := c) ?_ own left
          ((List.mem_cons.mp inside).resolve_left other)
        rw [skip_objects]
        exact object
      · rw [if_neg late] at one
        have unfolded : receives json env cid (n + 1) d =
            m :: receives json env cid n (e.setObject cid (track c m)) := by
          rw [receives, one]
        rw [unfolded]
        rcases List.mem_cons.mp inside with same | later
        · exact ⟨m, List.mem_cons_self, by rw [Option.some.inj (reads same)]⟩
        · have tracked : (track c m).queue = .own cid := by
            have settled := track_settings c m
            simp only [settings, Prod.mk.injEq] at settled
            exact settled.2.1.trans own
          obtain ⟨m', returned, content'⟩ := ih (n := n) (d := e.setObject cid (track c m))
            (by simpa using few) (get_put_same _ _ _) tracked (own ▸ rest.symm) later
          exact ⟨m', List.mem_cons_of_mem m returned, content'⟩

theorem Intact.connected {opens : Paths} (json : Json) {w : Subscription} {s : Ledger}
    (intact : Intact opens w s) : Outlives json w s := by
  intro env id mode permitted d connects o owing lives back
  obtain ⟨n, e, here, live, key, told, _⟩ := intact.backlog.kept o owing
  rcases createDurable_cases intact.registry.topic env id mode w.clientID w.name w.selector with
    ⟨e', failed⟩ | ⟨sub, joined, from_⟩
  · rw [failed] at connects
    cases connects
  · rw [joined, Prod.mk.injEq] at connects
    obtain ⟨rfl, _⟩ := connects
    have directory : sub.storage = w.storage := by
      have belongs := attached_belongs intact (fun _ => rfl) (Or.inl ⟨rfl, rfl⟩) from_ none
      rcases belongs with ⟨_, same, _⟩ | ⟨other, _⟩
      · exact congrArg StorageId.sub same
      · exact absurd rfl other
    let c : Consumer := ⟨mode,.own id,sub.storage,w.selector,[],.empty,[]⟩
    let placed := s.topic.setObject id c
    have scanned : (e, n) ∈ (s.topic.stores w.storage).scan := by
      unfold Store.scan
      rw [if_pos intact.backlog.good]
      exact mem_liveRecords_iff.mpr ⟨here, live⟩
    have record : (e, n) ∈ (placed.stores sub.storage).scan := by
      rw [directory]
      exact scanned
    obtain ⟨oid, waits⟩ := replay_awaits (d := placed) (q := .own id) intact.running
      (e, n) (Or.inl record)
    obtain ⟨number, data⟩ := told
    have time : storedDeliveryTime env e.data = storedDeliveryTime env o.2.content := by
      rw [data]
      rfl
    refine ⟨number, ?_⟩
    dsimp only at waits ⊢
    rw [time] at waits
    let shell := shellOf env oid e.key e.data n
    let content := e.data.withDeliveryTime (storedDeliveryTime env e.data)
    have told : content = ({ o.2.content with uuid := o.1, number := number }).withDeliveryTime
        (storedDeliveryTime env o.2.content) := by
      rw [← data, ← time]
    have bytes : shell.cachedStorageBytes = some content := rfl
    have object := (replayFromStorage_same env placed (.own id) sub.storage).objects
    split at waits
    · rename_i due
      rw [if_pos due]
      let after := s.topic.attachDurable env id mode w.key sub w.selector
      have inside : shell ∈ (after.queues (.own id)).toList := waits
      have attached : get after.objects id = some c := by
        simp only [after, Destination.attachDurable]
        rw [object]
        exact get_put_same _ _ _
      have still : Message.isExpired { shell with content := content } env.nowMs = false := by
        rw [told]
        exact lives
      have read : readContent json shell content = some { shell with content := content } :=
        back (e, n) scanned key oid
      have got := receives_waiting (d := after) (le_refl _) attached rfl rfl inside rfl bytes read still
      rw [told] at got
      exact got
    · rename_i due
      rw [if_neg due]
      exact ⟨shell, waits, bytes.trans (congrArg some told)⟩

end Connection

theorem unused_intact (opens : Paths) (w : Subscription) {start : Destination} (unused : Unused start)
    (topic : start.isTopicFamily = true) (running : start.schedulerStopped = false)
    (good : (start.stores w.storage).good = true) : Intact opens w { topic := start } := by
  have nobody : ∀ cid c, get start.objects cid ≠ some c := by
    intro cid c object
    rw [unused.objects] at object
    cases object
  have begun : Begun start := ⟨topic, unused.consumers, unused.subs, unused.names⟩
  refine ⟨begun.registry, unused.labelled, running, ?_, good, ?_, ?_, ?_, ?_, ?_⟩
  · intro k sub found
    rw [unused.subs] at found
    cases found
  · exact fun cid c object => (nobody cid c object).elim
  · exact fun cid c works => (nobody cid c works.1).elim
  · exact fun cid c works => (nobody cid c works.1).elim
  · exact fun x _ c works => (nobody x.1 c works.1).elim
  · intro o member
    cases member

/-- In every run from a start with any directories in which the subscription is in the
    registry whenever a message concerns it, in which no two subscriptions share a name there
    or a directory or have one below the other, and in which a receive finds nothing that cannot
    be read: in every state the subscriber, when it connects, gets every message that it is owed
    and that can be read. -/
theorem durable_outlives (opens : Paths) (json : Json) (w : Subscription) {start : Destination}
    (unused : Unused start) (topic : start.isTopicFamily = true)
    (running : start.schedulerStopped = false) (good : (start.stores w.storage).good = true)
    (calls : List Call)
    (meets : Meets (advance opens w)
      (fun s call => Permitted w s call ∧ Heeded opens json w s call) { topic := start } calls) :
    ∀ s ∈ states (advance opens w) { topic := start } calls, Outlives json w s := by
  intro s reached
  exact (invariant_along (step_intact opens json w)
    (unused_intact opens w unused topic running good) meets s reached).connected json

def plainSubscription : Subscription := ⟨[],['s'],none⟩

theorem plainSubscription_apart : Apart slashes plainSubscription [] ['s'] := Or.inl ⟨rfl, rfl⟩

def twoLetters : List Call :=
  [.createDurableConsumer calm 1 .AUTO_ACKNOWLEDGE [] ['s'] none, .createProducer 5 .AUTO_ACKNOWLEDGE,
    .send calm 5 [] (letter 0 7), .recv calm 1 0, .deleteConsumer 1, .send calm 5 [] (letter 0 8),
    .restart calm]

def afterTwo : Ledger :=
  twoLetters.foldl (advance slashes plainSubscription) { topic := { type := .Topic } }

set_option maxRecDepth 20000 in
theorem twoLetters_read (uuid : UUID) :
    ReadsBack plainTexts calm plainSubscription afterTwo.topic uuid := by
  intro x inside _ oid
  rcases List.mem_cons.mp inside with rfl | inside
  · rfl
  · obtain rfl := List.mem_singleton.mp inside
    rfl

set_option maxRecDepth 20000 in
theorem durable_outlives_two : afterTwo.owed.map Prod.fst = [7, 8] ∧
    ∀ o ∈ afterTwo.owed, Gets plainTexts calm 2 (afterTwo.topic.createDurableConsumer calm 2
      .AUTO_ACKNOWLEDGE [] ['s'] none).1 o.1 o.2 := by
  have nothing : ∀ (id : Nat) (p : Place), Waits (.own id) p →
      messagesAt { type := .Topic } p = [] := by
    rintro id p (rfl | rfl) <;> rfl
  have outlives := durable_outlives slashes plainTexts plainSubscription (new_unused .Topic) rfl rfl
    rfl twoLetters (by
      refine ⟨⟨⟨⟨rfl, nothing 1⟩, by simp, fun _ => rfl⟩, ⟨by simp [published], plainSubscription_apart, ?_⟩⟩,
        ⟨trivial, by simp [published], trivial⟩, ⟨⟨rfl, fun _ => rfl⟩, ?_, trivial⟩,
        ⟨trivial, by simp [published], ?_⟩,
        ⟨trivial, by simp [published], trivial⟩, ⟨⟨rfl, fun _ => rfl⟩, ?_, trivial⟩,
        ⟨trivial, by simp [published], trivial⟩, trivial⟩
      · intro k sub found
        cases found
      · intro env m _ _ absent
        cases absent
      · intro c object x inside persistent content bytes
        obtain rfl := Option.some.inj object
        obtain rfl := List.mem_singleton.mp inside
        obtain rfl := Option.some.inj bytes
        rfl
      · intro env m _ _ absent
        cases absent) afterTwo (last_state_mem _ _ _)
  refine ⟨by decide, ?_⟩
  intro o owing
  refine outlives calm 2 .AUTO_ACKNOWLEDGE ⟨⟨rfl, ?_⟩, by simp, fun _ => rfl⟩ _ rfl o owing ?_
    (twoLetters_read o.1)
  · rintro p (rfl | rfl) <;> rfl
  · revert o
    decide

def beforeReconnection : List Call :=
  [.createDurableConsumer calm 1 .AUTO_ACKNOWLEDGE [] ['s'] none, .deleteConsumer 1, .restart calm,
    .createProducer 5 .AUTO_ACKNOWLEDGE, .send calm 5 [] (letter 0 7)]

def afterReturn : Ledger :=
  beforeReconnection.foldl (advance slashes plainSubscription) { topic := { type := .Topic } }

/- `save` does not find the subscription in the registry and no record is written. -/
theorem unregistered_loses : Meets (advance slashes plainSubscription) (Permitted plainSubscription)
      { topic := { type := .Topic } } beforeReconnection ∧
    afterReturn.owed.map Prod.fst = [7] ∧ ¬ Outlives plainTexts plainSubscription afterReturn := by
  have nothing : ∀ (id : Nat) (p : Place), Waits (.own id) p →
      messagesAt { type := .Topic } p = [] := by
    rintro id p (rfl | rfl) <;> rfl
  refine ⟨⟨⟨⟨rfl, nothing 1⟩, by simp, fun _ => rfl⟩, trivial, trivial, trivial, ⟨rfl, fun _ => rfl⟩,
    trivial⟩, by decide, ?_⟩
  intro outlives
  obtain ⟨o, owing⟩ : ∃ o, o ∈ afterReturn.owed := ⟨_, List.mem_cons_self⟩
  have plain : o.2.isExpired calm.nowMs = false ∧ storedDeliveryTime calm o.2.content = 0 := by
    revert o
    decide
  have nowhere : (afterReturn.topic.stores plainSubscription.storage).scan = [] := rfl
  obtain ⟨number, gets⟩ := outlives calm 2 .AUTO_ACKNOWLEDGE
    ⟨⟨rfl, by rintro p (rfl | rfl) <;> rfl⟩, by simp, fun _ => rfl⟩ _ rfl o owing plain.1 (by
      intro x inside
      rw [nowhere] at inside
      cases inside)
  have empty : receives plainTexts calm 2 ((afterReturn.topic.createDurableConsumer calm 2
      .AUTO_ACKNOWLEDGE [] ['s'] none).1.queues (.own 2)).toList.length
        (afterReturn.topic.createDurableConsumer calm 2 .AUTO_ACKNOWLEDGE [] ['s'] none).1 = [] := by
    decide
  dsimp only at gets
  rw [if_pos (Or.inl plain.2)] at gets
  obtain ⟨x, returned, _⟩ := gets
  cases empty ▸ returned

end TinyMqDurableDelivery
