import TinyMq.Broker.SelectorSafety

/-!
ADR-0008: the delivery headers of a message are in its header and, for a persistent
one, in its cached bytes as well, and `recv` returns those of the bytes. Whatever
puts a message into a queue or gives it to the scheduler leaves both the same.
-/
namespace TinyMqCacheCoherence
open DelimitedText AssocLists BandQueues TinyMqTom TinyMqMessage TinyMqStore
open TinyMqDestination TinyMqTransactionBuffer TinyMqSession TinyMqFrames TinyMqQueueRuns
open TinyMqPlaces TinyMqOrigins TinyMqInversion TinyMqSelectorSafety

def Current (m : Message) : Prop :=
  m.isPersistent = true → ∃ content, m.cachedStorageBytes = some content ∧
    content.headers.deliveryTime = m.content.headers.deliveryTime

/-- The places a message has its bytes in. -/
def Ahead : Place → Prop
  | .queued _ | .scheduled _ | .staged _ => True
  | .inFlight _ | .received _ => False

def AllCurrent (d : Destination) : Prop := ∀ p, Ahead p → ∀ m ∈ messagesAt d p, Current m

section Messages
variable (env : Env)

theorem current_volatile {m : Message} (volatile : ¬ m.isPersistent = true) : Current m :=
  fun persistent => absurd persistent volatile

theorem patched_current {m : Message} (current : Current m) (t : Int) :
    Current ((m.setDeliveryTime t).patchCachedDeliveryTime t) := by
  intro persistent
  obtain ⟨content, cached, _⟩ := current persistent
  refine ⟨content.withDeliveryTime t, ?_, rfl⟩
  simp [Message.patchCachedDeliveryTime, Message.setDeliveryTime, cached]

theorem clampFuture_current {m : Message} (current : Current m) : Current (clampFuture env m) := by
  unfold clampFuture
  split
  · exact patched_current current 0
  · exact current

theorem resolveDelay_current {m : Message} (current : Current m) : Current (resolveDelay env m) := by
  unfold resolveDelay
  split
  · dsimp only
    split
    · exact patched_current current (env.nowMs + m.pendingDeliveryDelay)
    · rename_i volatile
      exact current_volatile volatile
  · exact current

theorem refreshed_current (m : Message) : Current m.refreshCachedStorageBytes := by
  unfold Message.refreshCachedStorageBytes
  split
  · exact fun _ => ⟨_, rfl, rfl⟩
  · rename_i volatile
    exact current_volatile volatile

theorem shell_current (oid : Nat) (uuid : UUID) (content : Content) (location : Nat) :
    Current (shellOf env oid uuid content location) :=
  fun _ => ⟨_, rfl, rfl⟩

theorem preparePush_current (d : Destination) (cid : Nat) (c : Consumer) (number : Int) (t : Text)
    (m : Message) :
    Still d (d.preparePush env cid c number t m).1 ∧
      Current (d.preparePush env cid c number t m).2 := by
  have prepared := preparePush_prepared env d cid c number t m
  refine ⟨prepared.still, ?_⟩
  unfold Destination.preparePush
  dsimp only
  split
  · split
    · exact fun _ => ⟨_, rfl, rfl⟩
    · exact fun _ => ⟨_, rfl, rfl⟩
  · rename_i volatile
    exact current_volatile volatile

end Messages

section Places
variable {d d' : Destination}

theorem AllCurrent.fewer (all : AllCurrent d)
    (less : ∀ p, (messagesAt d' p).Subperm (messagesAt d p)) : AllCurrent d' :=
  fun p ahead m inside => all p ahead m ((less p).subset inside)

theorem AllCurrent.still (all : AllCurrent d) (still : Still d d') : AllCurrent d' :=
  all.fewer still.less

theorem AllCurrent.numbered (all : AllCurrent d) :
    AllCurrent { d with nextOid := d.nextOid + 1 } := by
  refine all.still ?_
  intro p
  cases p <;> rfl

theorem AllCurrent.take {p : Place} {ms : List Message} (all : AllCurrent d)
    (takes : Takes p ms d d') : AllCurrent d' := by
  refine all.fewer ?_
  intro p'
  by_cases here : p' = p
  · subst here
    exact (List.sublist_append_right ms _).subperm.trans takes.1.symm.subperm
  · rw [takes.2 p' here]

theorem AllCurrent.put {p : Place} {m : Message} (all : AllCurrent d) (puts : Puts p m d d')
    (current : Current m) : AllCurrent d' := by
  intro p' ahead x inside
  by_cases here : p' = p
  · subst here
    rcases List.mem_cons.mp (puts.1.mem_iff.mp inside) with rfl | old
    · exact current
    · exact all p' ahead x old
  · rw [puts.2 p' here] at inside
    exact all p' ahead x inside

theorem AllCurrent.fold {ι : Type} {g : Destination → ι → Destination} {l : List ι}
    (each : ∀ e i, i ∈ l → AllCurrent e → AllCurrent (g e i)) (all : AllCurrent d) :
    AllCurrent (l.foldl g d) :=
  List.foldlRecOn l g all fun e here i inside => each e i inside here

theorem enqueueOrSchedule_current (env : Env) (all : AllCurrent d) (q : QueueId) {m : Message}
    (current : Current m) : AllCurrent (d.enqueueOrSchedule env q m) := by
  have clamped := clampFuture_current env current
  rcases enqueueOrSchedule_cases env d q m with now | dropped | later
  · rw [now]
    exact all.put (enqueue_puts d q _) clamped
  · rw [dropped]
    exact all
  · rw [later]
    exact all.put (schedule_puts d _ q _) clamped

theorem stage_current (all : AllCurrent d) (pid : Nat) {m : Message} (current : Current m) :
    AllCurrent (d.stage pid m) := by
  unfold Destination.stage
  split
  · exact all
  · rename_i p found
    refine all.put (p := .staged pid) ⟨?_, fun p' other => setProducer_other other⟩ current
    simp only [messagesAt, get_put_same, found, stagedBy, Option.map_some, Option.getD_some]
    exact enqueue_perm p.transactQueue m.band m

end Places

section Calls
variable {d : Destination} (env : Env)

theorem push_current (all : AllCurrent d) (number : Int) (pid : Nat) (t : Text) (m : Message)
    (cid : Nat) : AllCurrent (Destination.push env number pid t m d cid) := by
  unfold Destination.push
  split
  · exact all
  · rename_i c object
    split
    · obtain ⟨still, current⟩ := preparePush_current env d cid c number t m
      have ready := all.still still
      generalize d.preparePush env cid c number t m = r at ready current ⊢
      obtain ⟨e, copy⟩ := r
      dsimp only at ready current ⊢
      split
      · split
        · exact enqueueOrSchedule_current env ready c.queue current
        · exact ready.put (enqueue_puts e c.queue copy) current
      · exact stage_current ready pid current
    · exact all

theorem persistOffline_current (all : AllCurrent d) (m : Message) :
    AllCurrent (d.persistOffline env m) := by
  unfold Destination.persistOffline
  refine all.fold ?_
  intro e entry _ here
  split
  · exact here
  · split
    · exact here.still (stores_still e _)
    · exact here

theorem save_current (all : AllCurrent d) (pid : Nat) (t : Text) (m : Message) :
    AllCurrent (d.save env pid t m) := by
  have counted : AllCurrent { d with messageCounter := d.messageCounter + 1 } := by
    refine all.still ?_
    intro p
    cases p <;> rfl
  have pushed := counted.fold (l := d.targets)
    fun e cid _ here => push_current env here d.messageCounter pid t m cid
  unfold Destination.save
  dsimp only
  split
  · exact persistOffline_current env pushed m
  · exact pushed

theorem deliverCommitted_current (all : AllCurrent d) {m : Message} (current : Current m) :
    AllCurrent (d.deliverCommitted env m) := by
  unfold Destination.deliverCommitted
  split
  · split
    · exact all
    · split
      · exact all
      · rename_i c _
        exact enqueueOrSchedule_current env all c.queue current
  · have copies : AllCurrent (d.consumers.foldl (Destination.deliverTo env m) d) := by
      refine all.fold ?_
      intro e cid _ here
      unfold Destination.deliverTo
      split
      · exact here
      · rename_i c _
        exact enqueueOrSchedule_current env here.numbered c.queue (m := m.copy e.nextOid) current
    dsimp only
    split
    · exact persistOffline_current env copies m
    · exact copies

theorem commitTransaction_current (all : AllCurrent d) (t : Text) :
    AllCurrent (d.commitTransaction env t) := by
  unfold Destination.commitTransaction
  split
  · exact all
  · refine all.still ?_
    intro p
    cases p <;> rfl

theorem commitProducer_current (all : AllCurrent d) (pid : Nat) (t : Text) :
    AllCurrent (d.commitProducer env pid t) := by
  unfold Destination.commitProducer
  split
  · exact all
  · rename_i p found
    split
    · have drained : ∀ m ∈ p.transactQueue.toList, Current m := by
        intro m inside
        refine all (.staged pid) trivial m ?_
        simpa [messagesAt, stagedBy, found] using inside
      have patched : AllCurrent (p.transactQueue.toList.foldl (Destination.patchPending env)
          (d.clearStaged pid p)) := by
        refine (all.take (clearStaged_takes found)).fold ?_
        intro e m _ here
        unfold Destination.patchPending
        split
        · exact here.still (buffer_still e _)
        · exact here
      refine (commitTransaction_current env patched t).fold ?_
      intro e m inside here
      obtain ⟨x, was, rfl⟩ := List.mem_map.mp inside
      exact deliverCommitted_current env here (resolveDelay_current env (drained x was))
    · exact all

theorem redeliver_current (all : AllCurrent d) (c : Consumer) (closing : Bool) (m : Message) :
    AllCurrent (d.redeliver env c closing m).1 := by
  unfold Destination.redeliver
  dsimp only
  split
  · obtain ⟨stores, dropped⟩ := dropRecords_stores d c [countRedelivery m]
    have one : d.dropRecord c (countRedelivery m) = { d with stores := stores } := dropped
    rw [one]
    exact all.still (stores_still d stores)
  · split
    · exact enqueueOrSchedule_current env all c.queue (refreshed_current _)
    · exact all.put (enqueue_puts d c.queue _) (refreshed_current _)

theorem redeliverAll_current (all : AllCurrent d) (c : Consumer) (closing : Bool)
    (ms : List Message) : AllCurrent (d.redeliverAll env c closing ms).1 := by
  induction ms generalizing d with
  | nil => exact all
  | cons m ms ih => exact ih (redeliver_current env all c closing m)

theorem recover_current (all : AllCurrent d) (cid : Nat) : AllCurrent (d.recover env cid).1 := by
  unfold Destination.recover
  split
  · exact all
  · rename_i c object
    exact redeliverAll_current env (all.take (emptyChain_takes object)) c false c.inFlight

theorem rollbackConsumer_current (all : AllCurrent d) (cid : Nat) (closing : Bool) :
    AllCurrent (d.rollbackConsumer env cid closing).1 := by
  unfold Destination.rollbackConsumer
  split
  · exact all
  · rename_i c object
    split
    · exact redeliverAll_current env (all.take (emptyReceived_takes object)) c closing _
    · exact all

theorem destroyConsumer_current (all : AllCurrent d) (cid : Nat) :
    AllCurrent (d.destroyConsumer env cid).1 := by
  unfold Destination.destroyConsumer
  split
  · exact all
  · rename_i c object
    have removed : AllCurrent (c.pendingAcks.foldl (fun d rec => d.removeRecord c.storage rec) d) :=
      all.fold fun e rec _ here => here.still (stores_still e _)
    have same : Same d (c.pendingAcks.foldl (fun d rec => d.removeRecord c.storage rec) d) :=
      same_fold (fun e rec _ => removeRecord_same e c.storage rec) d
    have there : get (c.pendingAcks.foldl (fun d rec => d.removeRecord c.storage rec) d).objects
        cid = some c := by
      rw [same.objects]
      exact object
    have flushed : AllCurrent (d.flushPendingAcks cid c) := removed.still (setObject_still there rfl rfl)
    exact (rollbackConsumer_current env flushed cid false).fewer (eraseObject_fewer cid)

theorem acceptDeadLetter_current (all : AllCurrent d) (m : Message) :
    AllCurrent (acceptDeadLetter env m d) := by
  unfold acceptDeadLetter
  dsimp only
  split
  · have stored : AllCurrent (Destination.appendRecord env { d with nextOid := d.nextOid + 1 }
        .shared (deadLetterCopy m d.nextOid).uuid (deadLetterCopy m d.nextOid).content).1 :=
      all.numbered.still (stores_still _ _)
    dsimp only
    split
    · exact enqueueOrSchedule_current env stored .shared fun _ => ⟨_, rfl, rfl⟩
    · exact stored
  · rename_i volatile
    dsimp only
    split
    · exact enqueueOrSchedule_current env all.numbered .shared (current_volatile volatile)
    · exact all.numbered

theorem replayFromStorage_current (all : AllCurrent d) (q : QueueId) (sid : StorageId) :
    AllCurrent (d.replayFromStorage env q sid) := by
  unfold Destination.replayFromStorage
  refine all.fold ?_
  intro e x _ here
  exact enqueueOrSchedule_current env here.numbered q (shell_current env _ _ _ _)

theorem newObject_current (all : AllCurrent d) (id : Nat) (mode : AcknowledgeMode) (q : QueueId)
    (sid : StorageId) (selector : Option Selector) :
    AllCurrent (d.setObject id ⟨mode,q,sid,selector,[],.empty,[]⟩) :=
  all.fewer (newObject_fewer id rfl rfl)

theorem registered_current (all : AllCurrent d) (consumers : List Nat)
    (subs : Assoc Text DurableSubState) (names : Assoc Nat Text) :
    AllCurrent { d with
      consumers := consumers, durableSubs := subs, consumerToSubName := names } := by
  refine all.still ?_
  intro p
  cases p <;> rfl

theorem dropDefault_current (all : AllCurrent d) : AllCurrent d.dropDefault := by
  unfold Destination.dropDefault
  split
  · exact all
  · rename_i old _
    refine (all.fewer (eraseObject_fewer old)).still ?_
    intro p
    cases p <;> rfl

theorem createConsumer_current (all : AllCurrent d) (id : Nat) (mode : AcknowledgeMode)
    (selector : Option Selector) : AllCurrent (d.createConsumer env id mode selector) := by
  unfold Destination.createConsumer
  split
  · have joined := newObject_current (dropDefault_current all) id mode .shared .shared selector
    dsimp only
    split
    · exact registered_current (replayFromStorage_current env joined .shared .shared) _ _ _
    · exact registered_current joined _ _ _
  · exact registered_current (newObject_current all id mode (.own id) .shared selector) _ _ _

theorem createDurableConsumer_current (all : AllCurrent d) (id : Nat) (mode : AcknowledgeMode)
    (clientID name : Text) (selector : Option Selector) :
    AllCurrent (d.createDurableConsumer env id mode clientID name selector).1 := by
  have attached : ∀ sub : DurableSubState, AllCurrent
      (d.attachDurable env id mode (durableKey clientID name) sub selector) := by
    intro sub
    have joined := newObject_current all id mode (.own id) sub.storage selector
    exact registered_current (replayFromStorage_current env joined (.own id) sub.storage) _ _ _
  unfold Destination.createDurableConsumer
  split
  · exact all
  · dsimp only
    split
    · exact attached _
    · split
      · exact all
      · exact attached _

theorem send_current (all : AllCurrent d) (pid : Nat) (t : Text) (m : Message) :
    AllCurrent (d.send env pid t m).1 := by
  unfold Destination.send
  split
  · exact all
  · exact save_current env all pid t _

theorem sendWith_current (all : AllCurrent d) (pid : Nat) (t : Text) (m : Message)
    (opts : SendOptions) : AllCurrent (d.sendWith env pid t m opts).1 := by
  unfold Destination.sendWith
  split
  · exact all
  · split
    · exact all
    · exact save_current env all pid t _

end Calls

def Brings : Call → Prop
  | .createConsumer _ _ _ _ | .createDurableConsumer _ _ _ _ _ _ | .send _ _ _ _
  | .sendWith _ _ _ _ _ | .commitProducer _ _ _ | .recover _ _ | .rollbackConsumer _ _ _
  | .destroyConsumer _ _ | .acceptDeadLetter _ _ => True
  | _ => False

def Reads : Call → Prop
  | .createConsumer _ _ _ _ | .createDurableConsumer _ _ _ _ _ _ => True
  | _ => False

theorem replays_reads {d : Destination} {q : QueueId} {sid : StorageId} {call : Call}
    (asked : Replays d q sid call) : Reads call := by
  cases call with
  | createConsumer env id mode selector => trivial
  | createDurableConsumer env id mode clientID name selector => trivial
  | _ => exact asked.elim

theorem quiet_current {d : Destination} (unique : HeldOnce d) (all : AllCurrent d) {call : Call}
    (quiet : ¬ Brings call) : AllCurrent (next d call) := by
  intro p ahead m inside
  have origin := (step_origin unique call).origin p m inside
  cases origin with
  | kept here => exact all p ahead m here
  | replayed asked _ _ _ _ =>
    cases call with
    | createConsumer env id mode selector => exact absurd trivial quiet
    | createDurableConsumer env id mode clientID name selector => exact absurd trivial quiet
    | _ => exact asked.elim
  | pushed sends _ _ _ _ _ _ _ =>
    cases call with
    | send env pid t m => exact absurd trivial quiet
    | sendWith env pid t m opts => exact absurd trivial quiet
    | _ => exact sends.elim
  | staged sends _ _ _ _ =>
    cases call with
    | send env pid t m => exact absurd trivial quiet
    | sendWith env pid t m opts => exact absurd trivial quiet
    | _ => exact sends.elim
  | delivered commit _ _ _ _ _ _ =>
    subst commit
    exact absurd trivial quiet
  | received _ _ _ _ place =>
    rcases place with rfl | rfl
    · exact ahead.elim
    · exact ahead.elim
  | redelivered gives _ _ _ _ _ _ =>
    cases call with
    | recover env id => exact absurd trivial quiet
    | rollbackConsumer env id closing => exact absurd trivial quiet
    | destroyConsumer env id => exact absurd trivial quiet
    | _ => exact gives.elim
  | due _ was => exact all (.scheduled _) trivial m was
  | deadLettered accepts_ _ _ _ _ _ =>
    subst accepts_
    exact absurd trivial quiet

theorem call_current {d : Destination} (unique : HeldOnce d) (all : AllCurrent d) (call : Call) :
    AllCurrent (next d call) := by
  cases call with
  | createConsumer env id mode selector => exact createConsumer_current env all id mode selector
  | createDurableConsumer env id mode clientID name selector =>
    exact createDurableConsumer_current env all id mode clientID name selector
  | send env pid t m => exact send_current env all pid t m
  | sendWith env pid t m opts => exact sendWith_current env all pid t m opts
  | commitProducer env pid t => exact commitProducer_current env all pid t
  | recover env cid => exact recover_current env all cid
  | rollbackConsumer env cid closing => exact rollbackConsumer_current env all cid closing
  | destroyConsumer env cid => exact destroyConsumer_current env all cid
  | acceptDeadLetter env m => exact acceptDeadLetter_current env all m
  | _ => exact quiet_current unique all id

/-- A call, or a setting that changes. -/
inductive Act where
  | call (call : Call)
  | setRedeliveryPolicy (policy : RedeliveryPolicy)
  | setDefault (pid : Nat) (opts : SendOptions)
  | setDisableMessageID (pid : Nat) (value : Bool)
  | setDisableMessageTimestamp (pid : Nat) (value : Bool)
  | stopScheduler

def setProducer (d : Destination) (pid : Nat) (f : Producer → Producer) : Destination :=
  match get d.producers pid with
  | none => d
  | some p => { d with producers := put d.producers pid (f p) }

def act (d : Destination) : Act → Destination
  | .call call => next d call
  | .setRedeliveryPolicy policy => { d with redeliveryPolicy := policy }
  | .setDefault pid opts =>
    match validateSendOptions opts with
    | .error _ => d
    | .ok _ => setProducer d pid fun p => { p with default := some opts }
  | .setDisableMessageID pid value => setProducer d pid fun p => { p with disableMessageID := value }
  | .setDisableMessageTimestamp pid value =>
    setProducer d pid fun p => { p with disableMessageTimestamp := value }
  | .stopScheduler => { d with schedulerStopped := true }

def Act.replays : Act → Prop
  | .call c => Reads c
  | _ => False

theorem setProducer_still (d : Destination) (pid : Nat) {f : Producer → Producer}
    (same : ∀ p, (f p).transactQueue = p.transactQueue) :
    Still d (setProducer d pid f) ∧ (setProducer d pid f).nextOid = d.nextOid := by
  unfold setProducer
  split
  · exact ⟨fun _ => rfl, rfl⟩
  · rename_i p found
    refine ⟨?_, rfl⟩
    intro place
    by_cases here : place = .staged pid
    · subst here
      simp [messagesAt, stagedBy, found, same]
    · exact setProducer_other here

theorem act_still (d : Destination) (a : Act) :
    (∃ call, a = .call call) ∨ Still d (act d a) ∧ (act d a).nextOid = d.nextOid := by
  cases a with
  | call call => exact Or.inl ⟨call, rfl⟩
  | setRedeliveryPolicy policy =>
    refine Or.inr ⟨?_, rfl⟩
    intro p
    cases p <;> rfl
  | setDefault pid opts =>
    right
    unfold act
    dsimp only
    split
    · exact ⟨fun _ => rfl, rfl⟩
    · exact setProducer_still d pid fun _ => rfl
  | setDisableMessageID pid value => exact Or.inr (setProducer_still d pid fun _ => rfl)
  | setDisableMessageTimestamp pid value => exact Or.inr (setProducer_still d pid fun _ => rfl)
  | stopScheduler =>
    refine Or.inr ⟨?_, rfl⟩
    intro p
    cases p <;> rfl

/-- What every act keeps: no object is in two places, the bytes are current, and a
    message in a transaction has its own bytes. -/
structure Coherent (d : Destination) : Prop where
  unique : HeldOnce d
  current : AllCurrent d
  staged : ∀ pid, ∀ m ∈ messagesAt d (.staged pid), Cached m

theorem Idle.coherent {d : Destination} (idle : Idle d) : Coherent d where
  unique := idle.tracked _
  current := by
    intro p _ m inside
    rw [idle p] at inside
    cases inside
  staged := by
    intro pid m inside
    rw [idle] at inside
    cases inside

theorem Coherent.act {d : Destination} (coherent : Coherent d) (a : Act) : Coherent (act d a) := by
  rcases act_still d a with ⟨call, rfl⟩ | ⟨still, next⟩
  · refine ⟨step_unique coherent.unique call, call_current coherent.unique coherent.current call, ?_⟩
    intro pid m inside
    cases (step_origin coherent.unique call).origin _ m inside with
    | kept here => exact coherent.staged pid m here
    | staged sends transaction copy location new => exact copy.cached
    | replayed _ _ place _ _ => rcases place with place | place <;> cases place
    | pushed _ _ _ _ place _ _ _ => rcases place with place | place <;> cases place
    | delivered _ _ _ _ place _ _ => rcases place with place | place <;> cases place
    | received _ _ _ _ place => rcases place with place | place <;> cases place
    | redelivered _ _ _ _ _ _ place => rcases place with place | place <;> cases place
    | deadLettered _ _ place _ _ _ => rcases place with place | place <;> cases place
  · refine ⟨coherent.unique.still still (le_of_eq next.symm), coherent.current.still still, ?_⟩
    intro pid m inside
    rw [still] at inside
    exact coherent.staged pid m inside

/-- The message waits for a consumer, in a queue or in the scheduler. -/
def Waiting (d : Destination) (x : Message) : Prop := ∃ q p, Waits q p ∧ x ∈ messagesAt d p

/-- The act that put the message last where it waits, and the acts after it. -/
structure LastPut (start : Destination) (acts : List Act) (x : Message) (before : List Act)
    (put : Act) (after : List Act) : Prop where
  run : acts = before ++ put :: after
  absent : ¬ Waiting (before.foldl act start) x
  since : ∀ l, l <+: after → Waiting ((before ++ put :: l).foldl act start) x

theorem put_cached {d : Destination} (coherent : Coherent d) {a : Act} (other : ¬ a.replays)
    {x : Message} (absent : ¬ Waiting d x) (waits : Waiting (act d a) x) : Cached x := by
  obtain ⟨q, p, place, inside⟩ := waits
  rcases act_still d a with ⟨call, rfl⟩ | ⟨still, _⟩
  · cases (step_origin coherent.unique call).origin p x inside with
    | kept here => exact absurd ⟨q, p, place, here⟩ absent
    | replayed asked _ _ _ _ => exact absurd (replays_reads asked) other
    | pushed _ _ _ _ _ copy _ _ => exact copy.cached
    | staged _ _ copy _ _ => exact copy.cached
    | delivered _ _ _ was _ retimed _ => exact retimed.isCached (coherent.staged _ _ was)
    | received _ _ _ _ there =>
      rcases place with rfl | rfl
      · rcases there with there | there <;> cases there
      · rcases there with there | there <;> cases there
    | redelivered _ _ _ _ _ again _ => exact again.cached
    | due _ was => exact absurd ⟨_, _, Or.inr rfl, was⟩ absent
    | deadLettered _ _ _ copy _ _ => exact copy.cached
  · rw [still p] at inside
    exact absurd ⟨q, p, place, inside⟩ absent

theorem own_bytes {x : Message} (cached : Cached x) (current : Current x)
    (persistent : x.isPersistent = true) : x.cachedStorageBytes = some x.content := by
  obtain ⟨t, bytes⟩ := cached persistent
  obtain ⟨content, same, time⟩ := current persistent
  rw [bytes, Option.some.injEq] at same
  rw [← same] at time
  have now : t = x.content.headers.deliveryTime := time
  rw [bytes, now]
  rfl

theorem waiting_current {d : Destination} (coherent : Coherent d) {x : Message}
    (waits : Waiting d x) : Current x := by
  obtain ⟨q, p, place, inside⟩ := waits
  rcases place with rfl | rfl
  · exact coherent.current (.queued q) trivial x inside
  · exact coherent.current (.scheduled q) trivial x inside

theorem coherent_reached {start : Destination} (idle : Idle start) (acts : List Act) :
    Coherent (acts.foldl act start) :=
  List.foldlRecOn acts act (Idle.coherent idle) fun _ coherent a _ => coherent.act a

theorem waiting_lastPut {start : Destination} (idle : Idle start) (acts : List Act) {x : Message}
    (waits : Waiting (acts.foldl act start) x) :
    ∃ before put after, LastPut start acts x before put after := by
  induction acts using List.reverseRecOn with
  | nil =>
    obtain ⟨q, p, _, inside⟩ := waits
    rw [List.foldl_nil, idle p] at inside
    cases inside
  | append_singleton acts a ih =>
    by_cases earlier : Waiting (acts.foldl act start) x
    · obtain ⟨before, put, after, last⟩ := ih earlier
      refine ⟨before, put, after ++ [a], ?_, last.absent, ?_⟩
      · rw [last.run]
        simp
      · intro l part
        rcases List.prefix_concat_iff.mp part with whole | shorter
        · rw [whole]
          rw [last.run] at waits
          simpa using waits
        · exact last.since l shorter
    · refine ⟨acts, a, [], rfl, earlier, ?_⟩
      intro l part
      rw [List.prefix_nil.mp part]
      exact waits

/- Whatever a receive returns was put into a queue or given to the scheduler by some act of
   the run, and its delivery headers are those it had in memory then. -/
theorem recv_returns_put_headers {start : Destination} (idle : Idle start) (acts : List Act)
    {env : Env} {cid patience : Nat} {m : Message}
    (returned : ((acts.foldl act start).recv env cid patience).2 = some m) :
    ∃ x before put after, LastPut start acts x before put after ∧ m.oid = x.oid ∧
      (x.isPersistent = true → x.cachedStorageBytes = some m.content) ∧
      m.content.headers.deliveryTime = x.content.headers.deliveryTime ∧
      (¬ put.replays →
        m.content.headers.deliveryCount = x.content.headers.deliveryCount ∧
        m.content.headers.redelivered = x.content.headers.redelivered) := by
  have coherent := coherent_reached idle acts
  cases object : get (acts.foldl act start).objects cid with
  | none =>
    unfold Destination.recv at returned
    rw [object] at returned
    cases returned
  | some c =>
    obtain ⟨x, inside, opened⟩ := recv_waited env cid patience _ object returned
    have waits : Waiting (acts.foldl act start) x := ⟨c.queue, _, Or.inl rfl, inside⟩
    have current := waiting_current coherent waits
    obtain ⟨before, put, after, last⟩ := waiting_lastPut idle acts waits
    refine ⟨x, before, put, after, last, opened.oid, ?_⟩
    cases kind : x.isPersistent with
    | false =>
      rw [opened.volatile kind]
      exact ⟨by simp, rfl, fun _ => ⟨rfl, rfl⟩⟩
    | true =>
      obtain ⟨content, bytes, time⟩ := current kind
      have read : m.content = content := by rw [opened.read kind content bytes]
      rw [read]
      refine ⟨fun _ => bytes, time, ?_⟩
      intro other
      have own : Cached x := put_cached (coherent_reached idle before) other last.absent (by
        have first := last.since [] (List.nil_prefix)
        rw [List.foldl_append] at first
        exact first)
      have same : content = x.content := by
        rw [own_bytes own current kind, Option.some.injEq] at bytes
        exact bytes.symm
      rw [same]
      exact ⟨rfl, rfl⟩

def backedOff : List Act :=
  [.call (.createDefaultConsumer 0 .CLIENT_ACKNOWLEDGE),
    .call (.createConsumer calm 1 .CLIENT_ACKNOWLEDGE none),
    .setRedeliveryPolicy { backoffMs := 10 }, .call (.createProducer 5 .CLIENT_ACKNOWLEDGE),
    .call (.send calm 5 [] (letter 0 7)), .call (.recv calm 1 0), .call (.recover calm 1),
    .call (.deliverDue { calm with nowMs := 10 })]

def letterAgain : Message :=
  let sent := prepared calm { mode := .CLIENT_ACKNOWLEDGE } [] (letter 0 7)
  { sent with
    content := { sent.content with
      headers := { sent.content.headers with
        deliveryTime := 10, deliveryCount := 1, redelivered := true } },
    location := some 0 }

theorem recv_returns_put_headers_backedOff :
    ((backedOff.foldl act { type := .Queue }).recv { calm with nowMs := 10 } 1 0).2 =
      some letterAgain ∧
    ∃ x before put after, LastPut { type := .Queue } backedOff x before put after ∧
      letterAgain.oid = x.oid ∧
      (x.isPersistent = true → x.cachedStorageBytes = some letterAgain.content) ∧
      letterAgain.content.headers.deliveryTime = x.content.headers.deliveryTime ∧
      (¬ put.replays →
        letterAgain.content.headers.deliveryCount = x.content.headers.deliveryCount ∧
        letterAgain.content.headers.redelivered = x.content.headers.redelivered) := by
  have returned : ((backedOff.foldl act { type := .Queue }).recv { calm with nowMs := 10 } 1 0).2 =
      some letterAgain := by
    decide
  have idle : Idle { type := .Queue } := by
    intro p
    cases p <;> simp [messagesAt, chainOf, receivedBy, stagedBy]
  exact ⟨returned, recv_returns_put_headers idle backedOff returned⟩

end TinyMqCacheCoherence
