import TinyMq.Broker.Session

/-!
Which calls leave the registry alone: the consumers of a destination, what each
of them was created with, and the durable subscriptions. Only the creation and
the deletion of consumers and subscriptions change it.
-/
namespace TinyMqFrames
open DelimitedText AssocLists BandQueues TinyMqTom TinyMqMessage TinyMqStore TinyMqDestination
open TinyMqTransactionBuffer TinyMqSession

theorem topic_notQueue {d : Destination} (topic : d.isTopicFamily = true) :
    d.isQueueFamily = false := by
  unfold Destination.isTopicFamily at topic
  unfold Destination.isQueueFamily
  cases kind : d.type <;> simp_all

theorem queue_notTopic {d : Destination} (queue : d.isQueueFamily = true) :
    d.isTopicFamily = false := by
  cases family : d.isTopicFamily with
  | false => rfl
  | true =>
    rw [topic_notQueue family] at queue
    cases queue

theorem queue_or_topic (d : Destination) : d.isQueueFamily = true ∨ d.isTopicFamily = true := by
  unfold Destination.isQueueFamily Destination.isTopicFamily
  cases kind : d.type <;> simp

/-- The registry and the consumers themselves are as before. -/
structure Same (d d' : Destination) : Prop where
  type : d'.type = d.type
  consumers : d'.consumers = d.consumers
  objects : d'.objects = d.objects
  subs : d'.durableSubs = d.durableSubs
  names : d'.consumerToSubName = d.consumerToSubName

/-- What a call leaves alone when it is about messages. -/
def registry (d : Destination) : DestinationType × List Nat × Assoc Nat Consumer ×
    Assoc Text DurableSubState × Assoc Nat Text :=
  (d.type, d.consumers, d.objects, d.durableSubs, d.consumerToSubName)

theorem same_registry {d d' : Destination} (same : registry d' = registry d) : Same d d' := by
  simp only [registry, Prod.mk.injEq] at same
  obtain ⟨type, consumers, objects, subs, names⟩ := same
  exact ⟨type, consumers, objects, subs, names⟩

theorem Same.refl (d : Destination) : Same d d := same_registry rfl

theorem Same.trans {d d' d'' : Destination} (one : Same d d') (two : Same d' d'') : Same d d'' where
  type := two.type.trans one.type
  consumers := two.consumers.trans one.consumers
  objects := two.objects.trans one.objects
  subs := two.subs.trans one.subs
  names := two.names.trans one.names

theorem Same.after {d e d' : Destination} (same : Same e d') (start : Same d e) : Same d d' :=
  start.trans same

theorem Same.topicFamily {d d' : Destination} (same : Same d d') :
    d'.isTopicFamily = d.isTopicFamily := by
  unfold Destination.isTopicFamily
  rw [same.type]

theorem Same.queueFamily {d d' : Destination} (same : Same d d') :
    d'.isQueueFamily = d.isQueueFamily := by
  unfold Destination.isQueueFamily
  rw [same.type]

theorem Same.targets {d d' : Destination} (same : Same d d') : d'.targets = d.targets := by
  unfold Destination.targets
  rw [same.queueFamily, same.consumers]

theorem same_fold {ι : Type} {g : Destination → ι → Destination} {l : List ι}
    (one : ∀ d, ∀ i ∈ l, Same d (g d i)) (d : Destination) : Same d (l.foldl g d) := by
  induction l generalizing d with
  | nil => exact Same.refl d
  | cons i l ih =>
    rw [List.foldl_cons]
    exact (one d i (by simp)).trans
      (ih (fun d j member => one d j (List.mem_cons_of_mem i member)) (g d i))

def settings (c : Consumer) : AcknowledgeMode × QueueId × StorageId × Option Selector :=
  (c.mode, c.queue, c.storage, c.selector)

/-- The registry is as before; a consumer may hold other messages. -/
structure Steady (d d' : Destination) : Prop where
  type : d'.type = d.type
  consumers : d'.consumers = d.consumers
  settled : ∀ cid, (get d'.objects cid).map settings = (get d.objects cid).map settings
  subs : d'.durableSubs = d.durableSubs
  names : d'.consumerToSubName = d.consumerToSubName

theorem Same.steady {d d' : Destination} (same : Same d d') : Steady d d' where
  type := same.type
  consumers := same.consumers
  settled := by
    intro cid
    rw [same.objects]
  subs := same.subs
  names := same.names

theorem Steady.refl (d : Destination) : Steady d d := (Same.refl d).steady

theorem Steady.trans {d d' d'' : Destination} (one : Steady d d') (two : Steady d' d'') :
    Steady d d'' where
  type := two.type.trans one.type
  consumers := two.consumers.trans one.consumers
  settled := fun cid => (two.settled cid).trans (one.settled cid)
  subs := two.subs.trans one.subs
  names := two.names.trans one.names

theorem Steady.found {d d' : Destination} (steady : Steady d d') {cid : Nat} {c : Consumer}
    (object : get d.objects cid = some c) :
    ∃ c', get d'.objects cid = some c' ∧ settings c' = settings c := by
  have same := steady.settled cid
  rw [object, Option.map_some, Option.map_eq_some_iff] at same
  exact same

theorem Steady.found_before {d d' : Destination} (steady : Steady d d') {cid : Nat} {c' : Consumer}
    (object : get d'.objects cid = some c') :
    ∃ c, get d.objects cid = some c ∧ settings c = settings c' := by
  have same := steady.settled cid
  rw [object, Option.map_some] at same
  exact Option.map_eq_some_iff.mp same.symm

theorem Steady.queueFamily {d d' : Destination} (steady : Steady d d') :
    d'.isQueueFamily = d.isQueueFamily := by
  unfold Destination.isQueueFamily
  rw [steady.type]

theorem setObject_steady {d : Destination} {cid : Nat} {c e : Consumer}
    (object : get d.objects cid = some c) (same : settings e = settings c) :
    Steady d (d.setObject cid e) where
  type := rfl
  consumers := rfl
  settled := by
    intro i
    by_cases here : i = cid
    · rw [here, object]
      simp [Destination.setObject, same]
    · simp only [Destination.setObject, get_put_other d.objects e here]
  subs := rfl
  names := rfl

def Stays (d d' : Destination) : Prop :=
  d' = { d with
    messageCounter := d'.messageCounter, producers := d'.producers, queues := d'.queues,
    stores := d'.stores, buffer := d'.buffer, pending := d'.pending, nextOid := d'.nextOid }

theorem Stays.refl (d : Destination) : Stays d d := rfl

theorem Stays.trans {d d' d'' : Destination} (one : Stays d d') (two : Stays d' d'') :
    Stays d d'' := by
  unfold Stays at one two ⊢
  rw [two, one]

theorem Stays.after {d e d' : Destination} (stays : Stays e d') (start : Stays d e) : Stays d d' :=
  start.trans stays

theorem Stays.same {d d' : Destination} (stays : Stays d d') : Same d d' := by
  unfold Stays at stays
  rw [stays]
  exact same_registry rfl

theorem Stays.default {d d' : Destination} (stays : Stays d d') :
    d'.defaultConsumer = d.defaultConsumer := by
  unfold Stays at stays
  rw [stays]

theorem Stays.policy {d d' : Destination} (stays : Stays d d') :
    d'.redeliveryPolicy = d.redeliveryPolicy := by
  unfold Stays at stays
  rw [stays]

theorem stays_fold {ι : Type} {g : Destination → ι → Destination} {l : List ι}
    (one : ∀ d, ∀ i ∈ l, Stays d (g d i)) (d : Destination) : Stays d (l.foldl g d) := by
  induction l generalizing d with
  | nil => exact Stays.refl d
  | cons i l ih =>
    rw [List.foldl_cons]
    exact (one d i (by simp)).trans
      (ih (fun d j member => one d j (List.mem_cons_of_mem i member)) (g d i))

section Deliveries
variable (env : Env) (d : Destination)

theorem enqueue_stays (q : QueueId) (m : Message) : Stays d (d.enqueue q m) :=
  rfl

/- The message goes to the queue or to the scheduler; a stopped scheduler may drop it. -/
theorem enqueueOrSchedule_cases (q : QueueId) (m : Message) :
    d.enqueueOrSchedule env q m = d.enqueue q (clampFuture env m) ∨
      d.enqueueOrSchedule env q m = d ∨
      d.enqueueOrSchedule env q m = { d with
        pending := insertPending (clampFuture env m).content.headers.deliveryTime q
          (clampFuture env m) d.pending } := by
  unfold Destination.enqueueOrSchedule
  dsimp only
  split
  · exact Or.inl rfl
  · split
    · split
      · exact Or.inr (Or.inl rfl)
      · exact Or.inl rfl
    · exact Or.inr (Or.inr rfl)

theorem enqueueOrSchedule_stays (q : QueueId) (m : Message) :
    Stays d (d.enqueueOrSchedule env q m) := by
  rcases enqueueOrSchedule_cases env d q m with queued | dropped | scheduled
  · rw [queued]
    exact enqueue_stays d q _
  · rw [dropped]
    exact Stays.refl d
  · rw [scheduled]
    rfl

theorem enqueueOrSchedule_same (q : QueueId) (m : Message) :
    Same d (d.enqueueOrSchedule env q m) :=
  (enqueueOrSchedule_stays env d q m).same

theorem enqueueOrSchedule_stores (q : QueueId) (m : Message) :
    (d.enqueueOrSchedule env q m).stores = d.stores := by
  rcases enqueueOrSchedule_cases env d q m with queued | dropped | scheduled
  · rw [queued]
    rfl
  · rw [dropped]
  · rw [scheduled]

theorem deliverDue_stays : Stays d (d.deliverDue env) := by
  unfold Destination.deliverDue
  split
  · exact Stays.refl d
  · split
    · rfl
    · exact Stays.refl d

theorem deliverDue_same : Same d (d.deliverDue env) :=
  (deliverDue_stays env d).same

theorem removeLocated_stays (c : Consumer) (m : Message) : Stays d (d.removeLocated c m) := by
  unfold Destination.removeLocated
  split
  · exact Stays.refl d
  · rfl

theorem dropRecord_stays (c : Consumer) (m : Message) : Stays d (d.dropRecord c m) := by
  unfold Destination.dropRecord
  split
  · exact removeLocated_stays d c m
  · exact Stays.refl d

theorem dropRecord_same (c : Consumer) (m : Message) : Same d (d.dropRecord c m) :=
  (dropRecord_stays d c m).same

theorem dropRecords_stores (c : Consumer) (ms : List Message) :
    ∃ stores, ms.foldl (Destination.dropRecord c) d = { d with stores := stores } := by
  induction ms generalizing d with
  | nil => exact ⟨d.stores, rfl⟩
  | cons m ms ih =>
    obtain ⟨stores, first⟩ : ∃ stores, d.dropRecord c m = { d with stores := stores } := by
      unfold Destination.dropRecord Destination.removeLocated
      split
      · split
        · exact ⟨d.stores, rfl⟩
        · exact ⟨_, rfl⟩
      · exact ⟨d.stores, rfl⟩
    obtain ⟨stores', rest⟩ := ih (d.dropRecord c m)
    exact ⟨stores', by rw [List.foldl_cons, rest, first]⟩

theorem removeRecord_stays (sid : StorageId) (rec : Nat × UUID) : Stays d (d.removeRecord sid rec) :=
  rfl

theorem removeRecord_same (sid : StorageId) (rec : Nat × UUID) : Same d (d.removeRecord sid rec) :=
  (removeRecord_stays d sid rec).same

theorem removeRecords_frame (sid : StorageId) (recs : List (Nat × UUID)) :
    ∃ stores, recs.foldl (fun d rec => d.removeRecord sid rec) d = { d with stores := stores } := by
  induction recs generalizing d with
  | nil => exact ⟨d.stores, rfl⟩
  | cons rec recs ih =>
    obtain ⟨stores, rest⟩ := ih (d.removeRecord sid rec)
    exact ⟨stores, rest⟩

theorem setQueue_stays (q : QueueId) (queue : QueueT) : Stays d (d.setQueue q queue) :=
  rfl

theorem setQueue_same (q : QueueId) (queue : QueueT) : Same d (d.setQueue q queue) :=
  (setQueue_stays d q queue).same

theorem preparePush_stays (cid : Nat) (c : Consumer) (number : Int) (t : Text) (m : Message) :
    Stays d (d.preparePush env cid c number t m).1 := by
  unfold Destination.preparePush
  dsimp only
  split
  · split <;> rfl
  · rfl

theorem stage_stays (pid : Nat) (m : Message) : Stays d (d.stage pid m) := by
  unfold Destination.stage
  split <;> rfl

theorem push_stays (number : Int) (pid : Nat) (t : Text) (m : Message) (cid : Nat) :
    Stays d (Destination.push env number pid t m d cid) := by
  unfold Destination.push
  split
  · exact Stays.refl d
  · rename_i c _
    split
    · have prepared := preparePush_stays env d cid c number t m
      dsimp only
      split
      · split
        · exact prepared.trans (enqueueOrSchedule_stays env _ _ _)
        · exact prepared.trans (enqueue_stays _ _ _)
      · exact prepared.trans (stage_stays _ _ _)
    · exact Stays.refl d

theorem push_same (number : Int) (pid : Nat) (t : Text) (m : Message) (cid : Nat) :
    Same d (Destination.push env number pid t m d cid) :=
  (push_stays env d number pid t m cid).same

theorem persistOffline_stays (m : Message) : Stays d (d.persistOffline env m) := by
  unfold Destination.persistOffline
  apply stays_fold
  intro e entry _
  split
  · exact Stays.refl e
  · split
    · rfl
    · exact Stays.refl e

theorem save_stays (pid : Nat) (t : Text) (m : Message) : Stays d (d.save env pid t m) := by
  have counted : Stays d { d with messageCounter := d.messageCounter + 1 } := rfl
  have pushed : ∀ l e, Stays e (List.foldl (Destination.push env d.messageCounter pid t m) e l) :=
    fun l e => stays_fold (fun e cid _ => push_stays env e d.messageCounter pid t m cid) e
  unfold Destination.save
  dsimp only
  split
  · exact (counted.trans (pushed _ _)).trans (persistOffline_stays env _ m)
  · exact counted.trans (pushed _ _)

theorem save_same (pid : Nat) (t : Text) (m : Message) : Same d (d.save env pid t m) :=
  (save_stays env d pid t m).same

theorem send_stays (pid : Nat) (t : Text) (m : Message) : Stays d (d.send env pid t m).1 := by
  unfold Destination.send
  split
  · exact Stays.refl d
  · exact save_stays env d pid t _

theorem send_same (pid : Nat) (t : Text) (m : Message) : Same d (d.send env pid t m).1 :=
  (send_stays env d pid t m).same

theorem sendWith_stays (pid : Nat) (t : Text) (m : Message) (opts : SendOptions) :
    Stays d (d.sendWith env pid t m opts).1 := by
  unfold Destination.sendWith
  split
  · exact Stays.refl d
  · split
    · exact Stays.refl d
    · exact save_stays env d pid t _

theorem sendWith_same (pid : Nat) (t : Text) (m : Message) (opts : SendOptions) :
    Same d (d.sendWith env pid t m opts).1 :=
  (sendWith_stays env d pid t m opts).same

theorem commitTransaction_stays (t : Text) : Stays d (d.commitTransaction env t) := by
  unfold Destination.commitTransaction
  split
  · exact Stays.refl d
  · rfl

theorem commitTransaction_same (t : Text) : Same d (d.commitTransaction env t) :=
  (commitTransaction_stays env d t).same

theorem deliverCommitted_stays (m : Message) : Stays d (d.deliverCommitted env m) := by
  have one : ∀ e, ∀ cid ∈ d.consumers, Stays e (Destination.deliverTo env m e cid) := by
    intro e cid _
    unfold Destination.deliverTo
    split
    · exact Stays.refl e
    · exact (enqueueOrSchedule_stays env _ _ _).after rfl
  unfold Destination.deliverCommitted
  split
  · split
    · exact Stays.refl d
    · split
      · exact Stays.refl d
      · exact enqueueOrSchedule_stays env d _ m
  · dsimp only
    split
    · exact (stays_fold one d).trans (persistOffline_stays env _ m)
    · exact stays_fold one d

theorem deliverCommitted_same (m : Message) : Same d (d.deliverCommitted env m) :=
  (deliverCommitted_stays env d m).same

theorem clearStaged_stays (pid : Nat) (p : Producer) : Stays d (d.clearStaged pid p) :=
  rfl

theorem clearStaged_same (pid : Nat) (p : Producer) : Same d (d.clearStaged pid p) :=
  (clearStaged_stays d pid p).same

theorem patchPending_stays (m : Message) : Stays d (d.patchPending env m) := by
  unfold Destination.patchPending
  split
  · rfl
  · exact Stays.refl d

theorem patchPending_same (m : Message) : Same d (d.patchPending env m) :=
  (patchPending_stays env d m).same

theorem commitProducer_stays (pid : Nat) (t : Text) : Stays d (d.commitProducer env pid t) := by
  unfold Destination.commitProducer
  split
  · exact Stays.refl d
  · rename_i p _
    split
    · have cleared := clearStaged_stays d pid p
      have patched := stays_fold (g := Destination.patchPending env) (l := p.transactQueue.toList)
        (fun e m _ => patchPending_stays env e m) (d.clearStaged pid p)
      have delivered := stays_fold (g := Destination.deliverCommitted env)
        (l := p.transactQueue.toList.map (resolveDelay env))
        fun e m _ => deliverCommitted_stays env e m
      exact ((cleared.trans patched).trans (commitTransaction_stays env _ t)).trans (delivered _)
    · exact Stays.refl d

theorem commitProducer_same (pid : Nat) (t : Text) : Same d (d.commitProducer env pid t) :=
  (commitProducer_stays env d pid t).same

theorem rollbackProducer_stays (pid : Nat) (t : Text) : Stays d (d.rollbackProducer env pid t) := by
  unfold Destination.rollbackProducer
  split
  · exact Stays.refl d
  · split
    · dsimp only
      split <;> rfl
    · exact Stays.refl d

theorem rollbackProducer_same (pid : Nat) (t : Text) : Same d (d.rollbackProducer env pid t) :=
  (rollbackProducer_stays env d pid t).same

theorem createProducer_stays (pid : Nat) (mode : AcknowledgeMode) : Stays d (d.createProducer pid mode) :=
  rfl

theorem createProducer_same (pid : Nat) (mode : AcknowledgeMode) : Same d (d.createProducer pid mode) :=
  (createProducer_stays d pid mode).same

theorem deleteProducer_stays (pid : Nat) (t : Text) : Stays d (d.deleteProducer env pid t) :=
  (rollbackProducer_stays env d pid t).trans rfl

theorem deleteProducer_same (pid : Nat) (t : Text) : Same d (d.deleteProducer env pid t) :=
  (deleteProducer_stays env d pid t).same

theorem redeliver_stays (c : Consumer) (closing : Bool) (m : Message) :
    Stays d (d.redeliver env c closing m).1 := by
  unfold Destination.redeliver
  dsimp only
  split
  · exact dropRecord_stays d c _
  · split
    · exact enqueueOrSchedule_stays env d _ _
    · exact enqueue_stays d _ _

theorem redeliverAll_stays (c : Consumer) (closing : Bool) (ms : List Message) :
    Stays d (d.redeliverAll env c closing ms).1 := by
  induction ms generalizing d with
  | nil => exact Stays.refl d
  | cons m ms ih => exact (redeliver_stays env d c closing m).trans (ih _)

theorem redeliverAll_same (c : Consumer) (closing : Bool) (ms : List Message) :
    Same d (d.redeliverAll env c closing ms).1 :=
  (redeliverAll_stays env d c closing ms).same

theorem replayFromStorage_stays (q : QueueId) (sid : StorageId) :
    Stays d (d.replayFromStorage env q sid) := by
  unfold Destination.replayFromStorage
  apply stays_fold
  intro e x _
  exact (enqueueOrSchedule_stays env _ _ _).after rfl

theorem replayFromStorage_same (q : QueueId) (sid : StorageId) :
    Same d (d.replayFromStorage env q sid) :=
  (replayFromStorage_stays env d q sid).same

theorem acceptDeadLetter_stays (m : Message) : Stays d (acceptDeadLetter env m d) := by
  unfold acceptDeadLetter
  dsimp only
  split
  · dsimp only
    split
    · exact (enqueueOrSchedule_stays env _ _ _).after rfl
    · rfl
  · dsimp only
    split
    · exact (enqueueOrSchedule_stays env _ _ _).after rfl
    · rfl

theorem acceptDeadLetter_same (m : Message) : Same d (acceptDeadLetter env m d) :=
  (acceptDeadLetter_stays env d m).same

end Deliveries

section Consumers
variable (env : Env) (d : Destination) (cid : Nat)

theorem track_settings (c : Consumer) (m : Message) : settings (track c m) = settings c := by
  unfold track
  split <;> rfl

theorem recv_steady (patience : Nat) : Steady d (d.recv env cid patience).1 := by
  refine recv_rule (P := fun d r => Steady d r.1) Steady.refl ?_ ?_ patience d
  · intro d c m q object next
    exact (setQueue_same d _ q).steady.trans (setObject_steady object (track_settings c _))
  · intro d c m q r object next rest
    exact ((setQueue_same d _ q).trans (dropRecord_same _ c _)).steady.trans rest

theorem flushPendingAcks_steady {c₀ c : Consumer} (object : get d.objects cid = some c₀)
    (same : settings c = settings c₀) : Steady d (d.flushPendingAcks cid c) := by
  have removed : Same d (c.pendingAcks.foldl (fun d rec => d.removeRecord c.storage rec) d) :=
    same_fold (fun e rec _ => removeRecord_same e c.storage rec) d
  unfold Destination.flushPendingAcks
  refine removed.steady.trans (setObject_steady (c := c₀) ?_ same)
  rw [removed.objects]
  exact object

theorem acknowledgeOn_steady (m : Message) : Steady d (d.acknowledgeOn cid m) := by
  unfold Destination.acknowledgeOn
  split
  · exact Steady.refl d
  · rename_i c object
    split
    · exact Steady.refl d
    · have filtered := setObject_steady (d := d) (e := { c with
        inFlight := c.inFlight.filter (·.oid ≠ m.oid) }) object rfl
      dsimp only
      split
      · split
        · exact filtered
        · split
          · have again : get (d.setObject cid { c with
                inFlight := c.inFlight.filter (·.oid ≠ m.oid) }).objects cid =
                some { c with inFlight := c.inFlight.filter (·.oid ≠ m.oid) } := by
              simp [Destination.setObject]
            split
            · exact filtered.trans (flushPendingAcks_steady _ cid again rfl)
            · exact filtered.trans (setObject_steady again rfl)
          · exact filtered.trans (removeRecord_same _ _ _).steady
      · exact filtered

theorem recover_steady : Steady d (d.recover env cid).1 := by
  unfold Destination.recover
  split
  · exact Steady.refl d
  · rename_i c object
    exact (setObject_steady (e := { c with inFlight := [] }) object rfl).trans
      (redeliverAll_same env _ c false _).steady

theorem rollbackConsumer_steady (closing : Bool) :
    Steady d (d.rollbackConsumer env cid closing).1 := by
  unfold Destination.rollbackConsumer
  split
  · exact Steady.refl d
  · rename_i c object
    split
    · exact (setObject_steady (e := { c with transactQueue := .empty }) object rfl).trans
        (redeliverAll_same env _ c closing _).steady
    · exact Steady.refl d

theorem commitConsumer_steady : Steady d (d.commitConsumer cid) := by
  unfold Destination.commitConsumer
  split
  · exact Steady.refl d
  · rename_i c object
    split
    · refine (setObject_steady (e := { c with transactQueue := .empty }) object rfl).trans (same_fold ?_ _).steady
      intro e m _
      exact dropRecord_same e c m
    · exact Steady.refl d

end Consumers

def Everywhere (P : Nat → Destination → Prop) (w : World) : Prop :=
  ∀ did d, w.destinations did = some d → P did d

section Worlds
variable {P : Nat → Destination → Prop} {w : World}

theorem everywhere_on (all : Everywhere P w) {did : Nat} {f : Destination → Destination}
    (one : ∀ d, w.destinations did = some d → P did d → P did (f d)) :
    Everywhere P (w.onDestination did f) := by
  intro i e found
  rcases onDestination_cases found with ⟨d, rfl, before, rfl⟩ | ⟨_, before⟩
  · exact one d before (all i d before)
  · exact all i e before

theorem everywhere_fold {ι : Type} {l : List ι} {g : World → ι → World}
    (one : ∀ w, ∀ i ∈ l, Everywhere P w → Everywhere P (g w i)) (all : Everywhere P w) :
    Everywhere P (l.foldl g w) := by
  induction l generalizing w with
  | nil => exact all
  | cons i l ih =>
    rw [List.foldl_cons]
    exact ih (fun w j member => one w j (List.mem_cons_of_mem i member)) (one w i (by simp) all)

theorem everywhere_redelivering (stable : ∀ did d d', P did d → Steady d d' → P did d')
    (all : Everywhere P w) (env : Env) (did : Nat) {f : Destination → Destination × List Message}
    (steady : ∀ d, Steady d (f d).1) : Everywhere P (w.redelivering env did f) := by
  unfold World.redelivering
  split
  · exact all
  · rename_i d here
    have moved : Everywhere P
        { w with destinations := Function.update w.destinations did (some (f d).1) } := by
      intro i e found
      by_cases same : i = did
      · subst same
        simp only [Function.update_self, Option.some.injEq] at found
        rw [← found]
        exact stable i d _ (all i d here) (steady d)
      · simp only [Function.update_of_ne same] at found
        exact all i e found
    unfold World.deadLetters
    split
    · exact moved
    · rename_i dlq _
      refine everywhere_fold ?_ moved
      intro w' m _ before
      exact everywhere_on before fun e _ holds =>
        stable dlq e _ holds (acceptDeadLetter_same env e m).steady

theorem everywhere_rollback (stable : ∀ did d d', P did d → Steady d d' → P did d')
    (all : Everywhere P w) (env : Env) (sid : Nat) (closing : Bool) (suffix : Text) :
    Everywhere P (w.rollback env sid closing suffix) := by
  unfold World.rollback
  split
  · exact all
  · rename_i s _
    have producers : Everywhere P (w.rollbackProducers env s.suffix s.producers) := by
      refine everywhere_fold ?_ all
      intro w' p _ before
      exact everywhere_on before fun d _ holds =>
        stable p.2 d _ holds (rollbackProducer_same env d p.1 s.suffix).steady
    have consumers : Everywhere P ((w.rollbackProducers env s.suffix s.producers).rollbackConsumers
        env closing s.consumers) := by
      refine everywhere_fold ?_ producers
      intro w' c _ before
      exact everywhere_redelivering stable before env c.2
        fun d => rollbackConsumer_steady env d c.1 closing
    exact consumers

end Worlds

end TinyMqFrames
