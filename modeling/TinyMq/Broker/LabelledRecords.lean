import TinyMq.Broker.Inversion

/-!
Every storage of a destination files its records under the uuid they carry, and so
does the transaction buffer. Every call of either family keeps it so.
-/
namespace TinyMqLabelledRecords
open DelimitedText AssocLists BandQueues TombstoneLog TinyMqTom TinyMqMessage TinyMqStore
open TinyMqDestination TinyMqTransactionBuffer TinyMqSession TinyMqFrames TinyMqHolders TinyMqQueueRuns
open TinyMqPlaces TinyMqOrigins TinyMqInversion

structure Labelled (d : Destination) : Prop where
  stores : ∀ sid, Sound Content.uuid (d.stores sid)
  buffered : Buffered d

section Operations
variable {d : Destination}

theorem Labelled.same {d' : Destination} (labelled : Labelled d) (stores : d'.stores = d.stores)
    (buffer : d'.buffer = d.buffer) : Labelled d' := by
  refine ⟨?_, ?_⟩
  · rw [stores]
    exact labelled.stores
  · unfold Buffered
    rw [buffer]
    exact labelled.buffered

theorem Labelled.update (labelled : Labelled d) {sid : StorageId} {s : Store Content}
    (sound : Sound Content.uuid s) :
    Labelled { d with stores := Function.update d.stores sid s } := by
  refine ⟨?_, labelled.buffered⟩
  intro sid'
  by_cases here : sid' = sid
  · subst here
    simpa using sound
  · simp only [Function.update_of_ne here]
    exact labelled.stores sid'

theorem Labelled.buffer (labelled : Labelled d) {tb : TransactionBuffer Content}
    (buffered : ∀ u content, tb.bufferedData u = some content → content.uuid = u) :
    Labelled { d with buffer := tb } :=
  ⟨labelled.stores, buffered⟩

theorem Labelled.fold {ι : Type} {g : Destination → ι → Destination} {l : List ι}
    (labelled : Labelled d) (one : ∀ e i, i ∈ l → Labelled e → Labelled (g e i)) :
    Labelled (l.foldl g d) := by
  induction l generalizing d with
  | nil => exact labelled
  | cons i l ih =>
    rw [List.foldl_cons]
    exact ih (one d i (by simp) labelled) fun e j inside => one e j (List.mem_cons_of_mem i inside)

theorem appendRecord_labelled (labelled : Labelled d) (env : Env) (sid : StorageId) {uuid : UUID}
    {content : Content} (own : content.uuid = uuid) :
    Labelled (d.appendRecord env sid uuid content).1 :=
  labelled.update ((labelled.stores sid).append own _)

theorem removeRecord_labelled (labelled : Labelled d) (sid : StorageId) (rec : Nat × UUID) :
    Labelled (d.removeRecord sid rec) :=
  labelled.update ((labelled.stores sid).remove _ _)

theorem dropRecord_labelled (labelled : Labelled d) (c : Consumer) (m : Message) :
    Labelled (d.dropRecord c m) := by
  unfold Destination.dropRecord Destination.removeLocated
  split
  · split
    · exact labelled
    · exact removeRecord_labelled labelled _ _
  · exact labelled

theorem enqueueOrSchedule_labelled (labelled : Labelled d) (env : Env) (q : QueueId) (m : Message) :
    Labelled (d.enqueueOrSchedule env q m) := by
  rcases enqueueOrSchedule_cases env d q m with queued | dropped | scheduled
  · rw [queued]
    exact labelled.same rfl rfl
  · rw [dropped]
    exact labelled
  · rw [scheduled]
    exact labelled.same rfl rfl

theorem preparePush_labelled (labelled : Labelled d) (env : Env) (cid : Nat) (c : Consumer)
    (number : Int) (t : Text) (m : Message) :
    Labelled (d.preparePush env cid c number t m).1 := by
  have numbered : Labelled { d with nextOid := d.nextOid + 1 } := labelled.same rfl rfl
  unfold Destination.preparePush
  dsimp only
  split
  · split
    · exact numbered.buffer (addMessage_buffered labelled.buffered env.stamp t
        (pushCopy env d.nextOid number cid m).content)
    · exact appendRecord_labelled numbered env c.storage rfl
  · exact numbered

theorem push_labelled (labelled : Labelled d) (env : Env) (number : Int) (pid : Nat) (t : Text)
    (m : Message) (cid : Nat) : Labelled (Destination.push env number pid t m d cid) := by
  unfold Destination.push
  split
  · exact labelled
  · rename_i c _
    split
    · have prepared := preparePush_labelled labelled env cid c number t m
      dsimp only
      split
      · split
        · exact enqueueOrSchedule_labelled prepared env _ _
        · exact prepared.same rfl rfl
      · unfold Destination.stage
        split
        · exact prepared
        · exact prepared.same rfl rfl
    · exact labelled

theorem persistOffline_labelled (labelled : Labelled d) (env : Env) (m : Message) :
    Labelled (d.persistOffline env m) := by
  refine labelled.fold ?_
  intro e entry _ here
  split
  · exact here
  · split
    · exact appendRecord_labelled here env _ rfl
    · exact here

theorem save_labelled (labelled : Labelled d) (env : Env) (pid : Nat) (t : Text) (m : Message) :
    Labelled (d.save env pid t m) := by
  have counted : Labelled { d with messageCounter := d.messageCounter + 1 } := labelled.same rfl rfl
  have pushed : ∀ l, Labelled (List.foldl (Destination.push env d.messageCounter pid t m)
      { d with messageCounter := d.messageCounter + 1 } l) :=
    fun l => counted.fold fun e cid _ here => push_labelled here env _ pid t m cid
  unfold Destination.save
  dsimp only
  split
  · exact persistOffline_labelled (pushed _) env m
  · exact pushed _

theorem patchPending_labelled (labelled : Labelled d) (env : Env) (m : Message) :
    Labelled (d.patchPending env m) := by
  have kept := (patchPending_moves env d m).buffered labelled.buffered
  refine ⟨?_, kept⟩
  intro sid
  unfold Destination.patchPending
  split <;> exact labelled.stores sid

theorem commitTransaction_labelled (labelled : Labelled d) (env : Env) (t : Text) :
    Labelled (d.commitTransaction env t) := by
  unfold Destination.commitTransaction
  split
  · exact labelled
  · have taken : (∀ u content, (d.buffer.commitTransaction env.stamp t).1.bufferedData u =
        some content → content.uuid = u) ∧
        ∀ x ∈ (d.buffer.commitTransaction env.stamp t).2, x.2.uuid = x.1 := by
      unfold TransactionBuffer.commitTransaction
      split
      · exact ⟨labelled.buffered, by simp⟩
      · rename_i ids _
        exact takeBatch_buffered labelled.buffered ids
    exact (labelled.buffer taken.1).update ((labelled.stores .shared).appendBatch taken.2 _)

theorem deliverCommitted_labelled (labelled : Labelled d) (env : Env) (m : Message) :
    Labelled (d.deliverCommitted env m) := by
  unfold Destination.deliverCommitted
  split
  · split
    · exact labelled
    · split
      · exact labelled
      · exact enqueueOrSchedule_labelled labelled env _ _
  · have copies : Labelled (d.consumers.foldl (Destination.deliverTo env m) d) := by
      refine labelled.fold ?_
      intro e cid _ here
      unfold Destination.deliverTo
      split
      · exact here
      · have numbered : Labelled { e with nextOid := e.nextOid + 1 } := here.same rfl rfl
        exact enqueueOrSchedule_labelled numbered env _ _
    dsimp only
    split
    · exact persistOffline_labelled copies env m
    · exact copies

theorem commitProducer_labelled (labelled : Labelled d) (env : Env) (pid : Nat) (t : Text) :
    Labelled (d.commitProducer env pid t) := by
  unfold Destination.commitProducer
  split
  · exact labelled
  · rename_i p _
    split
    · have cleared : Labelled (d.clearStaged pid p) := labelled.same rfl rfl
      have patched : Labelled (p.transactQueue.toList.foldl (Destination.patchPending env)
          (d.clearStaged pid p)) :=
        cleared.fold fun e m _ here => patchPending_labelled here env m
      exact (commitTransaction_labelled patched env t).fold
        fun e m _ here => deliverCommitted_labelled here env m
    · exact labelled

theorem rollbackProducer_labelled (labelled : Labelled d) (env : Env) (pid : Nat) (t : Text) :
    Labelled (d.rollbackProducer env pid t) := by
  have kept := (rollbackProducer_moves env d pid t).buffered labelled.buffered
  refine ⟨?_, kept⟩
  intro sid
  unfold Destination.rollbackProducer
  split
  · exact labelled.stores sid
  · dsimp only
    split
    · split <;> exact labelled.stores sid
    · exact labelled.stores sid

theorem recv_labelled (labelled : Labelled d) (env : Env) (cid patience : Nat) :
    Labelled (d.recv env cid patience).1 := by
  refine recv_rule (P := fun e r => Labelled e → Labelled r.1) ?_ ?_ ?_ patience d labelled
  · exact fun e here => here
  · exact fun e c m q _ _ here => here.same rfl rfl
  · intro e c m q r _ _ rest here
    have taken : Labelled (e.setQueue c.queue q) := here.same rfl rfl
    exact rest (dropRecord_labelled taken c _)

theorem flushPendingAcks_labelled (labelled : Labelled d) (cid : Nat) (c : Consumer) :
    Labelled (d.flushPendingAcks cid c) := by
  have removed : Labelled (c.pendingAcks.foldl (fun d rec => d.removeRecord c.storage rec) d) :=
    labelled.fold fun e rec _ here => removeRecord_labelled here c.storage rec
  exact removed.same rfl rfl

theorem acknowledgeOn_labelled (labelled : Labelled d) (cid : Nat) (m : Message) :
    Labelled (d.acknowledgeOn cid m) := by
  have unlinked : ∀ c, Labelled (d.setObject cid c) := fun c => labelled.same rfl rfl
  unfold Destination.acknowledgeOn
  split
  · exact labelled
  · split
    · exact labelled
    · dsimp only
      split
      · split
        · exact unlinked _
        · split
          · split
            · exact flushPendingAcks_labelled (unlinked _) cid _
            · exact labelled.same rfl rfl
          · exact removeRecord_labelled (unlinked _) _ _
      · exact unlinked _

theorem redeliver_labelled (labelled : Labelled d) (env : Env) (c : Consumer) (closing : Bool)
    (m : Message) : Labelled (d.redeliver env c closing m).1 := by
  unfold Destination.redeliver
  dsimp only
  split
  · exact dropRecord_labelled labelled c _
  · split
    · exact enqueueOrSchedule_labelled labelled env _ _
    · exact labelled.same rfl rfl

theorem redeliverAll_labelled (labelled : Labelled d) (env : Env) (c : Consumer) (closing : Bool)
    (ms : List Message) : Labelled (d.redeliverAll env c closing ms).1 := by
  induction ms generalizing d with
  | nil => exact labelled
  | cons m ms ih => exact ih (redeliver_labelled labelled env c closing m)

theorem recover_labelled (labelled : Labelled d) (env : Env) (cid : Nat) :
    Labelled (d.recover env cid).1 := by
  unfold Destination.recover
  split
  · exact labelled
  · rename_i c _
    have emptied : Labelled (d.setObject cid { c with inFlight := [] }) := labelled.same rfl rfl
    exact redeliverAll_labelled emptied env c false _

theorem rollbackConsumer_labelled (labelled : Labelled d) (env : Env) (cid : Nat) (closing : Bool) :
    Labelled (d.rollbackConsumer env cid closing).1 := by
  unfold Destination.rollbackConsumer
  split
  · exact labelled
  · rename_i c _
    split
    · have emptied : Labelled (d.setObject cid { c with transactQueue := .empty }) :=
        labelled.same rfl rfl
      exact redeliverAll_labelled emptied env c closing _
    · exact labelled

theorem destroyConsumer_labelled (labelled : Labelled d) (env : Env) (cid : Nat) :
    Labelled (d.destroyConsumer env cid).1 := by
  unfold Destination.destroyConsumer
  split
  · exact labelled
  · rename_i c _
    have rolled := rollbackConsumer_labelled (flushPendingAcks_labelled labelled cid c) env cid false
    exact rolled.same rfl rfl

theorem commitConsumer_labelled (labelled : Labelled d) (cid : Nat) :
    Labelled (d.commitConsumer cid) := by
  unfold Destination.commitConsumer
  split
  · exact labelled
  · rename_i c _
    split
    · have emptied : Labelled (d.setObject cid { c with transactQueue := .empty }) :=
        labelled.same rfl rfl
      exact emptied.fold fun e m _ here => dropRecord_labelled here c m
    · exact labelled

theorem acceptDeadLetter_labelled (labelled : Labelled d) (env : Env) (m : Message) :
    Labelled (acceptDeadLetter env m d) := by
  have numbered : Labelled { d with nextOid := d.nextOid + 1 } := labelled.same rfl rfl
  unfold acceptDeadLetter
  dsimp only
  split
  · have stored := appendRecord_labelled numbered env .shared
      (show (deadLetterCopy m d.nextOid).content.uuid = (deadLetterCopy m d.nextOid).uuid from rfl)
    dsimp only
    split
    · exact enqueueOrSchedule_labelled stored env _ _
    · exact stored
  · dsimp only
    split
    · exact enqueueOrSchedule_labelled numbered env _ _
    · exact numbered

theorem replayFromStorage_labelled (labelled : Labelled d) (env : Env) (q : QueueId)
    (sid : StorageId) : Labelled (d.replayFromStorage env q sid) := by
  refine labelled.fold ?_
  intro e x _ here
  have numbered : Labelled { e with nextOid := e.nextOid + 1 } := here.same rfl rfl
  exact enqueueOrSchedule_labelled numbered env _ _

theorem createConsumer_labelled (labelled : Labelled d) (env : Env) (id : Nat)
    (mode : AcknowledgeMode) (selector : Option Selector) :
    Labelled (d.createConsumer env id mode selector) := by
  have dropped : Labelled d.dropDefault := by
    unfold Destination.dropDefault
    split
    · exact labelled
    · exact labelled.same rfl rfl
  have joined : Labelled (d.dropDefault.setObject id ⟨mode,.shared,.shared,selector,[],.empty,[]⟩) :=
    dropped.same rfl rfl
  unfold Destination.createConsumer
  split
  · dsimp only
    split
    · exact (replayFromStorage_labelled joined env .shared .shared).same rfl rfl
    · exact joined.same rfl rfl
  · exact labelled.same rfl rfl

theorem createDurableConsumer_labelled (labelled : Labelled d) (env : Env) (id : Nat)
    (mode : AcknowledgeMode) (clientID name : Text) (selector : Option Selector) :
    Labelled (d.createDurableConsumer env id mode clientID name selector).1 := by
  have attached : ∀ key sub, Labelled (d.attachDurable env id mode key sub selector) := by
    intro key sub
    have joined : Labelled (d.setObject id ⟨mode,.own id,sub.storage,selector,[],.empty,[]⟩) :=
      labelled.same rfl rfl
    exact (replayFromStorage_labelled joined env (.own id) sub.storage).same rfl rfl
  unfold Destination.createDurableConsumer
  split
  · exact labelled
  · dsimp only
    split
    · exact attached _ _
    · split
      · exact labelled
      · exact attached _ _

theorem deleteConsumer_labelled (labelled : Labelled d) (id : Nat) :
    Labelled (d.deleteConsumer id) := by
  unfold Destination.deleteConsumer
  dsimp only
  split <;> exact labelled.same rfl rfl

theorem deleteSubscription_labelled (labelled : Labelled d) (clientID name : Text) :
    Labelled (d.deleteSubscription clientID name) := by
  unfold Destination.deleteSubscription
  dsimp only
  split
  · exact labelled
  · have wiped : ∀ {e : Destination} (sid : StorageId) subs, Labelled e →
        Labelled { e with stores := Function.update e.stores sid {}, durableSubs := subs } :=
      fun sid subs here => (here.update (sound_empty Content.uuid)).same rfl rfl
    split
    · exact wiped _ _ labelled
    · exact wiped _ _ (deleteConsumer_labelled labelled _)

end Operations

theorem step_labelled {d : Destination} (labelled : Labelled d) (call : Call) :
    Labelled (next d call) := by
  cases call with
  | createDefaultConsumer id mode =>
    simp only [next, step, Destination.createDefaultConsumer]
    split
    · exact labelled.same rfl rfl
    · exact labelled
  | createConsumer env id mode selector => exact createConsumer_labelled labelled env id mode selector
  | createDurableConsumer env id mode clientID name selector =>
    exact createDurableConsumer_labelled labelled env id mode clientID name selector
  | deleteConsumer id => exact deleteConsumer_labelled labelled id
  | destroyConsumer env id => exact destroyConsumer_labelled labelled env id
  | deleteSubscription clientID name => exact deleteSubscription_labelled labelled clientID name
  | createProducer id mode => exact labelled.same rfl rfl
  | deleteProducer env id t => exact (rollbackProducer_labelled labelled env id t).same rfl rfl
  | send env pid t m =>
    simp only [next, step, Destination.send]
    split
    · exact labelled
    · exact save_labelled labelled env pid t _
  | sendWith env pid t m opts =>
    simp only [next, step, Destination.sendWith]
    split
    · exact labelled
    · split
      · exact labelled
      · exact save_labelled labelled env pid t _
  | commitProducer env pid t => exact commitProducer_labelled labelled env pid t
  | rollbackProducer env pid t => exact rollbackProducer_labelled labelled env pid t
  | recv env cid patience => exact recv_labelled labelled env cid patience
  | acknowledgeOn cid m => exact acknowledgeOn_labelled labelled cid m
  | recover env cid => exact recover_labelled labelled env cid
  | rollbackConsumer env cid closing => exact rollbackConsumer_labelled labelled env cid closing
  | commitConsumer cid => exact commitConsumer_labelled labelled cid
  | deliverDue env =>
    simp only [next, step, Destination.deliverDue]
    split
    · exact labelled
    · split
      · exact labelled.same rfl rfl
      · exact labelled
  | acceptDeadLetter env m => exact acceptDeadLetter_labelled labelled env m
  | rehash l =>
    simp only [next, step, Destination.rehash]
    split
    · exact labelled.same rfl rfl
    · exact labelled
  | restart env =>
    refine ⟨fun sid => (labelled.stores sid).reopen, recover_buffered ?_ env.stamp⟩
    intro u content found
    rw [loaded_buffered] at found
    cases found

end TinyMqLabelledRecords
