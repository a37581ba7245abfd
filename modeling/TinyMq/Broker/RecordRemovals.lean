import TinyMq.Broker.DurableDelivery

/-!
Who removes a record. Of all calls on a queue only five take records away, and only those of
messages that the caller acknowledged or committed, that were found expired, or that came
back too often.
-/
namespace TinyMqRecordRemovals
open DelimitedText AssocLists BandQueues Machines TombstoneLog TinyMqTom TinyMqMessage TinyMqStore
open TinyMqDestination TinyMqTransactionBuffer TinyMqSession TinyMqFrames TinyMqHolders
open TinyMqQueueRuns TinyMqPlaces TinyMqOrigins TinyMqInversion TinyMqLabelledRecords
open TinyMqCachedLocations TinyMqStoredBacklog TinyMqDurableDelivery TinyMqSubscriptionFiles
open TinyMqLazyAcks (removeAll removeAll_log removeAll_failed removeRecords_stores locate_uuid
  acknowledgeOn_spec acknowledgeOn_shape removals_batched)

/-- Every record keeps its place, its uuid and its content; those that go have uuids in `gone`. -/
structure Fades (gone : UUID → Prop) (s s' : Store Content) : Prop where
  extends_ : Extends s s'
  removed : ∀ (n : Nat) (e' : Entry UUID Content), s'.log[n]? = some e' → e'.removed = true →
    gone e'.key ∨ ∃ e, s.log[n]? = some e ∧ e.removed = true

section Fading
variable {gone gone' : UUID → Prop} {s s' s'' : Store Content}

theorem Fades.refl (s : Store Content) : Fades gone s s :=
  ⟨Extends.refl s, fun _ e here removed => .inr ⟨e, here, removed⟩⟩

theorem Fades.mono (fades : Fades gone s s') (more : ∀ u, gone u → gone' u) : Fades gone' s s' := by
  refine ⟨fades.extends_, ?_⟩
  intro n e' here removed
  exact (fades.removed n e' here removed).imp_left (more _)

theorem Fades.trans (one : Fades gone s s') (two : Fades gone s' s'') : Fades gone s s'' := by
  refine ⟨one.extends_.trans two.extends_, ?_⟩
  intro n e'' here removed
  rcases two.removed n e'' here removed with new | ⟨e', before, removed'⟩
  · exact .inl new
  · obtain ⟨e, same, key, _⟩ := two.extends_ n e' before
    obtain rfl := Option.some.inj (here.symm.trans same)
    rw [key]
    exact one.removed n e' before removed'

theorem fades_longer {l : Log UUID Content} (log : s'.log = s.log ++ l)
    (live : ∀ e ∈ l, e.removed = false) : Fades gone s s' := by
  refine ⟨extends_longer log, ?_⟩
  intro n e' here removed
  rw [log] at here
  by_cases inside : n < s.log.length
  · rw [List.getElem?_append_left inside] at here
    exact .inr ⟨e', here, removed⟩
  · rw [List.getElem?_append_right (Nat.le_of_not_lt inside)] at here
    rw [live e' (List.mem_of_getElem? here)] at removed
    cases removed

theorem fades_append (uuid : UUID) (content : Content) (fails : Bool) :
    Fades gone s (s.append uuid content fails).1 := by
  unfold Store.append
  split
  · exact fades_longer rfl (by simp)
  · exact fades_longer (List.append_nil s.log).symm (by simp)

theorem fades_appendBatch (fails : Nat → Bool) (items : List (UUID × Content)) :
    Fades gone s (s.appendBatch fails items) := by
  rw [appendBatch_appends]
  obtain ⟨k, log⟩ := appends_prefix fails s items
  apply fades_longer log
  intro e member
  obtain ⟨x, _, rfl⟩ := List.mem_map.mp member
  rfl

theorem fades_removeAll {recs : List (Nat × UUID)} (named : Named s recs)
    (all : ∀ r ∈ recs, gone r.2) : Fades gone s (removeAll s recs) := by
  cases good : s.good with
  | false =>
    rw [removeAll_failed good]
    exact Fades.refl s
  | true =>
    refine ⟨extends_removeAll good recs, ?_⟩
    intro n e' here removed
    rw [removeAll_log good, Option.map_eq_some_iff] at here
    obtain ⟨e, before, same⟩ := here
    split at same
    · rename_i member
      obtain ⟨r, inside, place⟩ := List.mem_map.mp member
      obtain ⟨x, there, key⟩ := named r inside
      rw [place, before] at there
      obtain rfl := Option.some.inj there
      rw [← same]
      exact .inl (key ▸ all r inside)
    · exact .inr ⟨e, before, same ▸ removed⟩

end Fading

def Batched (d : Destination) (r : Nat × UUID) : Prop :=
  ∃ cid c, get d.objects cid = some c ∧ r ∈ c.pendingAcks

/-- The storage of the queue loses at most records with uuids in `gone`, and nothing enters a
    batch. -/
structure Loses (gone : UUID → Prop) (d d' : Destination) : Prop where
  fades : Fades gone (d.stores .shared) (d'.stores .shared)
  batched : ∀ r, Batched d' r → Batched d r

section Losses
variable {gone gone' : UUID → Prop} {d d' d'' : Destination}

theorem Loses.refl (d : Destination) : Loses gone d d := ⟨Fades.refl _, fun _ => id⟩

theorem Loses.mono (loses : Loses gone d d') (more : ∀ u, gone u → gone' u) : Loses gone' d d' :=
  ⟨loses.fades.mono more, loses.batched⟩

theorem Loses.trans (one : Loses gone d d') (two : Loses gone d' d'') : Loses gone d d'' :=
  ⟨one.fades.trans two.fades, fun r here => one.batched r (two.batched r here)⟩

theorem batched_same (objects : d'.objects = d.objects) (r : Nat × UUID) (here : Batched d' r) :
    Batched d r := by
  unfold Batched at here
  rw [objects] at here
  exact here

theorem loses_same (stores : d'.stores = d.stores) (objects : d'.objects = d.objects) :
    Loses gone d d' := by
  refine ⟨?_, batched_same objects⟩
  rw [stores]
  exact Fades.refl _

theorem Loses.fold {ι : Type} {g : Destination → ι → Destination} {l : List ι}
    (one : ∀ e, ∀ i ∈ l, Loses gone e (g e i)) (d : Destination) : Loses gone d (l.foldl g d) := by
  induction l generalizing d with
  | nil => exact Loses.refl d
  | cons i l ih =>
    rw [List.foldl_cons]
    exact (one d i List.mem_cons_self).trans
      (ih (fun e j later => one e j (List.mem_cons_of_mem i later)) (g d i))

theorem loses_setObject {cid : Nat} {c : Consumer}
    (kept : ∀ r ∈ c.pendingAcks, Batched d r) : Loses gone d (d.setObject cid c) := by
  refine ⟨Fades.refl _, ?_⟩
  rintro r ⟨cid', c', object, inside⟩
  by_cases here : cid' = cid
  · rw [here, Destination.setObject, get_put_same, Option.some.injEq] at object
    rw [← object] at inside
    exact kept r inside
  · rw [Destination.setObject, get_put_other _ _ here] at object
    exact ⟨cid', c', object, inside⟩

theorem loses_erase (cid : Nat) : Loses gone d { d with objects := erase d.objects cid } := by
  refine ⟨Fades.refl _, ?_⟩
  rintro r ⟨cid', c', object, inside⟩
  by_cases here : cid' = cid
  · rw [here, get_erase_same] at object
    cases object
  · rw [get_erase_other _ here] at object
    exact ⟨cid', c', object, inside⟩

theorem loses_update {sid : StorageId} {s : Store Content}
    (fades : sid = .shared → Fades gone (d.stores .shared) s) :
    Loses gone d { d with stores := Function.update d.stores sid s } := by
  refine ⟨?_, fun _ => id⟩
  by_cases here : sid = .shared
  · subst here
    simpa using fades rfl
  · simp only [Function.update_of_ne (Ne.symm here)]
    exact Fades.refl _

end Losses

section Sends
variable (gone : UUID → Prop) (env : Env) (d : Destination)

theorem enqueueOrSchedule_loses (q : QueueId) (m : Message) :
    Loses gone d (d.enqueueOrSchedule env q m) :=
  loses_same (enqueueOrSchedule_stores env d q m) (enqueueOrSchedule_same env d q m).objects

theorem appendRecord_loses (sid : StorageId) (uuid : UUID) (content : Content) :
    Loses gone d (d.appendRecord env sid uuid content).1 :=
  loses_update fun here => here ▸ fades_append _ _ _

theorem preparePush_loses (cid : Nat) (c : Consumer) (number : Int) (t : Text) (m : Message) :
    Loses gone d (d.preparePush env cid c number t m).1 := by
  unfold Destination.preparePush
  dsimp only
  split
  · split
    · exact loses_same rfl rfl
    · have counted : Loses gone d { d with nextOid := d.nextOid + 1 } := loses_same rfl rfl
      exact counted.trans (appendRecord_loses gone env _ c.storage _ _)
  · exact loses_same rfl rfl

theorem push_loses (number : Int) (pid : Nat) (t : Text) (m : Message) (cid : Nat) :
    Loses gone d (Destination.push env number pid t m d cid) := by
  unfold Destination.push
  split
  · exact Loses.refl d
  · rename_i c _
    split
    · apply (preparePush_loses gone env d cid c number t m).trans
      dsimp only
      split
      · split
        · exact enqueueOrSchedule_loses gone env _ _ _
        · exact loses_same rfl rfl
      · unfold Destination.stage
        split
        · exact Loses.refl _
        · exact loses_same rfl rfl
    · exact Loses.refl d

theorem persistOffline_loses (m : Message) : Loses gone d (d.persistOffline env m) := by
  apply Loses.fold
  intro e entry _
  split
  · exact Loses.refl e
  · split
    · exact appendRecord_loses gone env e _ _ _
    · exact Loses.refl e

theorem save_loses (pid : Nat) (t : Text) (m : Message) : Loses gone d (d.save env pid t m) := by
  have counted : Loses gone d { d with messageCounter := d.messageCounter + 1 } :=
    loses_same rfl rfl
  have pushed := counted.trans (Loses.fold (l := d.targets)
    (fun e cid _ => push_loses gone env e d.messageCounter pid t m cid) _)
  unfold Destination.save
  dsimp only
  split
  · exact pushed.trans (persistOffline_loses gone env _ m)
  · exact pushed

theorem patchPending_loses (m : Message) : Loses gone d (d.patchPending env m) := by
  unfold Destination.patchPending
  split
  · exact loses_same rfl rfl
  · exact Loses.refl d

theorem commitTransaction_loses (t : Text) : Loses gone d (d.commitTransaction env t) := by
  unfold Destination.commitTransaction
  split
  · exact Loses.refl d
  · refine ⟨?_, fun _ => id⟩
    simp only [Function.update_self]
    exact fades_appendBatch _ _

theorem deliverCommitted_loses (m : Message) : Loses gone d (d.deliverCommitted env m) := by
  unfold Destination.deliverCommitted
  split
  · split
    · exact Loses.refl d
    · split
      · exact Loses.refl d
      · exact enqueueOrSchedule_loses gone env d _ _
  · have delivered : Loses gone d (d.consumers.foldl (Destination.deliverTo env m) d) := by
      apply Loses.fold
      intro e cid _
      unfold Destination.deliverTo
      split
      · exact Loses.refl e
      · have counted : Loses gone e { e with nextOid := e.nextOid + 1 } := loses_same rfl rfl
        exact counted.trans (enqueueOrSchedule_loses gone env _ _ _)
    dsimp only
    split
    · exact delivered.trans (persistOffline_loses gone env _ m)
    · exact delivered

theorem commitProducer_loses (pid : Nat) (t : Text) : Loses gone d (d.commitProducer env pid t) := by
  unfold Destination.commitProducer
  split
  · exact Loses.refl d
  · rename_i p _
    split
    · have cleared : Loses gone d (d.clearStaged pid p) := loses_same rfl rfl
      have patched := cleared.trans (Loses.fold (l := p.transactQueue.toList)
        (fun e m _ => patchPending_loses gone env e m) _)
      exact (patched.trans (commitTransaction_loses gone env _ t)).trans
        (Loses.fold (fun e m _ => deliverCommitted_loses gone env e m) _)
    · exact Loses.refl d

theorem rollbackProducer_stores (pid : Nat) (t : Text) :
    (d.rollbackProducer env pid t).stores = d.stores := by
  unfold Destination.rollbackProducer Destination.clearStaged
  split
  · rfl
  · dsimp only
    split
    · split <;> rfl
    · rfl

theorem acceptDeadLetter_loses (m : Message) : Loses gone d (acceptDeadLetter env m d) := by
  have counted : Loses gone d { d with nextOid := d.nextOid + 1 } := loses_same rfl rfl
  unfold acceptDeadLetter
  dsimp only
  split
  · have stored := counted.trans (appendRecord_loses gone env _ .shared
      (deadLetterCopy m d.nextOid).uuid (deadLetterCopy m d.nextOid).content)
    dsimp only
    split
    · exact stored.trans (enqueueOrSchedule_loses gone env _ _ _)
    · exact stored
  · dsimp only
    split
    · exact counted.trans (enqueueOrSchedule_loses gone env _ _ _)
    · exact counted

theorem replayFromStorage_loses (q : QueueId) (sid : StorageId) :
    Loses gone d (d.replayFromStorage env q sid) := by
  apply Loses.fold
  intro e x _
  have counted : Loses gone e { e with nextOid := e.nextOid + 1 } := loses_same rfl rfl
  exact counted.trans (enqueueOrSchedule_loses gone env _ _ _)

theorem createConsumer_loses (queue : d.isQueueFamily = true) (id : Nat) (mode : AcknowledgeMode)
    (selector : Option Selector) : Loses gone d (d.createConsumer env id mode selector) := by
  have dropped : Loses gone d d.dropDefault := by
    unfold Destination.dropDefault
    split
    · exact Loses.refl d
    · rename_i old _
      have erased : Loses gone d { d with objects := erase d.objects old } := loses_erase old
      exact ⟨erased.fades, erased.batched⟩
  have placed : Loses gone d (d.dropDefault.setObject id ⟨mode,.shared,.shared,selector,[],.empty,[]⟩) :=
    dropped.trans (loses_setObject (by simp))
  unfold Destination.createConsumer
  rw [if_pos queue]
  dsimp only
  split
  · exact ⟨(placed.trans (replayFromStorage_loses gone env _ .shared .shared)).fades,
      (placed.trans (replayFromStorage_loses gone env _ .shared .shared)).batched⟩
  · exact ⟨placed.fades, placed.batched⟩

end Sends

/-- How a call is done with a message: what it takes away has one of these uuids, or has
    waited in a batch. -/
inductive Ends (d : Destination) : Call → UUID → Prop
  | expired {env cid patience c m} (object : get d.objects cid = some c)
      (waits : m ∈ messagesAt d (.queued c.queue)) (persistent : m.isPersistent = true)
      (late : Message.isExpired { m with content := shown m } env.nowMs = true) :
      Ends d (.recv env cid patience) m.uuid
  | acknowledged {cid c m} (object : get d.objects cid = some c)
      (plain : c.mode ≠ .SESSION_TRANSACTED) (persistent : m.isPersistent = true) :
      Ends d (.acknowledgeOn cid m) m.uuid
  | committed {cid m} (received : m ∈ messagesAt d (.received cid))
      (persistent : m.isPersistent = true) : Ends d (.commitConsumer cid) m.uuid
  | deadLettered {call cid p m} (gives : GivesBack cid p call) (was : m ∈ messagesAt d p)
      (persistent : m.isPersistent = true) (limited : Limited d m) : Ends d call m.uuid

section Removals
variable {gone : UUID → Prop} {d : Destination} {c : Consumer} {m : Message}

theorem locate_named (labelled : Labelled d) (shared : c.storage = .shared)
    (located : LocatedIn (d.stores .shared) m) (persistent : m.isPersistent = true)
    {rec : Nat × UUID} (found : d.locate c m = some rec) : Named (d.stores .shared) [rec] := by
  intro r member
  rw [List.mem_singleton.mp member]
  have uuid := locate_uuid found
  unfold Destination.locate at found
  split at found
  · rename_i n at_
    obtain rfl := Option.some.inj found
    have record := located persistent n at_
    rw [keys, List.getElem?_map, Option.map_eq_some_iff] at record
    exact record
  · obtain ⟨n, record, same⟩ := Option.map_eq_some_iff.mp found
    rw [shared] at record
    obtain ⟨e, at_, key⟩ := (labelled.stores .shared).indexed m.uuid n record
    rw [← same]
    exact ⟨e, at_, key⟩

theorem dropRecord_loses (labelled : Labelled d) (shared : c.storage = .shared)
    (located : LocatedIn (d.stores .shared) m) (all : m.isPersistent = true → gone m.uuid) :
    Loses gone d (d.dropRecord c m) := by
  rw [dropRecord_spec, shared]
  apply loses_update
  intro _
  unfold dropped
  split
  · rename_i persistent
    cases found : d.locate c m with
    | none => exact Fades.refl _
    | some rec =>
      apply fades_removeAll (locate_named labelled shared located persistent found)
      intro r member
      rw [List.mem_singleton.mp member, locate_uuid found]
      exact all persistent
  · exact Fades.refl _

theorem flushPendingAcks_loses (cid : Nat) (shared : c.storage = .shared)
    (named : Named (d.stores .shared) c.pendingAcks)
    (all : ∀ r ∈ c.pendingAcks, gone r.2) : Loses gone d (d.flushPendingAcks cid c) := by
  have objects : (c.pendingAcks.foldl (fun d rec => d.removeRecord c.storage rec) d).objects =
      d.objects := (same_fold (fun e rec _ => removeRecord_same e c.storage rec) d).objects
  have removed : Loses gone d (c.pendingAcks.foldl (fun d rec => d.removeRecord c.storage rec) d) := by
    refine ⟨?_, batched_same objects⟩
    rw [removeRecords_stores, shared, Function.update_self]
    exact fades_removeAll named all
  exact removed.trans (loses_setObject (by simp))

theorem opened_uuid {x : Message} {q : QueueId} (opened : Opened x m) (readable : Readable (.queued q) x)
    (faithful : Faithful x) : m.uuid = x.uuid := by
  cases persistent : x.isPersistent with
  | false => rw [opened.volatile persistent]
  | true =>
    obtain ⟨content, bytes⟩ := readable persistent
    rw [opened.read persistent content bytes]
    exact faithful persistent content bytes

theorem opened_located {s : Store Content} {x : Message} {q : QueueId} (opened : Opened x m)
    (readable : Readable (.queued q) x) (faithful : Faithful x) (located : LocatedIn s x) :
    LocatedIn s m ∧ (m.isPersistent = true → x.isPersistent = true) := by
  have stays : m.isPersistent = true → x.isPersistent = true := by
    intro persistent
    cases volatile : x.isPersistent with
    | true => rfl
    | false =>
      rw [opened.volatile volatile, volatile] at persistent
      cases persistent
  refine ⟨?_, stays⟩
  intro persistent n at_
  rw [opened.location] at at_
  rw [opened_uuid opened readable faithful]
  exact located (stays persistent) n at_

theorem recv_loses {q : QueueId} {kept : Detached} (env : Env) (cid patience : Nat)
    (labelled : Labelled d) (object : get d.objects cid = some c) (mine : c.queue = q)
    (shared : c.storage = .shared)
    (settled : ∀ m ∈ messagesAt d (.queued q), Settled d kept (.queued q) m ∧
      LocatedIn (d.stores .shared) m)
    (all : ∀ m ∈ messagesAt d (.queued q), m.isPersistent = true →
      Message.isExpired { m with content := shown m } env.nowMs = true → gone m.uuid) :
    Loses gone d (d.recv env cid patience).1 ∧
      ∀ m, (d.recv env cid patience).2 = some m → LocatedIn (d.stores .shared) m := by
  -- the rounds of the call: what still waits has waited before, and its records are where they were
  let P : Nat → Destination → Destination × Option Message → Prop := fun _ e r =>
    Labelled e → e.objects = d.objects → Extends (d.stores .shared) (e.stores .shared) →
      (∀ m ∈ messagesAt e (.queued q), m ∈ messagesAt d (.queued q)) →
      Loses gone e r.1 ∧ ∀ m, r.2 = some m → LocatedIn (d.stores .shared) m
  have waits : ∀ {e : Destination} {c' : Consumer} {m : Message} {queue : QueueT},
      (e.queues c'.queue).dequeue = some (m, queue) → c' = c →
      (∀ m ∈ messagesAt e (.queued q), m ∈ messagesAt d (.queued q)) →
      m ∈ messagesAt d (.queued q) ∧ ∀ x ∈ messagesAt (e.setQueue c'.queue queue) (.queued q),
        x ∈ messagesAt d (.queued q) := by
    rintro e c' m queue next rfl before
    rw [← mine] at before ⊢
    have order := (dequeue_takes next).1
    constructor
    · exact before m (order.mem_iff.mpr (by simp))
    · intro x inside
      exact before x (order.mem_iff.mpr (by simp [inside]))
  have dropped : ∀ {e : Destination} {c' : Consumer} {m : Message} {queue : QueueT},
      get e.objects cid = some c' → (e.queues c'.queue).dequeue = some (m, queue) →
      ((e.setQueue c'.queue queue).rehydrate c' m).isExpired env.nowMs = true →
      Labelled e → e.objects = d.objects → Extends (d.stores .shared) (e.stores .shared) →
      (∀ m ∈ messagesAt e (.queued q), m ∈ messagesAt d (.queued q)) →
      c' = c ∧ Loses gone e ((e.setQueue c'.queue queue).dropRecord c'
        ((e.setQueue c'.queue queue).rehydrate c' m)) := by
    intro e c' m queue here next late labelled' objects grown before
    have same : c' = c := by
      rw [objects, object, Option.some.injEq] at here
      exact here.symm
    subst same
    obtain ⟨was, _⟩ := waits next rfl before
    obtain ⟨inPlace, located⟩ := settled m was
    have opened := rehydrate_opened (e.setQueue c'.queue queue) c' m
    generalize (e.setQueue c'.queue queue).rehydrate c' m = m' at late opened
    have uuid := opened_uuid opened inPlace.readable inPlace.faithful
    have read := (opened_shown opened inPlace.readable).1
    obtain ⟨there, stays⟩ := opened_located opened inPlace.readable inPlace.faithful located
    have taken : Loses gone e (e.setQueue c'.queue queue) := loses_same rfl rfl
    refine ⟨rfl, taken.trans (dropRecord_loses (labelled'.same rfl rfl) shared
      (located_extends there grown) ?_)⟩
    intro persistent
    rw [uuid]
    apply all m was (stays persistent)
    unfold Message.isExpired at late ⊢
    rw [read] at late
    exact late
  have rounds : P patience d (d.recv env cid patience) := by
    apply recv_rounds env (P := P)
    · exact fun _ e _ _ _ _ _ => ⟨Loses.refl e, by simp⟩
    · exact fun _ e _ _ _ _ _ _ _ => ⟨Loses.refl e, by simp⟩
    · intro _ e c' m queue here next _ _ objects _ before
      constructor
      · have taken : Loses gone e (e.setQueue c'.queue queue) := loses_same rfl rfl
        apply taken.trans
        apply loses_setObject
        intro r inside
        have batch : ∀ x, (track c' x).pendingAcks = c'.pendingAcks := by
          intro x
          unfold track
          split <;> rfl
        rw [batch] at inside
        exact ⟨cid, c', here, inside⟩
      · intro m' returned
        have same : c' = c := by
          rw [objects, object, Option.some.injEq] at here
          exact here.symm
        obtain ⟨inPlace, located⟩ := settled m (waits next same before).1
        have opened := rehydrate_opened (e.setQueue c'.queue queue) c' m
        rw [Option.some.inj returned] at opened
        exact (opened_located opened inPlace.readable inPlace.faithful located).1
    · intro e c' m queue here next late labelled' objects grown before
      exact ⟨(dropped here next late labelled' objects grown before).2, by simp⟩
    · intro _ e c' m queue r here next late rest labelled' objects grown before
      obtain ⟨same, loses⟩ := dropped here next late labelled' objects grown before
      have taken : Labelled (e.setQueue c'.queue queue) := labelled'.same rfl rfl
      have after := rest (dropRecord_labelled taken c' _)
        ((dropRecord_same _ c' _).objects.trans objects) (grown.trans loses.fades.extends_) ?_
      · exact ⟨loses.trans after.1, after.2⟩
      · intro x inside
        apply (waits next same before).2 x
        rw [dropRecord_spec] at inside
        exact inside
  exact rounds labelled rfl (Extends.refl _) fun _ => id

theorem redeliverAll_loses (env : Env) (closing : Bool) (shared : c.storage = .shared)
    {ms : List Message} (labelled : Labelled d)
    (located : ∀ m ∈ ms, LocatedIn (d.stores .shared) m)
    (all : ∀ m ∈ ms, m.isPersistent = true → Limited d m → gone m.uuid) :
    Loses gone d (d.redeliverAll env c closing ms).1 := by
  induction ms generalizing d with
  | nil => exact Loses.refl d
  | cons m ms ih =>
    have first : Loses gone d (d.redeliver env c closing m).1 := by
      unfold Destination.redeliver
      dsimp only
      split
      · rename_i limited
        exact dropRecord_loses labelled shared (located m List.mem_cons_self)
          fun persistent => all m List.mem_cons_self persistent limited
      · split
        · exact enqueueOrSchedule_loses gone env d _ _
        · exact loses_same rfl rfl
    have policy := (redeliver_stays env d c closing m).policy
    have rest := ih (redeliver_labelled labelled env c closing m)
      (fun x later => located_extends (located x (List.mem_cons_of_mem m later)) first.fades.extends_)
      (by
        intro x later persistent limited
        unfold Limited at limited
        rw [policy] at limited
        exact all x (List.mem_cons_of_mem m later) persistent limited)
    exact first.trans rest

end Removals

def BatchesNamed (d : Destination) : Prop :=
  ∀ r, Batched d r → ∃ e : Entry UUID Content, (d.stores .shared).log[r.1]? = some e ∧ e.key = r.2

def MayGo (d : Destination) (call : Call) (u : UUID) : Prop := Ends d call u ∨ ∃ n, Batched d (n, u)

section Calls
variable {d : Destination} {kept : Detached}

theorem onQueue (right : Right (d, kept)) (queue : d.isQueueFamily = true) {cid : Nat}
    {c : Consumer} (object : get d.objects cid = some c) :
    c.queue = .shared ∧ c.storage = .shared ∧ kept cid = none := by
  have alone : kept cid = none := by
    cases held : kept cid with
    | none => rfl
    | some s =>
      have topic := (right.off cid s held).1
      rw [queue] at topic
      cases topic
  rcases right.wired cid c object with ⟨_, mine, storage⟩ | ⟨topic, _⟩
  · exact ⟨mine, storage, alone⟩
  · rw [queue] at topic
    cases topic

theorem received_located (right : Right (d, kept)) (queue : d.isQueueFamily = true) {cid : Nat}
    {p : Place} (place : p = .inFlight cid ∨ p = .received cid) {m : Message}
    (inside : m ∈ messagesAt d p) : LocatedIn (d.stores .shared) m := by
  cases object : get d.objects cid with
  | none =>
    rcases place with rfl | rfl <;> simp [messagesAt, chainOf, receivedBy, object] at inside
  | some c =>
    obtain ⟨_, storage, alone⟩ := onQueue right queue object
    apply (right.tracked.origin p m inside).located
    rcases place with rfl | rfl <;> simp [home, object, ownStore, alone, storage]

theorem redelivers (right : Right (d, kept)) (queue : d.isQueueFamily = true) {call : Call}
    {cid : Nat} {p : Place} (gives : GivesBack cid p call) {e : Destination}
    (labelled : Labelled e) (loses : Loses (MayGo d call) d e)
    (policy : e.redeliveryPolicy = d.redeliveryPolicy) {c : Consumer} (shared : c.storage = .shared)
    (env : Env) (closing : Bool) {ms : List Message} (from_ : ∀ m ∈ ms, m ∈ messagesAt d p) :
    Loses (MayGo d call) d (e.redeliverAll env c closing ms).1 := by
  apply loses.trans
  apply redeliverAll_loses env closing shared labelled
  · intro m inside
    exact located_extends
      (received_located right queue (givesBack_place gives) (from_ m inside)) loses.fades.extends_
  · intro m inside persistent limited
    unfold Limited at limited
    rw [policy] at limited
    exact .inl (.deadLettered gives (from_ m inside) persistent limited)

theorem recover_loses (right : Right (d, kept)) (queue : d.isQueueFamily = true) (env : Env)
    (cid : Nat) : Loses (MayGo d (.recover env cid)) d (d.recover env cid).1 := by
  unfold Destination.recover
  split
  · exact Loses.refl d
  · rename_i c object
    have emptied : Loses (MayGo d (.recover env cid)) d (d.setObject cid { c with inFlight := [] }) :=
      loses_setObject fun r inside => ⟨cid, c, object, inside⟩
    have labelled : Labelled (d.setObject cid { c with inFlight := [] }) :=
      right.labelled.same rfl rfl
    have gives : GivesBack cid (.inFlight cid) (.recover env cid) := ⟨rfl, rfl⟩
    apply redelivers right queue gives labelled emptied rfl (onQueue right queue object).2.1 env false
    simp [messagesAt, chainOf, object]

theorem rollbackConsumer_loses (right : Right (d, kept)) (queue : d.isQueueFamily = true)
    {call : Call} {cid : Nat} (gives : GivesBack cid (.received cid) call) {e : Destination}
    (labelled : Labelled e) (loses : Loses (MayGo d call) d e)
    (policy : e.redeliveryPolicy = d.redeliveryPolicy)
    (now : ∀ c', get e.objects cid = some c' → c'.storage = .shared ∧
      ∀ m ∈ c'.transactQueue.toList, m ∈ messagesAt d (.received cid)) (env : Env) (closing : Bool) :
    Loses (MayGo d call) d (e.rollbackConsumer env cid closing).1 := by
  unfold Destination.rollbackConsumer
  split
  · exact loses
  · rename_i c object
    obtain ⟨shared, was⟩ := now c object
    split
    · have emptied : Loses (MayGo d call) d (e.setObject cid { c with transactQueue := .empty }) :=
        loses.trans (loses_setObject fun r inside => ⟨cid, c, object, inside⟩)
      have labelled' : Labelled (e.setObject cid { c with transactQueue := .empty }) :=
        labelled.same rfl rfl
      exact redelivers right queue gives labelled' emptied policy shared env closing was
    · exact loses

theorem destroyConsumer_loses (right : Right (d, kept)) (queue : d.isQueueFamily = true)
    (named : BatchesNamed d) (env : Env) (cid : Nat) :
    Loses (MayGo d (.destroyConsumer env cid)) d (d.destroyConsumer env cid).1 := by
  unfold Destination.destroyConsumer
  split
  · exact Loses.refl d
  · rename_i c object
    obtain ⟨_, storage, _⟩ := onQueue right queue object
    have flushed : Loses (MayGo d (.destroyConsumer env cid)) d (d.flushPendingAcks cid c) := by
      apply flushPendingAcks_loses cid storage
      · exact fun r inside => named r ⟨cid, c, object, inside⟩
      · exact fun r inside => .inr ⟨r.1, cid, c, object, inside⟩
    have policy : (d.flushPendingAcks cid c).redeliveryPolicy = d.redeliveryPolicy := by
      have one : ∀ e, ∀ rec ∈ c.pendingAcks, Stays e (Destination.removeRecord e c.storage rec) :=
        fun _ _ _ => rfl
      exact (stays_fold one d).policy
    have gives : GivesBack cid (.received cid) (.destroyConsumer env cid) := ⟨rfl, rfl⟩
    have rolled := rollbackConsumer_loses right queue gives
      (flushPendingAcks_labelled right.labelled cid c) flushed policy (by
        intro c' now
        simp only [Destination.flushPendingAcks, Destination.setObject, get_put_same,
          Option.some.injEq] at now
        rw [← now]
        refine ⟨storage, ?_⟩
        simp [messagesAt, receivedBy, object]) env false
    exact rolled.trans (loses_erase cid)

theorem commitConsumer_loses (right : Right (d, kept)) (queue : d.isQueueFamily = true) (cid : Nat) :
    Loses (MayGo d (.commitConsumer cid)) d (d.commitConsumer cid) := by
  unfold Destination.commitConsumer
  split
  · exact Loses.refl d
  · rename_i c object
    obtain ⟨_, storage, _⟩ := onQueue right queue object
    split
    · have drops : ∀ (ms : List Message) (e : Destination), Labelled e →
          (∀ m ∈ ms, m ∈ messagesAt d (.received cid)) → Extends (d.stores .shared) (e.stores .shared) →
          Loses (MayGo d (.commitConsumer cid)) e (ms.foldl (Destination.dropRecord c) e) := by
        intro ms
        induction ms with
        | nil => exact fun e _ _ _ => Loses.refl e
        | cons m ms ih =>
          intro e labelled was grown
          have here := was m List.mem_cons_self
          have first : Loses (MayGo d (.commitConsumer cid)) e (e.dropRecord c m) :=
            dropRecord_loses labelled storage
              (located_extends (received_located right queue (.inr rfl) here) grown)
              fun persistent => .inl (.committed here persistent)
          exact first.trans (ih _ (dropRecord_labelled labelled c m)
            (fun x later => was x (List.mem_cons_of_mem m later)) (grown.trans first.fades.extends_))
      have emptied : Loses (MayGo d (.commitConsumer cid)) d
          (d.setObject cid { c with transactQueue := .empty }) :=
        loses_setObject fun r inside => ⟨cid, c, object, inside⟩
      exact emptied.trans (drops _ _ (right.labelled.same rfl rfl)
        (by simp [messagesAt, receivedBy, object]) (Extends.refl _))
    · exact Loses.refl d

theorem receive_loses (right : Right (d, kept)) (queue : d.isQueueFamily = true) (env : Env)
    (cid patience : Nat) :
    Loses (MayGo d (.recv env cid patience)) d (d.recv env cid patience).1 ∧
      ∀ m, (d.recv env cid patience).2 = some m → LocatedIn (d.stores .shared) m := by
  cases object : get d.objects cid with
  | none =>
    have nothing : d.recv env cid patience = (d, none) := by
      unfold Destination.recv
      rw [object]
    rw [nothing]
    exact ⟨Loses.refl d, by simp⟩
  | some c =>
    obtain ⟨mine, storage, _⟩ := onQueue right queue object
    apply recv_loses env cid patience right.labelled object mine storage
    · intro m inside
      have settled := right.tracked.origin _ m inside
      exact ⟨settled, settled.located _ rfl⟩
    · intro m inside persistent late
      rw [← mine] at inside
      exact .inl (.expired object inside persistent late)

theorem acknowledgeOn_loses (right : Right (d, kept)) (queue : d.isQueueFamily = true)
    (named : BatchesNamed d) (cid : Nat) (m : Message) (located : LocatedIn (d.stores .shared) m) :
    Fades (MayGo d (.acknowledgeOn cid m)) (d.stores .shared)
        ((d.acknowledgeOn cid m).stores .shared) ∧
      ∀ r, Batched (d.acknowledgeOn cid m) r → Batched d r ∨
        Ends d (.acknowledgeOn cid m) r.2 ∧ Named (d.stores .shared) [r] := by
  cases object : get d.objects cid with
  | none =>
    have nothing : d.acknowledgeOn cid m = d := by
      unfold Destination.acknowledgeOn
      rw [object]
    rw [nothing]
    exact ⟨Fades.refl _, fun r => .inl⟩
  | some c =>
    obtain ⟨_, storage, _⟩ := onQueue right queue object
    by_cases transacted : c.mode = .SESSION_TRANSACTED
    · have nothing : d.acknowledgeOn cid m = d := by
        unfold Destination.acknowledgeOn
        rw [object]
        dsimp only
        rw [if_pos transacted]
      rw [nothing]
      exact ⟨Fades.refl _, fun r => .inl⟩
    obtain ⟨stores, c', now, _, _, batch⟩ := acknowledgeOn_spec object transacted (m := m)
    obtain ⟨_, _, shape⟩ := acknowledgeOn_shape object transacted (m := m)
    -- what is found is removed at once or waits, and what waited is removed or goes on waiting
    have member := removals_batched object transacted (m := m)
    have known : ∀ r, r ∈ c.pendingAcks ∨
        r ∈ (if m.isPersistent = true then d.locate c m else none).toList →
        Batched d r ∨ Ends d (.acknowledgeOn cid m) r.2 ∧ Named (d.stores .shared) [r] := by
      rintro r (waited | found)
      · exact .inl ⟨cid, c, object, waited⟩
      · split at found
        · rename_i persistent
          rw [Option.mem_toList] at found
          refine .inr ⟨?_, locate_named right.labelled storage located persistent found⟩
          rw [locate_uuid found]
          exact .acknowledged object transacted persistent
        · cases found
    constructor
    · rw [stores, storage, Function.update_self]
      apply fades_removeAll
      · intro r inside
        rcases known r ((member r).mp (.inl inside)) with old | ⟨_, new⟩
        · exact named r old
        · exact new r (List.mem_singleton_self r)
      · intro r inside
        rcases known r ((member r).mp (.inl inside)) with old | ⟨new, _⟩
        · exact .inr ⟨r.1, old⟩
        · exact .inl new
    · rintro r ⟨cid', c'', there, inside⟩
      by_cases same : cid' = cid
      · subst same
        obtain rfl := Option.some.inj (there.symm.trans now)
        rw [batch] at inside
        exact known r ((member r).mp (.inr inside))
      · rw [shape] at there
        simp only [get_put_other _ _ same] at there
        exact .inl ⟨cid', c'', there, inside⟩

/-- The acknowledged message has the location of its own record, or none. -/
def AckLocated (d : Destination) (call : Call) : Prop :=
  ∀ cid m, call = .acknowledgeOn cid m → LocatedIn (d.stores .shared) m

theorem right_noSubs (right : Right (d, kept)) (queue : d.isQueueFamily = true) :
    d.durableSubs = [] := by
  rcases right.ordered with ⟨_, none_⟩ | registry
  · exact none_
  · rw [topic_notQueue registry.topic] at queue
    cases queue

theorem step_loses (right : Right (d, kept)) (queue : d.isQueueFamily = true)
    (named : BatchesNamed d) {call : Call} (located : AckLocated d call) :
    Fades (MayGo d call) (d.stores .shared) ((next d call).stores .shared) ∧
      ∀ r, Batched (next d call) r → Batched d r ∨
        Ends d call r.2 ∧ Named (d.stores .shared) [r] := by
  have whole : ∀ {e : Destination}, Loses (MayGo d call) d e →
      Fades (MayGo d call) (d.stores .shared) (e.stores .shared) ∧
        ∀ r, Batched e r → Batched d r ∨ Ends d call r.2 ∧ Named (d.stores .shared) [r] :=
    fun loses => ⟨loses.fades, fun r here => .inl (loses.batched r here)⟩
  have noSubs := right_noSubs right queue
  cases call with
  | createDefaultConsumer id mode =>
    apply whole
    have placed : Loses (MayGo d (.createDefaultConsumer id mode)) d
        (d.setObject id ⟨mode,.shared,.shared,none,[],.empty,[]⟩) := loses_setObject (by simp)
    simp only [next, step, Destination.createDefaultConsumer, queue, if_true]
    exact ⟨placed.fades, placed.batched⟩
  | createConsumer env id mode selector =>
    exact whole (createConsumer_loses _ env d queue id mode selector)
  | createDurableConsumer env id mode clientID name selector =>
    apply whole
    simp only [next, step, Destination.createDurableConsumer, queue_notTopic queue]
    exact Loses.refl d
  | deleteConsumer id =>
    apply whole
    have same : (d.deleteConsumer id).stores = d.stores ∧ (d.deleteConsumer id).objects = d.objects := by
      unfold Destination.deleteConsumer
      dsimp only
      split <;> exact ⟨rfl, rfl⟩
    exact loses_same same.1 same.2
  | destroyConsumer env id => exact whole (destroyConsumer_loses right queue named env id)
  | deleteSubscription clientID name =>
    apply whole
    simp only [next, step]
    rw [deleteSubscription_absent (by rw [noSubs]; rfl)]
    exact Loses.refl d
  | createProducer id mode => exact whole (loses_same rfl rfl)
  | deleteProducer env id t =>
    apply whole
    exact loses_same (rollbackProducer_stores env d id t) (deleteProducer_same env d id t).objects
  | send env pid t m =>
    apply whole
    simp only [next, step, Destination.send]
    split
    · exact Loses.refl d
    · exact save_loses _ env d pid t _
  | sendWith env pid t m opts =>
    apply whole
    simp only [next, step, Destination.sendWith]
    split
    · exact Loses.refl d
    · split
      · exact Loses.refl d
      · exact save_loses _ env d pid t _
  | commitProducer env pid t => exact whole (commitProducer_loses _ env d pid t)
  | rollbackProducer env pid t =>
    apply whole
    exact loses_same (rollbackProducer_stores env d pid t) (rollbackProducer_same env d pid t).objects
  | recv env cid patience => exact whole (receive_loses right queue env cid patience).1
  | acknowledgeOn cid m =>
    exact acknowledgeOn_loses right queue named cid m (located cid m rfl)
  | recover env cid => exact whole (recover_loses right queue env cid)
  | rollbackConsumer env cid closing =>
    apply whole
    have gives : GivesBack cid (.received cid) (.rollbackConsumer env cid closing) := ⟨rfl, rfl⟩
    apply rollbackConsumer_loses right queue gives right.labelled (Loses.refl d) rfl
    intro c object
    refine ⟨(onQueue right queue object).2.1, ?_⟩
    simp [messagesAt, receivedBy, object]
  | commitConsumer cid => exact whole (commitConsumer_loses right queue cid)
  | deliverDue env =>
    apply whole
    have same : (d.deliverDue env).stores = d.stores := by
      unfold Destination.deliverDue
      split
      · rfl
      · split <;> rfl
    exact loses_same same (deliverDue_same env d).objects
  | acceptDeadLetter env m => exact whole (acceptDeadLetter_loses _ env d m)
  | rehash l =>
    apply whole
    simp only [next, step, Destination.rehash]
    split
    · exact loses_same rfl rfl
    · exact Loses.refl d
  | restart env =>
    apply whole
    refine ⟨⟨Extends.refl _, fun n e here removed => .inr ⟨e, here, removed⟩⟩, ?_⟩
    rintro r ⟨cid, c, object, _⟩
    simp [next, step, Destination.restart] at object

end Calls

end TinyMqRecordRemovals
