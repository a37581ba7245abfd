import TinyMq.Broker.BufferRuns
import TinyMq.Broker.StoreBacking
import TinyMq.Broker.SingleHolder
import TinyMq.Broker.CachedLocations

/-!
The storage of a queue whose messages have distinct uuids. A uuid is used once: it
is then in the transaction buffer or in the log, not in both, and the record that is
found for a message, by its location or by its uuid, is its own.
-/
namespace TinyMqDistinctRecords
open DelimitedText AssocLists BandQueues Machines TombstoneLog TinyMqTom TinyMqMessage TinyMqStore
open TinyMqDestination TinyMqTransactionBuffer TinyMqSession TinyMqFrames TinyMqHolders TinyMqQueueRuns
open TinyMqPlaces TinyMqOrigins TinyMqInversion TinyMqRecords TinyMqSingleHolder
open TinyMqDurableRegistry TinyMqLabelledRecords TinyMqCachedLocations
open TinyMqBufferRuns (addMessage_data rollback_data)
open TinyMqStoreBacking (Ordinals ordinals_appended ordinals_removed)

def Works (env : Env) : Prop := ∀ sid n, env.appendFails sid n = false

/-- A storage that works, with one record for each uuid. -/
structure Tidy (s : Store Content) : Prop where
  good : s.good = true
  distinct : (keys s.log).Nodup
  ordinals : Ordinals s

section Tidy
variable {s : Store Content}

theorem tidy_empty : Tidy ({} : Store Content) := by
  refine ⟨rfl, List.nodup_nil, ?_⟩
  intro u i
  simp

theorem Tidy.append (tidy : Tidy s) {uuid : UUID} (data : Content) (new : uuid ∉ keys s.log) :
    Tidy (s.append uuid data false).1 ∧ (s.append uuid data false).1.log = append s.log uuid data := by
  have ok : s.good = true ∧ false = false := ⟨tidy.good, rfl⟩
  unfold Store.append
  rw [if_pos ok]
  refine ⟨⟨tidy.good, ?_, ordinals_appended tidy.ordinals data new⟩, rfl⟩
  rw [keys_append]
  exact List.Nodup.append tidy.distinct (List.pairwise_singleton _ _) (by simpa using new)

theorem Tidy.appendBatch (tidy : Tidy s) {fails : Nat → Bool} (works : ∀ n, fails n = false)
    {items : List (UUID × Content)} (once : (items.map Prod.fst).Nodup)
    (new : ∀ x ∈ items, x.1 ∉ keys s.log) :
    Tidy (s.appendBatch fails items) ∧ (s.appendBatch fails items).log = s.log ++ stored items := by
  rw [appendBatch_appends]
  unfold appends
  induction items generalizing s with
  | nil => exact ⟨tidy, by simp [stored]⟩
  | cons x items ih =>
    obtain ⟨absent, rest⟩ := List.nodup_cons.mp once
    rw [List.foldl_cons, works]
    obtain ⟨first, log⟩ := tidy.append x.2 (new x (by simp))
    have later : ∀ y ∈ items, y.1 ∉ keys (s.append x.1 x.2 false).1.log := by
      intro y inside
      rw [log, keys_append]
      simp only [List.mem_append, List.mem_singleton, not_or]
      refine ⟨new y (List.mem_cons_of_mem x inside), ?_⟩
      intro same
      exact absent (List.mem_map.mpr ⟨y, inside, same⟩)
    obtain ⟨whole, grown⟩ := ih first rest later
    refine ⟨whole, ?_⟩
    rw [grown, log]
    simp [TombstoneLog.append, stored]

theorem Tidy.remove (tidy : Tidy s) {n : Nat} {u : UUID} (here : (keys s.log)[n]? = some u) :
    Tidy (s.remove n u) ∧ ∀ x, x ∈ liveRecords (s.remove n u).log ↔
      x ∈ liveRecords s.log ∧ x.1.key ≠ u := by
  obtain ⟨e, entry, key⟩ : ∃ e, s.log[n]? = some e ∧ e.key = u := by
    simpa [keys, Option.map_eq_some_iff] using here
  subst key
  have same : s.remove n e.key =
      { s with log := TombstoneLog.remove s.log n, index := Function.update s.index e.key none } := by
    unfold Store.remove
    rw [if_pos tidy.good]
  rw [same]
  refine ⟨⟨tidy.good, ?_, ordinals_removed tidy.ordinals tidy.distinct entry⟩, ?_⟩
  · rw [keys_remove]
    exact tidy.distinct
  · intro x
    simp only [mem_liveRecords_iff, TombstoneLog.remove, List.getElem?_modify]
    by_cases place : n = x.2
    · subst place
      simp only [entry, if_true, Option.map_eq_map, Option.map_some, Option.some.injEq]
      constructor
      · rintro ⟨marked, live⟩
        rw [← marked] at live
        cases live
      · rintro ⟨⟨rfl, _⟩, other⟩
        exact absurd rfl other
    · simp only [place, if_false, Option.map_eq_map, Option.map_id']
      constructor
      · rintro ⟨at_, live⟩
        refine ⟨⟨at_, live⟩, ?_⟩
        intro same
        have left : (keys s.log)[x.2]? = some e.key := by simp [keys, at_, same]
        exact place ((List.getElem?_inj (List.getElem?_eq_some_iff.mp here).1 tidy.distinct).mp
          (here.trans left.symm))
      · exact fun both => both.1

end Tidy

/-- What the transaction buffer holds is not in the log yet. -/
structure Filed (d : Destination) : Prop where
  tidy : Tidy (d.stores .shared)
  buffered : ∀ u, d.buffer.bufferedData u ≠ none → u ∉ keys (d.stores .shared).log

def Unfiled (d : Destination) (u : UUID) : Prop :=
  u ∉ keys (d.stores .shared).log ∧ d.buffer.bufferedData u = none

instance (d : Destination) (u : UUID) : Decidable (Unfiled d u) :=
  inferInstanceAs (Decidable (_ ∧ _))

section Filed
variable {d : Destination}

theorem Filed.same {d' : Destination} (filed : Filed d)
    (store : d'.stores .shared = d.stores .shared) (buffer : d'.buffer = d.buffer) :
    Filed d' := by
  refine ⟨?_, ?_⟩
  · rw [store]
    exact filed.tidy
  · rw [store, buffer]
    exact filed.buffered

theorem Filed.fold {ι : Type} {g : Destination → ι → Destination} {l : List ι}
    (filed : Filed d) (one : ∀ e i, i ∈ l → Filed e → Filed (g e i)) :
    Filed (l.foldl g d) := by
  induction l generalizing d with
  | nil => exact filed
  | cons i l ih =>
    rw [List.foldl_cons]
    exact ih (one d i (by simp) filed) fun e j inside => one e j (List.mem_cons_of_mem i inside)

theorem enqueueOrSchedule_filed (filed : Filed d) (env : Env) (q : QueueId) (m : Message) :
    Filed (d.enqueueOrSchedule env q m) := by
  rcases enqueueOrSchedule_cases env d q m with queued | dropped | scheduled
  · rw [queued]
    exact filed.same rfl rfl
  · rw [dropped]
    exact filed
  · rw [scheduled]
    exact filed.same rfl rfl

theorem appendRecord_filed (filed : Filed d) {env : Env} (works : Works env) {uuid : UUID}
    (content : Content) (new : Unfiled d uuid) :
    Filed (d.appendRecord env .shared uuid content).1 := by
  obtain ⟨tidy, log⟩ := filed.tidy.append content new.1
  have store : (d.appendRecord env .shared uuid content).1.stores .shared =
      ((d.stores .shared).append uuid content false).1 := by
    simp only [Destination.appendRecord, Function.update_self]
    rw [works]
  refine ⟨?_, ?_⟩
  · rw [store]
    exact tidy
  · rw [store, log, keys_append]
    intro u there
    simp only [List.mem_append, List.mem_singleton, not_or]
    refine ⟨filed.buffered u there, ?_⟩
    rintro rfl
    exact there new.2

theorem addMessage_filed (filed : Filed d) (time : Stamp) (t : Text) {uuid : UUID}
    (content : Content) (new : Unfiled d uuid) :
    Filed { d with buffer := d.buffer.addMessage time t uuid content } := by
  refine ⟨filed.tidy, ?_⟩
  intro u there
  rw [addMessage_data] at there
  by_cases here : u = uuid
  · rw [here]
    exact new.1
  · rw [Function.update_of_ne here] at there
    exact filed.buffered u there

theorem preparePush_filed (filed : Filed d) {env : Env} (works : Works env) {cid : Nat}
    {c : Consumer} (shared : c.storage = .shared) {number : Int} (t : Text) {m : Message}
    (new : Unfiled d (sentUuid env number cid m)) :
    Filed (d.preparePush env cid c number t m).1 := by
  have numbered : Filed { d with nextOid := d.nextOid + 1 } := filed.same rfl rfl
  unfold Destination.preparePush
  dsimp only
  split
  · split
    · exact addMessage_filed numbered env.stamp t _ new
    · rw [shared]
      exact appendRecord_filed numbered works _ new
  · exact numbered

theorem push_filed (filed : Filed d) (shared : AllShared d) {env : Env} (works : Works env)
    {number : Int} (pid : Nat) (t : Text) {m : Message} {cid : Nat}
    (new : Unfiled d (sentUuid env number cid m)) :
    Filed (Destination.push env number pid t m d cid) := by
  unfold Destination.push
  split
  · exact filed
  · rename_i c object
    split
    · have prepared := preparePush_filed filed works (shared cid c object).2 t new
      dsimp only
      split
      · split
        · exact enqueueOrSchedule_filed prepared env _ _
        · exact prepared.same rfl rfl
      · unfold Destination.stage
        split
        · exact prepared
        · exact prepared.same rfl rfl
    · exact filed

theorem save_filed (filed : Filed d) (shared : AllShared d) (queue : d.isQueueFamily = true)
    {env : Env} (works : Works env) (pid : Nat) (t : Text) {m : Message}
    (new : ∀ cid ∈ d.targets, Unfiled d (sentUuid env d.messageCounter cid m)) :
    Filed (d.save env pid t m) := by
  have counted : Filed { d with messageCounter := d.messageCounter + 1 } := filed.same rfl rfl
  have one : d.targets = [] ∨ ∃ cid, d.targets = [cid] := by
    have first : d.targets = d.consumers.take 1 := if_pos queue
    rw [first]
    cases d.consumers with
    | nil => exact Or.inl rfl
    | cons cid rest => exact Or.inr ⟨cid, rfl⟩
  have pushed : Filed (d.targets.foldl (Destination.push env d.messageCounter pid t m)
      { d with messageCounter := d.messageCounter + 1 }) := by
    rcases one with nobody | ⟨cid, alone⟩
    · rw [nobody]
      exact counted
    · rw [alone] at new ⊢
      exact push_filed counted shared works pid t (new cid (by simp))
  have plain : ¬ (List.foldl (Destination.push env d.messageCounter pid t m)
      { d with messageCounter := d.messageCounter + 1 } d.targets).isTopicFamily = true := by
    have same := same_fold (l := d.targets)
      (fun e cid _ => push_same env e d.messageCounter pid t m cid)
      { d with messageCounter := d.messageCounter + 1 }
    rw [same.topicFamily]
    exact Bool.eq_false_iff.mp (queue_notTopic queue)
  unfold Destination.save
  dsimp only
  rw [if_neg fun all => plain all.1]
  exact pushed

theorem Filed.forgets (filed : Filed d) {tb : TransactionBuffer Content}
    (less : ∀ u, tb.bufferedData u ≠ none → d.buffer.bufferedData u ≠ none) :
    Filed { d with buffer := tb } :=
  ⟨filed.tidy, fun u there => filed.buffered u (less u there)⟩

theorem patchPending_filed (filed : Filed d) (env : Env) (m : Message) :
    Filed (d.patchPending env m) := by
  unfold Destination.patchPending
  split
  · refine filed.forgets ?_
    intro u there
    unfold TransactionBuffer.patchDeliveryTime at there
    split at there
    · exact there
    · rename_i content found
      by_cases here : u = m.uuid
      · rw [here, found]
        simp
      · simpa [Function.update_of_ne here] using there
  · exact filed

theorem takeBatch_once (tb : TransactionBuffer Content) (ids : List UUID) :
    ((tb.takeBatch ids).2.map Prod.fst).Nodup ∧
      (∀ x ∈ (tb.takeBatch ids).2, tb.bufferedData x.1 ≠ none) ∧
      ∀ u, (tb.takeBatch ids).1.bufferedData u ≠ none →
        tb.bufferedData u ≠ none ∧ u ∉ (tb.takeBatch ids).2.map Prod.fst := by
  induction ids generalizing tb with
  | nil => simp [TransactionBuffer.takeBatch]
  | cons id ids ih =>
    unfold TransactionBuffer.takeBatch
    split
    · exact ih tb
    · rename_i data found
      obtain ⟨once, there, left⟩ := ih { tb with
        bufferedData := Function.update tb.bufferedData id none,
        messageToTransaction := Function.update tb.messageToTransaction id none }
      have other : ∀ {u}, Function.update tb.bufferedData id none u ≠ none →
          u ≠ id ∧ tb.bufferedData u ≠ none := by
        intro u data_
        have apart : u ≠ id := by
          rintro rfl
          simp at data_
        rw [Function.update_of_ne apart] at data_
        exact ⟨apart, data_⟩
      refine ⟨?_, ?_, ?_⟩
      · refine List.nodup_cons.mpr ⟨?_, once⟩
        intro inside
        obtain ⟨x, member, same⟩ := List.mem_map.mp inside
        exact (other (there x member)).1 same
      · intro x member
        rcases List.mem_cons.mp member with rfl | later
        · simp [found]
        · exact (other (there x later)).2
      · intro u data_
        obtain ⟨before, outside⟩ := left u data_
        refine ⟨(other before).2, ?_⟩
        simp only [List.map_cons, List.mem_cons, not_or]
        exact ⟨(other before).1, outside⟩

theorem commitTransaction_filed (filed : Filed d) {env : Env} (works : Works env) (t : Text) :
    Filed (d.commitTransaction env t) := by
  unfold Destination.commitTransaction
  split
  · exact filed
  · have taken : ((d.buffer.commitTransaction env.stamp t).2.map Prod.fst).Nodup ∧
        (∀ x ∈ (d.buffer.commitTransaction env.stamp t).2, d.buffer.bufferedData x.1 ≠ none) ∧
        ∀ u, (d.buffer.commitTransaction env.stamp t).1.bufferedData u ≠ none →
          d.buffer.bufferedData u ≠ none ∧
            u ∉ (d.buffer.commitTransaction env.stamp t).2.map Prod.fst := by
      unfold TransactionBuffer.commitTransaction
      split
      · simp
      · rename_i ids _
        exact takeBatch_once d.buffer ids
    obtain ⟨once, there, left⟩ := taken
    obtain ⟨tidy, log⟩ := filed.tidy.appendBatch (works .shared) once
      fun x inside => filed.buffered x.1 (there x inside)
    have keys_ : keys ((d.stores .shared).appendBatch (env.appendFails .shared)
        (d.buffer.commitTransaction env.stamp t).2).log =
          keys (d.stores .shared).log ++ (d.buffer.commitTransaction env.stamp t).2.map Prod.fst := by
      rw [log]
      simp [keys, stored]
    dsimp only
    refine ⟨?_, ?_⟩
    · simpa using tidy
    · simp only [Function.update_self, keys_, List.mem_append, not_or]
      intro u data
      obtain ⟨before, outside⟩ := left u data
      exact ⟨filed.buffered u before, outside⟩

theorem deliverCommitted_filed (filed : Filed d) (queue : d.isQueueFamily = true) (env : Env)
    (m : Message) : Filed (d.deliverCommitted env m) := by
  unfold Destination.deliverCommitted
  rw [if_pos queue]
  split
  · exact filed
  · split
    · exact filed
    · exact enqueueOrSchedule_filed filed env _ _

theorem commitProducer_filed (filed : Filed d) (queue : d.isQueueFamily = true) {env : Env}
    (works : Works env) (pid : Nat) (t : Text) : Filed (d.commitProducer env pid t) := by
  unfold Destination.commitProducer
  split
  · exact filed
  · rename_i p _
    split
    · have cleared : Filed (d.clearStaged pid p) := filed.same rfl rfl
      have patched : Filed (p.transactQueue.toList.foldl (Destination.patchPending env)
          (d.clearStaged pid p)) :=
        cleared.fold fun e m _ here => patchPending_filed here env m
      have still : ∀ e : Destination, e.type = d.type → e.isQueueFamily = true := by
        intro e same
        unfold Destination.isQueueFamily at queue ⊢
        rw [same]
        exact queue
      have type := ((same_fold (l := p.transactQueue.toList)
        (fun e m _ => patchPending_same env e m) (d.clearStaged pid p)).trans
          (commitTransaction_same env _ t)).type
      have delivered : ∀ (l : List Message) (e : Destination), e.type = d.type → Filed e →
          Filed (l.foldl (Destination.deliverCommitted env) e) := by
        intro l
        induction l with
        | nil => exact fun e _ here => here
        | cons m l ih =>
          intro e same here
          exact ih _ ((deliverCommitted_same env e m).type.trans same)
            (deliverCommitted_filed here (still e same) env m)
      exact delivered _ _ type (commitTransaction_filed patched works t)
    · exact filed

theorem rollbackProducer_filed (filed : Filed d) (env : Env) (pid : Nat) (t : Text) :
    Filed (d.rollbackProducer env pid t) := by
  have rolled : Filed (if t = [] then d
      else { d with buffer := d.buffer.rollbackTransaction env.stamp t }) := by
    split
    · exact filed
    · refine filed.forgets ?_
      intro u there
      rw [rollback_data] at there
      split at there
      · exact absurd rfl there
      · exact there
  unfold Destination.rollbackProducer
  split
  · exact filed
  · split
    · exact rolled.same rfl rfl
    · exact filed

theorem dropRecord_filed (filed : Filed d) {c : Consumer} (shared : c.storage = .shared)
    {m : Message} (located : LocatedIn (d.stores .shared) m) :
    Filed (d.dropRecord c m) ∧
      ∀ x, x ∈ liveRecords ((d.dropRecord c m).stores .shared).log ↔
        x ∈ liveRecords (d.stores .shared).log ∧ ¬ (m.isPersistent = true ∧ x.1.key = m.uuid) := by
  have removed : ∀ n, (keys (d.stores .shared).log)[n]? = some m.uuid →
      Filed (d.removeRecord .shared (n, m.uuid)) ∧
        ∀ x, x ∈ liveRecords ((d.removeRecord .shared (n, m.uuid)).stores .shared).log ↔
          x ∈ liveRecords (d.stores .shared).log ∧ x.1.key ≠ m.uuid := by
    intro n here
    obtain ⟨tidy, live⟩ := filed.tidy.remove here
    have same := removeRecord_keys d .shared (n, m.uuid)
    have store : (d.removeRecord .shared (n, m.uuid)).stores .shared =
        (d.stores .shared).remove n m.uuid := by
      simp [Destination.removeRecord]
    refine ⟨⟨?_, ?_⟩, ?_⟩
    · rw [store]
      exact tidy
    · rw [same]
      exact filed.buffered
    · rw [store]
      exact live
  unfold Destination.dropRecord Destination.removeLocated
  split
  · rename_i persistent
    simp only [persistent, true_and]
    unfold Destination.locate
    rw [shared]
    cases location : m.location with
    | some n => exact removed n (located persistent n location)
    | none =>
      cases record : (d.stores .shared).record m.uuid with
      | some n =>
        obtain ⟨e, entry, key, _⟩ := (filed.tidy.ordinals m.uuid n).mp record
        refine removed n ?_
        simp [keys, entry, key]
      | none =>
        refine ⟨filed, ?_⟩
        intro x
        refine ⟨fun live => ⟨live, ?_⟩, fun both => both.1⟩
        intro own
        obtain ⟨entry, flag⟩ := mem_liveRecords_iff.mp live
        have indexed := (filed.tidy.ordinals m.uuid x.2).mpr ⟨x.1, entry, own, flag⟩
        rw [show (d.stores .shared).index m.uuid = none from record] at indexed
        cases indexed
  · rename_i volatile
    exact ⟨filed, fun x => by simp [volatile]⟩

theorem dropRecords_filed (filed : Filed d) {c : Consumer} (shared : c.storage = .shared)
    {ms : List Message} (located : ∀ m ∈ ms, LocatedIn (d.stores .shared) m) :
    Filed (ms.foldl (Destination.dropRecord c) d) ∧
      ∀ x, x ∈ liveRecords ((ms.foldl (Destination.dropRecord c) d).stores .shared).log ↔
        x ∈ liveRecords (d.stores .shared).log ∧
          ∀ m ∈ ms, ¬ (m.isPersistent = true ∧ x.1.key = m.uuid) := by
  induction ms generalizing d with
  | nil => exact ⟨filed, fun x => by simp⟩
  | cons m ms ih =>
    obtain ⟨first, live⟩ := dropRecord_filed filed shared (located m (by simp))
    have later : ∀ x ∈ ms, LocatedIn ((d.dropRecord c m).stores .shared) x := by
      intro x inside persistent n location
      rw [dropRecord_keys d c m]
      exact located x (List.mem_cons_of_mem m inside) persistent n location
    obtain ⟨rest, live'⟩ := ih first later
    refine ⟨rest, ?_⟩
    intro x
    rw [List.foldl_cons, live', live, and_assoc]
    simp only [List.forall_mem_cons]

end Filed

/-- Nothing that waits for the consumer is expired. -/
def Unexpired (env : Env) (d : Destination) (cid : Nat) : Prop :=
  ∀ c, get d.objects cid = some c → ∀ m ∈ (d.queues c.queue).toList,
    (d.rehydrate c m).isExpired env.nowMs = false

instance (env : Env) (d : Destination) (cid : Nat) : Decidable (Unexpired env d cid) :=
  inferInstanceAs (Decidable (∀ c ∈ get d.objects cid, ∀ m ∈ (d.queues c.queue).toList,
    (d.rehydrate c m).isExpired env.nowMs = false))

def putBack (m : Message) : Message :=
  ((countRedelivery m).setDeliveryTime 0).refreshCachedStorageBytes

section Consumers
variable {env : Env} {d : Destination} {cid : Nat} {c : Consumer}

theorem recv_unexpired (object : get d.objects cid = some c) (unexpired : Unexpired env d cid)
    (patience : Nat) :
    d.recv env cid patience =
      match (d.queues c.queue).dequeue with
      | none => (d, none)
      | some (m, q) =>
        ((d.setQueue c.queue q).setObject cid (track c (d.rehydrate c m)), some (d.rehydrate c m)) := by
  cases next : (d.queues c.queue).dequeue with
  | none => cases patience <;> simp [Destination.recv, object, next]
  | some r =>
    obtain ⟨m, q⟩ := r
    have inside : m ∈ (d.queues c.queue).toList := by
      rw [dequeue_some next]
      simp
    have alive := unexpired c object m inside
    have same : (d.setQueue c.queue q).rehydrate c m = d.rehydrate c m := rfl
    cases patience <;> simp [Destination.recv, object, next, same, alive]

theorem redeliver_within (immediate : d.redeliveryPolicy.backoffMs = 0) {m : Message}
    (within : ¬ Limited d m) (closing : Bool) :
    d.redeliver env c closing m = (d.enqueue c.queue (putBack m), none) := by
  have count : (countRedelivery m).content.headers.deliveryCount =
      m.content.headers.deliveryCount + 1 := rfl
  unfold Limited at within
  unfold Destination.redeliver
  simp only [count, immediate]
  rw [if_neg within]
  simp [putBack]

theorem redeliverAll_within (immediate : d.redeliveryPolicy.backoffMs = 0) {ms : List Message}
    (within : ∀ m ∈ ms, ¬ Limited d m) (closing : Bool) :
    d.redeliverAll env c closing ms =
      (ms.foldl (fun d m => d.enqueue c.queue (putBack m)) d, []) := by
  induction ms generalizing d with
  | nil => rfl
  | cons m ms ih =>
    rw [Destination.redeliverAll, redeliver_within immediate (within m (by simp))]
    have rest := ih (d := d.enqueue c.queue (putBack m)) immediate
      fun x inside => within x (List.mem_cons_of_mem m inside)
    simp only [rest, Option.toList_none, List.nil_append, List.foldl_cons]

end Consumers

/-- The state of a queue in a run with distinct uuids and without backoff. -/
structure Kept (d : Destination) : Prop where
  right : Right (d, fun _ => none)
  queue : d.isQueueFamily = true
  filed : Filed d
  immediate : d.redeliveryPolicy.backoffMs = 0

def Within (d : Destination) (cid : Nat) : Prop :=
  ∀ m ∈ messagesAt d (.received cid), ¬ Limited d m

instance (d : Destination) (cid : Nat) : Decidable (Within d cid) :=
  inferInstanceAs (Decidable (∀ m ∈ messagesAt d (.received cid), ¬ Limited d m))

/-- A message under a new uuid. What a transaction takes up has no location yet, as
    only the broker gives one to a message. -/
def Fresh (env : Env) (d : Destination) (transactionId : Text) (m : Message) : Prop :=
  (transactionId ≠ [] → m.location = none) ∧
    ∀ cid ∈ d.targets, Unfiled d (sentUuid env d.messageCounter cid m)

/-- The calls of such a run, with what they are asked of. -/
def Fine (d : Destination) : Call → Prop
  | .createDefaultConsumer id mode =>
    id ∉ d.consumers ∧ NewName d (.createDefaultConsumer id mode)
  | .createConsumer env id mode selector =>
    id ∉ d.consumers ∧ NewName d (.createConsumer env id mode selector)
  | .send env _ transactionId m | .sendWith env _ transactionId m _ =>
    Works env ∧ Fresh env d transactionId m
  | .commitProducer env _ _ => Works env
  | .recv env cid _ => Unexpired env d cid
  | .rollbackConsumer _ cid _ => Within d cid
  | .createProducer _ _ | .rollbackProducer _ _ _ | .commitConsumer _ | .deliverDue _
  | .rehash _ => True
  | _ => False

section Kept
variable {d : Destination}

theorem Kept.unique (kept : Kept d) : HeldOnce d :=
  kept.right.tracked.mono fun _ _ _ _ => trivial

theorem Kept.shared (kept : Kept d) : AllShared d := by
  intro cid c object
  rcases kept.right.wired cid c object with ⟨_, queue, storage⟩ | ⟨topic, _⟩
  · exact ⟨queue, storage⟩
  · rw [show d.isQueueFamily = true from kept.queue] at topic
    cases topic

theorem Kept.located (kept : Kept d) {cid : Nat} {c : Consumer}
    (object : get d.objects cid = some c) :
    ∀ m ∈ c.transactQueue.toList, LocatedIn (d.stores .shared) m := by
  intro m inside
  have here : m ∈ messagesAt d (.received cid) := by
    simpa [messagesAt, receivedBy, object] using inside
  have located := kept.right.locations cid c object (.received cid) (Or.inr (Or.inr rfl)) m here
  simpa [ownStore, (kept.shared cid c object).2] using located

theorem commitConsumer_filed (kept : Kept d) (cid : Nat) :
    Filed (d.commitConsumer cid) := by
  unfold Destination.commitConsumer
  split
  · exact kept.filed
  · rename_i c object
    split
    · have emptied : Filed (d.setObject cid { c with transactQueue := .empty }) :=
        kept.filed.same rfl rfl
      exact (dropRecords_filed emptied (kept.shared cid c object).2 (kept.located object)).1
    · exact kept.filed

theorem rollbackConsumer_filed (kept : Kept d) {cid : Nat} (within : Within d cid) (env : Env)
    (closing : Bool) : Filed (d.rollbackConsumer env cid closing).1 := by
  unfold Destination.rollbackConsumer
  split
  · exact kept.filed
  · rename_i c object
    split
    · have emptied : Filed (d.setObject cid { c with transactQueue := .empty }) :=
        kept.filed.same rfl rfl
      have all : ∀ m ∈ c.transactQueue.toList,
          ¬ Limited (d.setObject cid { c with transactQueue := .empty }) m := by
        intro m inside
        exact within m (by simpa [messagesAt, receivedBy, object] using inside)
      have immediate :
          (d.setObject cid { c with transactQueue := .empty }).redeliveryPolicy.backoffMs = 0 :=
        kept.immediate
      rw [redeliverAll_within immediate all closing]
      exact emptied.fold fun e m _ here => here.same rfl rfl
    · exact kept.filed

theorem recv_filed (kept : Kept d) {env : Env} {cid : Nat} (unexpired : Unexpired env d cid)
    (patience : Nat) : Filed (d.recv env cid patience).1 := by
  cases object : get d.objects cid with
  | none =>
    have still : d.recv env cid patience = (d, none) := by
      cases patience <;> simp [Destination.recv, object]
    rw [still]
    exact kept.filed
  | some c =>
    rw [recv_unexpired object unexpired]
    split
    · exact kept.filed
    · exact kept.filed.same rfl rfl

theorem createConsumer_filed (filed : Filed d) (env : Env) (id : Nat) (mode : AcknowledgeMode)
    (selector : Option Selector) : Filed (d.createConsumer env id mode selector) := by
  have dropped : Filed d.dropDefault := by
    unfold Destination.dropDefault
    split
    · exact filed
    · exact filed.same rfl rfl
  have joined : Filed
      (d.dropDefault.setObject id ⟨mode,.shared,.shared,selector,[],.empty,[]⟩) :=
    dropped.same rfl rfl
  unfold Destination.createConsumer
  split
  · dsimp only
    split
    · refine Filed.same (Filed.fold joined ?_) rfl rfl
      intro e x _ here
      have numbered : Filed { e with nextOid := e.nextOid + 1 } := here.same rfl rfl
      exact enqueueOrSchedule_filed numbered env _ _
    · exact joined.same rfl rfl
  · exact filed.same rfl rfl

theorem applyOptions_alike (env : Env) (p : Producer) (m : Message) (opts : SendOptions)
    (transactional : Bool) :
    (fillHeaders env p (applyOptions env m opts transactional)).uuid = m.uuid ∧
      (fillHeaders env p (applyOptions env m opts transactional)).location = m.location :=
  ⟨rfl, rfl⟩

theorem prepared_alike (env : Env) (p : Producer) (t : Text) (m : Message) :
    (prepared env p t m).uuid = m.uuid ∧ (prepared env p t m).location = m.location := by
  unfold prepared
  split <;> exact ⟨rfl, rfl⟩

theorem save_kept (kept : Kept d) {env : Env} (works : Works env) {m m' : Message}
    {t : Text} (fresh : Fresh env d t m) (alike : m'.uuid = m.uuid) (pid : Nat) :
    Filed (d.save env pid t m') := by
  have same : ∀ cid, sentUuid env d.messageCounter cid m' = sentUuid env d.messageCounter cid m := by
    intro cid
    unfold sentUuid
    rw [alike]
  refine save_filed kept.filed kept.shared kept.queue works pid t ?_
  intro cid target
  rw [same]
  exact fresh.2 cid target

theorem step_filed (kept : Kept d) {call : Call} (fine : Fine d call) :
    Filed (next d call) := by
  cases call with
  | createDefaultConsumer id mode =>
    simp only [next, step, Destination.createDefaultConsumer]
    split
    · exact kept.filed.same rfl rfl
    · exact kept.filed
  | createConsumer env id mode selector =>
    exact createConsumer_filed kept.filed env id mode selector
  | createProducer id mode => exact kept.filed.same rfl rfl
  | send env pid t m =>
    simp only [next, step, Destination.send]
    split
    · exact kept.filed
    · exact save_kept kept fine.1 fine.2 (prepared_alike env _ t m).1 pid
  | sendWith env pid t m opts =>
    simp only [next, step, Destination.sendWith]
    split
    · exact kept.filed
    · split
      · exact kept.filed
      · exact save_kept kept fine.1 fine.2 (applyOptions_alike env _ m opts _).1 pid
  | commitProducer env pid t =>
    exact commitProducer_filed kept.filed kept.queue fine pid t
  | rollbackProducer env pid t => exact rollbackProducer_filed kept.filed env pid t
  | recv env cid patience => exact recv_filed kept fine patience
  | rollbackConsumer env cid closing =>
    exact rollbackConsumer_filed kept fine env closing
  | commitConsumer cid => exact commitConsumer_filed kept cid
  | deliverDue env =>
    simp only [next, step, Destination.deliverDue]
    split
    · exact kept.filed
    · split
      · exact kept.filed.same rfl rfl
      · exact kept.filed
  | rehash l =>
    simp only [next, step, Destination.rehash]
    split
    · exact kept.filed.same rfl rfl
    · exact kept.filed
  | _ => exact fine.elim

theorem fine_possible {call : Call} (fine : Fine d call) : Possible d call ∧ NewName d call := by
  cases call with
  | createDefaultConsumer id mode => exact fine
  | createConsumer env id mode selector => exact fine
  | createDurableConsumer env id mode clientID name selector => exact fine.elim
  | destroyConsumer env id => exact fine.elim
  | _ => exact ⟨trivial, trivial⟩

theorem fine_carried {call : Call} (fine : Fine d call) : NoneCarried d call := by
  intro sent pid t sends inside _
  cases call with
  | send env pid' t' m =>
    obtain ⟨_, rfl, p, _, rfl⟩ := sends
    exact (prepared_alike env p t' m).2.trans (fine.2.1 inside)
  | sendWith env pid' t' m opts =>
    obtain ⟨_, rfl, p, _, _, rfl⟩ := sends
    exact (applyOptions_alike env p m opts _).2.trans (fine.2.1 inside)
  | _ => exact sends.elim

theorem fine_attached {call : Call} (fine : Fine d call) :
    detach d (fun _ => none) call = fun _ => none := by
  cases call with
  | createDefaultConsumer id mode => exact Function.update_eq_self ..
  | createConsumer env id mode selector => exact Function.update_eq_self ..
  | createDurableConsumer env id mode clientID name selector => exact fine.elim
  | deleteSubscription clientID name => exact fine.elim
  | restart env => rfl
  | _ => rfl

theorem step_policy (unique : HeldOnce d) {call : Call} (fine : Fine d call) :
    (next d call).redeliveryPolicy = d.redeliveryPolicy := by
  cases call with
  | createDefaultConsumer id mode => exact (createDefaultConsumer_along unique id mode).policy
  | createConsumer env id mode selector =>
    exact (createConsumer_along unique env id mode selector).policy
  | createProducer id mode => rfl
  | send env pid t m => exact (send_along unique env pid t m).policy
  | sendWith env pid t m opts => exact (sendWith_along unique env pid t m opts).policy
  | commitProducer env pid t => exact (commitProducer_along unique env pid t).policy
  | rollbackProducer env pid t =>
    exact (rollbackProducer_along (along_before unique (.rollbackProducer env pid t)) env pid t).policy
  | recv env cid patience => exact (recv_along unique env cid patience).policy
  | rollbackConsumer env cid closing => exact (rollbackConsumer_along unique env cid closing).policy
  | commitConsumer cid => exact (commitConsumer_along unique cid).policy
  | deliverDue env => exact (deliverDue_along unique env).policy
  | rehash l => exact (rehash_along unique l).policy
  | _ => exact fine.elim

theorem step_kept (kept : Kept d) {call : Call} (fine : Fine d call) :
    Kept (next d call) where
  right := by
    have right := step_right (d, fun _ => none) call kept.right
      ⟨fine_possible fine, fine_carried fine⟩
    rw [nextHeld, fine_attached fine] at right
    exact right
  queue := (step_family d call).trans kept.queue
  filed := step_filed kept fine
  immediate := by
    rw [step_policy kept.unique fine]
    exact kept.immediate

end Kept

end TinyMqDistinctRecords
