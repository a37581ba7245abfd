import TinyMq.Lib.Machines
import TinyMq.Broker.QueueRuns
import TinyMq.Broker.Records

/-!
How often a stored message of a queue is held in memory. A new consumer replays
every live record into the shared queue, also those that are queued, scheduled
or in flight already; everything else moves a message from place to place.
-/
namespace TinyMqSingleHolder
open DelimitedText AssocLists Machines TombstoneLog TinyMqTom TinyMqMessage TinyMqStore
open TinyMqDestination TinyMqSession TinyMqFrames TinyMqHolders TinyMqQueueRuns TinyMqRecords

/-- How many messages in memory carry the uuid of a record. -/
def holders (d : Destination) (uuid : UUID) : Nat := (held d).countP fun m => m.uuid = uuid

/-- Every live record of the queue's storage has at most one holder. -/
def Single (d : Destination) : Prop :=
  ∀ e ∈ (d.stores .shared).log, e.removed = false → holders d e.key ≤ 1

/-- The uuid under which the queue will keep the message is a new one. -/
def NewUuid (env : Env) (d : Destination) (m : Message) : Prop :=
  ∀ cid ∈ d.targets, sentUuid env d.messageCounter cid m ∉ keys (d.stores .shared).log ∧
    holders d (sentUuid env d.messageCounter cid m) = 0

/-- The calls of one process that are asked about: plain sends of messages with new
    uuids, and everything consumers do outside transactions. -/
def Asked (d : Destination) : Call → Prop
  | .send env _ transactionId m | .sendWith env _ transactionId m _ =>
    transactionId = [] ∧ NewUuid env d m
  | .createDefaultConsumer _ _ | .createConsumer _ _ _ _ | .deleteConsumer _
  | .destroyConsumer _ _ | .createProducer _ _ | .recv _ _ _ | .acknowledgeOn _ _
  | .recover _ _ | .deliverDue _ | .rehash _ => True
  | _ => False

/-- A consumer is created only while no record that it replays is held in memory. -/
def NoneHeld (d : Destination) : Call → Prop
  | .createConsumer _ _ _ _ =>
    d.queueMade = true → ∀ x ∈ (d.stores .shared).scan, holders d x.1.key = 0
  | _ => True

def SameKeys (d d' : Destination) : Prop :=
  keys (d'.stores .shared).log = keys (d.stores .shared).log

section Keys
variable (env : Env) (d : Destination)

theorem removeRecord_keys (sid : StorageId) (rec : Nat × UUID) :
    SameKeys d (d.removeRecord sid rec) := by
  unfold SameKeys Destination.removeRecord
  by_cases shared : sid = .shared
  · subst shared
    simp only [Function.update_self]
    unfold Store.remove
    split
    · exact keys_remove _ _
    · rfl
  · simp only [Function.update_of_ne (Ne.symm shared)]

theorem dropRecord_keys (c : Consumer) (m : Message) : SameKeys d (d.dropRecord c m) := by
  unfold Destination.dropRecord Destination.removeLocated
  split
  · split
    · rfl
    · exact removeRecord_keys d _ _
  · rfl

theorem redeliver_keys (c : Consumer) (closing : Bool) (m : Message) :
    SameKeys d (d.redeliver env c closing m).1 := by
  unfold Destination.redeliver
  dsimp only
  split
  · exact dropRecord_keys d c _
  · split
    · unfold SameKeys
      dsimp only
      rw [enqueueOrSchedule_stores]
    · rfl

theorem redeliverAll_keys (c : Consumer) (closing : Bool) (ms : List Message) :
    SameKeys d (d.redeliverAll env c closing ms).1 := by
  induction ms generalizing d with
  | nil => rfl
  | cons m ms ih => exact (ih _).trans (redeliver_keys env d c closing m)

theorem recv_keys (cid patience : Nat) : SameKeys d (d.recv env cid patience).1 := by
  refine recv_rule (P := fun d r => SameKeys d r.1) (fun _ => rfl) (fun _ _ _ _ _ _ => rfl) ?_
    patience d
  intro d c m q r _ _ rest
  exact rest.trans (dropRecord_keys (d.setQueue c.queue q) c _)

theorem removeRecords_keys (sid : StorageId) (l : List (Nat × UUID)) :
    SameKeys d (l.foldl (fun d rec => d.removeRecord sid rec) d) := by
  induction l generalizing d with
  | nil => rfl
  | cons rec l ih => exact (ih _).trans (removeRecord_keys d sid rec)

theorem acknowledgeOn_keys (cid : Nat) (m : Message) : SameKeys d (d.acknowledgeOn cid m) := by
  unfold Destination.acknowledgeOn
  split
  · rfl
  · split
    · rfl
    · dsimp only
      split
      · split
        · rfl
        · split
          · split
            · exact removeRecords_keys _ _ _
            · rfl
          · exact removeRecord_keys _ _ _
      · rfl

theorem recover_keys (cid : Nat) : SameKeys d (d.recover env cid).1 := by
  unfold Destination.recover
  split
  · rfl
  · exact redeliverAll_keys env _ _ _ _

theorem rollbackConsumer_keys (cid : Nat) (closing : Bool) :
    SameKeys d (d.rollbackConsumer env cid closing).1 := by
  unfold Destination.rollbackConsumer
  split
  · rfl
  · split
    · exact redeliverAll_keys env _ _ _ _
    · rfl

theorem destroyConsumer_keys (cid : Nat) : SameKeys d (d.destroyConsumer env cid).1 := by
  unfold Destination.destroyConsumer
  split
  · rfl
  · rename_i c _
    have flushed : SameKeys d (d.flushPendingAcks cid c) := removeRecords_keys d _ _
    exact (rollbackConsumer_keys env (d.flushPendingAcks cid c) cid false).trans flushed

theorem createDefaultConsumer_keys (cid : Nat) (mode : AcknowledgeMode) :
    SameKeys d (d.createDefaultConsumer cid mode) := by
  unfold SameKeys Destination.createDefaultConsumer
  split <;> rfl

theorem deleteConsumer_keys (cid : Nat) : SameKeys d (d.deleteConsumer cid) := by
  unfold SameKeys
  rw [(deleteConsumer_objects d cid).2.2]

theorem deliverDue_keys : SameKeys d (d.deliverDue env) := by
  unfold SameKeys Destination.deliverDue
  split
  · rfl
  · split <;> rfl

theorem rehash_keys (l : List Nat) : SameKeys d (d.rehash l) := by
  unfold SameKeys Destination.rehash
  split <;> rfl

theorem replay_stores (q : QueueId) (sid : StorageId) :
    (d.replayFromStorage env q sid).stores = d.stores := by
  unfold Destination.replayFromStorage
  generalize (d.stores sid).scan = l
  induction l generalizing d with
  | nil => rfl
  | cons x l ih =>
    rw [List.foldl_cons, ih, enqueueOrSchedule_stores]

theorem createConsumer_stores (id : Nat) (mode : AcknowledgeMode) (selector : Option Selector) :
    (d.createConsumer env id mode selector).stores = d.stores := by
  have dropped : d.dropDefault.stores = d.stores := by
    unfold Destination.dropDefault
    split <;> rfl
  unfold Destination.createConsumer
  split
  · dsimp only
    split
    · rw [replay_stores]
      exact dropped
    · exact dropped
  · rfl

end Keys

theorem pushRecords_keys (env : Env) (number : Int) (m : Message) (d : Destination)
    (sid : StorageId) (l : List Nat) :
    ((recordsFor sid (l.flatMap (pushRecords env number m d))).map (·.1)).Sublist
      (l.map fun cid => sentUuid env number cid m) := by
  induction l with
  | nil => exact List.Sublist.refl _
  | cons cid l ih =>
    have here : ((recordsFor sid (pushRecords env number m d cid)).map (·.1)).Sublist
        [sentUuid env number cid m] := by
      unfold pushRecords
      split
      · exact List.nil_sublist _
      · split
        · rename_i c _ _
          by_cases mine : c.storage = sid
          · simp only [recordsFor, mine, decide_true, List.filter_cons_of_pos, List.filter_nil,
              List.map_cons, List.map_nil]
            exact List.Sublist.refl _
          · simp [recordsFor, mine]
        · exact List.nil_sublist _
    have split : recordsFor sid ((cid :: l).flatMap (pushRecords env number m d)) =
        recordsFor sid (pushRecords env number m d cid) ++
          recordsFor sid (l.flatMap (pushRecords env number m d)) := by
      simp [recordsFor]
    rw [split, List.map_append]
    exact here.append ih

theorem save_keys (env : Env) {d : Destination} (queue : d.isQueueFamily = true) (pid : Nat)
    {m m' : Message} (alike : m'.uuid = m.uuid) :
    ∃ new, keys ((d.save env pid [] m').stores .shared).log = keys (d.stores .shared).log ++ new ∧
      new.Sublist (d.targets.map fun cid => sentUuid env d.messageCounter cid m) := by
  have records : sendRecords env d m' =
      d.targets.flatMap (pushRecords env d.messageCounter m' d) := by
    simp [sendRecords, offlineRecords, queue_notTopic queue]
  have saved := save_appends env d pid m'
  obtain ⟨k, log⟩ := appends_prefix (env.appendFails .shared) (d.stores .shared)
    (recordsFor .shared (sendRecords env d m'))
  refine ⟨((recordsFor .shared (sendRecords env d m')).take k).map (·.1), ?_, ?_⟩
  · rw [saved.stores, appendAll_at, log]
    simp only [keys, stored, List.map_append, List.map_map]
    rfl
  · have same : (fun cid => sentUuid env d.messageCounter cid m') =
        fun cid => sentUuid env d.messageCounter cid m := by
      funext cid
      unfold sentUuid
      rw [alike]
    have all := pushRecords_keys env d.messageCounter m' d .shared d.targets
    rw [same] at all
    rw [records]
    exact ((List.take_sublist k _).map _).trans all

structure Distinct (d : Destination) : Prop where
  ok : CleanQueue d
  held : ((held d).map Message.uuid).Nodup
  keys : (keys (d.stores .shared).log).Nodup

theorem holders_zero {d : Destination} {u : UUID} :
    holders d u = 0 ↔ u ∉ (held d).map Message.uuid := by
  unfold holders
  rw [Multiset.countP_eq_zero]
  simp only [Multiset.mem_map, not_exists, not_and]

theorem Distinct.single {d : Destination} (distinct : Distinct d) : Single d := by
  intro e _ _
  have counted : holders d e.key = ((TinyMqHolders.held d).map Message.uuid).count e.key := by
    unfold holders
    rw [Multiset.count_map, Multiset.countP_eq_card_filter]
    congr 1
    apply Multiset.filter_congr
    intro m _
    exact eq_comm
  rw [counted]
  exact Multiset.nodup_iff_count_le_one.mp distinct.held e.key

theorem step_uuids {d : Destination} (ok : CleanQueue d) (call : Call) :
    (held (next d call)).map Message.uuid ≤
      arrivals d call + (held d).map Message.uuid := by
  obtain ⟨extra, moves, made, uuids⟩ := step_moves ok.queue ok.clean call
  have tags := (moves.tags ok.clean fun m member => (made m member).1).1
  have mapped := Multiset.map_le_map (f := Prod.snd) tags
  rw [Multiset.map_add, Multiset.map_map, Multiset.map_map, Multiset.map_map] at mapped
  exact le_trans mapped (add_le_add_left uuids _)

theorem arrive_distinct {d : Destination} (distinct : Distinct d) {call : Call}
    (once : (arrivals d call).Nodup) (new : ∀ u ∈ arrivals d call, holders d u = 0) :
    ((held (next d call)).map Message.uuid).Nodup := by
  refine Multiset.nodup_of_le (step_uuids distinct.ok call) ?_
  rw [Multiset.nodup_add]
  refine ⟨once, distinct.held, ?_⟩
  rw [Multiset.disjoint_left]
  intro u arrived
  exact holders_zero.mp (new u arrived)

theorem targets_single {d : Destination} (queue : d.isQueueFamily = true) (f : Nat → UUID) :
    (d.targets.map f).Nodup := by
  have one : d.targets = d.consumers.take 1 := if_pos queue
  rw [one]
  cases d.consumers with
  | nil => exact List.nodup_nil
  | cons cid rest => exact List.nodup_singleton _

theorem save_distinct (env : Env) {d : Destination} (distinct : Distinct d) (pid : Nat)
    {m m' : Message} (alike : m'.uuid = m.uuid)
    (new : ∀ cid ∈ d.targets, sentUuid env d.messageCounter cid m ∉ keys (d.stores .shared).log) :
    (keys ((d.save env pid [] m').stores .shared).log).Nodup := by
  obtain ⟨added, log, few⟩ := save_keys env distinct.ok.queue pid alike
  rw [log]
  refine List.Nodup.append distinct.keys (few.nodup (targets_single distinct.ok.queue _)) ?_
  rw [List.disjoint_comm]
  intro u inside
  obtain ⟨cid, target, same⟩ := List.mem_map.mp (few.subset inside)
  rw [← same]
  exact new cid target

theorem scan_distinct {d : Destination} (distinct : (keys (d.stores .shared).log).Nodup) :
    ((d.stores .shared).scan.map fun x => x.1.key).Nodup := by
  unfold Store.scan
  split
  · exact liveRecords_distinct distinct
  · exact List.nodup_nil

theorem send_distinct (env : Env) {d : Destination} (distinct : Distinct d) {call : Call} (pid : Nat)
    {m : Message} (new : NewUuid env d m)
    (arrived : arrivals d call =
      ((d.targets.map fun cid => sentUuid env d.messageCounter cid m : List UUID) : Multiset UUID))
    (saved : next d call = d ∨ ∃ m', m'.uuid = m.uuid ∧ next d call = d.save env pid [] m') :
    Distinct (next d call) := by
  refine ⟨step_clean distinct.ok call, arrive_distinct distinct ?_ ?_, ?_⟩
  · rw [arrived, Multiset.coe_nodup]
    exact targets_single distinct.ok.queue _
  · intro u inside
    rw [arrived, Multiset.mem_coe, List.mem_map] at inside
    obtain ⟨cid, target, same⟩ := inside
    rw [← same]
    exact (new cid target).2
  · rcases saved with same | ⟨m', alike, same⟩
    · rw [same]
      exact distinct.keys
    · rw [same]
      exact save_distinct env distinct pid alike fun cid target => (new cid target).1

theorem createConsumer_distinct (env : Env) (id : Nat) (mode : AcknowledgeMode)
    (selector : Option Selector) {d : Destination} (distinct : Distinct d)
    (unheld : NoneHeld d (.createConsumer env id mode selector)) :
    ((held (next d (.createConsumer env id mode selector))).map Message.uuid).Nodup := by
  by_cases made : d.queueMade
  · have replayed : arrivals d (.createConsumer env id mode selector) =
        (((d.stores .shared).scan.map fun x => x.1.key : List UUID) : Multiset UUID) := if_pos made
    apply arrive_distinct distinct
    · rw [replayed, Multiset.coe_nodup]
      exact scan_distinct distinct.keys
    · intro u inside
      rw [replayed, Multiset.mem_coe, List.mem_map] at inside
      obtain ⟨x, live, same⟩ := inside
      rw [← same]
      exact unheld made x live
  · have nothing : arrivals d (.createConsumer env id mode selector) = 0 := if_neg made
    exact arrive_distinct distinct (by simp [nothing]) (by simp [nothing])

theorem step_distinct (d : Destination) (call : Call) (distinct : Distinct d)
    (allowed : Asked d call ∧ NoneHeld d call) : Distinct (next d call) := by
  obtain ⟨asked, unheld⟩ := allowed
  have ok := step_clean distinct.ok call
  have quiet : arrivals d call = 0 → SameKeys d (next d call) → Distinct (next d call) := by
    intro nothing same
    refine ⟨ok, arrive_distinct distinct (by simp [nothing]) (by simp [nothing]), ?_⟩
    rw [same]
    exact distinct.keys
  cases call with
  | createDefaultConsumer id mode => exact quiet rfl (createDefaultConsumer_keys d id mode)
  | createConsumer env id mode selector =>
    refine ⟨ok, createConsumer_distinct env id mode selector distinct unheld, ?_⟩
    rw [next, step, createConsumer_stores]
    exact distinct.keys
  | deleteConsumer id => exact quiet rfl (deleteConsumer_keys d id)
  | destroyConsumer env id => exact quiet rfl (destroyConsumer_keys env d id)
  | createProducer id mode => exact quiet rfl rfl
  | send env pid t m =>
    obtain ⟨plain, new⟩ := asked
    subst plain
    refine send_distinct env distinct pid new rfl ?_
    unfold next step Destination.send
    dsimp only
    split
    · exact Or.inl rfl
    · exact Or.inr ⟨_, prepared_uuid env _ [] m, rfl⟩
  | sendWith env pid t m opts =>
    obtain ⟨plain, new⟩ := asked
    subst plain
    refine send_distinct env distinct pid new rfl ?_
    unfold next step Destination.sendWith
    dsimp only
    split
    · exact Or.inl rfl
    · split
      · exact Or.inl rfl
      · exact Or.inr ⟨fillHeaders env _ (applyOptions env m opts _), rfl, rfl⟩
  | recv env cid patience => exact quiet rfl (recv_keys env d cid patience)
  | acknowledgeOn cid m => exact quiet rfl (acknowledgeOn_keys d cid m)
  | recover env cid => exact quiet rfl (recover_keys env d cid)
  | deliverDue env => exact quiet rfl (deliverDue_keys env d)
  | rehash l => exact quiet rfl (rehash_keys d l)
  | _ => exact asked.elim

/-- In a run that creates no consumer over records held in memory, every live record has
    at most one holder in every state. -/
theorem records_held_once {d : Destination} (started : Started d)
    (distinct : (keys (d.stores .shared).log).Nodup) {calls : List Call}
    (meets : Meets next (fun d call => Asked d call ∧ NoneHeld d call) d calls) :
    ∀ s ∈ states next d calls, Single s := by
  have start : Distinct d := by
    refine ⟨started.clean, ?_, distinct⟩
    rw [started.held]
    exact Multiset.nodup_zero
  intro s member
  exact (invariant_along step_distinct start meets s member).single

def receivedBack : List Call :=
  [.createDefaultConsumer 0 .AUTO_ACKNOWLEDGE, .createConsumer calm 1 .CLIENT_ACKNOWLEDGE none,
    .createProducer 5 .AUTO_ACKNOWLEDGE, .send calm 5 [] (letter 0 7), .recv calm 1 0,
    .recover calm 1]

theorem records_held_once_received :
    holders (receivedBack.foldl next { type := .Queue }) 7 = 1 ∧
      Single (receivedBack.foldl next { type := .Queue }) := by
  refine ⟨by decide, records_held_once newQueue_started (by decide) ?_
    _ (last_state_mem next _ receivedBack)⟩
  refine ⟨⟨trivial, trivial⟩, ⟨trivial, ?_⟩, ⟨trivial, trivial⟩, ⟨⟨rfl, ?_⟩, trivial⟩,
    ⟨trivial, trivial⟩, ⟨trivial, trivial⟩, trivial⟩
  · intro _ x live
    cases live
  · unfold NewUuid
    decide

def replayedOver : List Call :=
  [.createDefaultConsumer 0 .AUTO_ACKNOWLEDGE, .createProducer 5 .AUTO_ACKNOWLEDGE,
    .send calm 5 [] (letter 0 7), .createConsumer calm 1 .AUTO_ACKNOWLEDGE none]

theorem replay_holds_twice : Meets next Asked { type := .Queue } replayedOver ∧
    ¬ Single (replayedOver.foldl next { type := .Queue }) := by
  refine ⟨⟨trivial, trivial, ⟨rfl, ?_⟩, trivial, trivial⟩, ?_⟩
  · unfold NewUuid
    decide
  · unfold Single
    decide

end TinyMqSingleHolder
