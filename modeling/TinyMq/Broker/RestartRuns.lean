import TinyMq.Lib.Machines
import TinyMq.Broker.CacheCoherence

/-!
A queue with one consumer before it is shut down: persistent sends, receives,
acknowledgements, recovers, the scheduler and the expiration sweep, in any order
and at any pace. The log holds every send as it was made; a record goes when its
message is acknowledged or has expired, and nothing else touches it.
-/
namespace TinyMqRestartRuns
open DelimitedText AssocLists BandQueues Machines TombstoneLog TinyMqTom TinyMqMessage TinyMqStore
open TinyMqDestination TinyMqSession TinyMqFrames TinyMqHolders TinyMqQueueRuns TinyMqOrigins

def now (clock : Int) (random : RandomUse → UUID) : Env := ⟨clock,calm.stamp,random,fun _ _ => false⟩

def Value.plain : Value → Bool
  | .bytes v => v ≠ []
  | _ => true

def Property.plain : Property → Bool
  | .value v => Value.plain v
  | .null _ => false

def Body.plain : Body → Bool
  | .text _ => true
  | .stream values => values.all Value.plain
  | .bytes data => data ≠ []
  | .map entries => entries.all fun e => Property.plain e.2
  | .object _ body => body ≠ []

/-- No value is null or an empty byte array: the wire format gives it back as it was. -/
def Content.plain (c : Content) : Bool :=
  (c.properties.all fun e => Property.plain e.2) && Body.plain c.body

def Content.isExpired (c : Content) (clock : Int) : Prop :=
  c.headers.expiration ≠ 0 ∧ c.headers.expiration ≤ clock

instance (c : Content) (clock : Int) : Decidable (Content.isExpired c clock) :=
  inferInstanceAs (Decidable (_ ∧ _))

def posted (env : Env) (d : Destination) (cid : Nat) (m : Message) : Content :=
  (pushCopy env d.nextOid d.messageCounter cid m).content

/-- The queue with a ledger: what was sent, what the consumer received and what it acknowledged. -/
structure State where
  queue : Destination
  clock : Int
  sent : List Content := []
  received : List Message := []
  acked : List UUID := []

inductive Act where
  | createProducer (pid : Nat) (mode : AcknowledgeMode)
  | deleteProducer (pid : Nat)
  | setDefault (pid : Nat) (opts : SendOptions)
  | setDisableMessageID (pid : Nat) (value : Bool)
  | setDisableMessageTimestamp (pid : Nat) (value : Bool)
  | setRedeliveryPolicy (policy : RedeliveryPolicy)
  | send (random : RandomUse → UUID) (pid : Nat) (m : Message)
  | sendWith (random : RandomUse → UUID) (pid : Nat) (m : Message) (opts : SendOptions)
  | recv (patience : Nat)
  | acknowledge (m : Message)
  | recover
  | deliverDue
  | reorder (q : QueueT)
  | sweepExpired (location : Nat)
  | tick (ms : Nat)

/-- The record at this place, when `sweepExpired` finds it expired. -/
def sweep (clock : Int) (d : Destination) (location : Nat) : Destination :=
  match (d.stores .shared).log[location]? with
  | none => d
  | some e =>
    if Content.isExpired e.data clock then d.removeRecord .shared (location, e.key) else d

def quiet (s : State) : Env := now s.clock fun _ => 0

def next (cid : Nat) (s : State) : Act → State
  | .createProducer pid mode => { s with queue := s.queue.createProducer pid mode }
  | .deleteProducer pid => { s with queue := s.queue.deleteProducer (quiet s) pid [] }
  | .setDefault pid opts =>
    match validateSendOptions opts with
    | .error _ => s
    | .ok _ =>
      { s with
        queue := TinyMqCacheCoherence.setProducer s.queue pid fun p => { p with default := some opts } }
  | .setDisableMessageID pid value =>
    { s with
      queue := TinyMqCacheCoherence.setProducer s.queue pid fun p =>
        { p with disableMessageID := value } }
  | .setDisableMessageTimestamp pid value =>
    { s with
      queue := TinyMqCacheCoherence.setProducer s.queue pid fun p =>
        { p with disableMessageTimestamp := value } }
  | .setRedeliveryPolicy policy => { s with queue := { s.queue with redeliveryPolicy := policy } }
  | .send random pid m =>
    match get s.queue.producers pid with
    | none => s
    | some p =>
      { s with
        queue := (s.queue.send (now s.clock random) pid [] m).1,
        sent := s.sent ++ [posted (now s.clock random) s.queue cid
          (prepared (now s.clock random) p [] m)] }
  | .sendWith random pid m opts =>
    match get s.queue.producers pid, validateSendOptions opts with
    | some p, .ok _ =>
      { s with
        queue := (s.queue.sendWith (now s.clock random) pid [] m opts).1,
        sent := s.sent ++ [posted (now s.clock random) s.queue cid
          (fillHeaders (now s.clock random) p (applyOptions (now s.clock random) m opts false))] }
    | _, _ => s
  | .recv patience =>
    { s with
      queue := (s.queue.recv (quiet s) cid patience).1,
      received := s.received ++ (s.queue.recv (quiet s) cid patience).2.toList }
  | .acknowledge m => { s with queue := s.queue.acknowledgeOn cid m, acked := m.uuid :: s.acked }
  | .recover => { s with queue := (s.queue.recover (quiet s) cid).1 }
  | .deliverDue => { s with queue := s.queue.deliverDue (quiet s) }
  | .reorder q => { s with queue := s.queue.setQueue .shared q }
  | .sweepExpired location => { s with queue := sweep s.clock s.queue location }
  | .tick ms => { s with clock := s.clock + ms }

/-- A persistent message with a uuid of its own, a delivery time in range and plain values. -/
structure Sendable (env : Env) (s : State) (cid : Nat) (m : Message) : Prop where
  persistent : m.isPersistent = true
  fresh : (posted env s.queue cid m).uuid ∉ s.sent.map Content.uuid
  past : 0 ≤ m.content.headers.deliveryTime
  bound : m.content.headers.deliveryTime - s.clock ≤ kMaxFutureHeaderMs
  plain : Content.plain m.content = true

instance (env : Env) (s : State) (cid : Nat) (m : Message) : Decidable (Sendable env s cid m) :=
  decidable_of_iff (m.isPersistent = true ∧ (posted env s.queue cid m).uuid ∉ s.sent.map Content.uuid ∧
      0 ≤ m.content.headers.deliveryTime ∧
      m.content.headers.deliveryTime - s.clock ≤ kMaxFutureHeaderMs ∧
      Content.plain m.content = true)
    ⟨fun ⟨a, b, c, d, e⟩ => ⟨a, b, c, d, e⟩, fun ⟨a, b, c, d, e⟩ => ⟨a, b, c, d, e⟩⟩

/-- What the run is asked to be: messages that can be sent, acknowledgements of what was
    received, and recovers below the redelivery limit. Between the threads that enqueue a
    band has no order: at any time its messages may stand in another one. -/
def Asked (cid : Nat) (s : State) : Act → Prop
  | .send random pid m => ∀ p ∈ get s.queue.producers pid,
      Sendable (now s.clock random) s cid (prepared (now s.clock random) p [] m)
  | .sendWith random pid m opts => ∀ p ∈ get s.queue.producers pid,
      validateSendOptions opts = .ok () → Sendable (now s.clock random) s cid
        (fillHeaders (now s.clock random) p (applyOptions (now s.clock random) m opts false))
  | .acknowledge m => m ∈ s.received
  | .recover => ∀ c ∈ get s.queue.objects cid, ∀ m ∈ c.inFlight, ¬ Limited s.queue m
  | .reorder q => ∀ b, (q.bands b).Perm ((s.queue.queues .shared).bands b)
  | _ => True

instance (cid : Nat) (s : State) : ∀ a, Decidable (Asked cid s a)
  | .send random pid m => inferInstanceAs (Decidable (∀ p ∈ get s.queue.producers pid,
      Sendable (now s.clock random) s cid (prepared (now s.clock random) p [] m)))
  | .sendWith random pid m opts => inferInstanceAs (Decidable (∀ p ∈ get s.queue.producers pid,
      validateSendOptions opts = .ok () → Sendable (now s.clock random) s cid
        (fillHeaders (now s.clock random) p (applyOptions (now s.clock random) m opts false))))
  | .acknowledge m => inferInstanceAs (Decidable (m ∈ s.received))
  | .recover => inferInstanceAs (Decidable
      (∀ c ∈ get s.queue.objects cid, ∀ m ∈ c.inFlight, ¬ Limited s.queue m))
  | .reorder q => inferInstanceAs (Decidable
      (∀ b, (q.bands b).Perm ((s.queue.queues .shared).bands b)))
  | .createProducer _ _ | .deleteProducer _ | .setDefault _ _ | .setDisableMessageID _ _
  | .setDisableMessageTimestamp _ _ | .setRedeliveryPolicy _ | .recv _ | .deliverDue
  | .sweepExpired _ | .tick _ => inferInstanceAs (Decidable True)

def opened (type : DestinationType) (policy : RedeliveryPolicy) (clock : Int) (id cid : Nat)
    (mode : AcknowledgeMode) : State where
  queue := (({ type := type, redeliveryPolicy := policy } : Destination).createDefaultConsumer id
    mode).createConsumer (now clock fun _ => 0) cid mode none
  clock := clock

/-- The content without the headers that a redelivery or the scheduler changes. -/
def bare (c : Content) : Content :=
  { c with headers := { c.headers with deliveryTime := 0, deliveryCount := 0, redelivered := false } }

@[simp] theorem bare_withDeliveryTime (c : Content) (t : Int) : bare (c.withDeliveryTime t) = bare c :=
  rfl

@[simp] theorem bare_countRedelivery (m : Message) :
    bare (countRedelivery m).content = bare m.content := rfl

section Bare
variable {a b : Content}

theorem bare_uuid (same : bare a = bare b) : a.uuid = b.uuid := congrArg (fun c => c.uuid) same

theorem bare_reliability (same : bare a = bare b) : a.reliability = b.reliability :=
  congrArg (fun c => c.reliability) same

theorem bare_expiration (same : bare a = bare b) : a.headers.expiration = b.headers.expiration :=
  congrArg (fun c => c.headers.expiration) same

end Bare

def Own (sent : List Content) (m : Message) : Prop :=
  ∃ i s, sent[i]? = some s ∧ m.location = some i ∧ bare m.content = bare s

def Stamped (m : Message) : Prop :=
  ∃ content, m.cachedStorageBytes = some content ∧ bare content = bare m.content

/-- The log of the storage: every send, with the flag of what is gone. -/
def entries (sent : List Content) (gone : List UUID) : Log UUID Content :=
  sent.map fun c => ⟨c.uuid,c,decide (c.uuid ∈ gone)⟩

theorem Own.more {sent : List Content} {m : Message} (own : Own sent m) (c : Content) :
    Own (sent ++ [c]) m := by
  obtain ⟨i, s, here, location, same⟩ := own
  have inside := (List.getElem?_eq_some_iff.mp here).1
  exact ⟨i, s, by rw [List.getElem?_append_left inside]; exact here, location, same⟩

theorem entries_append (sent : List Content) {gone : List UUID} {c : Content} (live : c.uuid ∉ gone) :
    entries (sent ++ [c]) gone = append (entries sent gone) c.uuid c := by
  simp [entries, append, live]

theorem entries_remove {sent : List Content} (gone : List UUID)
    (distinct : (sent.map Content.uuid).Nodup) {i : Nat} {s : Content} (here : sent[i]? = some s) :
    remove (entries sent gone) i = entries sent (s.uuid :: gone) := by
  apply List.ext_getElem?
  intro j
  unfold remove entries
  rw [List.getElem?_modify, List.getElem?_map, List.getElem?_map]
  by_cases same : i = j
  · subst same
    rw [here]
    simp
  · cases there : sent[j]? with
    | none => simp
    | some c =>
      have other : c.uuid ≠ s.uuid := by
        intro equal
        refine same ?_
        have at_ : (sent.map Content.uuid)[i]? = (sent.map Content.uuid)[j]? := by
          rw [List.getElem?_map, List.getElem?_map, here, there]
          simp [equal]
        have inside : i < (sent.map Content.uuid).length := by
          simpa using (List.getElem?_eq_some_iff.mp here).1
        exact (List.getElem?_inj inside distinct).mp at_
      simp [same, other]

/-- The storage holds the sends in order, each under its own uuid. -/
structure Logged (sent : List Content) (gone : List UUID) (s : Store Content) : Prop where
  good : s.good = true
  log : s.log = entries sent gone
  distinct : (sent.map Content.uuid).Nodup
  gone : ∀ u ∈ gone, u ∈ sent.map Content.uuid

section Logged
variable {sent : List Content} {gone : List UUID} {s : Store Content}

theorem Logged.remove (logged : Logged sent gone s) {i : Nat} {c : Content}
    (here : sent[i]? = some c) : Logged sent (c.uuid :: gone) (s.remove i c.uuid) := by
  refine ⟨?_, ?_, logged.distinct, ?_⟩
  · simp [Store.remove, logged.good]
  · simp only [Store.remove, logged.good, if_true, logged.log]
    exact entries_remove gone logged.distinct here
  · intro u inside
    rcases List.mem_cons.mp inside with rfl | old
    · exact List.mem_map_of_mem (List.mem_of_getElem? here)
    · exact logged.gone u old

theorem Logged.append (logged : Logged sent gone s) {c : Content}
    (fresh : c.uuid ∉ sent.map Content.uuid) :
    Logged (sent ++ [c]) gone (s.append c.uuid c false).1 ∧
      (s.append c.uuid c false).2 = some sent.length := by
  have live : c.uuid ∉ gone := fun inside => fresh (logged.gone _ inside)
  have length : (entries sent gone).length = sent.length := by simp [entries]
  unfold Store.append
  rw [if_pos ⟨logged.good, rfl⟩, logged.log, length, ← entries_append sent live]
  refine ⟨⟨logged.good, rfl, ?_, ?_⟩, rfl⟩
  · rw [List.map_append, List.nodup_append]
    refine ⟨logged.distinct, by simp, ?_⟩
    intro u old u' new equal
    rw [List.map_singleton, List.mem_singleton] at new
    rw [equal, new] at old
    exact fresh old
  · intro u inside
    rw [List.map_append]
    exact List.mem_append_left _ (logged.gone u inside)

theorem Logged.sweep {d : Destination} (logged : Logged sent gone (d.stores .shared)) (clock : Int)
    (location : Nat) :
    ∃ lost stores, TinyMqRestartRuns.sweep clock d location = { d with stores := stores } ∧
      Logged sent (lost ++ gone) (stores .shared) ∧
      ∀ u ∈ lost, ∃ c ∈ sent, c.uuid = u ∧ Content.isExpired c clock := by
  unfold TinyMqRestartRuns.sweep
  rw [logged.log]
  unfold entries
  rw [List.getElem?_map]
  cases here : sent[location]? with
  | none => exact ⟨[], d.stores, rfl, logged, by simp⟩
  | some c =>
    dsimp only [Option.map_some]
    split
    · rename_i late
      refine ⟨[c.uuid], _, rfl, ?_, ?_⟩
      · simpa using logged.remove here
      · intro u inside
        rw [List.mem_singleton.mp inside]
        exact ⟨c, List.mem_of_getElem? here, rfl, late⟩
    · exact ⟨[], d.stores, rfl, logged, by simp⟩

end Logged

structure Alone (c : Consumer) : Prop where
  queue : c.queue = .shared
  storage : c.storage = .shared
  selector : c.selector = none
  manual : c.mode = .CLIENT_ACKNOWLEDGE ∨ c.mode = .INDIVIDUAL_ACKNOWLEDGE

/-- The queue in a state of the run: its log, and everything that is in memory. -/
structure Stocked (cid : Nat) (sent : List Content) (gone : List UUID) (d : Destination) : Prop where
  family : d.isQueueFamily = true
  consumers : d.consumers = [cid]
  single : ∃ c, get d.objects cid = some c ∧ Alone c ∧ ∀ m ∈ c.inFlight, Own sent m
  logged : Logged sent gone (d.stores .shared)
  persistent : ∀ s ∈ sent, s.reliability = .PERSISTENT
  queued : ∀ m ∈ (d.queues .shared).toList, Own sent m ∧ Stamped m
  pending : ∀ e ∈ d.pending, e.2.1 = .shared ∧ Own sent e.2.2 ∧ Stamped e.2.2

section Stocked
variable {cid : Nat} {sent : List Content} {gone : List UUID} {d : Destination}

theorem Own.persistent {m : Message} (own : Own sent m)
    (all : ∀ s ∈ sent, s.reliability = .PERSISTENT) : m.isPersistent = true := by
  obtain ⟨i, s, here, _, same⟩ := own
  have kind := all s (List.mem_of_getElem? here)
  simp [Message.isPersistent, bare_reliability same, kind]

theorem Stocked.enqueue (stocked : Stocked cid sent gone d) {m : Message} (own : Own sent m)
    (stamped : Stamped m) : Stocked cid sent gone (d.enqueue .shared m) := by
  refine { stocked with queued := ?_ }
  intro x inside
  have now : (Destination.queues (d.enqueue .shared m) .shared) =
      (d.queues .shared).enqueue m.band m := by
    simp [Destination.enqueue, Destination.setQueue]
  rw [now] at inside
  rcases List.mem_cons.mp ((enqueue_perm _ m.band m).mem_iff.mp inside) with rfl | old
  · exact ⟨own, stamped⟩
  · exact stocked.queued x old

theorem clampFuture_own (env : Env) {m : Message} (own : Own sent m) (stamped : Stamped m) :
    Own sent (clampFuture env m) ∧ Stamped (clampFuture env m) := by
  unfold clampFuture
  split
  · obtain ⟨content, cached, same⟩ := stamped
    refine ⟨own, content.withDeliveryTime 0, ?_, same⟩
    simp [Message.patchCachedDeliveryTime, Message.setDeliveryTime, cached]
  · exact ⟨own, stamped⟩

theorem Stocked.enqueueOrSchedule (stocked : Stocked cid sent gone d) (env : Env) {m : Message}
    (own : Own sent m) (stamped : Stamped m) :
    Stocked cid sent gone (d.enqueueOrSchedule env .shared m) := by
  obtain ⟨own', stamped'⟩ := clampFuture_own env own stamped
  rcases enqueueOrSchedule_cases env d .shared m with here | dropped | later
  · rw [here]
    exact stocked.enqueue own' stamped'
  · rw [dropped]
    exact stocked
  · rw [later]
    refine { stocked with pending := ?_ }
    intro e inside
    rcases List.mem_cons.mp ((insertPending_perm _ _ _ _).mem_iff.mp inside) with rfl | old
    · exact ⟨rfl, own', stamped'⟩
    · exact stocked.pending e old

theorem Stocked.remove (stocked : Stocked cid sent gone d) {sid : StorageId} (shared : sid = .shared)
    {i : Nat} {s : Content} (here : sent[i]? = some s) :
    Stocked cid sent (s.uuid :: gone) (d.removeRecord sid (i, s.uuid)) := by
  subst shared
  refine { stocked with logged := ?_ }
  simpa [Destination.removeRecord] using stocked.logged.remove here

theorem Stocked.dropRecord (stocked : Stocked cid sent gone d) {c : Consumer} (alone : Alone c)
    {m : Message} (own : Own sent m) : Stocked cid sent (m.uuid :: gone) (d.dropRecord c m) := by
  have kind := own.persistent stocked.persistent
  obtain ⟨i, s, here, location, same⟩ := own
  have uuid : m.uuid = s.uuid := bare_uuid same
  have located : d.locate c m = some (i, s.uuid) := by
    unfold Destination.locate
    rw [location, uuid]
  unfold Destination.dropRecord Destination.removeLocated
  rw [if_pos kind, located, uuid]
  exact stocked.remove alone.storage here

theorem Stocked.setObject (stocked : Stocked cid sent gone d) {c : Consumer} (alone : Alone c)
    (chain : ∀ m ∈ c.inFlight, Own sent m) : Stocked cid sent gone (d.setObject cid c) :=
  { stocked with single := ⟨c, by simp [Destination.setObject], alone, chain⟩ }

theorem Stocked.taken (stocked : Stocked cid sent gone d) {m : Message} {q : QueueT}
    (drained : (d.queues .shared).toList = m :: q.toList) :
    Stocked cid sent gone (d.setQueue .shared q) := by
  refine { stocked with queued := ?_ }
  intro x inside
  refine stocked.queued x ?_
  rw [drained]
  simp only [Destination.setQueue, Function.update_self] at inside
  exact List.mem_cons_of_mem m inside

theorem Alone.track {c : Consumer} (alone : Alone c) (m : Message) :
    TinyMqDestination.track c m = { c with inFlight := c.inFlight ++ [m] } := by
  unfold TinyMqDestination.track
  rcases alone.manual with mode | mode
  · rw [mode]
  · rw [mode]

theorem rehydrate_own (stocked : Stocked cid sent gone d) (e : Destination) (c : Consumer)
    {m : Message} (own : Own sent m) (stamped : Stamped m) : Own sent (e.rehydrate c m) := by
  have kind := own.persistent stocked.persistent
  obtain ⟨content, cached, equal⟩ := stamped
  obtain ⟨i, s, here, location, same⟩ := own
  unfold Destination.rehydrate
  rw [if_pos kind, cached]
  exact ⟨i, s, here, location, equal.trans same⟩

def view (d : Destination) : DestinationType × List Nat × Assoc Nat Consumer × Store Content ×
    QueueT × List (Int × QueueId × Message) :=
  (d.type, d.consumers, d.objects, d.stores .shared, d.queues .shared, d.pending)

theorem Stocked.same (stocked : Stocked cid sent gone d) {d' : Destination} (same : view d' = view d) :
    Stocked cid sent gone d' := by
  simp only [view, Prod.mk.injEq] at same
  obtain ⟨type, consumers, objects, store, queue, pending⟩ := same
  refine
    { family := ?family
      consumers := ?consumers
      single := ?single
      logged := ?logged
      persistent := stocked.persistent
      queued := ?queued
      pending := ?pending }
  case family =>
    unfold Destination.isQueueFamily
    rw [type]
    exact stocked.family
  case consumers =>
    rw [consumers]
    exact stocked.consumers
  case single =>
    rw [objects]
    exact stocked.single
  case logged =>
    rw [store]
    exact stocked.logged
  case queued =>
    rw [queue]
    exact stocked.queued
  case pending =>
    rw [pending]
    exact stocked.pending

theorem Stocked.append (stocked : Stocked cid sent gone d) (content : Content)
    (persistent : content.reliability = .PERSISTENT)
    (fresh : content.uuid ∉ sent.map Content.uuid) :
    Stocked cid (sent ++ [content]) gone { d with
      stores := Function.update d.stores .shared
        ((d.stores .shared).append content.uuid content false).1 } ∧
      ((d.stores .shared).append content.uuid content false).2 = some sent.length := by
  obtain ⟨c, object, alone, chain⟩ := stocked.single
  obtain ⟨logged, place⟩ := stocked.logged.append fresh
  refine ⟨⟨stocked.family, stocked.consumers, ⟨c, object, alone, ?_⟩, ?_, ?_, ?_, ?_⟩, place⟩
  · exact fun x inside => (chain x inside).more content
  · simpa using logged
  · intro x inside
    rcases List.mem_append.mp inside with old | new
    · exact stocked.persistent x old
    · rw [List.mem_singleton.mp new]
      exact persistent
  · exact fun x inside => ⟨(stocked.queued x inside).1.more content, (stocked.queued x inside).2⟩
  · intro x inside
    obtain ⟨shared, own, stamped⟩ := stocked.pending x inside
    exact ⟨shared, own.more content, stamped⟩

theorem push_stocked (stocked : Stocked cid sent gone d) {env : Env}
    (works : ∀ sid n, env.appendFails sid n = false) (number : Int) (pid : Nat) {m : Message}
    (persistent : m.isPersistent = true)
    (fresh : (pushCopy env d.nextOid number cid m).content.uuid ∉ sent.map Content.uuid) :
    Stocked cid (sent ++ [(pushCopy env d.nextOid number cid m).content]) gone
      (Destination.push env number pid [] m d cid) := by
  obtain ⟨c, object, alone, _⟩ := stocked.single
  have kind : (pushCopy env d.nextOid number cid m).isPersistent = true := persistent
  obtain ⟨stored, place⟩ := stocked.append (pushCopy env d.nextOid number cid m).content
    (by simpa [Message.isPersistent] using kind) fresh
  let given : Message := { pushCopy env d.nextOid number cid m with
    cachedStorageBytes := some (pushCopy env d.nextOid number cid m).content,
    location := some sent.length }
  have prepared : d.preparePush env cid c number [] m = ({ d with
      nextOid := d.nextOid + 1,
      stores := Function.update d.stores .shared ((d.stores .shared).append
        (pushCopy env d.nextOid number cid m).content.uuid
        (pushCopy env d.nextOid number cid m).content false).1 }, given) := by
    unfold Destination.preparePush
    dsimp only
    rw [if_pos kind, if_neg (by simp), alone.storage]
    unfold Destination.appendRecord
    dsimp only
    rw [works]
    exact Prod.ext rfl (congrArg (fun r => { given with location := r }) place)
  have numbered : Stocked cid (sent ++ [(pushCopy env d.nextOid number cid m).content]) gone { d with
      nextOid := d.nextOid + 1,
      stores := Function.update d.stores .shared ((d.stores .shared).append
        (pushCopy env d.nextOid number cid m).content.uuid
        (pushCopy env d.nextOid number cid m).content false).1 } := stored.same rfl
  have own : Own (sent ++ [(pushCopy env d.nextOid number cid m).content]) given :=
    ⟨sent.length, (pushCopy env d.nextOid number cid m).content, by simp, rfl, rfl⟩
  have stamped : Stamped given := ⟨_, rfl, rfl⟩
  have takes : accepts c.selector m = true := by
    rw [alone.selector]
    rfl
  unfold Destination.push
  rw [object]
  dsimp only
  rw [if_pos takes, prepared, alone.queue]
  dsimp only
  rw [if_pos rfl]
  split
  · exact numbered.enqueueOrSchedule env own stamped
  · exact numbered.enqueue own stamped

theorem save_stocked (stocked : Stocked cid sent gone d) {env : Env}
    (works : ∀ sid n, env.appendFails sid n = false) (pid : Nat) {m : Message}
    (persistent : m.isPersistent = true)
    (fresh : (posted env d cid m).uuid ∉ sent.map Content.uuid) :
    Stocked cid (sent ++ [posted env d cid m]) gone (d.save env pid [] m) := by
  have one : d.consumers.take 1 = [cid] := by
    rw [stocked.consumers]
    rfl
  rw [save_queue env d stocked.family, one]
  have counted : Stocked cid sent gone { d with messageCounter := d.messageCounter + 1 } :=
    stocked.same rfl
  exact push_stocked counted works d.messageCounter pid persistent fresh

theorem Stocked.front (stocked : Stocked cid sent gone d) {c : Consumer} {m : Message} {q : QueueT}
    (object : get d.objects cid = some c) (next : (d.queues c.queue).dequeue = some (m, q)) :
    Alone c ∧ (∀ x ∈ c.inFlight, Own sent x) ∧ Stocked cid sent gone (d.setQueue c.queue q) ∧
      Own sent ((d.setQueue c.queue q).rehydrate c m) := by
  obtain ⟨c', object', alone, chain⟩ := stocked.single
  rw [object, Option.some.injEq] at object'
  subst object'
  have drained := dequeue_some next
  rw [alone.queue] at drained
  obtain ⟨own, stamped⟩ := stocked.queued m (by rw [drained]; simp)
  have read := rehydrate_own stocked (d.setQueue c.queue q) c own stamped
  refine ⟨alone, chain, ?_, read⟩
  rw [alone.queue]
  exact stocked.taken drained

theorem own_expired {m : Message} (own : Own sent m) {clock : Int} (late : m.isExpired clock = true) :
    ∃ s ∈ sent, s.uuid = m.uuid ∧ Content.isExpired s clock := by
  obtain ⟨i, s, here, _, same⟩ := own
  refine ⟨s, List.mem_of_getElem? here, (bare_uuid same).symm, ?_⟩
  unfold Content.isExpired
  rw [← bare_expiration same]
  simpa [Message.isExpired] using late

theorem recv_stocked (env : Env) (patience : Nat) (stocked : Stocked cid sent gone d) :
    ∃ lost, Stocked cid sent (lost ++ gone) (d.recv env cid patience).1 ∧
      (∀ u ∈ lost, ∃ s ∈ sent, s.uuid = u ∧ Content.isExpired s env.nowMs) ∧
      ∀ m, (d.recv env cid patience).2 = some m → Own sent m := by
  refine recv_rounds env (P := fun _ e r => ∀ gone, Stocked cid sent gone e →
      ∃ lost, Stocked cid sent (lost ++ gone) r.1 ∧
        (∀ u ∈ lost, ∃ s ∈ sent, s.uuid = u ∧ Content.isExpired s env.nowMs) ∧
        ∀ m, r.2 = some m → Own sent m) ?_ ?_ ?_ ?_ ?_ patience d gone stocked
  · intro _ e _ gone stocked
    exact ⟨[], stocked, by simp, by simp⟩
  · intro _ e c _ _ gone stocked
    exact ⟨[], stocked, by simp, by simp⟩
  · intro _ e c m q object next _ gone stocked
    obtain ⟨alone, chain, taken, read⟩ := stocked.front object next
    rw [alone.track]
    refine ⟨[], taken.setObject ⟨alone.queue, alone.storage, alone.selector, alone.manual⟩ ?_,
      by simp, ?_⟩
    · intro x inside
      rcases List.mem_append.mp inside with old | new
      · exact chain x old
      · rw [List.mem_singleton.mp new]
        exact read
    · intro m' same
      rw [← Option.some.inj same]
      exact read
  · intro e c m q object next late gone stocked
    obtain ⟨alone, _, taken, read⟩ := stocked.front object next
    refine ⟨[_], taken.dropRecord alone read, ?_, by simp⟩
    intro u inside
    rw [List.mem_singleton.mp inside]
    exact own_expired read late
  · intro _ e c m q r object next late rest gone stocked
    obtain ⟨alone, _, taken, read⟩ := stocked.front object next
    obtain ⟨lost, kept, all, returned⟩ := rest _ (taken.dropRecord alone read)
    refine ⟨lost ++ [((e.setQueue c.queue q).rehydrate c m).uuid], ?_, ?_, returned⟩
    · rw [List.append_assoc]
      exact kept
    · intro u inside
      rcases List.mem_append.mp inside with more | here
      · exact all u more
      · rw [List.mem_singleton.mp here]
        exact own_expired read late

theorem acknowledgeOn_stocked (stocked : Stocked cid sent gone d) {m : Message} (own : Own sent m) :
    Stocked cid sent (m.uuid :: gone) (d.acknowledgeOn cid m) := by
  have kind := own.persistent stocked.persistent
  obtain ⟨c, object, alone, chain⟩ := stocked.single
  obtain ⟨i, s, here, location, same⟩ := own
  have uuid : m.uuid = s.uuid := bare_uuid same
  have other : c.mode ≠ .SESSION_TRANSACTED ∧ c.mode ≠ .DUPS_OK_ACKNOWLEDGE := by
    rcases alone.manual with mode | mode
    · rw [mode]
      decide
    · rw [mode]
      decide
  have unlinked : Stocked cid sent gone
      (d.setObject cid { c with inFlight := c.inFlight.filter (·.oid ≠ m.oid) }) :=
    stocked.setObject ⟨alone.queue, alone.storage, alone.selector, alone.manual⟩
      fun x inside => chain x (List.mem_of_mem_filter inside)
  unfold Destination.acknowledgeOn
  rw [object]
  dsimp only
  rw [if_neg other.1, if_pos kind]
  unfold Destination.locate
  rw [location]
  dsimp only
  rw [if_neg other.2, uuid]
  exact unlinked.remove alone.storage here

theorem redeliver_stocked (stocked : Stocked cid sent gone d) {c : Consumer} (alone : Alone c)
    (env : Env) {m : Message} (own : Own sent m) (below : ¬ Limited d m) :
    Stocked cid sent gone (d.redeliver env c false m).1 := by
  have kind := own.persistent stocked.persistent
  have again : ∀ t, Own sent ((countRedelivery m).setDeliveryTime t).refreshCachedStorageBytes ∧
      Stamped ((countRedelivery m).setDeliveryTime t).refreshCachedStorageBytes := by
    intro t
    have persistent : ((countRedelivery m).setDeliveryTime t).isPersistent = true := kind
    unfold Message.refreshCachedStorageBytes
    rw [if_pos persistent]
    exact ⟨own, _, rfl, rfl⟩
  unfold Destination.redeliver
  dsimp only
  rw [if_neg (show ¬ (0 ≤ d.redeliveryPolicy.maxRedeliveries ∧ d.redeliveryPolicy.maxRedeliveries <
    (countRedelivery m).content.headers.deliveryCount) from below), alone.queue]
  dsimp only
  split
  · exact stocked.enqueueOrSchedule env (again _).1 (again _).2
  · exact stocked.enqueue (again _).1 (again _).2

theorem redeliver_policy (env : Env) (c : Consumer) (d : Destination) (m : Message) :
    (d.redeliver env c false m).1.redeliveryPolicy = d.redeliveryPolicy := by
  unfold Destination.redeliver
  dsimp only
  split
  · obtain ⟨stores, dropped⟩ := dropRecords_stores d c [countRedelivery m]
    have one : d.dropRecord c (countRedelivery m) = { d with stores := stores } := dropped
    rw [one]
  · split
    · exact (enqueueOrSchedule_policy env d c.queue _).1
    · rfl

theorem redeliverAll_stocked {c : Consumer} (alone : Alone c) (env : Env) {policy : RedeliveryPolicy}
    (ms : List Message) (stocked : Stocked cid sent gone d) (same : d.redeliveryPolicy = policy)
    (own : ∀ m ∈ ms, Own sent m)
    (below : ∀ m ∈ ms, ¬ (0 ≤ policy.maxRedeliveries ∧
      policy.maxRedeliveries < m.content.headers.deliveryCount + 1)) :
    Stocked cid sent gone (d.redeliverAll env c false ms).1 := by
  induction ms generalizing d with
  | nil => exact stocked
  | cons m ms ih =>
    have first : ¬ Limited d m := by
      unfold Limited
      rw [same]
      exact below m (by simp)
    refine ih (redeliver_stocked stocked alone env (own m (by simp)) first)
      ((redeliver_policy env c d m).trans same)
      (fun x inside => own x (List.mem_cons_of_mem m inside))
      (fun x inside => below x (List.mem_cons_of_mem m inside))

theorem recover_stocked (stocked : Stocked cid sent gone d) (env : Env)
    (below : ∀ c, get d.objects cid = some c → ∀ m ∈ c.inFlight, ¬ Limited d m) :
    Stocked cid sent gone (d.recover env cid).1 := by
  obtain ⟨c, object, alone, chain⟩ := stocked.single
  have emptied : Stocked cid sent gone (d.setObject cid { c with inFlight := [] }) :=
    stocked.setObject ⟨alone.queue, alone.storage, alone.selector, alone.manual⟩ (by simp)
  unfold Destination.recover
  rw [object]
  exact redeliverAll_stocked alone env c.inFlight emptied rfl chain (below c object)

theorem reorder_stocked (stocked : Stocked cid sent gone d) {q : QueueT}
    (same : ∀ b, (q.bands b).Perm ((d.queues .shared).bands b)) :
    Stocked cid sent gone (d.setQueue .shared q) := by
  refine { stocked with queued := ?_ }
  intro x inside
  simp only [Destination.setQueue, Function.update_self] at inside
  obtain ⟨b, here⟩ := mem_toList.mp inside
  exact stocked.queued x (mem_toList.mpr ⟨b, (same b).mem_iff.mp here⟩)

theorem deliverDue_stocked (stocked : Stocked cid sent gone d) (env : Env) :
    Stocked cid sent gone (d.deliverDue env) := by
  unfold Destination.deliverDue
  split
  · exact stocked
  · rename_i t q m rest first
    split
    · obtain ⟨shared, own, stamped⟩ := stocked.pending (t, q, m) (by rw [first]; simp)
      have left : Stocked cid sent gone { d with pending := rest } := by
        refine { stocked with pending := ?_ }
        intro e inside
        exact stocked.pending e (by rw [first]; exact List.mem_cons_of_mem _ inside)
      dsimp only at shared
      rw [shared]
      exact left.enqueue own stamped
    · exact stocked

end Stocked

/-- What every state of the run keeps. What is gone was acknowledged or has expired. -/
structure Recorded (cid : Nat) (s : State) (gone : List UUID) : Prop where
  stocked : Stocked cid s.sent gone s.queue
  received : ∀ m ∈ s.received, Own s.sent m
  acked : ∀ u ∈ s.acked, u ∈ gone
  why : ∀ u ∈ gone, u ∈ s.acked ∨ ∃ c ∈ s.sent, c.uuid = u ∧ Content.isExpired c s.clock
  times : ∀ c ∈ s.sent, 0 ≤ c.headers.deliveryTime ∧
    c.headers.deliveryTime ≤ s.clock + kMaxFutureHeaderMs

section Recorded
variable {cid : Nat} {s : State} {gone : List UUID}

theorem Recorded.same (recorded : Recorded cid s gone) {d : Destination} (same : view d = view s.queue) :
    Recorded cid { s with queue := d } gone :=
  { recorded with stocked := recorded.stocked.same same }

theorem setProducer_view (d : Destination) (pid : Nat) (f : Producer → Producer) :
    view (TinyMqCacheCoherence.setProducer d pid f) = view d := by
  unfold TinyMqCacheCoherence.setProducer
  split <;> rfl

theorem deleteProducer_view (env : Env) (d : Destination) (pid : Nat) :
    view (d.deleteProducer env pid []) = view d := by
  unfold Destination.deleteProducer Destination.rollbackProducer
  split
  · rfl
  · dsimp only
    split
    · rfl
    · rfl

theorem Recorded.loses (recorded : Recorded cid s gone) {d : Destination} {lost : List UUID}
    (stocked : Stocked cid s.sent (lost ++ gone) d)
    (expired : ∀ u ∈ lost, ∃ c ∈ s.sent, c.uuid = u ∧ Content.isExpired c s.clock) :
    Recorded cid { s with queue := d } (lost ++ gone) where
  stocked := stocked
  received := recorded.received
  acked := fun u inside => List.mem_append_right lost (recorded.acked u inside)
  why := by
    intro u inside
    rcases List.mem_append.mp inside with new | old
    · exact Or.inr (expired u new)
    · exact recorded.why u old
  times := recorded.times

theorem Recorded.sends (recorded : Recorded cid s gone) {random : RandomUse → UUID} (pid : Nat)
    {m : Message} (sendable : Sendable (now s.clock random) s cid m) :
    Recorded cid { s with
      queue := s.queue.save (now s.clock random) pid [] m,
      sent := s.sent ++ [posted (now s.clock random) s.queue cid m] } gone where
  stocked := save_stocked recorded.stocked (fun _ _ => rfl) pid sendable.persistent sendable.fresh
  received := fun x inside => (recorded.received x inside).more _
  acked := recorded.acked
  why := by
    intro u inside
    rcases recorded.why u inside with acked | ⟨c, old, same⟩
    · exact Or.inl acked
    · exact Or.inr ⟨c, List.mem_append_left _ old, same⟩
  times := by
    intro c inside
    rcases List.mem_append.mp inside with old | new
    · exact recorded.times c old
    · rw [List.mem_singleton.mp new]
      have bound := sendable.bound
      refine ⟨sendable.past, ?_⟩
      change m.content.headers.deliveryTime ≤ s.clock + kMaxFutureHeaderMs
      omega

theorem Recorded.tick (recorded : Recorded cid s gone) (ms : Nat) :
    Recorded cid { s with clock := s.clock + ms } gone where
  stocked := recorded.stocked
  received := recorded.received
  acked := recorded.acked
  why := by
    intro u inside
    rcases recorded.why u inside with acked | ⟨c, member, same, set, late⟩
    · exact Or.inl acked
    · exact Or.inr ⟨c, member, same, set, by dsimp only; omega⟩
  times := by
    intro c inside
    obtain ⟨past, bound⟩ := recorded.times c inside
    exact ⟨past, by dsimp only; omega⟩

theorem next_recorded (recorded : Recorded cid s gone) {a : Act} (asked : Asked cid s a) :
    ∃ gone', Recorded cid (next cid s a) gone' := by
  cases a with
  | createProducer pid mode => exact ⟨gone, recorded.same rfl⟩
  | deleteProducer pid => exact ⟨gone, recorded.same (deleteProducer_view _ _ _)⟩
  | setDefault pid opts =>
    unfold next
    dsimp only
    split
    · exact ⟨gone, recorded⟩
    · exact ⟨gone, recorded.same (setProducer_view _ _ _)⟩
  | setDisableMessageID pid value => exact ⟨gone, recorded.same (setProducer_view _ _ _)⟩
  | setDisableMessageTimestamp pid value => exact ⟨gone, recorded.same (setProducer_view _ _ _)⟩
  | setRedeliveryPolicy policy => exact ⟨gone, recorded.same rfl⟩
  | send random pid m =>
    unfold next
    dsimp only
    split
    · exact ⟨gone, recorded⟩
    · rename_i p found
      have sent : (s.queue.send (now s.clock random) pid [] m).1 =
          s.queue.save (now s.clock random) pid [] (prepared (now s.clock random) p [] m) := by
        simp [Destination.send, found]
      rw [sent]
      exact ⟨gone, recorded.sends pid (asked p found)⟩
  | sendWith random pid m opts =>
    unfold next
    dsimp only
    split
    · rename_i p _ found valid
      have sent : (s.queue.sendWith (now s.clock random) pid [] m opts).1 =
          s.queue.save (now s.clock random) pid []
            (fillHeaders (now s.clock random) p (applyOptions (now s.clock random) m opts false)) := by
        simp [Destination.sendWith, found, valid]
      rw [sent]
      exact ⟨gone, recorded.sends pid (asked p found valid)⟩
    · exact ⟨gone, recorded⟩
  | recv patience =>
    obtain ⟨lost, stocked, expired, own⟩ :=
      recv_stocked (quiet s) patience recorded.stocked
    refine ⟨lost ++ gone, { recorded.loses stocked expired with received := ?_ }⟩
    intro m inside
    rcases List.mem_append.mp inside with old | new
    · exact recorded.received m old
    · exact own m (Option.mem_toList.mp new)
  | acknowledge m =>
    refine ⟨m.uuid :: gone, acknowledgeOn_stocked recorded.stocked (recorded.received m asked),
      recorded.received, ?_, ?_, recorded.times⟩
    · intro u inside
      rcases List.mem_cons.mp inside with rfl | old
      · simp
      · exact List.mem_cons_of_mem _ (recorded.acked u old)
    · intro u inside
      rcases List.mem_cons.mp inside with rfl | old
      · exact Or.inl (by simp [next])
      · rcases recorded.why u old with acked | expired
        · exact Or.inl (List.mem_cons_of_mem _ acked)
        · exact Or.inr expired
  | recover => exact ⟨gone, { recorded with stocked := recover_stocked recorded.stocked _ asked }⟩
  | deliverDue => exact ⟨gone, { recorded with stocked := deliverDue_stocked recorded.stocked _ }⟩
  | reorder q => exact ⟨gone, { recorded with stocked := reorder_stocked recorded.stocked asked }⟩
  | sweepExpired location =>
    obtain ⟨lost, stores, swept, logged, expired⟩ :=
      recorded.stocked.logged.sweep s.clock location
    refine ⟨lost ++ gone, recorded.loses (d := sweep s.clock s.queue location) ?_ expired⟩
    rw [swept]
    exact { recorded.stocked with logged := logged }
  | tick ms => exact ⟨gone, recorded.tick ms⟩

end Recorded

/- The first consumer of a queue takes the place of the default one; then it replays. -/
theorem first_consumer {d : Destination} (queue : d.isQueueFamily = true) (nobody : d.consumers = [])
    (env : Env) (id cid : Nat) (default mode : AcknowledgeMode) :
    ∃ e : Destination, (d.createDefaultConsumer id default).createConsumer env cid mode none =
        { e.replayFromStorage env .shared .shared with consumers := [cid] } ∧
      get e.objects cid = some ⟨mode,.shared,.shared,none,[],.empty,[]⟩ ∧ e.type = d.type ∧
      e.stores = d.stores ∧ e.queues = d.queues ∧ e.pending = d.pending ∧
      e.schedulerStopped = d.schedulerStopped := by
  let e := (d.createDefaultConsumer id default).dropDefault.setObject cid
    ⟨mode,.shared,.shared,none,[],.empty,[]⟩
  have shape : e = { d with
      queueMade := true,
      defaultConsumer := none,
      objects := put (erase (put d.objects id ⟨default,.shared,.shared,none,[],.empty,[]⟩) id) cid
        ⟨mode,.shared,.shared,none,[],.empty,[]⟩,
      consumers := [] } := by
    simp [e, Destination.createDefaultConsumer, queue, Destination.dropDefault,
      Destination.setObject, nobody]
  have family : (d.createDefaultConsumer id default).isQueueFamily = true := by
    unfold Destination.createDefaultConsumer
    rw [if_pos queue]
    exact queue
  have made : e.queueMade = true := by rw [shape]
  have replayed : (e.replayFromStorage env .shared .shared).consumers = [] := by
    rw [(replayFromStorage_same env e .shared .shared).consumers, shape]
  refine ⟨e, ?_, ?_, ?_⟩
  · unfold Destination.createConsumer
    rw [if_pos family]
    dsimp only
    rw [if_pos made, replayed]
    rfl
  · simp [shape]
  · rw [shape]
    exact ⟨rfl, rfl, rfl, rfl, rfl⟩

theorem opened_recorded {type : DestinationType} (family : type = .Queue ∨ type = .TemporaryQueue)
    (policy : RedeliveryPolicy) (clock : Int) (id cid : Nat) {mode : AcknowledgeMode}
    (manual : mode = .CLIENT_ACKNOWLEDGE ∨ mode = .INDIVIDUAL_ACKNOWLEDGE) :
    Recorded cid (opened type policy clock id cid mode) [] := by
  have queue : Destination.isQueueFamily { type := type, redeliveryPolicy := policy } = true := by
    simpa [Destination.isQueueFamily] using family
  obtain ⟨e, made, object, type', stores, queues, pending, _⟩ := first_consumer queue rfl
    (now clock fun _ => 0) id cid mode mode
  have nothing : e.replayFromStorage (now clock fun _ => 0) .shared .shared = e := by
    simp [Destination.replayFromStorage, stores, Store.scan, liveRecords]
  rw [nothing] at made
  have family' : e.isQueueFamily = true := by
    unfold Destination.isQueueFamily at queue ⊢
    rw [type']
    exact queue
  have stocked : Stocked cid [] [] { e with consumers := [cid] } := by
    refine ⟨family', rfl, ⟨_, object, ⟨rfl, rfl, rfl, manual⟩, by simp⟩, ?_, by simp, ?_, ?_⟩
    · dsimp only
      rw [stores]
      exact ⟨rfl, rfl, by simp, by simp⟩
    · dsimp only
      rw [queues]
      simp
    · dsimp only
      rw [pending]
      simp
  unfold opened
  rw [made]
  exact ⟨stocked, by simp, by simp, by simp, by simp⟩

theorem run_recorded {type : DestinationType} (family : type = .Queue ∨ type = .TemporaryQueue)
    {policy : RedeliveryPolicy} {clock : Int} {id cid : Nat} {mode : AcknowledgeMode}
    (manual : mode = .CLIENT_ACKNOWLEDGE ∨ mode = .INDIVIDUAL_ACKNOWLEDGE) {acts : List Act}
    (asked : Meets (next cid) (Asked cid) (opened type policy clock id cid mode) acts) :
    ∃ gone, Recorded cid (acts.foldl (next cid) (opened type policy clock id cid mode)) gone := by
  have kept : ∀ s a, (∃ gone, Recorded cid s gone) → Asked cid s a →
      ∃ gone, Recorded cid (next cid s a) gone := by
    rintro s a ⟨gone, recorded⟩ fine
    exact next_recorded recorded fine
  exact invariant_along kept ⟨[], opened_recorded family policy clock id cid manual⟩ asked _
    (last_state_mem _ _ _)

end TinyMqRestartRuns
