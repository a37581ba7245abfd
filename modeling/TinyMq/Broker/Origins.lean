import Mathlib.Data.List.Infix
import TinyMq.Broker.Places

/-!
The inversion of a call on a destination of either family: everything that is
somewhere in memory after the call was there before, or came in one of eight ways.
For each of them: from where, in which form, and into which places.
-/
namespace TinyMqOrigins
open DelimitedText AssocLists BandQueues TombstoneLog TinyMqTom TinyMqMessage TinyMqStore
open TinyMqDestination TinyMqTransactionBuffer TinyMqSession TinyMqFrames TinyMqHolders TinyMqQueueRuns
open TinyMqPlaces

structure Retimed (x m : Message) : Prop where
  location : m.location = x.location
  content : ∃ t, m.content = x.content.withDeliveryTime t
  cached : m.cachedStorageBytes = x.cachedStorageBytes ∨
    ∃ t, m.cachedStorageBytes = x.cachedStorageBytes.map (·.withDeliveryTime t)

/-- The cached bytes of a persistent message are its own, up to the delivery time. -/
def Cached (m : Message) : Prop :=
  m.isPersistent = true → ∃ t, m.cachedStorageBytes = some (m.content.withDeliveryTime t)

/-- What a sent message keeps on its way into a queue or a transaction. -/
structure Copied (sent m : Message) : Prop where
  properties : m.content.properties = sent.content.properties
  count : m.content.headers.deliveryCount = sent.content.headers.deliveryCount
  persistent : m.isPersistent = sent.isPersistent
  cached : Cached m

/-- The message as `recv` returns it. A persistent one has been read from its bytes. -/
structure Opened (x m : Message) : Prop where
  oid : m.oid = x.oid
  location : m.location = x.location
  volatile : x.isPersistent = false → m = x
  read : x.isPersistent = true → ∀ content, x.cachedStorageBytes = some content →
    m = { x with content := content, cachedStorageBytes := none }

/-- The message as `redeliver` puts it back. -/
structure Again (x m : Message) : Prop where
  oid : m.oid = x.oid
  location : m.location = x.location
  content : ∃ t, m.content = (countRedelivery x).content.withDeliveryTime t
  cached : Cached m

/-- The cached location of the message is that of a record with its uuid. -/
def LocatedIn (s : Store Content) (m : Message) : Prop :=
  m.isPersistent = true → ∀ n, m.location = some n → (keys s.log)[n]? = some m.uuid

/-- The two places a message on its way to the consumers of a queue can be in. -/
def Waits (q : QueueId) (p : Place) : Prop := p = .queued q ∨ p = .scheduled q

def Sends (d : Destination) (sent : Message) (pid : Nat) (t : Text) : Call → Prop
  | .send env pid' t' m => pid' = pid ∧ t' = t ∧
      ∃ p, get d.producers pid = some p ∧ sent = prepared env p t m
  | .sendWith env pid' t' m opts => pid' = pid ∧ t' = t ∧
      ∃ p, get d.producers pid = some p ∧ validateSendOptions opts = .ok () ∧
        sent = fillHeaders env p (applyOptions env m opts (t ≠ []))
  | _ => False

def Replays (d : Destination) (q : QueueId) (sid : StorageId) : Call → Prop
  | .createConsumer _ _ _ _ =>
      d.isQueueFamily = true ∧ d.queueMade = true ∧ q = .shared ∧ sid = .shared
  | .createDurableConsumer _ id _ clientID name _ => q = .own id ∧
      sid = ((get d.durableSubs (durableKey clientID name)).map DurableSubState.storage).getD
        (.sub (durableDirectory clientID name))
  | _ => False

def GivesBack (cid : Nat) (p : Place) : Call → Prop
  | .recover _ id => id = cid ∧ p = .inFlight cid
  | .rollbackConsumer _ id _ => id = cid ∧ p = .received cid
  | .destroyConsumer _ id => id = cid ∧ p = .received cid
  | _ => False

theorem givesBack_place {cid : Nat} {p : Place} {call : Call} (gives : GivesBack cid p call) :
    p = .inFlight cid ∨ p = .received cid := by
  cases call with
  | recover env id => exact Or.inl gives.2
  | rollbackConsumer env id closing => exact Or.inr gives.2
  | destroyConsumer env id => exact Or.inr gives.2
  | _ => exact gives.elim

/-- A message that has come back too often does not go back to the queue. -/
def Limited (d : Destination) (m : Message) : Prop :=
  0 ≤ d.redeliveryPolicy.maxRedeliveries ∧
    d.redeliveryPolicy.maxRedeliveries < m.content.headers.deliveryCount + 1

instance (d : Destination) (m : Message) : Decidable (Limited d m) :=
  inferInstanceAs (Decidable (_ ∧ _))

/-- Where a message that is at `p` in the call's state `e` has come from. -/
inductive Origin (d : Destination) (call : Call) (e : Destination) : Place → Message → Prop
  | kept {p m} (here : m ∈ messagesAt d p) : Origin d call e p m
  | replayed {q sid p m env oid} {x : Entry UUID Content × Nat} (asked : Replays d q sid call)
      (record : x ∈ (d.stores sid).scan) (place : Waits q p)
      (shell : Retimed (shellOf env oid x.1.key x.1.data x.2) m) (new : d.nextOid ≤ m.oid) :
      Origin d call e p m
  | pushed {sent pid cid c p m} (sends : Sends d sent pid [] call) (target : cid ∈ d.targets)
      (object : get d.objects cid = some c) (takes : accepts c.selector sent = true)
      (place : Waits c.queue p) (copy : Copied sent m)
      (located : LocatedIn (e.stores c.storage) m) (new : d.nextOid ≤ m.oid) : Origin d call e p m
  | staged {sent pid t m} (sends : Sends d sent pid t call) (transaction : t ≠ [])
      (copy : Copied sent m) (location : m.isPersistent = true → m.location = sent.location)
      (new : d.nextOid ≤ m.oid) : Origin d call e (.staged pid) m
  | delivered {env pid t cid c x p m} (commit : call = .commitProducer env pid t)
      (target : cid ∈ d.targets) (object : get d.objects cid = some c)
      (was : x ∈ messagesAt d (.staged pid)) (place : Waits c.queue p) (retimed : Retimed x m)
      (oid : m.oid = x.oid ∨ d.nextOid ≤ m.oid) : Origin d call e p m
  | received {env cid patience c x p m} (recv : call = .recv env cid patience)
      (object : get d.objects cid = some c) (was : x ∈ messagesAt d (.queued c.queue))
      (opened : Opened x m) (place : p = .inFlight cid ∨ p = .received cid) : Origin d call e p m
  | redelivered {cid c p₀ x p m} (gives : GivesBack cid p₀ call)
      (object : get d.objects cid = some c)
      (transacted : p₀ = .received cid → c.mode = .SESSION_TRANSACTED)
      (was : x ∈ messagesAt d p₀) (within : ¬ Limited d x)
      (again : Again x m) (place : Waits c.queue p) : Origin d call e p m
  | due {env q m} (fires : call = .deliverDue env) (was : m ∈ messagesAt d (.scheduled q)) :
      Origin d call e (.queued q) m
  | deadLettered {env dead p m} (accepts_ : call = .acceptDeadLetter env dead)
      (made : d.queueMade = true) (place : Waits .shared p)
      (copy : Copied (deadLetterCopy dead m.oid) m) (located : LocatedIn (e.stores .shared) m)
      (new : d.nextOid ≤ m.oid) : Origin d call e p m

@[simp] theorem withDeliveryTime_twice (c : Content) (t t' : Int) :
    (c.withDeliveryTime t).withDeliveryTime t' = c.withDeliveryTime t' := rfl

theorem Retimed.refl (m : Message) : Retimed m m := ⟨rfl, ⟨_, rfl⟩, Or.inl rfl⟩

theorem Retimed.trans {x y z : Message} (one : Retimed x y) (two : Retimed y z) : Retimed x z where
  location := two.location.trans one.location
  content := by
    obtain ⟨t, first⟩ := one.content
    obtain ⟨t', second⟩ := two.content
    exact ⟨t', by rw [second, first, withDeliveryTime_twice]⟩
  cached := by
    rcases two.cached with same | ⟨t, changed⟩
    · rw [same]
      exact one.cached
    · right
      refine ⟨t, ?_⟩
      rcases one.cached with same' | ⟨t', changed'⟩
      · rw [changed, same']
      · rw [changed, changed', Option.map_map]
        rfl

theorem clampFuture_retimed (env : Env) (m : Message) : Retimed m (clampFuture env m) := by
  unfold clampFuture
  split
  · exact ⟨rfl, ⟨0, rfl⟩, Or.inr ⟨0, rfl⟩⟩
  · exact Retimed.refl m

theorem resolveDelay_retimed (env : Env) (m : Message) : Retimed m (resolveDelay env m) := by
  unfold resolveDelay
  split
  · dsimp only
    split
    · exact ⟨rfl, ⟨_, rfl⟩, Or.inr ⟨_, rfl⟩⟩
    · exact ⟨rfl, ⟨_, rfl⟩, Or.inl rfl⟩
  · exact Retimed.refl m

section Retimed
variable {x m : Message}

theorem Retimed.uuid (retimed : Retimed x m) : m.uuid = x.uuid := by
  obtain ⟨t, content⟩ := retimed.content
  simp [Message.uuid, content, Content.withDeliveryTime]

theorem Retimed.persistent (retimed : Retimed x m) : m.isPersistent = x.isPersistent := by
  obtain ⟨t, content⟩ := retimed.content
  simp [Message.isPersistent, content, Content.withDeliveryTime]

theorem Retimed.properties (retimed : Retimed x m) :
    m.content.properties = x.content.properties := by
  obtain ⟨t, content⟩ := retimed.content
  simp [content, Content.withDeliveryTime]

theorem Retimed.count (retimed : Retimed x m) :
    m.content.headers.deliveryCount = x.content.headers.deliveryCount := by
  obtain ⟨t, content⟩ := retimed.content
  simp [content, Content.withDeliveryTime]

theorem Retimed.isCached (retimed : Retimed x m) (cached : Cached x) : Cached m := by
  intro persistent
  rw [retimed.persistent] at persistent
  obtain ⟨t, bytes⟩ := cached persistent
  obtain ⟨t', content⟩ := retimed.content
  rcases retimed.cached with same | ⟨t'', changed⟩
  · exact ⟨t, by rw [same, bytes, content, withDeliveryTime_twice]⟩
  · exact ⟨t'', by rw [changed, bytes, Option.map_some, content, withDeliveryTime_twice,
      withDeliveryTime_twice]⟩

theorem Retimed.copied {sent : Message} (retimed : Retimed x m) (copy : Copied sent x) :
    Copied sent m :=
  ⟨retimed.properties.trans copy.properties, retimed.count.trans copy.count,
    retimed.persistent.trans copy.persistent, retimed.isCached copy.cached⟩

theorem Retimed.located {s : Store Content} (retimed : Retimed x m) (located : LocatedIn s x) :
    LocatedIn s m := by
  intro persistent n at_
  rw [retimed.persistent] at persistent
  rw [retimed.location] at at_
  rw [retimed.uuid]
  exact located persistent n at_

theorem Retimed.again {y : Message} (retimed : Retimed x m) (oid : m.oid = x.oid)
    (again : Again y x) : Again y m where
  oid := oid.trans again.oid
  location := retimed.location.trans again.location
  content := by
    obtain ⟨t, first⟩ := again.content
    obtain ⟨t', second⟩ := retimed.content
    exact ⟨t', by rw [second, first, withDeliveryTime_twice]⟩
  cached := retimed.isCached again.cached

end Retimed

def Grows (e e' : Destination) : Prop := ∀ sid, keys (e.stores sid).log <+: keys (e'.stores sid).log

theorem Grows.refl (e : Destination) : Grows e e := fun _ => List.prefix_refl _

theorem Grows.trans {a b c : Destination} (one : Grows a b) (two : Grows b c) : Grows a c :=
  fun sid => (one sid).trans (two sid)

theorem grows_same {e e' : Destination} (stores : e'.stores = e.stores) : Grows e e' := by
  intro sid
  rw [stores]

theorem grows_update (e : Destination) {sid : StorageId} {s : Store Content}
    (longer : keys (e.stores sid).log <+: keys s.log) :
    Grows e { e with stores := Function.update e.stores sid s } := by
  intro sid'
  by_cases here : sid' = sid
  · subst here
    simpa using longer
  · simp [Function.update_of_ne here]

theorem append_longer (s : Store Content) (uuid : UUID) (content : Content) (fails : Bool) :
    keys s.log <+: keys (s.append uuid content fails).1.log := by
  unfold Store.append
  split
  · simp
  · exact List.prefix_refl _

theorem remove_longer (s : Store Content) (location : Nat) (uuid : UUID) :
    keys s.log <+: keys (s.remove location uuid).log := by
  unfold Store.remove
  split
  · simp
  · exact List.prefix_refl _

theorem appendRecord_grows (env : Env) (e : Destination) (sid : StorageId) (uuid : UUID)
    (content : Content) : Grows e (e.appendRecord env sid uuid content).1 :=
  grows_update e (append_longer _ _ _ _)

theorem removeRecord_grows (e : Destination) (sid : StorageId) (rec : Nat × UUID) :
    Grows e (e.removeRecord sid rec) :=
  grows_update e (remove_longer _ _ _)

theorem dropRecord_grows (c : Consumer) (e : Destination) (m : Message) :
    Grows e (e.dropRecord c m) := by
  unfold Destination.dropRecord Destination.removeLocated
  split
  · split
    · exact Grows.refl e
    · exact removeRecord_grows e _ _
  · exact Grows.refl e

theorem commitTransaction_grows (env : Env) (e : Destination) (t : Text) :
    Grows e (e.commitTransaction env t) := by
  have longer : ∀ (items : List (UUID × Content)) (s : Store Content),
      keys s.log <+: keys (appends (env.appendFails .shared) s items).log := by
    intro items
    induction items with
    | nil => exact fun s => List.prefix_refl _
    | cons x items ih => exact fun s => (append_longer s _ _ _).trans (ih _)
  unfold Destination.commitTransaction
  split
  · exact Grows.refl e
  · refine grows_update e ?_
    rw [appendBatch_appends]
    exact longer _ _

theorem LocatedIn.longer {s s' : Store Content} {m : Message} (located : LocatedIn s m)
    (longer : keys s.log <+: keys s'.log) : LocatedIn s' m := by
  intro persistent n at_
  have before := located persistent n at_
  have inside := (List.getElem?_eq_some_iff.mp before).1
  rw [List.prefix_iff_getElem?.mp longer n inside, ← before, List.getElem?_eq_getElem inside]

theorem LocatedIn.grows {e e' : Destination} {sid : StorageId} {m : Message}
    (located : LocatedIn (e.stores sid) m) (grows : Grows e e') : LocatedIn (e'.stores sid) m :=
  located.longer (grows sid)

theorem Origin.grows {d e e' : Destination} {call : Call} {p : Place} {m : Message}
    (origin : Origin d call e p m) (grows : Grows e e') : Origin d call e' p m := by
  cases origin with
  | kept here => exact .kept here
  | replayed asked record place shell new => exact .replayed asked record place shell new
  | pushed sends target object takes place copy located new =>
    exact .pushed sends target object takes place copy (located.grows grows) new
  | staged sends transaction copy location new => exact .staged sends transaction copy location new
  | delivered commit target object was place retimed oid =>
    exact .delivered commit target object was place retimed oid
  | received recv object was opened place => exact .received recv object was opened place
  | redelivered gives object transacted was within again place =>
    exact .redelivered gives object transacted was within again place
  | due fires was => exact .due fires was
  | deadLettered accepts_ made place copy located new =>
    exact .deadLettered accepts_ made place copy (located.grows grows) new

theorem tracked_before {d : Destination} (unique : HeldOnce d) (call : Call) (e : Destination) :
    Tracked (Origin d call e) d [] :=
  unique.mono fun _ _ here _ => .kept here

/-- How far a call has come that works through a list of messages: what is somewhere
    has an origin, the records are in their places and the policy is the old one. -/
structure Along (d : Destination) (call : Call) (e : Destination) (hand : List Nat) : Prop where
  tracked : Tracked (Origin d call e) e hand
  grown : Grows d e
  policy : e.redeliveryPolicy = d.redeliveryPolicy
  next : d.nextOid ≤ e.nextOid

theorem along_before {d : Destination} (unique : HeldOnce d) (call : Call) : Along d call d [] :=
  ⟨tracked_before unique call d, Grows.refl d, rfl, le_refl _⟩

section Along
variable {d e e' : Destination} {call : Call} {hand : List Nat}

theorem Along.fewer (along : Along d call e hand)
    (less : ∀ p, (messagesAt e' p).Subperm (messagesAt e p)) (grows : Grows e e')
    (policy : e'.redeliveryPolicy = e.redeliveryPolicy) (next : e.nextOid ≤ e'.nextOid) :
    Along d call e' hand where
  tracked := (along.tracked.mono fun _ _ _ origin => origin.grows grows).fewer less next
  grown := along.grown.trans grows
  policy := policy.trans along.policy
  next := le_trans along.next next

theorem Along.still (along : Along d call e hand) (still : Still e e') (grows : Grows e e')
    (policy : e'.redeliveryPolicy = e.redeliveryPolicy) (next : e.nextOid ≤ e'.nextOid) :
    Along d call e' hand :=
  along.fewer still.less grows policy next

theorem Along.take {p : Place} {ms : List Message} (along : Along d call e hand)
    (takes : Takes p ms e e') (stores : e'.stores = e.stores)
    (policy : e'.redeliveryPolicy = e.redeliveryPolicy) (next : e'.nextOid = e.nextOid) :
    Along d call e' (ms.map Message.oid ++ hand) where
  tracked := (along.tracked.take takes (le_of_eq next.symm)).mono fun _ _ _ origin =>
    origin.grows (grows_same stores)
  grown := along.grown.trans (grows_same stores)
  policy := policy.trans along.policy
  next := le_trans along.next (le_of_eq next.symm)

theorem Along.create (along : Along d call e hand) :
    Along d call { e with nextOid := e.nextOid + 1 } (e.nextOid :: hand) where
  tracked := along.tracked.create.mono fun _ _ _ origin => origin.grows (grows_same rfl)
  grown := along.grown.trans (grows_same rfl)
  policy := along.policy
  next := le_trans along.next (Nat.le_succ _)

theorem Along.release {o : Nat} (along : Along d call e (o :: hand)) : Along d call e hand :=
  ⟨along.tracked.release, along.grown, along.policy, along.next⟩

theorem Along.enqueue {q : QueueId} {m : Message} (along : Along d call e (m.oid :: hand))
    (fits : Origin d call e (.queued q) m) : Along d call (e.enqueue q m) hand where
  tracked := (enqueue_tracked along.tracked fits).mono fun _ _ _ origin =>
    origin.grows (grows_same rfl)
  grown := along.grown.trans (grows_same rfl)
  policy := along.policy
  next := along.next

theorem enqueueOrSchedule_policy (env : Env) (e : Destination) (q : QueueId) (m : Message) :
    (e.enqueueOrSchedule env q m).redeliveryPolicy = e.redeliveryPolicy ∧
      (e.enqueueOrSchedule env q m).nextOid = e.nextOid := by
  rcases enqueueOrSchedule_cases env e q m with now | dropped | later
  · rw [now]
    exact ⟨rfl, rfl⟩
  · rw [dropped]
    exact ⟨rfl, rfl⟩
  · rw [later]
    exact ⟨rfl, rfl⟩

theorem Along.enqueueOrSchedule (env : Env) {q : QueueId} {m : Message}
    (along : Along d call e (m.oid :: hand))
    (fits : ∀ p, Waits q p → Origin d call e p (clampFuture env m)) :
    Along d call (e.enqueueOrSchedule env q m) hand where
  tracked := (enqueueOrSchedule_tracked env along.tracked (fits _ (Or.inl rfl))
    (fits _ (Or.inr rfl))).mono fun _ _ _ origin =>
      origin.grows (grows_same (enqueueOrSchedule_stores env e q m))
  grown := along.grown.trans (grows_same (enqueueOrSchedule_stores env e q m))
  policy := (enqueueOrSchedule_policy env e q m).1.trans along.policy
  next := by
    rw [(enqueueOrSchedule_policy env e q m).2]
    exact along.next

theorem Along.fold {ι : Type} {r : Destination} {g : Destination → ι → Destination} {l : List ι}
    (kept : ∀ e i, i ∈ l → Same e (g e i))
    (each : ∀ e i, i ∈ l → Same r e → Along d call e hand → Along d call (g e i) hand)
    (along : Along d call e hand) (same : Same r e) : Along d call (l.foldl g e) hand := by
  induction l generalizing e with
  | nil => exact along
  | cons i l ih =>
    rw [List.foldl_cons]
    exact ih (fun e i inside => kept e i (List.mem_cons_of_mem _ inside))
      (fun e i inside => each e i (List.mem_cons_of_mem _ inside)) (each e i (by simp) same along)
      (same.trans (kept e i (by simp)))

theorem Along.appendRecord (env : Env) (along : Along d call e hand) (sid : StorageId) (uuid : UUID)
    (content : Content) : Along d call (e.appendRecord env sid uuid content).1 hand :=
  along.still (stores_still e _) (appendRecord_grows env e sid uuid content) rfl (le_refl _)

theorem Along.dropRecord (along : Along d call e hand) (c : Consumer) (m : Message) :
    Along d call (e.dropRecord c m) hand := by
  obtain ⟨stores, dropped⟩ := dropRecords_stores e c [m]
  have one : e.dropRecord c m = { e with stores := stores } := dropped
  have grows := dropRecord_grows c e m
  rw [one] at grows ⊢
  exact along.still (stores_still e stores) grows rfl (le_refl _)

theorem Along.persistOffline (env : Env) (along : Along d call e hand) (m : Message) :
    Along d call (e.persistOffline env m) hand := by
  unfold Destination.persistOffline
  refine along.fold (r := e) ?_ ?_ (Same.refl e)
  · intro e' entry _
    split
    · exact Same.refl e'
    · split
      · exact same_registry rfl
      · exact Same.refl e'
  · intro e' entry _ _ along
    split
    · exact along
    · split
      · exact along.appendRecord env _ _ _
      · exact along

end Along

end TinyMqOrigins
