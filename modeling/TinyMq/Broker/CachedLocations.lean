import TinyMq.Broker.DurableRegistry
import TinyMq.Broker.LabelledRecords
import TinyMq.Broker.SubscriptionFiles

/-!
The record locations that messages carry. `copy()` takes the location along, and only
the branch of `preparePush` outside a transaction sets a new one. In a run in which no
transacted send brings a location with it, every location points at the message's own
record in the storage of the consumer that holds it.
-/
namespace TinyMqCachedLocations
open DelimitedText AssocLists BandQueues Machines TombstoneLog TinyMqTom TinyMqMessage TinyMqStore
open TinyMqDestination TinyMqSession TinyMqFrames TinyMqHolders TinyMqQueueRuns TinyMqPlaces
open TinyMqOrigins TinyMqInversion TinyMqDurableRegistry TinyMqLabelledRecords TinyMqSubscriptionFiles

/-- The storages that consumers still hold of subscriptions that have been deleted. -/
abbrev Detached := Nat → Option (Store Content)

/-- A deleted subscription takes its directory along; its consumers keep the storage
    they have opened. -/
def detach (d : Destination) (kept : Detached) : Call → Detached
  | .deleteSubscription clientID name =>
    match get d.durableSubs (durableKey clientID name) with
    | none => kept
    | some sub => fun cid =>
      match kept cid with
      | some s => some s
      | none =>
        if (get d.objects cid).map Consumer.storage = some sub.storage then
          some (d.stores sub.storage)
        else none
  | .createDefaultConsumer id _ | .createConsumer _ id _ _ | .createDurableConsumer _ id _ _ _ _ =>
    Function.update kept id none
  | .restart _ => fun _ => none
  | _ => kept

def nextHeld (s : Destination × Detached) (call : Call) : Destination × Detached :=
  (next s.1 call, detach s.1 s.2 call)

/-- `_storage` of a consumer. -/
def ownStore (d : Destination) (kept : Detached) (cid : Nat) (c : Consumer) : Store Content :=
  (kept cid).getD (d.stores c.storage)

/-- Every cached location of a persistent message that a consumer holds is that of a
    record with the message's uuid, in the consumer's own storage. -/
def LocationsRight (s : Destination × Detached) : Prop :=
  ∀ cid c, get s.1.objects cid = some c →
    ∀ p, p = .queued c.queue ∨ p = .inFlight cid ∨ p = .received cid →
      ∀ m ∈ messagesAt s.1 p, LocatedIn (ownStore s.1 s.2 cid c) m

def NewName (d : Destination) : Call → Prop
  | .createDefaultConsumer id _ | .createConsumer _ id _ _ | .createDurableConsumer _ id _ _ _ _ =>
    get d.objects id = none ∧ ∀ p, Waits (.own id) p → messagesAt d p = []
  | _ => True

/-- A transacted send of a persistent message brings no location with it. -/
def NoneCarried (d : Destination) (call : Call) : Prop :=
  ∀ sent pid t, Sends d sent pid t call → t ≠ [] → sent.isPersistent = true → sent.location = none

/-- A destination as a new process finds it, whatever its directories hold. -/
structure Unused (d : Destination) : Prop where
  idle : Idle d
  objects : d.objects = []
  consumers : d.consumers = []
  subs : d.durableSubs = []
  names : d.consumerToSubName = []
  labelled : Labelled d

/-- On a queue all consumers share the queue and the storage; on a topic each has its own queue. -/
def Wired (d : Destination) : Prop :=
  ∀ cid c, get d.objects cid = some c →
    (d.isQueueFamily = true ∧ c.queue = .shared ∧ c.storage = .shared) ∨
      (d.isQueueFamily = false ∧ c.queue = .own cid)

def home (d : Destination) (kept : Detached) : Place → Option (Store Content)
  | .queued .shared | .scheduled .shared => some (d.stores .shared)
  | .queued (.own cid) | .scheduled (.own cid) | .inFlight cid | .received cid =>
    (get d.objects cid).map (ownStore d kept cid)
  | .staged _ => none

/-- A message at a place: read or with its bytes, which are its own, and with its location. -/
structure Settled (d : Destination) (kept : Detached) (p : Place) (m : Message) : Prop where
  readable : Readable p m
  faithful : Faithful m
  located : ∀ s, home d kept p = some s → LocatedIn s m
  staged : ∀ pid, p = .staged pid → m.isPersistent = true → m.location = none

/-- The subscriptions of a topic are in order, a queue has none. -/
def Ordered (d : Destination) : Prop :=
  (d.isQueueFamily = true ∧ d.durableSubs = []) ∨ Registry d

structure Right (s : Destination × Detached) : Prop where
  tracked : Tracked (Settled s.1 s.2) s.1 []
  labelled : Labelled s.1
  wired : Wired s.1
  ordered : Ordered s.1
  off : ∀ cid store, s.2 cid = some store → s.1.isQueueFamily = false ∧ cid ∉ s.1.consumers

section Registry
variable (d : Destination) (call : Call)

theorem step_family : (next d call).isQueueFamily = d.isQueueFamily := by
  have same := step_type d call
  unfold Destination.isQueueFamily
  rw [same]

theorem step_wired (wired : Wired d) : Wired (next d call) := by
  intro cid c' object
  rw [step_family]
  rcases step_joined d call cid c' object with ⟨c, before, same⟩ | joins
  · simp only [settings, Prod.mk.injEq] at same
    obtain ⟨_, queue, storage, _⟩ := same
    rw [← queue, ← storage]
    exact wired cid c before
  · cases call with
    | createDefaultConsumer id mode =>
      obtain ⟨rfl, family, same⟩ := joins
      simp only [settings, Prod.mk.injEq] at same
      exact Or.inl ⟨family, same.2.1, same.2.2.1⟩
    | createConsumer env id mode selector =>
      obtain ⟨rfl, same⟩ := joins
      simp only [settings, Prod.mk.injEq] at same
      cases family : d.isQueueFamily with
      | true => exact Or.inl ⟨rfl, by simpa [family] using same.2.1, same.2.2.1⟩
      | false => exact Or.inr ⟨rfl, by simpa [family] using same.2.1⟩
    | createDurableConsumer env id mode clientID name selector =>
      obtain ⟨rfl, topic, same⟩ := joins
      simp only [settings, Prod.mk.injEq] at same
      exact Or.inr ⟨topic_notQueue topic, same.2.1⟩
    | _ => exact joins.elim

theorem queue_noSubs (queue : d.isQueueFamily = true) (none_ : d.durableSubs = []) :
    (next d call).durableSubs = [] := by
  cases call with
  | createDefaultConsumer id mode =>
    simp only [next, step, Destination.createDefaultConsumer]
    split <;> exact none_
  | createConsumer env id mode selector =>
    have kept : d.dropDefault.durableSubs = [] := by
      unfold Destination.dropDefault
      split <;> exact none_
    simp only [next, step, Destination.createConsumer, queue, if_true]
    split
    · exact (replayFromStorage_same env _ _ _).subs.trans kept
    · exact kept
  | createDurableConsumer env id mode clientID name selector =>
    simp only [next, step, Destination.createDurableConsumer, queue_notTopic queue]
    exact none_
  | deleteConsumer id =>
    simp only [next, step, Destination.deleteConsumer, none_, get_nil]
    split <;> rfl
  | destroyConsumer env id =>
    simp only [next, step, Destination.destroyConsumer]
    split
    · exact none_
    · rename_i c object
      exact ((flushPendingAcks_steady d id object (c := c) rfl).trans
        (rollbackConsumer_steady env _ id false)).subs.trans none_
  | deleteSubscription clientID name =>
    simp only [next, step, Destination.deleteSubscription, none_, get_nil]
  | rehash l =>
    simp only [next, step, Destination.rehash]
    split <;> exact none_
  | restart env => rfl
  | _ => exact (step_steady d rfl).subs.trans none_

theorem step_ordered (ordered : Ordered d) (possible : Possible d call) : Ordered (next d call) := by
  rcases ordered with ⟨queue, none_⟩ | registry
  · exact Or.inl ⟨(step_family d call).trans queue, queue_noSubs d call queue none_⟩
  · exact Or.inr (step_registry d call registry possible)

theorem deleteConsumer_consumers (id : Nat) :
    (d.deleteConsumer id).consumers = d.consumers.erase id := by
  unfold Destination.deleteConsumer
  dsimp only
  split <;> rfl

theorem deleteSubscription_found {clientID name : Text} {sub : DurableSubState}
    (found : get d.durableSubs (durableKey clientID name) = some sub) :
    (d.deleteSubscription clientID name).consumers =
        (match sub.active with
        | none => d.consumers
        | some id => d.consumers.erase id) ∧
      (d.deleteSubscription clientID name).stores = Function.update d.stores sub.storage {} := by
  simp only [Destination.deleteSubscription, found]
  cases sub.active with
  | none => exact ⟨rfl, rfl⟩
  | some id => exact ⟨deleteConsumer_consumers d id, by rw [(deleteConsumer_kept d id).1]⟩

def newcomer : Call → Option Nat
  | .createDefaultConsumer id _ | .createConsumer _ id _ _ | .createDurableConsumer _ id _ _ _ _ =>
    some id
  | _ => none

theorem step_consumers {cid : Nat} (member : cid ∈ (next d call).consumers) :
    cid ∈ d.consumers ∨ newcomer call = some cid := by
  cases call with
  | createDefaultConsumer id mode =>
    simp only [next, step, Destination.createDefaultConsumer] at member
    split at member
    · rcases List.mem_append.mp member with old | new
      · exact Or.inl old
      · exact Or.inr (by rw [List.mem_singleton.mp new]; rfl)
    · exact Or.inl member
  | createConsumer env id mode selector =>
    have dropped : ∀ i, i ∈ d.dropDefault.consumers → i ∈ d.consumers := by
      intro i inside
      unfold Destination.dropDefault at inside
      split at inside
      · exact inside
      · exact List.mem_of_mem_erase inside
    simp only [next, step, Destination.createConsumer] at member
    split at member
    · rcases List.mem_append.mp member with old | new
      · split at old
        · rw [(replayFromStorage_same env _ _ _).consumers] at old
          exact Or.inl (dropped cid old)
        · exact Or.inl (dropped cid old)
      · exact Or.inr (by rw [List.mem_singleton.mp new]; rfl)
    · rcases List.mem_append.mp member with old | new
      · exact Or.inl old
      · exact Or.inr (by rw [List.mem_singleton.mp new]; rfl)
  | createDurableConsumer env id mode clientID name selector =>
    have attached : ∀ key sub, cid ∈ (d.attachDurable env id mode key sub selector).consumers →
        cid ∈ d.consumers ∨ newcomer (.createDurableConsumer env id mode clientID name selector) =
          some cid := by
      intro key sub inside
      rcases List.mem_append.mp inside with old | new
      · rw [(replayFromStorage_same env _ _ _).consumers] at old
        exact Or.inl old
      · exact Or.inr (by rw [List.mem_singleton.mp new]; rfl)
    simp only [next, step, Destination.createDurableConsumer] at member
    split at member
    · exact Or.inl member
    · split at member
      · exact attached _ _ member
      · split at member
        · exact Or.inl member
        · exact attached _ _ member
  | deleteConsumer id =>
    simp only [next, step, deleteConsumer_consumers] at member
    exact Or.inl (List.mem_of_mem_erase member)
  | destroyConsumer env id =>
    simp only [next, step, Destination.destroyConsumer] at member
    split at member
    · exact Or.inl member
    · rename_i c object
      have same := ((flushPendingAcks_steady d id object (c := c) rfl).trans
        (rollbackConsumer_steady env _ id false)).consumers
      exact Or.inl (by rw [← same]; exact member)
  | deleteSubscription clientID name =>
    simp only [next, step] at member
    cases found : get d.durableSubs (durableKey clientID name) with
    | none =>
      rw [deleteSubscription_absent found] at member
      exact Or.inl member
    | some sub =>
      rw [(deleteSubscription_found d found).1] at member
      cases active : sub.active with
      | none =>
        rw [active] at member
        exact Or.inl member
      | some id =>
        rw [active] at member
        exact Or.inl (List.mem_of_mem_erase member)
  | rehash l =>
    simp only [next, step, Destination.rehash] at member
    split at member
    · rename_i perm
      exact Or.inl (perm.mem_iff.mp member)
    · exact Or.inl member
  | restart env => cases member
  | _ =>
    rw [(step_steady d rfl).consumers] at member
    exact Or.inl member

end Registry

section Storages
variable {d : Destination} {kept : Detached} {call : Call}

theorem deleted_user_off (registry : Registry d) {clientID name : Text} {sub : DurableSubState}
    (found : get d.durableSubs (durableKey clientID name) = some sub) {cid : Nat} {c : Consumer}
    (object : get d.objects cid = some c) (works : c.storage = .sub sub.directory) :
    cid ∉ (next d (.deleteSubscription clientID name)).consumers := by
  intro member
  have old : cid ∈ d.consumers := by
    rcases step_consumers d _ member with old | new
    · exact old
    · cases new
  obtain ⟨c', object', attached⟩ := registry.attached cid old
  rw [object, Option.some.injEq] at object'
  subst object'
  rcases attached with shared | ⟨k, sub', found', active, same⟩
  · rw [works] at shared
    cases shared
  · have directory : sub'.directory = sub.directory := by
      rw [works] at same
      exact (StorageId.sub.inj same).symm
    have key := registry.apart _ _ _ _ found' found directory
    rw [key, found, Option.some.injEq] at found'
    subst found'
    simp only [next, step] at member
    rw [(deleteSubscription_found d found).1, active] at member
    exact registry.distinct.not_mem_erase member

theorem step_off (ordered : Ordered d)
    (off : ∀ cid s, kept cid = some s → d.isQueueFamily = false ∧ cid ∉ d.consumers) :
    ∀ cid s, detach d kept call cid = some s →
      (next d call).isQueueFamily = false ∧ cid ∉ (next d call).consumers := by
  intro cid s held
  rw [step_family]
  have stays : kept cid = some s → newcomer call ≠ some cid →
      d.isQueueFamily = false ∧ cid ∉ (next d call).consumers := by
    intro before other
    obtain ⟨family, gone⟩ := off cid s before
    refine ⟨family, ?_⟩
    intro member
    rcases step_consumers d call member with old | new
    · exact gone old
    · exact other new
  have joins : ∀ id, newcomer call = some id → Function.update kept id none cid = some s →
      d.isQueueFamily = false ∧ cid ∉ (next d call).consumers := by
    intro id new held
    by_cases here : cid = id
    · subst here
      rw [Function.update_self] at held
      cases held
    · rw [Function.update_of_ne here] at held
      refine stays held ?_
      rw [new]
      exact fun same => here (Option.some.inj same).symm
  cases call with
  | deleteSubscription clientID name =>
    simp only [detach] at held
    cases found : get d.durableSubs (durableKey clientID name) with
    | none =>
      rw [found] at held
      exact stays held (by simp [newcomer])
    | some sub =>
      rw [found] at held
      dsimp only at held
      cases before : kept cid with
      | some s' =>
        rw [before] at held
        exact stays (before.trans held) (by simp [newcomer])
      | none =>
        rw [before] at held
        dsimp only at held
        split at held
        · rename_i storage
          obtain ⟨c, object, works⟩ := Option.map_eq_some_iff.mp storage
          rcases ordered with ⟨_, none_⟩ | registry
          · rw [none_] at found
            cases found
          · exact ⟨topic_notQueue registry.topic, deleted_user_off registry found object works⟩
        · cases held
  | createDefaultConsumer id mode => exact joins id rfl held
  | createConsumer env id mode selector => exact joins id rfl held
  | createDurableConsumer env id mode clientID name selector => exact joins id rfl held
  | restart env => cases held
  | _ => exact stays held (by simp [newcomer])

theorem newName_other {cid : Nat} {c : Consumer} (object : get d.objects cid = some c)
    (new : NewName d call) : newcomer call ≠ some cid := by
  intro same
  cases call with
  | createDefaultConsumer id mode =>
    obtain rfl := Option.some.inj same
    rw [new.1] at object
    cases object
  | createConsumer env id mode selector =>
    obtain rfl := Option.some.inj same
    rw [new.1] at object
    cases object
  | createDurableConsumer env id mode clientID name selector =>
    obtain rfl := Option.some.inj same
    rw [new.1] at object
    cases object
  | _ => cases same

theorem ownStore_grows (unique : HeldOnce d) {cid : Nat} {c c' : Consumer}
    (object : get d.objects cid = some c) (now : get (next d call).objects cid = some c')
    (same : c'.storage = c.storage) (new : NewName d call) :
    keys (ownStore d kept cid c).log <+: keys (ownStore (next d call) (detach d kept call) cid c').log := by
  have other := newName_other object new
  have grown : ¬ Unsubscribes call → detach d kept call cid = kept cid →
      keys (ownStore d kept cid c).log <+:
        keys (ownStore (next d call) (detach d kept call) cid c').log := by
    intro stays unchanged
    unfold ownStore
    rw [unchanged, same]
    cases kept cid with
    | some s => exact List.prefix_refl _
    | none => exact (step_traced unique call).grown stays c.storage
  have joins : ∀ id, newcomer call = some id → Function.update kept id none cid = kept cid := by
    intro id created
    refine Function.update_of_ne ?_ _ _
    intro equal
    rw [equal] at other
    exact other created
  cases call with
  | deleteSubscription clientID name =>
    unfold ownStore
    simp only [detach, next, step]
    cases found : get d.durableSubs (durableKey clientID name) with
    | none =>
      rw [deleteSubscription_absent found, same]
    | some sub =>
      dsimp only
      cases before : kept cid with
      | some s => exact List.prefix_refl _
      | none =>
        dsimp only
        rw [(deleteSubscription_found d found).2, object, same]
        by_cases works : c.storage = sub.storage
        · rw [if_pos (by simp [works]), works]
          exact List.prefix_refl _
        · rw [if_neg (by simpa using works)]
          simp only [Option.getD_none, Function.update_of_ne works]
          exact List.prefix_refl _
  | createDefaultConsumer id mode => exact grown (by simp [Unsubscribes]) (joins id rfl)
  | createConsumer env id mode selector => exact grown (by simp [Unsubscribes]) (joins id rfl)
  | createDurableConsumer env id mode clientID name selector =>
    exact grown (by simp [Unsubscribes]) (joins id rfl)
  | restart env => simp [next, step, Destination.restart] at now
  | _ => exact grown (by simp [Unsubscribes]) rfl

end Storages

section Homes
variable {d : Destination} {kept : Detached} {call : Call}

theorem home_waits {q : QueueId} {p : Place} (place : Waits q p) :
    home d kept p = home d kept (.queued q) := by
  rcases place with rfl | rfl <;> cases q <;> rfl

theorem home_queue (wired : Wired d)
    (off : ∀ cid s, kept cid = some s → d.isQueueFamily = false ∧ cid ∉ d.consumers) {cid : Nat}
    {c : Consumer} (object : get d.objects cid = some c) :
    home d kept (.queued c.queue) = some (ownStore d kept cid c) := by
  rcases wired cid c object with ⟨family, queue, storage⟩ | ⟨_, queue⟩
  · have attached : kept cid = none := by
      cases held : kept cid with
      | none => rfl
      | some s =>
        have topic := (off cid s held).1
        rw [family] at topic
        cases topic
    rw [queue]
    simp [home, ownStore, attached, storage]
  · rw [queue]
    simp [home, object]

theorem shared_grows (unique : HeldOnce d) :
    keys (d.stores .shared).log <+: keys ((next d call).stores .shared).log := by
  by_cases leaves : Unsubscribes call
  · cases call with
    | deleteSubscription clientID name =>
      simp only [next, step]
      cases found : get d.durableSubs (durableKey clientID name) with
      | none =>
        rw [deleteSubscription_absent found]
      | some sub =>
        rw [(deleteSubscription_found d found).2, Function.update_of_ne (by simp [DurableSubState.storage])]
    | _ => exact leaves.elim
  · exact (step_traced unique call).grown leaves .shared

theorem own_home_grows (unique : HeldOnce d) (new : NewName d call) {cid : Nat} {c : Consumer}
    (object : get d.objects cid = some c) {s : Store Content}
    (now : (get (next d call).objects cid).map (ownStore (next d call) (detach d kept call) cid) =
      some s) : keys (ownStore d kept cid c).log <+: keys s.log := by
  obtain ⟨c', object', rfl⟩ := Option.map_eq_some_iff.mp now
  have storage : c'.storage = c.storage := by
    rcases step_joined d call cid c' object' with ⟨c₀, before, same⟩ | joins
    · rw [object, Option.some.injEq] at before
      subst before
      simp only [settings, Prod.mk.injEq] at same
      exact same.2.2.1.symm
    · refine absurd ?_ (newName_other object new)
      cases call with
      | createDefaultConsumer id mode => exact congrArg some joins.1.symm
      | createConsumer env id mode selector => exact congrArg some joins.1.symm
      | createDurableConsumer env id mode clientID name selector =>
        exact congrArg some joins.1.symm
      | _ => exact joins.elim
  exact ownStore_grows unique object object' storage new

theorem queue_home_grows (unique : HeldOnce d) (wired : Wired d)
    (off : ∀ cid s, kept cid = some s → d.isQueueFamily = false ∧ cid ∉ d.consumers)
    (new : NewName d call) {cid : Nat} {c : Consumer} (object : get d.objects cid = some c)
    {p : Place} (place : Waits c.queue p) {s : Store Content}
    (now : home (next d call) (detach d kept call) p = some s) :
    keys (ownStore d kept cid c).log <+: keys s.log := by
  rw [home_waits place] at now
  have before := home_queue wired off object
  rcases wired cid c object with ⟨_, queue, _⟩ | ⟨_, queue⟩
  · rw [queue] at now before
    simp only [home, Option.some.injEq] at now before
    rw [← now, ← before]
    exact shared_grows unique
  · rw [queue] at now
    exact own_home_grows unique new object now

theorem home_grows (unique : HeldOnce d) (new : NewName d call) {p : Place} {m : Message}
    (inside : m ∈ messagesAt d p) {s : Store Content}
    (now : home (next d call) (detach d kept call) p = some s) :
    ∃ s₀, home d kept p = some s₀ ∧ keys s₀.log <+: keys s.log := by
  have own : ∀ cid, (Waits (.own cid) p ∨ p = .inFlight cid ∨ p = .received cid) →
      (get (next d call).objects cid).map (ownStore (next d call) (detach d kept call) cid) = some s →
      ∃ c, get d.objects cid = some c ∧ keys (ownStore d kept cid c).log <+: keys s.log := by
    intro cid place now
    obtain ⟨c', object', _⟩ := Option.map_eq_some_iff.mp now
    rcases step_joined d call cid c' object' with ⟨c, before, _⟩ | joins
    · exact ⟨c, before, own_home_grows unique new before now⟩
    · have empty : messagesAt d p = [] := by
        have unnamed : get d.objects cid = none ∧ ∀ p, Waits (.own cid) p → messagesAt d p = [] := by
          cases call with
          | createDefaultConsumer id mode => exact joins.1 ▸ new
          | createConsumer env id mode selector => exact joins.1 ▸ new
          | createDurableConsumer env id mode clientID name selector => exact joins.1 ▸ new
          | _ => exact joins.elim
        rcases place with waits | rfl | rfl
        · exact unnamed.2 p waits
        · simp [messagesAt, chainOf, unnamed.1]
        · simp [messagesAt, receivedBy, unnamed.1]
      rw [empty] at inside
      cases inside
  have shared : ∀ s', home (next d call) (detach d kept call) (.queued .shared) = some s' →
      keys (d.stores .shared).log <+: keys s'.log := by
    intro s' now
    simp only [home, Option.some.injEq] at now
    rw [← now]
    exact shared_grows unique
  cases p with
  | queued q =>
    cases q with
    | shared => exact ⟨_, rfl, shared s now⟩
    | own cid =>
      obtain ⟨c, object, longer⟩ := own cid (Or.inl (Or.inl rfl)) now
      exact ⟨_, by simp [home, object], longer⟩
  | scheduled q =>
    cases q with
    | shared => exact ⟨_, rfl, shared s now⟩
    | own cid =>
      obtain ⟨c, object, longer⟩ := own cid (Or.inl (Or.inr rfl)) now
      exact ⟨_, by simp [home, object], longer⟩
  | inFlight cid =>
    obtain ⟨c, object, longer⟩ := own cid (Or.inr (Or.inl rfl)) now
    exact ⟨_, by simp [home, object], longer⟩
  | received cid =>
    obtain ⟨c, object, longer⟩ := own cid (Or.inr (Or.inr rfl)) now
    exact ⟨_, by simp [home, object], longer⟩
  | staged pid => cases now

end Homes

section Step
variable {d e : Destination} {kept : Detached} {call : Call} {p : Place} {x m : Message}

theorem cached_faithful (cached : Cached m) : Faithful m := by
  intro persistent content bytes
  obtain ⟨t, same⟩ := cached persistent
  rw [same, Option.some.injEq] at bytes
  rw [← bytes]
  rfl

theorem retimed_faithful (retimed : Retimed x m) (faithful : Faithful x) : Faithful m := by
  intro persistent content bytes
  rw [retimed.persistent] at persistent
  rw [retimed.uuid]
  rcases retimed.cached with same | ⟨t, changed⟩
  · exact faithful persistent content (same ▸ bytes)
  · rw [changed, Option.map_eq_some_iff] at bytes
    obtain ⟨old, found, rfl⟩ := bytes
    exact faithful persistent old found

theorem opened_faithful {q : QueueId} (opened : Opened x m) (readable : Readable (.queued q) x)
    (faithful : Faithful x) :
    Faithful m ∧ (m.isPersistent = true → x.isPersistent = true ∧ m.uuid = x.uuid) := by
  cases persistent : x.isPersistent with
  | false =>
    have same := opened.volatile persistent
    subst same
    exact ⟨faithful, fun contrary => by rw [persistent] at contrary; cases contrary⟩
  | true =>
    obtain ⟨content, bytes⟩ := readable persistent
    have read := opened.read persistent content bytes
    refine ⟨?_, fun _ => ⟨rfl, ?_⟩⟩
    · intro _ content' cached
      rw [read] at cached
      cases cached
    · have own := faithful persistent content bytes
      rw [read]
      exact own

theorem again_same (again : Again x m) : m.isPersistent = x.isPersistent ∧ m.uuid = x.uuid := by
  obtain ⟨t, content⟩ := again.content
  constructor
  · unfold Message.isPersistent
    rw [content]
    rfl
  · unfold Message.uuid
    rw [content]
    rfl

theorem origin_faithful (tracked : Tracked (Settled d kept) d []) (labelled : Labelled d)
    (origin : Origin d call e p m) : Faithful m := by
  cases origin with
  | kept here => exact (tracked.origin p m here).faithful
  | @replayed q sid _ _ env oid x asked record place shell new =>
    refine retimed_faithful shell (shell_faithful env oid ?_ x.2)
    unfold Store.scan at record
    split at record
    · exact (labelled.stores sid).named x.1 (List.mem_of_getElem? (mem_liveRecords record).1)
    · cases record
  | pushed sends target object takes place copy located new => exact cached_faithful copy.cached
  | staged sends transaction copy location new => exact cached_faithful copy.cached
  | delivered commit target object was place retimed oid =>
    exact retimed_faithful retimed (tracked.origin _ _ was).faithful
  | received recv object was opened place =>
    exact (opened_faithful opened (tracked.origin _ _ was).readable
      (tracked.origin _ _ was).faithful).1
  | redelivered gives object transacted was within again place => exact cached_faithful again.cached
  | due fires was => exact (tracked.origin _ _ was).faithful
  | deadLettered accepts_ made place copy located new => exact cached_faithful copy.cached

theorem origin_unstaged {pid : Nat} (tracked : Tracked (Settled d kept) d [])
    (carried : NoneCarried d call) (origin : Origin d call e (.staged pid) m)
    (persistent : m.isPersistent = true) : m.location = none := by
  cases origin with
  | kept here => exact (tracked.origin _ m here).staged pid rfl persistent
  | replayed asked record place shell new => rcases place with same | same <;> cases same
  | pushed sends target object takes place copy located new =>
    rcases place with same | same <;> cases same
  | @staged sent _ t _ sends transaction copy location new =>
    rw [location persistent]
    exact carried sent pid t sends transaction (copy.persistent ▸ persistent)
  | delivered commit target object was place retimed oid => rcases place with same | same <;> cases same
  | received recv object was opened place => rcases place with same | same <;> cases same
  | redelivered gives object transacted was within again place =>
    rcases place with same | same <;> cases same
  | deadLettered accepts_ made place copy located new => rcases place with same | same <;> cases same

theorem sends_quiet (kept : Detached) {sent : Message} {pid : Nat} {t : Text}
    (sends : Sends d sent pid t call) :
    call.registers = false ∧ detach d kept call = kept := by
  cases call with
  | send env id t' m' => exact ⟨rfl, rfl⟩
  | sendWith env id t' m' opts => exact ⟨rfl, rfl⟩
  | _ => exact sends.elim

theorem pushed_home (right : Right (d, kept)) {sent : Message} {pid : Nat} {t : Text}
    (sends : Sends d sent pid t call) {cid : Nat} (target : cid ∈ d.targets) {c : Consumer}
    (object : get d.objects cid = some c) (place : Waits c.queue p) {s : Store Content}
    (now : home (next d call) (detach d kept call) p = some s) :
    s = (next d call).stores c.storage := by
  obtain ⟨quiet, same⟩ := sends_quiet kept sends
  have member : cid ∈ d.consumers := by
    unfold Destination.targets at target
    split at target
    · exact List.mem_of_mem_take target
    · exact target
  have attached : kept cid = none := by
    cases held : kept cid with
    | none => rfl
    | some s => exact absurd member (right.off cid s held).2
  obtain ⟨c', object', alike⟩ := (step_steady d quiet).found object
  simp only [settings, Prod.mk.injEq] at alike
  obtain ⟨_, queue, storage, _⟩ := alike
  rw [home_waits place] at now
  rcases right.wired cid c object with ⟨_, shared, records⟩ | ⟨_, own⟩
  · rw [shared] at now
    rw [records]
    exact (Option.some.inj now).symm
  · rw [own] at now
    simp only [home, object', Option.map_some, Option.some.injEq] at now
    rw [← now, same, ownStore, attached, storage]
    rfl

theorem record_located {sid : StorageId} {env : Env} {oid : Nat} {x : Entry UUID Content × Nat}
    (record : x ∈ (d.stores sid).scan)
    (shell : Retimed (shellOf env oid x.1.key x.1.data x.2) m) : LocatedIn (d.stores sid) m := by
  unfold Store.scan at record
  split at record
  · have placed := (mem_liveRecords record).1
    refine shell.located ?_
    intro _ n at_
    have here : x.2 = n := Option.some.inj at_
    subst here
    simp [keys, placed, shellOf, Message.uuid]
  · cases record

theorem replayed_located (right : Right (d, kept)) (new : NewName d call) {q : QueueId}
    {sid : StorageId} (asked : Replays d q sid call) {x : Entry UUID Content × Nat}
    (record : x ∈ (d.stores sid).scan) (place : Waits q p) {env : Env} {oid : Nat}
    (shell : Retimed (shellOf env oid x.1.key x.1.data x.2) m) {s : Store Content}
    (now : home (next d call) (detach d kept call) p = some s) : LocatedIn s m := by
  have unique : HeldOnce d := right.tracked.mono fun _ _ _ _ => trivial
  have located := record_located record shell
  rw [home_waits place] at now
  cases call with
  | createConsumer env' id mode selector =>
    obtain ⟨_, _, rfl, rfl⟩ := asked
    simp only [home, Option.some.injEq] at now
    rw [← now]
    exact located.longer (shared_grows unique)
  | createDurableConsumer env' id mode clientID name selector =>
    obtain ⟨rfl, storage⟩ := asked
    obtain ⟨c', object', rfl⟩ := Option.map_eq_some_iff.mp now
    rcases step_joined d _ id c' object' with ⟨c, before, _⟩ | ⟨_, _, same⟩
    · rw [new.1] at before
      cases before
    · simp only [settings, Prod.mk.injEq] at same
      have store : ownStore (next d (.createDurableConsumer env' id mode clientID name selector))
          (detach d kept (.createDurableConsumer env' id mode clientID name selector)) id c' =
          (next d (.createDurableConsumer env' id mode clientID name selector)).stores sid := by
        simp [ownStore, detach, same.2.2.1, storage]
      rw [store]
      exact located.grows ((step_traced unique _).grown (by simp [Unsubscribes]))
  | _ => exact asked.elim

theorem origin_located (right : Right (d, kept)) (new : NewName d call)
    (origin : Origin d call (next d call) p m) {s : Store Content}
    (now : home (next d call) (detach d kept call) p = some s) : LocatedIn s m := by
  have unique : HeldOnce d := right.tracked.mono fun _ _ _ _ => trivial
  cases origin with
  | kept here =>
    obtain ⟨s₀, before, longer⟩ := home_grows unique new here now
    exact ((right.tracked.origin p m here).located s₀ before).longer longer
  | @replayed q sid _ _ env oid x asked record place shell fresh =>
    exact replayed_located right new asked record place shell now
  | @pushed sent pid cid c _ _ sends target object takes place copy located fresh =>
    rw [pushed_home right sends target object place now]
    exact located
  | staged sends transaction copy location fresh => cases now
  | delivered commit target object was place retimed oid =>
    intro persistent n at_
    have nowhere := (right.tracked.origin _ _ was).staged _ rfl (retimed.persistent ▸ persistent)
    rw [retimed.location, nowhere] at at_
    cases at_
  | @received env cid patience c x _ _ recv object was opened place =>
    have settled := right.tracked.origin _ x was
    have before := settled.located _ (home_queue right.wired right.off object)
    have longer : keys (ownStore d kept cid c).log <+: keys s.log := by
      rcases place with rfl | rfl <;> exact own_home_grows unique new object now
    intro persistent n at_
    obtain ⟨_, same⟩ := opened_faithful opened settled.readable settled.faithful
    obtain ⟨persistent', uuid⟩ := same persistent
    rw [uuid]
    rw [opened.location] at at_
    exact before.longer longer persistent' n at_
  | @redelivered cid c p₀ x _ _ gives object transacted was within again place =>
    have settled := right.tracked.origin p₀ x was
    have before : LocatedIn (ownStore d kept cid c) x := by
      refine settled.located _ ?_
      rcases givesBack_place gives with rfl | rfl <;> simp [home, object]
    have longer := queue_home_grows unique right.wired right.off new object place now
    obtain ⟨persistent', uuid⟩ := again_same again
    intro persistent n at_
    rw [persistent'] at persistent
    rw [again.location] at at_
    rw [uuid]
    exact before.longer longer persistent n at_
  | @due env q _ fires was =>
    have same : home (next d call) (detach d kept call) (.scheduled q) = some s := by
      rw [home_waits (Or.inr rfl)]
      exact now
    obtain ⟨s₀, before, longer⟩ := home_grows unique new was same
    exact ((right.tracked.origin _ m was).located s₀ before).longer longer
  | deadLettered accepts_ made place copy located fresh =>
    rw [home_waits place] at now
    simp only [home, Option.some.injEq] at now
    rw [← now]
    exact located

end Step

/-- Names are new, and no transacted send brings a location along. -/
def Uncarried (s : Destination × Detached) (call : Call) : Prop :=
  (Possible s.1 call ∧ NewName s.1 call) ∧ NoneCarried s.1 call

theorem step_right (s : Destination × Detached) (call : Call) (right : Right s)
    (meets : Uncarried s call) : Right (nextHeld s call) := by
  obtain ⟨d, kept⟩ := s
  obtain ⟨⟨possible, new⟩, carried⟩ := meets
  have unique : HeldOnce d := right.tracked.mono fun _ _ _ _ => trivial
  have readable : Tracked Readable d [] := right.tracked.mono fun _ _ _ settled => settled.readable
  refine ⟨?_, step_labelled right.labelled call, step_wired d call right.wired,
    step_ordered d call right.ordered possible, step_off right.ordered right.off⟩
  refine (step_origin unique call).mono ?_
  intro p m _ origin
  refine ⟨origin_readable readable origin, origin_faithful right.tracked right.labelled origin,
    fun s now => origin_located right new origin now, ?_⟩
  rintro pid rfl persistent
  exact origin_unstaged right.tracked carried origin persistent

theorem Right.locations {s : Destination × Detached} (right : Right s) : LocationsRight s := by
  intro cid c object p place m inside
  refine (right.tracked.origin p m inside).located _ ?_
  rcases place with rfl | rfl | rfl
  · exact home_queue right.wired right.off object
  · simp [home, object]
  · simp [home, object]

theorem unused_right {start : Destination} (unused : Unused start) :
    Right (start, fun _ => none) := by
  refine ⟨unused.idle.tracked _, unused.labelled, ?_, ?_, ?_⟩
  · intro cid c object
    rw [unused.objects] at object
    cases object
  · rcases queue_or_topic start with queue | topic
    · exact Or.inl ⟨queue, unused.subs⟩
    · have begun : Begun start := ⟨topic, unused.consumers, unused.subs, unused.names⟩
      exact Or.inr begun.registry
  · intro cid s held
    cases held

theorem new_unused (type : DestinationType) : Unused { type := type } where
  idle := by
    intro p
    cases p <;> simp [messagesAt, chainOf, receivedBy, stagedBy]
  objects := rfl
  consumers := rfl
  subs := rfl
  names := rfl
  labelled := by
    refine ⟨fun _ => sound_empty _, ?_⟩
    intro u content found
    cases found

end TinyMqCachedLocations
