import TinyMq.Lib.Machines
import TinyMq.Broker.QueueRuns

/-!
The durable subscriptions of a topic. The registry of the subscriptions, the
reverse map from consumers to subscription keys and the consumers themselves say
the same: a subscription is online exactly when one registered consumer works on
its storage with its selector.
-/
namespace TinyMqDurableRegistry
open DelimitedText AssocLists Machines TinyMqTom TinyMqMessage TinyMqStore TinyMqDestination
open TinyMqFrames TinyMqQueueRuns

/-- Consumers get new names, a consumer in the map is not destroyed, and no new
    subscription takes the directory of another one. -/
def Possible (d : Destination) : Call → Prop
  | .createDefaultConsumer id _ | .createConsumer _ id _ _ => id ∉ d.consumers
  | .createDurableConsumer _ id _ clientID name _ => id ∉ d.consumers ∧
      ∀ k sub, get d.durableSubs k = some sub →
        sub.directory = durableDirectory clientID name → k = durableKey clientID name
  | .destroyConsumer _ id => id ∉ d.consumers
  | _ => True

/-- A consumer works on the topic's storage or on that of the subscription it is active for. -/
def Attached (d : Destination) (cid : Nat) (c : Consumer) : Prop :=
  c.storage = .shared ∨
    ∃ k sub, get d.durableSubs k = some sub ∧ sub.active = some cid ∧ c.storage = sub.storage

structure Registry (d : Destination) : Prop where
  topic : d.isTopicFamily = true
  distinct : d.consumers.Nodup
  attached : ∀ cid ∈ d.consumers, ∃ c, get d.objects cid = some c ∧ Attached d cid c
  keys : (d.durableSubs.map Prod.fst).Nodup
  apart : ∀ k k' sub sub', get d.durableSubs k = some sub → get d.durableSubs k' = some sub' →
    sub.directory = sub'.directory → k = k'
  named : ∀ id k, get d.consumerToSubName id = some k →
    ∃ sub, get d.durableSubs k = some sub ∧ sub.active = some id
  online : ∀ k sub id, get d.durableSubs k = some sub → sub.active = some id →
    id ∈ d.consumers ∧ get d.consumerToSubName id = some k ∧
      ∃ c, get d.objects id = some c ∧ c.storage = sub.storage ∧ c.selector = sub.selector

/-- A topic as a new process finds it, whatever its directories hold. -/
structure Begun (d : Destination) : Prop where
  topic : d.isTopicFamily = true
  consumers : d.consumers = []
  subs : d.durableSubs = []
  names : d.consumerToSubName = []

theorem Begun.registry {d : Destination} (begun : Begun d) : Registry d where
  topic := begun.topic
  distinct := by
    rw [begun.consumers]
    exact List.nodup_nil
  attached := by
    intro cid member
    rw [begun.consumers] at member
    cases member
  keys := by
    rw [begun.subs]
    exact List.nodup_nil
  apart := by
    intro k k' sub sub' found
    rw [begun.subs] at found
    cases found
  named := by
    intro id k found
    rw [begun.names] at found
    cases found
  online := by
    intro k sub id found
    rw [begun.subs] at found
    cases found

section Keeps
variable {d d' : Destination}

theorem Registry.steady (reg : Registry d) (steady : Steady d d') : Registry d' where
  topic := by
    rw [← reg.topic]
    unfold Destination.isTopicFamily
    rw [steady.type]
  distinct := by
    rw [steady.consumers]
    exact reg.distinct
  attached := by
    intro cid member
    rw [steady.consumers] at member
    obtain ⟨c, object, works⟩ := reg.attached cid member
    obtain ⟨c', object', same⟩ := steady.found object
    simp only [settings, Prod.mk.injEq] at same
    refine ⟨c', object', ?_⟩
    unfold Attached at works ⊢
    rw [same.2.2.1, steady.subs]
    exact works
  keys := by
    rw [steady.subs]
    exact reg.keys
  apart := by
    rw [steady.subs]
    exact reg.apart
  named := by
    rw [steady.subs, steady.names]
    exact reg.named
  online := by
    intro k sub id found active
    rw [steady.subs] at found
    obtain ⟨member, name, c, object, storage, selector⟩ := reg.online k sub id found active
    obtain ⟨c', object', same⟩ := steady.found object
    simp only [settings, Prod.mk.injEq] at same
    rw [steady.consumers, steady.names]
    exact ⟨member, name, c', object', same.2.2.1.trans storage, same.2.2.2.trans selector⟩

theorem Registry.join (reg : Registry d) {id : Nat} (new : id ∉ d.consumers) {c : Consumer}
    (shared : c.storage = .shared) :
    Registry { d.setObject id c with consumers := d.consumers ++ [id] } where
  topic := reg.topic
  distinct := by
    refine List.Nodup.append reg.distinct (List.nodup_singleton id) ?_
    rw [List.disjoint_singleton]
    exact new
  attached := by
    intro cid member
    by_cases here : cid = id
    · refine ⟨c, ?_, Or.inl shared⟩
      simp [here, Destination.setObject]
    · have before : cid ∈ d.consumers := by simpa [here] using member
      obtain ⟨c', object, works⟩ := reg.attached cid before
      refine ⟨c', ?_, works⟩
      simp only [Destination.setObject, get_put_other d.objects c here]
      exact object
  keys := reg.keys
  apart := reg.apart
  named := reg.named
  online := by
    intro k sub cid found active
    obtain ⟨member, name, c', object, rest⟩ := reg.online k sub cid found active
    have other : cid ≠ id := fun same => new (same ▸ member)
    refine ⟨List.mem_append_left _ member, name, c', ?_, rest⟩
    simp only [Destination.setObject, get_put_other d.objects c other]
    exact object

theorem active_elsewhere {subs : Assoc Text DurableSubState} {key k : Text} {old : DurableSubState}
    {cid : Nat} (idle : ∀ old, get subs key = some old → old.active = none)
    (found : get subs k = some old) (active : old.active = some cid) : k ≠ key := by
  intro same
  rw [idle old (same ▸ found)] at active
  cases active

theorem Registry.attach (reg : Registry d) {id : Nat} (new : id ∉ d.consumers) {key : Text}
    {sub : DurableSubState} (idle : ∀ old, get d.durableSubs key = some old → old.active = none)
    (alone : ∀ k old, get d.durableSubs k = some old → old.directory = sub.directory → k = key)
    {c : Consumer} (storage : c.storage = sub.storage) :
    Registry { d.setObject id c with
      consumers := d.consumers ++ [id],
      durableSubs := put d.durableSubs key { sub with selector := c.selector, active := some id },
      consumerToSubName := put d.consumerToSubName id key } where
  topic := reg.topic
  distinct := by
    refine List.Nodup.append reg.distinct (List.nodup_singleton id) ?_
    rw [List.disjoint_singleton]
    exact new
  attached := by
    intro cid member
    by_cases here : cid = id
    · refine ⟨c, by simp [here, Destination.setObject], Or.inr ⟨key, _, get_put_same _ _ _, ?_, storage⟩⟩
      rw [here]
    · have before : cid ∈ d.consumers := by simpa [here] using member
      obtain ⟨c', object, works⟩ := reg.attached cid before
      refine ⟨c', ?_, ?_⟩
      · simp only [Destination.setObject, get_put_other d.objects c here]
        exact object
      · refine works.imp_right ?_
        intro own
        obtain ⟨k, old, found, active, rest⟩ := own
        have other := active_elsewhere idle found active
        exact ⟨k, old, by rw [get_put_other _ _ other]; exact found, active, rest⟩
  keys := nodup_put reg.keys key _
  apart := by
    intro k k' old old' found found' same
    by_cases here : k = key
    · by_cases there : k' = key
      · rw [here, there]
      · rw [here, get_put_same, Option.some.injEq] at found
        rw [get_put_other _ _ there] at found'
        rw [← found] at same
        exact here.trans (alone k' old' found' same.symm).symm
    · rw [get_put_other _ _ here] at found
      by_cases there : k' = key
      · rw [there, get_put_same, Option.some.injEq] at found'
        rw [← found'] at same
        exact (alone k old found same).trans there.symm
      · rw [get_put_other _ _ there] at found'
        exact reg.apart k k' old old' found found' same
  named := by
    intro cid k name
    by_cases here : cid = id
    · rw [here, get_put_same, Option.some.injEq] at name
      rw [← name, here]
      exact ⟨_, get_put_same _ _ _, rfl⟩
    · rw [get_put_other _ _ here] at name
      obtain ⟨old, found, active⟩ := reg.named cid k name
      have other := active_elsewhere idle found active
      exact ⟨old, by rw [get_put_other _ _ other]; exact found, active⟩
  online := by
    intro k old cid found active
    by_cases here : k = key
    · rw [here, get_put_same, Option.some.injEq] at found
      rw [← found, Option.some.injEq] at active
      rw [← active, ← found, here]
      exact ⟨by simp, get_put_same _ _ _, c, by simp [Destination.setObject], storage, rfl⟩
    · rw [get_put_other _ _ here] at found
      obtain ⟨member, name, c', object, rest⟩ := reg.online k old cid found active
      have other : cid ≠ id := fun same => new (same ▸ member)
      refine ⟨List.mem_append_left _ member, ?_, c', ?_, rest⟩
      · rw [get_put_other _ _ other]
        exact name
      · simp only [Destination.setObject, get_put_other d.objects c other]
        exact object

theorem Registry.leave (reg : Registry d) {id : Nat} (unnamed : get d.consumerToSubName id = none) :
    Registry { d with consumers := d.consumers.erase id } where
  topic := reg.topic
  distinct := reg.distinct.erase id
  attached := fun cid member => reg.attached cid (List.mem_of_mem_erase member)
  keys := reg.keys
  apart := reg.apart
  named := reg.named
  online := by
    intro k sub cid found active
    obtain ⟨member, name, rest⟩ := reg.online k sub cid found active
    have other : cid ≠ id := by
      intro same
      rw [same, unnamed] at name
      cases name
    exact ⟨(List.mem_erase_of_ne other).mpr member, name, rest⟩

theorem directory_kept {subs : Assoc Text DurableSubState} {key : Text} {sub : DurableSubState}
    (found : get subs key = some sub) {k : Text} {old : DurableSubState}
    (here : get (put subs key { sub with active := none }) k = some old) :
    ∃ old', get subs k = some old' ∧ old'.directory = old.directory := by
  by_cases same : k = key
  · rw [same, get_put_same, Option.some.injEq] at here
    rw [← here, same]
    exact ⟨sub, found, rfl⟩
  · rw [get_put_other _ _ same] at here
    exact ⟨old, here, rfl⟩

theorem Registry.detach (reg : Registry d) {id : Nat} {key : Text} {sub : DurableSubState}
    (name : get d.consumerToSubName id = some key) (found : get d.durableSubs key = some sub)
    (active : sub.active = some id) :
    Registry { d with consumers := d.consumers.erase id,
                      durableSubs := put d.durableSubs key { sub with active := none },
                      consumerToSubName := erase d.consumerToSubName id } := by
  -- Only this subscription was active for the consumer that goes.
  have kept : ∀ k old cid, get d.durableSubs k = some old → old.active = some cid → cid ≠ id →
      get (put d.durableSubs key { sub with active := none }) k = some old := by
    intro k old cid here works other
    have elsewhere : k ≠ key := by
      intro same
      rw [same, found, Option.some.injEq] at here
      rw [← here, active, Option.some.injEq] at works
      exact other works.symm
    rw [get_put_other _ _ elsewhere]
    exact here
  refine
    { topic := reg.topic
      distinct := reg.distinct.erase id
      attached := ?attached
      keys := nodup_put reg.keys key _
      apart := ?apart
      named := ?named
      online := ?online }
  case attached =>
    intro cid member
    obtain ⟨other, before⟩ := (List.Nodup.mem_erase_iff reg.distinct).mp member
    obtain ⟨c, object, works⟩ := reg.attached cid before
    refine ⟨c, object, works.imp_right ?_⟩
    intro own
    obtain ⟨k, old, here, mine, rest⟩ := own
    exact ⟨k, old, kept k old cid here mine other, mine, rest⟩
  case apart =>
    intro k k' old old' here there same
    obtain ⟨one, oneAt, oneIn⟩ := directory_kept found here
    obtain ⟨two, twoAt, twoIn⟩ := directory_kept found there
    exact reg.apart k k' one two oneAt twoAt (by rw [oneIn, twoIn, same])
  case named =>
    intro cid k here
    by_cases gone : cid = id
    · rw [gone, get_erase_same] at here
      cases here
    · rw [get_erase_other _ gone] at here
      obtain ⟨old, at_, mine⟩ := reg.named cid k here
      exact ⟨old, kept k old cid at_ mine gone, mine⟩
  case online =>
    intro k old cid here mine
    have elsewhere : k ≠ key := by
      intro same
      rw [same, get_put_same, Option.some.injEq] at here
      rw [← here] at mine
      cases mine
    rw [get_put_other _ _ elsewhere] at here
    obtain ⟨member, named, rest⟩ := reg.online k old cid here mine
    have other : cid ≠ id := by
      intro same
      rw [same, name, Option.some.injEq] at named
      exact elsewhere named.symm
    exact ⟨(List.mem_erase_of_ne other).mpr member, by rw [get_erase_other _ other]; exact named, rest⟩

theorem Registry.delete (reg : Registry d) (id : Nat) : Registry (d.deleteConsumer id) := by
  unfold Destination.deleteConsumer
  dsimp only
  split
  · rename_i unnamed
    exact reg.leave unnamed
  · rename_i key name
    obtain ⟨sub, found, active⟩ := reg.named id key name
    rw [found]
    exact reg.detach name found active

theorem Registry.forget (reg : Registry d) {key : Text} {stores : StorageId → Store Content}
    (idle : ∀ old, get d.durableSubs key = some old → old.active = none) :
    Registry { d with stores := stores, durableSubs := erase d.durableSubs key } := by
  have kept : ∀ k old cid, get d.durableSubs k = some old → old.active = some cid →
      get (erase d.durableSubs key) k = some old := by
    intro k old cid here active
    rw [get_erase_other _ (active_elsewhere idle here active)]
    exact here
  have before : ∀ k old, get (erase d.durableSubs key) k = some old →
      get d.durableSubs k = some old := by
    intro k old here
    have other : k ≠ key := by
      intro same
      rw [same, get_erase_same] at here
      cases here
    rw [get_erase_other _ other] at here
    exact here
  refine
    { topic := reg.topic
      distinct := reg.distinct
      attached := ?attached
      keys := nodup_erase reg.keys key
      apart := ?apart
      named := ?named
      online := ?online }
  case attached =>
    intro cid member
    obtain ⟨c, object, works⟩ := reg.attached cid member
    refine ⟨c, object, works.imp_right ?_⟩
    intro own
    obtain ⟨k, old, here, mine, rest⟩ := own
    exact ⟨k, old, kept k old cid here mine, mine, rest⟩
  case apart =>
    intro k k' old old' here there same
    exact reg.apart k k' old old' (before k old here) (before k' old' there) same
  case named =>
    intro cid k name
    obtain ⟨old, here, mine⟩ := reg.named cid k name
    exact ⟨old, kept k old cid here mine, mine⟩
  case online =>
    intro k old cid here mine
    exact reg.online k old cid (before k old here) mine

theorem deleted_idle (reg : Registry d) {key : Text} {sub : DurableSubState} {id : Nat}
    (found : get d.durableSubs key = some sub) (active : sub.active = some id) :
    ∀ old, get (d.deleteConsumer id).durableSubs key = some old → old.active = none := by
  have name := (reg.online key sub id found active).2.1
  intro old here
  simp only [Destination.deleteConsumer, name, found, get_put_same, Option.some.injEq] at here
  rw [← here]

theorem Registry.deleteSubscription (reg : Registry d) (clientID name : Text) :
    Registry (d.deleteSubscription clientID name) := by
  unfold Destination.deleteSubscription
  dsimp only
  split
  · exact reg
  · rename_i sub found
    cases active : sub.active with
    | none =>
      dsimp only
      refine reg.forget ?_
      intro old here
      rw [found, Option.some.injEq] at here
      rw [← here, active]
    | some id =>
      dsimp only
      exact (reg.delete id).forget (deleted_idle reg found active)

theorem Registry.createDurable (reg : Registry d) (env : Env) {id : Nat} (mode : AcknowledgeMode)
    {clientID name : Text} (selector : Option Selector)
    (possible : Possible d (.createDurableConsumer env id mode clientID name selector)) :
    Registry (d.createDurableConsumer env id mode clientID name selector).1 := by
  obtain ⟨new, alone⟩ := possible
  have attach : ∀ sub : DurableSubState,
      (∀ old, get d.durableSubs (durableKey clientID name) = some old → old.active = none) →
      (∀ k old, get d.durableSubs k = some old → old.directory = sub.directory →
        k = durableKey clientID name) →
      Registry (d.attachDurable env id mode (durableKey clientID name) sub selector) := by
    intro sub idle alone
    let c : Consumer := ⟨mode,.own id,sub.storage,selector,[],.empty,[]⟩
    have replayed := replayFromStorage_same env (d.setObject id c) (.own id) sub.storage
    have joined := reg.attach new idle alone (c := c) rfl
    refine joined.steady (Same.steady ⟨?_, ?_, ?_, ?_, ?_⟩)
    · exact replayed.type
    · simp only [Destination.attachDurable]
      rw [show ((d.setObject id c).replayFromStorage env (.own id) sub.storage).consumers =
        d.consumers from replayed.consumers]
    · exact replayed.objects
    · simp only [Destination.attachDurable]
      rw [show ((d.setObject id c).replayFromStorage env (.own id) sub.storage).durableSubs =
        d.durableSubs from replayed.subs]
    · simp only [Destination.attachDurable]
      rw [show ((d.setObject id c).replayFromStorage env (.own id) sub.storage).consumerToSubName =
        d.consumerToSubName from replayed.names]
  unfold Destination.createDurableConsumer
  rw [if_neg (not_not.mpr reg.topic)]
  dsimp only
  split
  · rename_i absent
    refine attach _ ?_ alone
    intro old here
    rw [absent] at here
    cases here
  · rename_i sub found
    split
    · exact reg
    · rename_i inactive
      refine attach sub ?_ ?_
      · intro old here
        rw [found, Option.some.injEq] at here
        rw [← here]
        simpa using inactive
      · intro k old here same
        exact reg.apart k _ old sub here found same

theorem Registry.destroy (reg : Registry d) (env : Env) {id : Nat} (gone : id ∉ d.consumers) :
    Registry (d.destroyConsumer env id).1 := by
  unfold Destination.destroyConsumer
  split
  · exact reg
  · rename_i c object
    have steady := (flushPendingAcks_steady d id object (c := c) rfl).trans
      (rollbackConsumer_steady env _ id false)
    have kept := reg.steady steady
    have other : ∀ cid, cid ∈ ((d.flushPendingAcks id c).rollbackConsumer env id
        false).1.consumers → cid ≠ id := by
      intro cid member same
      rw [steady.consumers, same] at member
      exact gone member
    refine ⟨kept.topic, kept.distinct, ?_, kept.keys, kept.apart, kept.named, ?_⟩
    · intro cid member
      obtain ⟨c', found, works⟩ := kept.attached cid member
      exact ⟨c', by rw [get_erase_other _ (other cid member)]; exact found, works⟩
    · intro k sub cid here active
      obtain ⟨member, name, c', found, rest⟩ := kept.online k sub cid here active
      exact ⟨member, name, c', by rw [get_erase_other _ (other cid member)]; exact found, rest⟩

theorem Registry.rehash (reg : Registry d) (l : List Nat) : Registry (d.rehash l) := by
  unfold Destination.rehash
  split
  · rename_i perm
    refine ⟨reg.topic, perm.nodup_iff.mpr reg.distinct, ?_, reg.keys, reg.apart, reg.named, ?_⟩
    · exact fun cid member => reg.attached cid (perm.mem_iff.mp member)
    · intro k sub cid here active
      obtain ⟨member, rest⟩ := reg.online k sub cid here active
      exact ⟨perm.mem_iff.mpr member, rest⟩
  · exact reg

end Keeps

theorem step_registry (d : Destination) (call : Call) (reg : Registry d) (possible : Possible d call) :
    Registry (next d call) := by
  have notQueue := topic_notQueue reg.topic
  cases call with
  | createDefaultConsumer id mode =>
    have same : next d (.createDefaultConsumer id mode) = d := by
      simp [next, step, Destination.createDefaultConsumer, notQueue]
    rw [same]
    exact reg
  | createConsumer env id mode selector =>
    have shape : next d (.createConsumer env id mode selector) =
        { d.setObject id ⟨mode,.own id,.shared,selector,[],.empty,[]⟩ with
          consumers := d.consumers ++ [id] } := by
      simp only [next, step, Destination.createConsumer, notQueue]
      rfl
    rw [shape]
    exact reg.join possible rfl
  | createDurableConsumer env id mode clientID name selector =>
    exact reg.createDurable env mode selector possible
  | deleteConsumer id => exact reg.delete id
  | destroyConsumer env id => exact reg.destroy env possible
  | deleteSubscription clientID name => exact reg.deleteSubscription clientID name
  | rehash l => exact reg.rehash l
  | restart env =>
    have begun : Begun (d.restart env) := ⟨reg.topic, rfl, rfl, rfl⟩
    exact begun.registry
  | _ => exact reg.steady (step_steady d rfl)

theorem registry_along {d : Destination} (begun : Begun d) {calls : List Call}
    (possible : Meets next Possible d calls) : ∀ s ∈ states next d calls, Registry s :=
  invariant_along step_registry begun.registry possible

end TinyMqDurableRegistry
