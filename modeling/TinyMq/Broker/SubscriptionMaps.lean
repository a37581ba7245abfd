import TinyMq.Broker.DurableRegistry

/-!
The three maps that know which consumer a durable subscription is active for: the
registered consumers, the subscriptions and the names of their consumers. No call
lets them disagree, whatever ids are deleted a second time.
-/
namespace TinyMqSubscriptionMaps
open DelimitedText AssocLists Machines TinyMqTom TinyMqMessage TinyMqStore TinyMqDestination
open TinyMqFrames TinyMqQueueRuns TinyMqDurableRegistry

def Fresh (d : Destination) : Call → Prop
  | .createDefaultConsumer id _ | .createConsumer _ id _ _ => id ∉ d.consumers
  | .createDurableConsumer _ id _ _ _ _ => id ∉ d.consumers
  | _ => True

instance (d : Destination) (call : Call) : Decidable (Fresh d call) := by
  cases call <;> simp only [Fresh] <;> infer_instance

/-- What the three maps say about each other. -/
structure Consistent (d : Destination) : Prop where
  active : ∀ k sub id, get d.durableSubs k = some sub →
    (sub.active = some id ↔ id ∈ d.consumers ∧ get d.consumerToSubName id = some k)
  entry : ∀ id k, get d.consumerToSubName id = some k →
    id ∈ d.consumers ∧ ∃ sub, get d.durableSubs k = some sub ∧ sub.active = some id
  single : ∀ id id' k, get d.consumerToSubName id = some k →
    get d.consumerToSubName id' = some k → id = id'

/- Two inclusions are enough: what is active is registered under its name, and
   what has a name is active. -/
theorem consistent_of {d : Destination}
    (online : ∀ k sub id, get d.durableSubs k = some sub → sub.active = some id →
      id ∈ d.consumers ∧ get d.consumerToSubName id = some k)
    (named : ∀ id k, get d.consumerToSubName id = some k →
      ∃ sub, get d.durableSubs k = some sub ∧ sub.active = some id) : Consistent d where
  active := by
    intro k sub id found
    refine ⟨online k sub id found, ?_⟩
    intro both
    obtain ⟨sub', found', active⟩ := named id k both.2
    rw [found, Option.some.injEq] at found'
    rw [found']
    exact active
  entry := by
    intro id k name
    obtain ⟨sub, found, active⟩ := named id k name
    exact ⟨(online k sub id found active).1, sub, found, active⟩
  single := by
    intro id id' k name name'
    obtain ⟨sub, found, active⟩ := named id k name
    obtain ⟨sub', found', active'⟩ := named id' k name'
    rw [found, Option.some.injEq] at found'
    rw [← found', active, Option.some.injEq] at active'
    exact active'

theorem begun_consistent {d : Destination} (begun : Begun d) : Consistent d := by
  refine consistent_of ?_ ?_
  · intro k sub id found
    rw [begun.subs] at found
    cases found
  · intro id k name
    rw [begun.names] at name
    cases name

section Keeps
variable {d : Destination} (ok : Consistent d)
include ok

theorem Consistent.online {k : Text} {sub : DurableSubState} {id : Nat}
    (found : get d.durableSubs k = some sub) (active : sub.active = some id) :
    id ∈ d.consumers ∧ get d.consumerToSubName id = some k :=
  (ok.active k sub id found).mp active

theorem Consistent.same {d' : Destination} (consumers : ∀ id ∈ d.consumers, id ∈ d'.consumers)
    (subs : d'.durableSubs = d.durableSubs) (names : d'.consumerToSubName = d.consumerToSubName) :
    Consistent d' := by
  refine consistent_of ?_ ?_
  · intro k sub id found active
    rw [subs] at found
    obtain ⟨member, name⟩ := ok.online found active
    rw [names]
    exact ⟨consumers id member, name⟩
  · intro id k name
    rw [names] at name
    rw [subs]
    exact (ok.entry id k name).2

theorem Consistent.attach {id : Nat} (new : id ∉ d.consumers) {key : Text}
    (idle : ∀ old, get d.durableSubs key = some old → old.active = none) {d' : Destination}
    (sub : DurableSubState) (active : sub.active = some id)
    (consumers : d'.consumers = d.consumers ++ [id])
    (subs : d'.durableSubs = put d.durableSubs key sub)
    (names : d'.consumerToSubName = put d.consumerToSubName id key) : Consistent d' := by
  refine consistent_of ?_ ?_
  · intro k old cid found works
    rw [subs] at found
    rw [consumers, names]
    by_cases here : k = key
    · rw [here, get_put_same, Option.some.injEq] at found
      rw [← found, active, Option.some.injEq] at works
      rw [← works, here]
      exact ⟨by simp, get_put_same _ _ _⟩
    · rw [get_put_other _ _ here] at found
      obtain ⟨member, name⟩ := ok.online found works
      have other : cid ≠ id := fun same => new (same ▸ member)
      exact ⟨List.mem_append_left _ member, by rw [get_put_other _ _ other]; exact name⟩
  · intro cid k name
    rw [names] at name
    rw [subs]
    by_cases here : cid = id
    · rw [here, get_put_same, Option.some.injEq] at name
      rw [← name, here]
      exact ⟨sub, get_put_same _ _ _, active⟩
    · rw [get_put_other _ _ here] at name
      obtain ⟨_, old, found, works⟩ := ok.entry cid k name
      have other := active_elsewhere idle found works
      exact ⟨old, by rw [get_put_other _ _ other]; exact found, works⟩

/- A stale id has no name: nothing but the id leaves the map of the consumers. -/
theorem Consistent.delete (id : Nat) : Consistent (d.deleteConsumer id) := by
  unfold Destination.deleteConsumer
  dsimp only
  split
  · rename_i unnamed
    refine consistent_of ?_ fun cid k name => (ok.entry cid k name).2
    intro k sub cid found works
    obtain ⟨member, name⟩ := ok.online found works
    have other : cid ≠ id := by
      intro same
      rw [same, unnamed] at name
      cases name
    exact ⟨(List.mem_erase_of_ne other).mpr member, name⟩
  · rename_i key name
    obtain ⟨_, sub, found, works⟩ := ok.entry id key name
    rw [found]
    refine consistent_of ?_ ?_
    · intro k old cid here active
      have elsewhere : k ≠ key := by
        intro same
        rw [same, get_put_same, Option.some.injEq] at here
        rw [← here] at active
        cases active
      rw [get_put_other _ _ elsewhere] at here
      obtain ⟨member, named⟩ := ok.online here active
      have other : cid ≠ id := by
        intro same
        rw [same, name, Option.some.injEq] at named
        exact elsewhere named.symm
      exact ⟨(List.mem_erase_of_ne other).mpr member,
        by rw [get_erase_other _ other]; exact named⟩
    · intro cid k named
      have other : cid ≠ id := by
        intro same
        rw [same, get_erase_same] at named
        cases named
      rw [get_erase_other _ other] at named
      obtain ⟨_, old, here, active⟩ := ok.entry cid k named
      -- The subscription under the key was active for the consumer that goes.
      have elsewhere : k ≠ key := by
        intro same
        rw [same, found, Option.some.injEq] at here
        rw [← here, works, Option.some.injEq] at active
        exact other active.symm
      exact ⟨old, by rw [get_put_other _ _ elsewhere]; exact here, active⟩

theorem Consistent.deleted_idle {key : Text} {sub : DurableSubState} {id : Nat}
    (found : get d.durableSubs key = some sub) (active : sub.active = some id) :
    ∀ old, get (d.deleteConsumer id).durableSubs key = some old → old.active = none := by
  have name := (ok.online found active).2
  intro old here
  simp only [Destination.deleteConsumer, name, found, get_put_same, Option.some.injEq] at here
  rw [← here]

theorem Consistent.forget {key : Text} {stores : StorageId → Store Content}
    (idle : ∀ old, get d.durableSubs key = some old → old.active = none) :
    Consistent { d with stores := stores, durableSubs := erase d.durableSubs key } := by
  refine consistent_of ?_ ?_
  · intro k sub cid found works
    have other : k ≠ key := by
      intro same
      rw [same, get_erase_same] at found
      cases found
    rw [get_erase_other _ other] at found
    exact ok.online found works
  · intro cid k name
    obtain ⟨_, sub, found, works⟩ := ok.entry cid k name
    refine ⟨sub, ?_, works⟩
    rw [get_erase_other _ (active_elsewhere idle found works)]
    exact found

theorem Consistent.deleteSubscription (clientID name : Text) :
    Consistent (d.deleteSubscription clientID name) := by
  unfold Destination.deleteSubscription
  dsimp only
  split
  · exact ok
  · rename_i sub found
    cases active : sub.active with
    | none =>
      dsimp only
      refine ok.forget ?_
      intro old here
      rw [found, Option.some.injEq] at here
      rw [← here, active]
    | some id =>
      dsimp only
      exact (ok.delete id).forget (ok.deleted_idle found active)

theorem Consistent.createDurable (env : Env) {id : Nat} (new : id ∉ d.consumers)
    (mode : AcknowledgeMode) (clientID name : Text) (selector : Option Selector) :
    Consistent (d.createDurableConsumer env id mode clientID name selector).1 := by
  have attach : ∀ sub : DurableSubState,
      (∀ old, get d.durableSubs (durableKey clientID name) = some old → old.active = none) →
      Consistent (d.attachDurable env id mode (durableKey clientID name) sub selector) := by
    intro sub idle
    let c : Consumer := ⟨mode,.own id,sub.storage,selector,[],.empty,[]⟩
    have replayed := replayFromStorage_same env (d.setObject id c) (.own id) sub.storage
    refine ok.attach new idle { sub with selector := selector, active := some id } rfl
      ?_ ?_ ?_
    · exact congrArg (· ++ [id]) replayed.consumers
    · exact congrArg (put · _ _) replayed.subs
    · exact congrArg (put · id _) replayed.names
  unfold Destination.createDurableConsumer
  split
  · exact ok
  · dsimp only
    split
    · rename_i absent
      refine attach _ ?_
      intro old here
      rw [absent] at here
      cases here
    · rename_i sub found
      split
      · exact ok
      · rename_i inactive
        refine attach sub ?_
        intro old here
        rw [found, Option.some.injEq] at here
        rw [← here]
        simpa using inactive

theorem Consistent.destroy (env : Env) (id : Nat) : Consistent (d.destroyConsumer env id).1 := by
  unfold Destination.destroyConsumer
  split
  · exact ok
  · rename_i c object
    have steady := (flushPendingAcks_steady d id object (c := c) rfl).trans
      (rollbackConsumer_steady env _ id false)
    refine ok.same ?_ steady.subs steady.names
    intro cid member
    rw [show (({ ((d.flushPendingAcks id c).rollbackConsumer env id false).1 with
      objects := _ } : Destination).consumers) = d.consumers from steady.consumers]
    exact member

theorem Consistent.createConsumer (topic : d.isTopicFamily = true) (env : Env) (id : Nat)
    (mode : AcknowledgeMode) (selector : Option Selector) :
    Consistent (d.createConsumer env id mode selector) := by
  unfold Destination.createConsumer
  rw [topic_notQueue topic]
  exact ok.same (fun cid member => List.mem_append_left _ member) rfl rfl

end Keeps

theorem createDurableConsumer_refused (env : Env) (d : Destination) (id : Nat)
    (mode : AcknowledgeMode) (clientID name : Text) (selector : Option Selector) (e : DurableError)
    (refused : (d.createDurableConsumer env id mode clientID name selector).2 = .error e) :
    (d.createDurableConsumer env id mode clientID name selector).1 = d := by
  revert refused
  unfold Destination.createDurableConsumer
  split
  · exact fun _ => rfl
  · dsimp only
    split
    · intro ok
      cases ok
    · split
      · exact fun _ => rfl
      · intro ok
        cases ok

structure ConsistentTopic (d : Destination) : Prop where
  topic : d.isTopicFamily = true
  maps : Consistent d

theorem step_consistent (d : Destination) (call : Call) (ok : ConsistentTopic d)
    (fresh : Fresh d call) : ConsistentTopic (next d call) := by
  have type := step_type d call
  refine ⟨?_, ?_⟩
  · have topic := ok.topic
    unfold Destination.isTopicFamily at topic ⊢
    rw [type]
    exact topic
  have steady : ∀ {d'}, Steady d d' → Consistent d' := fun s =>
    ok.maps.same (fun id member => s.consumers ▸ member) s.subs s.names
  cases call with
  | createDefaultConsumer id mode =>
    have same : next d (.createDefaultConsumer id mode) = d := by
      simp [next, step, Destination.createDefaultConsumer, topic_notQueue ok.topic]
    rw [same]
    exact ok.maps
  | createConsumer env id mode selector => exact ok.maps.createConsumer ok.topic env id mode selector
  | createDurableConsumer env id mode clientID name selector =>
    exact ok.maps.createDurable env fresh mode clientID name selector
  | deleteConsumer id => exact ok.maps.delete id
  | destroyConsumer env id => exact ok.maps.destroy env id
  | deleteSubscription clientID name => exact ok.maps.deleteSubscription clientID name
  | rehash l =>
    show Consistent (d.rehash l)
    unfold Destination.rehash
    split
    · rename_i perm
      exact ok.maps.same (fun id member => perm.mem_iff.mpr member) rfl rfl
    · exact ok.maps
  | restart env => exact begun_consistent ⟨ok.topic, rfl, rfl, rfl⟩
  | _ => exact steady (step_steady d rfl)

/-- The maps agree in every state of a run, and a subscription that has its consumer
    keeps everything when another one asks for it. -/
theorem maps_agree {d : Destination} (begun : Begun d) {calls : List Call}
    (fresh : Meets next Fresh d calls) : ∀ s ∈ states next d calls, Consistent s ∧
      ∀ env id mode clientID name selector,
        (s.createDurableConsumer env id mode clientID name selector).2 = .error .alreadyActive →
        (s.createDurableConsumer env id mode clientID name selector).1 = s := by
  intro s member
  have start : ConsistentTopic d := ⟨begun.topic, begun_consistent begun⟩
  refine ⟨(invariant_along step_consistent start fresh s member).maps, ?_⟩
  intro env id mode clientID name selector
  exact createDurableConsumer_refused env s id mode clientID name selector .alreadyActive

def staleId : List Call :=
  [.createDurableConsumer calm 1 .AUTO_ACKNOWLEDGE ['c'] ['s'] none, .deleteSubscription ['c'] ['s'],
    .createDurableConsumer calm 2 .AUTO_ACKNOWLEDGE ['c'] ['s'] none, .deleteConsumer 1,
    .createDurableConsumer calm 3 .AUTO_ACKNOWLEDGE ['c'] ['s'] none]

theorem staleId_agrees : (staleId.foldl next { type := .Topic }).consumerToSubName =
      [(2, durableKey ['c'] ['s'])] ∧
    ∀ s ∈ states next { type := .Topic } staleId, Consistent s ∧
      ∀ env id mode clientID name selector,
        (s.createDurableConsumer env id mode clientID name selector).2 = .error .alreadyActive →
        (s.createDurableConsumer env id mode clientID name selector).1 = s :=
  ⟨by decide, maps_agree ⟨by decide, rfl, rfl, rfl⟩ (by decide)⟩

end TinyMqSubscriptionMaps
