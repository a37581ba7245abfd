import TinyMq.Broker.SingleHolder
import TinyMq.Broker.SubscriptionMaps
import TinyMq.Broker.SubscriptionFiles

/-!
The three names of a durable subscription: the key of the registry, the directory
under the topic's one and the text its storage id comes from. Each of them joins the
client id and the name with a separator of its own, and none of the separators is
kept out of the parts. A slash in a part nests one directory in another, and the end of
a subscription removes all that is below its directory.
-/
namespace TinyMqSubscriptionNames
open DelimitedText AssocLists BandQueues TinyMqTom TinyMqMessage TinyMqStore TinyMqDestination
open Machines TinyMqTransactionBuffer TinyMqFrames TinyMqHolders TinyMqSingleHolder
open TinyMqQueueRuns TinyMqDurableRegistry TinyMqSubscriptionMaps TinyMqSubscriptionFiles

/-- `clientID` and `subscriptionName`. -/
abbrev Identity := Text × Text

/-- `storageName`. -/
def storageName (uri clientID subscriptionName : Text) : Text :=
  if clientID = [] then uri ++ '/' :: subscriptionName
  else uri ++ '/' :: (clientID ++ '/' :: subscriptionName)

/-- What the three names have in common: a text in front and a separator between the parts,
    and the name alone when there is no client id. -/
def label (front : Text) (sep : Char) (p : Identity) : Text :=
  front ++ if p.1 = [] then p.2 else p.1 ++ sep :: p.2

theorem durableKey_label (p : Identity) : durableKey p.1 p.2 = label [] (Char.ofNat 31) p := by
  unfold durableKey label
  rw [List.nil_append]

/-- What every directory name begins with. -/
def durableFront : Text := ['d','u','r','a','b','l','e','-']

theorem durableDirectory_label (p : Identity) :
    durableDirectory p.1 p.2 = label durableFront '-' p := by
  unfold durableDirectory label
  split <;> simp [durableFront]

theorem storageName_label (uri : Text) (p : Identity) : storageName uri p.1 p.2 =
    label (uri ++ ['/']) '/' p := by
  unfold storageName label
  split <;> simp

/-- Two subscriptions that read the same with the separator: a part of one holds it, and the
    text can be cut there as well. -/
def Confused (sep : Char) (p q : Identity) : Prop :=
  (p.1 ≠ [] ∧ q.1 ≠ [] ∧ (Shifts sep p.1 p.2 q.1 q.2 ∨ Shifts sep q.1 q.2 p.1 p.2)) ∨
    (p.1 = [] ∧ q.1 ≠ [] ∧ p.2 = q.1 ++ sep :: q.2) ∨
    (p.1 ≠ [] ∧ q.1 = [] ∧ q.2 = p.1 ++ sep :: p.2)

theorem label_eq_iff (front : Text) (sep : Char) {p q : Identity} (differ : p ≠ q) :
    label front sep p = label front sep q ↔ Confused sep p q := by
  obtain ⟨c, n⟩ := p
  obtain ⟨c', n'⟩ := q
  unfold label Confused
  rw [List.append_cancel_left_eq]
  by_cases none_ : c = [] <;> by_cases none' : c' = []
  · have names : n ≠ n' := by
      intro same
      exact differ (by rw [none_, none', same])
    simp [none_, none', names]
  · simp [none_, none']
  · simp [none_, none', eq_comm]
  · have parts : ¬ (c = c' ∧ n = n') := by
      rintro ⟨first, second⟩
      exact differ (by rw [first, second])
    simp [none_, none', joined_eq_iff, parts]

theorem not_confused {sep : Char} {p q : Identity} (client : sep ∉ p.1 ∧ sep ∉ q.1)
    (name : (p.1 = [] → sep ∉ p.2) ∧ (q.1 = [] → sep ∉ q.2)) : ¬ Confused sep p q := by
  rintro (⟨_, _, shift | shift⟩ | ⟨alone, _, same⟩ | ⟨_, alone, same⟩)
  · obtain ⟨w, first, _⟩ := shift
    exact client.2 (by rw [first]; simp)
  · obtain ⟨w, first, _⟩ := shift
    exact client.1 (by rw [first]; simp)
  · exact name.1 alone (by rw [same]; simp)
  · exact name.2 alone (by rw [same]; simp)

section Directories
variable (opens : Paths)

/-- The directory of the second subscription is that of the first or lies below it. -/
def Under (p q : Identity) : Prop :=
  opens (durableDirectory p.1 p.2) <+: opens (durableDirectory q.1 q.2)

/-- With a slash in a part one directory may lie below the other, or be the other. -/
def Nested (p q : Identity) : Prop :=
  '/' ∈ p.1 ++ p.2 ++ q.1 ++ q.2 ∧ (Under opens p q ∨ Under opens q p)

def Mixed (p q : Identity) : Prop :=
  Confused (Char.ofNat 31) p q ∨ Confused '-' p q ∨ Confused '/' p q ∨ Nested opens p q

/-- Nothing is shared: neither the key nor the storage id's text, and neither directory is below
    the other. -/
structure Separate (uri : Text) (p q : Identity) : Prop where
  key : durableKey p.1 p.2 ≠ durableKey q.1 q.2
  beside : Beside opens (durableDirectory p.1 p.2) (durableDirectory q.1 q.2)
  storage : storageName uri p.1 p.2 ≠ storageName uri q.1 q.2

def OneComponent : Prop := ∀ a, '/' ∉ a → opens (durableFront ++ a) = [durableFront ++ a]

theorem label_plain {p : Identity} (plain : '/' ∉ p.1 ++ p.2) : '/' ∉ label [] '-' p := by
  rw [List.mem_append, not_or] at plain
  unfold label
  split <;> simp [plain.1, plain.2]

theorem under_plain {opens : Paths} (component : OneComponent opens) {p q : Identity}
    (plain : '/' ∉ p.1 ++ p.2) (plain' : '/' ∉ q.1 ++ q.2) (under : Under opens p q) :
    label [] '-' p = label [] '-' q := by
  unfold Under at under
  rw [durableDirectory_label, durableDirectory_label] at under
  have one := component _ (label_plain plain)
  have other := component _ (label_plain plain')
  simp only [label, List.nil_append] at one other under ⊢
  rw [one, other, List.cons_prefix_cons] at under
  exact List.append_cancel_left under.1

theorem separate_iff (component : OneComponent opens) (uri : Text) {p q : Identity}
    (differ : p ≠ q) : Separate opens uri p q ↔ ¬ Mixed opens p q := by
  have key := label_eq_iff [] (Char.ofNat 31) differ
  have directory := label_eq_iff durableFront '-' differ
  have storage := label_eq_iff (uri ++ ['/']) '/' differ
  rw [← durableKey_label, ← durableKey_label] at key
  rw [← durableDirectory_label, ← durableDirectory_label] at directory
  rw [← storageName_label, ← storageName_label] at storage
  constructor
  · rintro separate (one | two | three | four)
    · exact separate.key (key.mpr one)
    · exact separate.beside.ne (directory.mpr two)
    · exact separate.storage (storage.mpr three)
    · exact four.2.elim separate.beside.1 separate.beside.2
  · intro fine
    have beside : Under opens p q ∨ Under opens q p → False := by
      intro under
      by_cases slash : '/' ∈ p.1 ++ p.2 ++ q.1 ++ q.2
      · exact fine (Or.inr (Or.inr (Or.inr ⟨slash, under⟩)))
      · rw [List.append_assoc, List.mem_append, not_or] at slash
        have same : label [] '-' p = label [] '-' q := by
          rcases under with inside | around
          · exact under_plain component slash.1 slash.2 inside
          · exact (under_plain component slash.2 slash.1 around).symm
        exact fine (Or.inr (Or.inl ((label_eq_iff [] '-' differ).mp same)))
    exact ⟨fun same => fine (Or.inl (key.mp same)),
      ⟨fun inside => beside (Or.inl inside), fun around => beside (Or.inr around)⟩,
      fun same => fine (Or.inr (Or.inr (Or.inl (storage.mp same))))⟩

theorem not_mixed {p q : Identity} (clients : p.1 ≠ [] ∧ q.1 ≠ [])
    (free : ∀ sep ∈ [Char.ofNat 31, '-', '/'], sep ∉ p.1 ∧ sep ∉ q.1)
    (names : '/' ∉ p.2 ∧ '/' ∉ q.2) : ¬ Mixed opens p q := by
  have clear : ∀ sep ∈ [Char.ofNat 31, '-', '/'], ¬ Confused sep p q := fun sep member =>
    not_confused (free sep member) ⟨fun none_ => absurd none_ clients.1,
      fun none_ => absurd none_ clients.2⟩
  rintro (one | two | three | four)
  · exact clear _ (by simp) one
  · exact clear _ (by simp) two
  · exact clear _ (by simp) three
  · have slash := four.1
    have parts := free '/' (by simp)
    simp [parts.1, parts.2, names.1, names.2] at slash

end Directories

section Operations

/-- What happens to a subscription: a plain publication, the replay for its consumer, a
    receive and an acknowledgement of its consumer, and the end of it. -/
inductive Operation where
  | publish (env : Env) (number : Int) (pid : Nat) (m : Message)
  | replay (env : Env) (q : QueueId)
  | recv (env : Env) (patience : Nat)
  | acknowledge (m : Message)
  | unsubscribe

def operate (opens : Paths) (d : Destination) (p : Identity) (sub : DurableSubState) :
    Operation → Destination
  | .publish env number pid m =>
    match sub.active with
    | none => d.persistToOfflineSub env m (durableKey p.1 p.2, sub)
    | some cid => Destination.push env number pid [] m d cid
  | .replay env q => d.replayFromStorage env q sub.storage
  | .recv env patience =>
    match sub.active with
    | none => d
    | some cid => (d.recv env cid patience).1
  | .acknowledge m =>
    match sub.active with
    | none => d
    | some cid => d.acknowledgeOn cid m
  | .unsubscribe => unsubscribe opens d p.1 p.2

def Only (sid : StorageId) (d d' : Destination) : Prop := ∀ other, other ≠ sid →
  d'.stores other = d.stores other

theorem Only.of_eq {sid : StorageId} {d d' : Destination} (same : d'.stores = d.stores) :
    Only sid d d' := by
  intro other _
  rw [same]

theorem Only.trans {sid : StorageId} {d d' d'' : Destination} (first : Only sid d d')
    (second : Only sid d' d'') : Only sid d d'' :=
  fun other apart => (second other apart).trans (first other apart)

theorem removeRecord_only (d : Destination) (sid : StorageId) (rec : Nat × UUID) :
    Only sid d (d.removeRecord sid rec) :=
  fun _ apart => Function.update_of_ne apart _ _

theorem appendRecord_only (env : Env) (d : Destination) (sid : StorageId) (uuid : UUID)
    (content : Content) : Only sid d (d.appendRecord env sid uuid content).1 :=
  fun _ apart => Function.update_of_ne apart _ _

theorem dropRecord_only (d : Destination) (c : Consumer) (m : Message) :
    Only c.storage d (d.dropRecord c m) := by
  unfold Destination.dropRecord Destination.removeLocated
  split
  · split
    · exact Only.of_eq rfl
    · exact removeRecord_only d c.storage _
  · exact Only.of_eq rfl

theorem flushPendingAcks_only (d : Destination) (cid : Nat) (c : Consumer) :
    Only c.storage d (d.flushPendingAcks cid c) := by
  have loop : ∀ (recs : List (Nat × UUID)) (e : Destination),
      Only c.storage e (recs.foldl (fun d rec => d.removeRecord c.storage rec) e) := by
    intro recs
    induction recs with
    | nil => exact fun e => Only.of_eq rfl
    | cons rec recs ih =>
      exact fun e => (removeRecord_only e c.storage rec).trans (ih (e.removeRecord c.storage rec))
  exact (loop c.pendingAcks d).trans (Only.of_eq rfl)

theorem acknowledgeOn_only {d : Destination} {cid : Nat} {c : Consumer}
    (object : get d.objects cid = some c) (m : Message) :
    Only c.storage d (d.acknowledgeOn cid m) := by
  unfold Destination.acknowledgeOn
  rw [object]
  dsimp only
  split
  · exact Only.of_eq rfl
  · split
    · split
      · exact Only.of_eq rfl
      · split
        · split
          · intro other apart
            exact flushPendingAcks_only (Destination.setObject d cid _) cid _ other apart
          · exact Only.of_eq rfl
        · exact removeRecord_only (d.setObject cid _) c.storage _
    · exact Only.of_eq rfl

theorem push_only (env : Env) (number : Int) (pid : Nat) (m : Message) {d : Destination}
    {cid : Nat} {c : Consumer} (object : get d.objects cid = some c) :
    Only c.storage d (Destination.push env number pid [] m d cid) := by
  have prepared : Only c.storage d (d.preparePush env cid c number [] m).1 := by
    unfold Destination.preparePush
    dsimp only
    split
    · rw [if_neg (by simp)]
      exact appendRecord_only env { d with nextOid := d.nextOid + 1 } c.storage _ _
    · exact Only.of_eq rfl
  unfold Destination.push
  rw [object]
  dsimp only
  split
  · rw [if_pos rfl]
    split
    · exact prepared.trans (Only.of_eq (enqueueOrSchedule_stores env _ _ _))
    · exact prepared.trans (Only.of_eq rfl)
  · exact Only.of_eq rfl

theorem recv_only (env : Env) {sid : StorageId} {cid : Nat} (patience : Nat) {d : Destination}
    (own : ∀ c, get d.objects cid = some c → c.storage = sid) :
    Only sid d (d.recv env cid patience).1 := by
  revert own
  refine recv_rule (P := fun d r => (∀ c, get d.objects cid = some c → c.storage = sid) →
    Only sid d r.1) (fun d _ => Only.of_eq rfl) (fun d c m q _ _ _ => Only.of_eq rfl) ?_ patience d
  intro d c m q r object _ rest own
  have first := dropRecord_only (d.setQueue c.queue q) c ((d.setQueue c.queue q).rehydrate c m)
  have same := dropRecord_same (d.setQueue c.queue q) c ((d.setQueue c.queue q).rehydrate c m)
  rw [own c object] at first
  have queued : Only sid d (d.setQueue c.queue q) := Only.of_eq rfl
  refine (queued.trans first).trans (rest ?_)
  intro c' object'
  rw [same.objects] at object'
  exact own c' object'

theorem operate_only (opens : Paths) {d : Destination} (reg : Registry d) {p : Identity}
    {sub : DurableSubState} (found : get d.durableSubs (durableKey p.1 p.2) = some sub)
    {op : Operation} (stays : op ≠ .unsubscribe) :
    Only sub.storage d (operate opens d p sub op) := by
  have own : ∀ cid c, sub.active = some cid → get d.objects cid = some c →
      c.storage = sub.storage := by
    intro cid c active object
    obtain ⟨_, _, c', object', storage, _⟩ := reg.online _ sub cid found active
    rw [object, Option.some.injEq] at object'
    rw [object']
    exact storage
  cases op with
  | publish env number pid m =>
    unfold operate
    dsimp only
    split
    · exact appendRecord_only env d sub.storage _ _
    · rename_i cid active
      obtain ⟨_, _, c, object, _⟩ := reg.online _ sub cid found active
      rw [← own cid c active object]
      exact push_only env number pid m object
  | replay env q => exact Only.of_eq (replay_stores env d q sub.storage)
  | recv env patience =>
    unfold operate
    dsimp only
    split
    · exact Only.of_eq rfl
    · rename_i cid active
      exact recv_only env patience fun c object => own cid c active object
  | acknowledge m =>
    unfold operate
    dsimp only
    split
    · exact Only.of_eq rfl
    · rename_i cid active
      obtain ⟨_, _, c, object, _⟩ := reg.online _ sub cid found active
      rw [← own cid c active object]
      exact acknowledgeOn_only object m
  | unsubscribe => exact absurd rfl stays

end Operations

section Runs
variable {ids : Identity → Prop}

/-- The calls of clients that use these identities and no others; consumers get new names
    and a consumer in the map is not destroyed. -/
def Uses (ids : Identity → Prop) (d : Destination) : Call → Prop
  | .createDefaultConsumer id _ | .createConsumer _ id _ _ => id ∉ d.consumers
  | .createDurableConsumer _ id _ clientID name _ => id ∉ d.consumers ∧ ids (clientID, name)
  | .destroyConsumer _ id => id ∉ d.consumers
  | _ => True

/-- Every subscription is kept under the key and in the directory of an identity in use. -/
def Filed (ids : Identity → Prop) (d : Destination) : Prop :=
  ∀ k sub, get d.durableSubs k = some sub →
    ∃ p, ids p ∧ k = durableKey p.1 p.2 ∧ sub.directory = durableDirectory p.1 p.2

theorem Filed.put {d d' : Destination} (filed : Filed ids d) {p : Identity} (used : ids p)
    (sub : DurableSubState) (own : sub.directory = durableDirectory p.1 p.2)
    (subs : d'.durableSubs = put d.durableSubs (durableKey p.1 p.2) sub) : Filed ids d' := by
  intro k old found
  rw [subs] at found
  by_cases here : k = durableKey p.1 p.2
  · rw [here, get_put_same, Option.some.injEq] at found
    rw [← found]
    exact ⟨p, used, here, own⟩
  · rw [get_put_other _ _ here] at found
    exact filed k old found

theorem Filed.delete {d : Destination} (filed : Filed ids d) (id : Nat) :
    Filed ids (d.deleteConsumer id) := by
  unfold Destination.deleteConsumer
  dsimp only
  split
  · exact filed
  · rename_i key _
    split
    · exact filed
    · rename_i sub found
      obtain ⟨p, used, here, own⟩ := filed key sub found
      exact filed.put used { sub with active := none } own (by rw [here])

theorem Filed.erase {d d' : Destination} (filed : Filed ids d) {key : Text}
    (subs : d'.durableSubs = erase d.durableSubs key) : Filed ids d' := by
  intro k old found
  have other : k ≠ key := by
    intro same
    rw [subs, same, get_erase_same] at found
    cases found
  rw [subs, get_erase_other _ other] at found
  exact filed k old found

theorem label_apart {front : Text} {sep : Char} (apart : ∀ p q, ids p → ids q → p ≠ q →
    ¬ Confused sep p q) {p q : Identity} (used : ids p) (used' : ids q)
    (same : label front sep p = label front sep q) : p = q := by
  by_contra differ
  exact apart p q used used' differ ((label_eq_iff front sep differ).mp same)

structure FiledTopic (ids : Identity → Prop) (d : Destination) : Prop where
  registry : Registry d
  filed : Filed ids d

theorem step_filed
    (keys : ∀ p q, ids p → ids q → p ≠ q → ¬ Confused (Char.ofNat 31) p q)
    (directories : ∀ p q, ids p → ids q → p ≠ q → ¬ Confused '-' p q) (d : Destination) (call : Call)
    (ok : FiledTopic ids d) (uses : Uses ids d call) : FiledTopic ids (next d call) := by
  have possible : Possible d call := by
    cases call with
    | createDurableConsumer env id mode clientID name selector =>
      refine ⟨uses.1, ?_⟩
      intro k sub found same
      obtain ⟨p, used, here, own⟩ := ok.filed k sub found
      rw [own, durableDirectory_label, durableDirectory_label (clientID, name)] at same
      rw [here, label_apart directories used uses.2 same]
    | createDefaultConsumer id mode => exact uses
    | createConsumer env id mode selector => exact uses
    | destroyConsumer env id => exact uses
    | _ => exact trivial
  refine ⟨step_registry d call ok.registry possible, ?_⟩
  have same : ∀ {d'}, d'.durableSubs = d.durableSubs → Filed ids d' := by
    intro d' subs k sub found
    rw [subs] at found
    exact ok.filed k sub found
  cases call with
  | createDefaultConsumer id mode =>
    refine same ?_
    simp only [next, step, Destination.createDefaultConsumer]
    split <;> rfl
  | createConsumer env id mode selector =>
    refine same ?_
    simp only [next, step, Destination.createConsumer, topic_notQueue ok.registry.topic]
    rfl
  | createDurableConsumer env id mode clientID name selector =>
    have attach : ∀ sub : DurableSubState, sub.directory = durableDirectory clientID name →
        Filed ids (d.attachDurable env id mode (durableKey clientID name) sub selector) := by
      intro sub own
      refine ok.filed.put uses.2 { sub with selector := selector, active := some id } own ?_
      exact congrArg (put · _ _) (replayFromStorage_same env _ (.own id) sub.storage).subs
    simp only [next, step, Destination.createDurableConsumer, ok.registry.topic]
    split
    · exact ok.filed
    · split
      · exact attach _ rfl
      · rename_i sub found
        split
        · exact ok.filed
        · obtain ⟨p, used, here, own⟩ := ok.filed _ sub found
          rw [durableKey_label, durableKey_label (clientID, name)] at here
          rw [← label_apart keys uses.2 used here] at own
          exact attach sub own
  | deleteConsumer id => exact ok.filed.delete id
  | destroyConsumer env id =>
    refine same ?_
    simp only [next, step, Destination.destroyConsumer]
    split
    · rfl
    · rename_i c object
      exact ((flushPendingAcks_steady d id object (c := c) rfl).trans
        (rollbackConsumer_steady env _ id false)).subs
  | deleteSubscription clientID name =>
    simp only [next, step, Destination.deleteSubscription]
    split
    · exact ok.filed
    · split
      · exact ok.filed.erase rfl
      · rename_i id _
        exact (ok.filed.delete id).erase rfl
  | rehash l =>
    refine same ?_
    simp only [next, step, Destination.rehash]
    split <;> rfl
  | restart env =>
    intro k sub found
    simp [next, step, Destination.restart] at found
  | _ => exact same (step_steady d rfl).subs

theorem stepWith_filed (opens : Paths)
    (keys : ∀ p q, ids p → ids q → p ≠ q → ¬ Confused (Char.ofNat 31) p q)
    (directories : ∀ p q, ids p → ids q → p ≠ q → ¬ Confused '-' p q) (d : Destination) (call : Call)
    (ok : FiledTopic ids d) (uses : Uses ids d call) : FiledTopic ids (nextWith opens d call) := by
  have stepped := step_filed keys directories d call ok uses
  have steady := nextWith_steady opens d call
  refine ⟨stepped.registry.steady steady, ?_⟩
  intro k sub found
  rw [steady.subs] at found
  exact stepped.filed k sub found

theorem operate_apart {opens : Paths} {d : Destination} (reg : Registry d) {p q : Identity}
    {sub : DurableSubState} (found : get d.durableSubs (durableKey p.1 p.2) = some sub)
    (own : sub.directory = durableDirectory p.1 p.2) {uri : Text}
    (separate : Separate opens uri p q) (op : Operation) :
    (operate opens d p sub op).stores (.sub (durableDirectory q.1 q.2)) =
        d.stores (.sub (durableDirectory q.1 q.2)) ∧
      get (operate opens d p sub op).durableSubs (durableKey q.1 q.2) =
        get d.durableSubs (durableKey q.1 q.2) := by
  have key := separate.key
  constructor
  · by_cases ends : op = .unsubscribe
    · subst ends
      refine unsubscribe_beside ?_
      intro sub' found'
      rw [found, Option.some.injEq] at found'
      rw [← found', own]
      exact separate.beside
    · refine operate_only opens reg found ends _ ?_
      intro same
      unfold DurableSubState.storage at same
      rw [own, StorageId.sub.injEq] at same
      exact separate.beside.ne same.symm
  · have same : ∀ {d' : Destination}, d'.durableSubs = d.durableSubs → get d'.durableSubs (durableKey q.1 q.2) =
        get d.durableSubs (durableKey q.1 q.2) := fun subs => by rw [subs]
    cases op with
    | publish env number pid m =>
      refine same ?_
      unfold operate
      dsimp only
      split
      · rfl
      · exact (push_same env d number pid [] m _).subs
    | replay env queue => exact same (replayFromStorage_same env d queue sub.storage).subs
    | recv env patience =>
      refine same ?_
      unfold operate
      dsimp only
      split
      · rfl
      · exact (recv_steady env d _ patience).subs
    | acknowledge m =>
      refine same ?_
      unfold operate
      dsimp only
      split
      · rfl
      · exact (acknowledgeOn_steady d _ m).subs
    | unsubscribe =>
      simp only [operate, (unsubscribe_steady opens d p.1 p.2).subs]
      unfold Destination.deleteSubscription
      dsimp only
      rw [found]
      dsimp only
      rw [get_erase_other _ key.symm]
      split
      · rfl
      · rename_i id active
        have name := (reg.online _ sub id found active).2.1
        simp only [Destination.deleteConsumer, name, found]
        rw [get_put_other _ _ key.symm]

/-- Two subscriptions are kept apart exactly when no separator and no slash mixes them up;
    and while clients use identities that nothing mixes up, whatever happens to one
    subscription leaves the records and the registry entry of every other one alone. -/
theorem identities_apart (opens : Paths) (component : OneComponent opens) (uri : Text) :
    (∀ p q : Identity, p ≠ q → (Separate opens uri p q ↔ ¬ Mixed opens p q)) ∧
      ∀ ids : Identity → Prop, (∀ p q, ids p → ids q → p ≠ q → ¬ Mixed opens p q) →
        ∀ d calls, Begun d → Meets (nextWith opens) (Uses ids) d calls →
          ∀ s ∈ states (nextWith opens) d calls, ∀ p q, ids p → ids q → p ≠ q → ∀ sub,
            get s.durableSubs (durableKey p.1 p.2) = some sub → ∀ op,
              (operate opens s p sub op).stores (.sub (durableDirectory q.1 q.2)) =
                  s.stores (.sub (durableDirectory q.1 q.2)) ∧
                get (operate opens s p sub op).durableSubs (durableKey q.1 q.2) =
                  get s.durableSubs (durableKey q.1 q.2) := by
  refine ⟨fun p q differ => separate_iff opens component uri differ, ?_⟩
  intro ids apart d calls begun uses s member p q used used' differ sub found op
  have keys : ∀ p q, ids p → ids q → p ≠ q → ¬ Confused (Char.ofNat 31) p q :=
    fun p q used used' differ mixed => apart p q used used' differ (Or.inl mixed)
  have directories : ∀ p q, ids p → ids q → p ≠ q → ¬ Confused '-' p q :=
    fun p q used used' differ mixed => apart p q used used' differ (Or.inr (Or.inl mixed))
  have start : FiledTopic ids d := by
    refine ⟨begun.registry, ?_⟩
    intro k sub found
    rw [begun.subs] at found
    cases found
  have ok := invariant_along (stepWith_filed opens keys directories) start uses s member
  have separate := (separate_iff opens component uri differ).mpr (apart p q used used' differ)
  have own : sub.directory = durableDirectory p.1 p.2 := by
    obtain ⟨p', used', here, own⟩ := ok.filed _ sub found
    rw [durableKey_label, durableKey_label] at here
    rw [label_apart keys used used' here]
    exact own
  exact operate_apart ok.registry found own separate op

def twoNames : List Call :=
  [.createDurableConsumer calm 1 .AUTO_ACKNOWLEDGE ['a'] ['b'] none,
    .createDurableConsumer calm 2 .AUTO_ACKNOWLEDGE ['a'] ['c'] none]

theorem slashes_component : OneComponent slashes := by
  intro a plain
  have free : '/' ∉ durableFront ++ a := by
    rw [List.mem_append, not_or]
    exact ⟨by decide, plain⟩
  exact List.splitOn_eq_singleton free

/- One client with two subscriptions: unsubscribing the first leaves the second. -/
theorem twoNames_apart : Separate slashes [] (['a'], ['b']) (['a'], ['c']) ∧
    get (unsubscribe slashes (twoNames.foldl (nextWith slashes) { type := .Topic }) ['a']
        ['b']).durableSubs (durableKey ['a'] ['c']) =
      get (twoNames.foldl (nextWith slashes) { type := .Topic }).durableSubs
        (durableKey ['a'] ['c']) := by
  let ids : Identity → Prop := fun p => p = (['a'], ['b']) ∨ p = (['a'], ['c'])
  have fine : ∀ p q, ids p → ids q → p ≠ q → ¬ Mixed slashes p q := by
    rintro p q (rfl | rfl) (rfl | rfl) _ <;>
      exact not_mixed slashes ⟨by decide, by decide⟩ (by simp) (by decide)
  obtain ⟨names, runs⟩ := identities_apart slashes slashes_component []
  refine ⟨(names (['a'], ['b']) (['a'], ['c']) (by decide)).mpr
    (fine (['a'], ['b']) (['a'], ['c']) (Or.inl rfl) (Or.inr rfl) (by decide)), ?_⟩
  have uses : Meets (nextWith slashes) (Uses ids) { type := .Topic } twoNames :=
    ⟨⟨by decide, Or.inl rfl⟩, ⟨by decide, Or.inr rfl⟩, trivial⟩
  have left := runs ids fine { type := .Topic } twoNames ⟨by decide, rfl, rfl, rfl⟩ uses _
    (last_state_mem _ _ twoNames) (['a'], ['b']) (['a'], ['c']) (Or.inl rfl) (Or.inr rfl)
    (by decide)
  cases found : get (twoNames.foldl (nextWith slashes) { type := .Topic }).durableSubs
      (durableKey ['a'] ['b']) with
  | none => exact absurd (congrArg Option.isSome found) (by decide)
  | some sub => exact (left sub found .unsubscribe).2

/-- The client `a` subscribes as `b-c`, the client `a-b` as `c`. -/
def hyphenated : Identity × Identity := ((['a'], ['b', '-', 'c']), (['a', '-', 'b'], ['c']))

/-- Subscriptions `s` and `s/t`, without client ids. -/
def nestedNames : Identity × Identity := (([], ['s']), ([], ['s', '/', 't']))

def outerLeaves : List Call :=
  [.createDurableConsumer calm 1 .AUTO_ACKNOWLEDGE [] ['s'] none,
    .createDurableConsumer calm 2 .AUTO_ACKNOWLEDGE [] ['s', '/', 't'] none,
    .createProducer 9 .AUTO_ACKNOWLEDGE, .deleteConsumer 1, .deleteConsumer 2,
    .send calm 9 [] (letter 0 7), .deleteSubscription [] ['s'], .restart calm]

/- Two subscriptions have one directory, and of two others one has its directory in that of the
   other: when that one is unsubscribed, the record is gone after a restart. -/
theorem hyphens_collide :
    (¬ ∀ p q : Identity, p ≠ q → durableDirectory p.1 p.2 ≠ durableDirectory q.1 q.2) ∧
      (¬ ∀ p q : Identity, p ≠ q → Separate slashes [] p q) ∧
      ((((outerLeaves.take 6).foldl (nextWith slashes) { type := .Topic }).stores
        (.sub (durableDirectory [] ['s', '/', 't']))).scan.map fun x => x.1.key) = [7] ∧
      (((outerLeaves.foldl (nextWith slashes) { type := .Topic }).stores
        (.sub (durableDirectory [] ['s', '/', 't']))).scan.map fun x => x.1.key) = [] := by
  refine ⟨?_, ?_, by decide, by decide⟩
  · intro injective
    exact injective hyphenated.1 hyphenated.2 (by decide) (by decide)
  · intro injective
    exact (injective nestedNames.1 nestedNames.2 (by decide)).beside.1
      ⟨[['t']], by decide⟩

end Runs

end TinyMqSubscriptionNames
