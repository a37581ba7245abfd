import TinyMq.Broker.DistinctRecords

/-!
Receiving in transacted sessions. Sessions with any number of consumers on any number
of queues send, receive, commit and roll back. A ledger notes what each consumer of a
transacted session received since the last commit or rollback of its session.
-/
namespace TinyMqTransactedReceive
open DelimitedText AssocLists BandQueues Machines TombstoneLog TinyMqTom TinyMqMessage TinyMqStore
open TinyMqDestination TinyMqSession TinyMqFrames TinyMqHolders TinyMqQueueRuns TinyMqPlaces
open TinyMqOrigins TinyMqInversion TinyMqRecords TinyMqSingleHolder TinyMqDurableRegistry
open TinyMqCachedLocations TinyMqDistinctRecords

inductive Request where
  | createSession (sid : Nat) (mode : AcknowledgeMode) (suffix : Text)
  | createDestination (sid did : Nat) (type : DestinationType) (cid : Nat)
  | createConsumer (env : Env) (sid did cid : Nat) (selector : Option Selector)
  | createProducer (sid did pid : Nat)
  | setRedeliveryPolicy (did : Nat) (policy : RedeliveryPolicy)
  | send (env : Env) (sid pid : Nat) (m : Message)
  | sendWith (env : Env) (sid pid : Nat) (m : Message) (opts : SendOptions)
  | deliverDue (env : Env) (did : Nat)
  | rehash (did : Nat) (consumers : List Nat)
  | recv (env : Env) (sid cid patience : Nat)
  | commit (env : Env) (sid : Nat) (newSuffix : Text)
  | rollback (env : Env) (sid : Nat) (newSuffix : Text)

structure Watched where
  world : World := {}
  received : Nat → List Message := fun _ => []

/-- The destination a session's producer or consumer works on. -/
def World.producerOf (w : World) (sid pid : Nat) : Option (Session × Nat) :=
  (w.sessions sid).bind fun s => (get s.producers pid).map fun did => (s, did)

def World.consumerOf (w : World) (sid cid : Nat) : Option (Session × Nat) :=
  (w.sessions sid).bind fun s => (get s.consumers cid).map fun did => (s, did)

def Watched.call (s : Watched) (did : Nat) (call : Call) : Watched :=
  { s with world := s.world.onDestination did fun d => TinyMqQueueRuns.next d call }

/-- The ledger after a commit or a rollback of a session. -/
def settled (session : Session) (received : Nat → List Message) (cid : Nat) : List Message :=
  if session.mode = .SESSION_TRANSACTED ∧ cid ∈ session.consumers.map Prod.fst then []
  else received cid

def Watched.settle (s : Watched) (sid : Nat) (w : World) : Watched :=
  match s.world.sessions sid with
  | none => s
  | some session => { s with world := w, received := settled session s.received }

def Watched.next (s : Watched) : Request → Watched
  | .createSession sid mode suffix => { s with world := s.world.createSession sid mode suffix }
  | .createDestination sid did type cid =>
    { s with world := s.world.createDestination sid did type cid }
  | .createConsumer env sid did cid selector =>
    { s with
      world := s.world.createConsumer env sid did cid selector,
      received := Function.update s.received cid [] }
  | .createProducer sid did pid => { s with world := s.world.createProducer sid did pid }
  | .setRedeliveryPolicy did policy =>
    { s with world := s.world.onDestination did fun d => { d with redeliveryPolicy := policy } }
  | .send env sid pid m =>
    match World.producerOf s.world sid pid with
    | none => s
    | some (session, did) => s.call did (.send env pid session.suffix m)
  | .sendWith env sid pid m opts =>
    match World.producerOf s.world sid pid with
    | none => s
    | some (session, did) => s.call did (.sendWith env pid session.suffix m opts)
  | .deliverDue env did => s.call did (.deliverDue env)
  | .rehash did consumers => s.call did (.rehash consumers)
  | .recv env sid cid patience =>
    match World.consumerOf s.world sid cid with
    | none => s
    | some (session, did) =>
      let result := ((s.world.destinations did).bind fun d => (d.recv env cid patience).2).toList
      { s.call did (.recv env cid patience) with
        received := if session.mode = .SESSION_TRANSACTED then
            Function.update s.received cid (s.received cid ++ result)
          else s.received }
  | .commit env sid newSuffix => s.settle sid (s.world.commit env sid newSuffix)
  | .rollback env sid newSuffix => s.settle sid (s.world.rollback env sid false newSuffix)

def NewCid (w : World) (cid : Nat) : Prop :=
  (∀ sid session, w.sessions sid = some session → get session.consumers cid = none) ∧
    ∀ did d, w.destinations did = some d → cid ∉ d.consumers ∧ get d.objects cid = none ∧
      ∀ p, Waits (.own cid) p → messagesAt d p = []

/-- The messages of a session are within the redelivery limits of its queues. -/
def WithinLimits (w : World) (session : Session) : Prop :=
  ∀ cid did, get session.consumers cid = some did →
    ∀ d, w.destinations did = some d → Within d cid

/-- The runs that are asked about: queues without backoff, messages with distinct uuids
    that are received before they expire and rolled back within the limit. -/
def Asked (s : Watched) : Request → Prop
  | .createSession sid _ _ => s.world.sessions sid = none
  | .createDestination _ _ type cid => (type = .Queue ∨ type = .TemporaryQueue) ∧ NewCid s.world cid
  | .createConsumer _ _ _ cid _ => NewCid s.world cid
  | .setRedeliveryPolicy _ policy => policy.backoffMs = 0
  | .send env sid pid m | .sendWith env sid pid m _ =>
    Works env ∧ ∀ session did, World.producerOf s.world sid pid = some (session, did) →
      ∀ d, s.world.destinations did = some d → Fresh env d session.suffix m
  | .recv env sid cid _ => ∀ session did, World.consumerOf s.world sid cid = some (session, did) →
      ∀ d, s.world.destinations did = some d → Unexpired env d cid
  | .commit env _ _ => Works env
  | .rollback _ sid _ => ∀ session, s.world.sessions sid = some session →
      WithinLimits s.world session
  | .createProducer _ _ _ | .deliverDue _ _ | .rehash _ _ => True

def SameDefault (d d' : Destination) : Prop := d'.defaultConsumer = d.defaultConsumer

/-- The consumer is there to stay, and its transaction holds the given messages. -/
def Has (d : Destination) (cid : Nat) (mode : AcknowledgeMode) (l : List Message) : Prop :=
  d.defaultConsumer ≠ some cid ∧
    ∃ c, get d.objects cid = some c ∧ c.mode = mode ∧ c.transactQueue.toList.Perm l

/-- What the transaction of a consumer holds after a call. -/
def owed (d : Destination) (call : Call) (cid : Nat) (mode : AcknowledgeMode) (l : List Message) :
    List Message :=
  match call with
  | .recv env id patience =>
    if id = cid ∧ mode = .SESSION_TRANSACTED then l ++ (d.recv env id patience).2.toList else l
  | .commitConsumer id | .rollbackConsumer _ id _ =>
    if id = cid ∧ mode = .SESSION_TRANSACTED then [] else l
  | _ => l

section Has
variable {env : Env} {d : Destination} {cid id : Nat} {mode : AcknowledgeMode} {l : List Message}

theorem Has.same (has : Has d cid mode l) {d' : Destination}
    (objects : get d'.objects cid = get d.objects cid) (default : SameDefault d d') :
    Has d' cid mode l := by
  obtain ⟨stays, c, object, rest⟩ := has
  refine ⟨?_, c, objects.trans object, rest⟩
  rw [show d'.defaultConsumer = d.defaultConsumer from default]
  exact stays

theorem Has.stays (has : Has d cid mode l) {d' : Destination} (stays : Stays d d') :
    Has d' cid mode l :=
  has.same (by rw [stays.same.objects]) stays.default

theorem Has.object (has : Has d cid mode l) {d' : Destination} {c : Consumer} {l' : List Message}
    (stays : SameDefault d d') (objects : d'.objects = put d.objects id c)
    (own : id = cid → c.mode = mode ∧ c.transactQueue.toList.Perm l')
    (other : id ≠ cid → l' = l) : Has d' cid mode l' := by
  by_cases same : id = cid
  · subst same
    refine ⟨?_, c, by simp [objects], own rfl⟩
    rw [show d'.defaultConsumer = d.defaultConsumer from stays]
    exact has.1
  · rw [other same]
    refine has.same ?_ stays
    rw [objects, get_put_other d.objects c fun equal => same equal.symm]

theorem track_holds (c : Consumer) (m : Message) :
    (track c m).mode = c.mode ∧ (track c m).transactQueue.toList.Perm
      (if c.mode = .SESSION_TRANSACTED then c.transactQueue.toList ++ [m]
        else c.transactQueue.toList) := by
  obtain ⟨mode, queue, storage, selector, inFlight, transactQueue, pendingAcks⟩ := c
  cases mode with
  | SESSION_TRANSACTED =>
    refine ⟨rfl, (enqueue_perm transactQueue m.band m).trans ?_⟩
    exact (List.perm_append_singleton m transactQueue.toList).symm
  | _ => exact ⟨rfl, List.Perm.refl _⟩

theorem recv_has (unexpired : Unexpired env d id) (has : Has d cid mode l) (patience : Nat) :
    Has (d.recv env id patience).1 cid mode (owed d (.recv env id patience) cid mode l) := by
  have nothing : d.recv env id patience = (d, none) →
      Has (d.recv env id patience).1 cid mode (owed d (.recv env id patience) cid mode l) := by
    intro idle
    simp only [owed, idle, Option.toList_none, List.append_nil, ite_self]
    exact has
  cases object : get d.objects id with
  | none => exact nothing (by cases patience <;> simp [Destination.recv, object])
  | some c =>
    have result := recv_unexpired object unexpired patience
    cases next : (d.queues c.queue).dequeue with
    | none => exact nothing (by rw [result, next])
    | some r =>
      obtain ⟨m, q⟩ := r
      rw [next] at result
      simp only [owed, result, Option.toList_some]
      refine has.object (c := track c (d.rehydrate c m)) (by rfl) (by rfl) ?_ ?_
      · intro same
        obtain ⟨_, c', found, kind, holds⟩ := has
        rw [← same, object] at found
        cases found
        obtain ⟨alike, perm⟩ := track_holds c (d.rehydrate c m)
        refine ⟨alike.trans kind, perm.trans ?_⟩
        rw [kind]
        simp only [same, true_and]
        split
        · exact holds.append_right _
        · exact holds
      · intro other
        simp [other]

theorem putBackAll_queues (q : QueueId) (ms : List Message) (d : Destination) :
    ∃ queues, ms.foldl (fun d m => d.enqueue q (putBack m)) d = { d with queues := queues } := by
  induction ms generalizing d with
  | nil => exact ⟨d.queues, rfl⟩
  | cons m ms ih =>
    obtain ⟨queues, rest⟩ := ih (d.enqueue q (putBack m))
    exact ⟨queues, rest⟩

/-- The call ends the transaction of one consumer, when it has one. -/
def Ends (id : Nat) (d d' : Destination) : Prop :=
  (d'.objects = d.objects ∧ ∀ c, get d.objects id = some c → c.mode ≠ .SESSION_TRANSACTED) ∨
    ∃ c, get d.objects id = some c ∧ c.mode = .SESSION_TRANSACTED ∧
      d'.objects = put d.objects id { c with transactQueue := .empty }

theorem Has.ended (has : Has d cid mode l) {d' : Destination} (ends : Ends id d d')
    (stays : SameDefault d d') :
    Has d' cid mode (if id = cid ∧ mode = .SESSION_TRANSACTED then [] else l) := by
  have before := has
  obtain ⟨_, c, object, kind, _⟩ := before
  rcases ends with ⟨objects, plain⟩ | ⟨c', found, transacted, objects⟩
  · rw [if_neg]
    · exact has.same (by rw [objects]) stays
    · rintro ⟨rfl, mode⟩
      exact plain c object (kind.trans mode)
  · refine has.object stays objects ?_ ?_
    · intro same
      rw [← same, found] at object
      cases object
      have both : id = cid ∧ mode = .SESSION_TRANSACTED := ⟨same, kind.symm.trans transacted⟩
      rw [if_pos both]
      exact ⟨kind, by simp⟩
    · intro other
      simp [other]

theorem commitConsumer_ends (d : Destination) (id : Nat) :
    Ends id d (d.commitConsumer id) ∧ SameDefault d (d.commitConsumer id) := by
  unfold Destination.commitConsumer
  split
  · rename_i missing
    refine ⟨Or.inl ⟨rfl, ?_⟩, rfl⟩
    intro c object
    rw [missing] at object
    cases object
  · rename_i c object
    split
    · rename_i transacted
      obtain ⟨stores, dropped⟩ := dropRecords_stores
        (d.setObject id { c with transactQueue := .empty }) c c.transactQueue.toList
      rw [dropped]
      exact ⟨Or.inr ⟨c, object, transacted, rfl⟩, rfl⟩
    · rename_i plain
      refine ⟨Or.inl ⟨rfl, ?_⟩, rfl⟩
      intro c' found
      rw [object] at found
      cases found
      exact plain

theorem rollbackConsumer_within (kept : Kept d) (within : Within d id) (closing : Bool) :
    d.rollbackConsumer env id closing = (d, []) ∧
        (∀ c, get d.objects id = some c → c.mode ≠ .SESSION_TRANSACTED) ∨
      ∃ c, get d.objects id = some c ∧ c.mode = .SESSION_TRANSACTED ∧
        d.rollbackConsumer env id closing =
          (c.transactQueue.toList.foldl (fun d m => d.enqueue .shared (putBack m))
            (d.setObject id { c with transactQueue := .empty }), []) := by
  unfold Destination.rollbackConsumer
  split
  · rename_i missing
    refine Or.inl ⟨rfl, ?_⟩
    intro c object
    rw [missing] at object
    cases object
  · rename_i c object
    split
    · rename_i transacted
      have all : ∀ m ∈ c.transactQueue.toList,
          ¬ Limited (d.setObject id { c with transactQueue := .empty }) m := by
        intro m inside
        exact within m (by simpa [messagesAt, receivedBy, object] using inside)
      have immediate :
          (d.setObject id { c with transactQueue := .empty }).redeliveryPolicy.backoffMs = 0 :=
        kept.immediate
      refine Or.inr ⟨c, object, transacted, ?_⟩
      rw [redeliverAll_within immediate all closing, (kept.shared id c object).1]
    · rename_i plain
      refine Or.inl ⟨rfl, ?_⟩
      intro c' found
      rw [object] at found
      cases found
      exact plain

theorem rollbackConsumer_ends (kept : Kept d) (within : Within d id) (closing : Bool) :
    Ends id d (d.rollbackConsumer env id closing).1 ∧
      SameDefault d (d.rollbackConsumer env id closing).1 := by
  rcases rollbackConsumer_within kept within closing with
    ⟨idle, plain⟩ | ⟨c, object, transacted, back⟩
  · rw [idle]
    exact ⟨Or.inl ⟨rfl, plain⟩, rfl⟩
  · obtain ⟨queues, only⟩ := putBackAll_queues .shared c.transactQueue.toList
      (d.setObject id { c with transactQueue := .empty })
    rw [back, only]
    exact ⟨Or.inr ⟨c, object, transacted, rfl⟩, rfl⟩

theorem dropDefault_none (d : Destination) : d.dropDefault.defaultConsumer = none := by
  unfold Destination.dropDefault
  split
  · assumption
  · rfl

theorem createConsumer_joined (queue : d.isQueueFamily = true) (env : Env) (id : Nat)
    (kind : AcknowledgeMode) (selector : Option Selector) :
    (d.createConsumer env id kind selector).objects =
        put d.dropDefault.objects id ⟨kind,.shared,.shared,selector,[],.empty,[]⟩ ∧
      (d.createConsumer env id kind selector).defaultConsumer = none := by
  unfold Destination.createConsumer
  rw [if_pos queue]
  dsimp only
  split
  · have replayed := replayFromStorage_stays env
      (d.dropDefault.setObject id ⟨kind,.shared,.shared,selector,[],.empty,[]⟩) .shared .shared
    exact ⟨replayed.same.objects, replayed.default.trans (dropDefault_none d)⟩
  · exact ⟨rfl, dropDefault_none d⟩

theorem createConsumer_has (queue : d.isQueueFamily = true) (has : Has d cid mode l)
    (new : get d.objects id = none) (kind : AcknowledgeMode) (selector : Option Selector) :
    Has (d.createConsumer env id kind selector) cid mode l := by
  obtain ⟨objects, default⟩ := createConsumer_joined queue env id kind selector
  obtain ⟨stays, c, object, rest⟩ := has
  refine ⟨by simp [default], c, ?_, rest⟩
  have apart : cid ≠ id := by
    rintro rfl
    rw [new] at object
    cases object
  rw [objects, get_put_other d.dropDefault.objects _ apart]
  unfold Destination.dropDefault
  split
  · exact object
  · rename_i old found
    have other : cid ≠ old := by
      rintro rfl
      exact stays found
    exact (get_erase_other d.objects other).trans object

theorem createConsumer_new (queue : d.isQueueFamily = true) (env : Env) (id : Nat)
    (kind : AcknowledgeMode) (selector : Option Selector) :
    Has (d.createConsumer env id kind selector) id kind [] := by
  obtain ⟨objects, default⟩ := createConsumer_joined queue env id kind selector
  exact ⟨by simp [default], _, by rw [objects, get_put_same], rfl, by simp⟩

theorem step_has (kept : Kept d) {call : Call} (fine : Fine d call) (has : Has d cid mode l) :
    Has (next d call) cid mode (owed d call cid mode l) := by
  cases call with
  | createDefaultConsumer id kind =>
    obtain ⟨_, c, object, rest⟩ := has
    have apart : cid ≠ id := by
      rintro rfl
      rw [fine.2.1] at object
      cases object
    simp only [next, step, Destination.createDefaultConsumer, kept.queue, if_true]
    refine ⟨?_, c, (get_put_other d.objects _ apart).trans object, rest⟩
    intro same
    exact apart (Option.some.inj same).symm
  | createConsumer env id kind selector => exact createConsumer_has kept.queue has fine.2.1 kind selector
  | createProducer id kind => exact has.stays (createProducer_stays d id kind)
  | send env pid t m => exact has.stays (send_stays env d pid t m)
  | sendWith env pid t m opts => exact has.stays (sendWith_stays env d pid t m opts)
  | commitProducer env pid t => exact has.stays (commitProducer_stays env d pid t)
  | rollbackProducer env pid t => exact has.stays (rollbackProducer_stays env d pid t)
  | recv env id patience => exact recv_has fine has patience
  | rollbackConsumer env id closing =>
    obtain ⟨ends, stays⟩ := rollbackConsumer_ends kept fine closing
    exact has.ended ends stays
  | commitConsumer id =>
    obtain ⟨ends, stays⟩ := commitConsumer_ends d id
    exact has.ended ends stays
  | deliverDue env => exact has.stays (deliverDue_stays env d)
  | rehash order =>
    simp only [next, step, Destination.rehash]
    split
    · exact has.same (by rfl) (by rfl)
    · exact has
  | _ => exact fine.elim

end Has

def World.each (w : World) (l : Assoc Nat Nat) (f : Nat → Call) : World :=
  l.foldl (fun w x => w.onDestination x.2 fun d => next d (f x.1)) w

def workOn (l : Assoc Nat Nat) (did : Nat) : List Nat := (l.filter (·.2 = did)).map Prod.fst

section Worlds
variable (w : World)

theorem onDestination_at (did i : Nat) (f : Destination → Destination) :
    (w.onDestination did f).destinations i =
      (w.destinations i).map fun d => if i = did then f d else d := by
  by_cases here : i = did
  · subst here
    unfold World.onDestination
    cases found : w.destinations i <;> simp [found]
  · rw [onDestination_other w here]
    simp [here]

theorem each_at (l : Assoc Nat Nat) (f : Nat → Call) (did : Nat) :
    (World.each w l f).destinations did =
      (w.destinations did).map fun d => (workOn l did).foldl (fun d i => next d (f i)) d := by
  unfold World.each
  induction l generalizing w with
  | nil => simp [workOn]
  | cons x l ih =>
    rw [List.foldl_cons, ih, onDestination_at, Option.map_map]
    congr 1
    funext d
    by_cases here : x.2 = did
    · simp [workOn, here]
    · have apart : did ≠ x.2 := fun equal => here equal.symm
      simp [workOn, here, apart]

theorem each_sessions (l : Assoc Nat Nat) (f : Nat → Call) :
    (World.each w l f).sessions = w.sessions := by
  unfold World.each
  induction l generalizing w with
  | nil => rfl
  | cons x l ih => rw [List.foldl_cons, ih, onDestination_sessions]

end Worlds

/-- The invariant of the runs: the queues are in order, a consumer belongs to one
    session, and its transaction holds what the ledger says. -/
structure Sure (s : Watched) : Prop where
  kept : ∀ did d, s.world.destinations did = some d → Kept d
  once : ∀ sid session, s.world.sessions sid = some session →
    (session.consumers.map Prod.fst).Nodup
  single : ∀ sid sid' session session' cid did did', s.world.sessions sid = some session →
    s.world.sessions sid' = some session' → get session.consumers cid = some did →
      get session'.consumers cid = some did' → sid = sid'
  holds : ∀ sid session cid did, s.world.sessions sid = some session →
    get session.consumers cid = some did →
      ∃ d, s.world.destinations did = some d ∧ Has d cid session.mode (s.received cid)

section Sure
variable {s : Watched}

theorem Sure.on (sure : Sure s) {did : Nat} {f : Destination → Destination}
    {received : Nat → List Message}
    (kept : ∀ d, s.world.destinations did = some d → Kept d → Kept (f d))
    (has : ∀ sid session cid i, s.world.sessions sid = some session →
      get session.consumers cid = some i → ∀ d, s.world.destinations i = some d →
        Has d cid session.mode (s.received cid) →
          Has (if i = did then f d else d) cid session.mode (received cid)) :
    Sure ⟨s.world.onDestination did f, received⟩ where
  kept := by
    intro i d' found
    rcases onDestination_cases found with ⟨d, rfl, before, rfl⟩ | ⟨_, before⟩
    · exact kept d before (sure.kept i d before)
    · exact sure.kept i d' before
  once := by
    rw [onDestination_sessions]
    exact sure.once
  single := by
    rw [onDestination_sessions]
    exact sure.single
  holds := by
    intro sid session cid i mine consumer
    rw [onDestination_sessions] at mine
    obtain ⟨d, found, before⟩ := sure.holds sid session cid i mine consumer
    rw [onDestination_at, found]
    exact ⟨_, rfl, has sid session cid i mine consumer d found before⟩

theorem Sure.call (sure : Sure s) {did : Nat} {call : Call} {received : Nat → List Message}
    (fine : ∀ d, s.world.destinations did = some d → Fine d call)
    (ledger : ∀ sid session cid i, s.world.sessions sid = some session →
      get session.consumers cid = some i → ∀ d, s.world.destinations i = some d →
        received cid =
          if i = did then owed d call cid session.mode (s.received cid) else s.received cid) :
    Sure ⟨s.world.onDestination did fun d => next d call, received⟩ := by
  refine sure.on (fun d found kept => step_kept kept (fine d found)) ?_
  intro sid session cid i mine consumer d found has
  rw [ledger sid session cid i mine consumer d found]
  by_cases here : i = did
  · subst here
    rw [if_pos rfl, if_pos rfl]
    exact step_has (sure.kept i d found) (fine d found) has
  · rw [if_neg here, if_neg here]
    exact has

theorem Sure.quiet (sure : Sure s) (did : Nat) (call : Call)
    (fine : ∀ d, s.world.destinations did = some d → Fine d call)
    (plain : ∀ d cid mode l, owed d call cid mode l = l) : Sure (s.call did call) := by
  refine sure.call fine ?_
  intro sid session cid i _ _ d _
  rw [plain, ite_self]

theorem Sure.each (sure : Sure s) (l : Assoc Nat Nat) {f : Nat → Call}
    (fine : ∀ i d, Fine d (f i)) (plain : ∀ i d cid mode l, owed d (f i) cid mode l = l) :
    Sure { s with world := World.each s.world l f } := by
  unfold World.each
  induction l generalizing s with
  | nil => exact sure
  | cons x l ih =>
    exact ih (s := s.call x.2 (f x.1)) (sure.quiet x.2 (f x.1) (fun d _ => fine x.1 d) (plain x.1))

theorem Sure.ended (sure : Sure s) {sid cid did : Nat} {session : Session} {call : Call}
    (mine : s.world.sessions sid = some session) (consumer : get session.consumers cid = some did)
    (fine : ∀ d, s.world.destinations did = some d → Fine d call)
    (ends : ∀ d i mode l, owed d call i mode l =
      if cid = i ∧ mode = .SESSION_TRANSACTED then [] else l) :
    Sure ⟨s.world.onDestination did fun d => next d call, fun i =>
      if session.mode = .SESSION_TRANSACTED ∧ i = cid then [] else s.received i⟩ := by
  refine sure.call fine ?_
  intro sid' session' i did' theirs works d _
  rw [ends]
  by_cases same : i = cid
  · subst same
    have one := sure.single sid' sid session' session i did' did theirs mine works consumer
    subst one
    rw [mine] at theirs
    cases theirs
    rw [consumer] at works
    cases works
    simp
  · have apart : cid ≠ i := fun equal => same equal.symm
    simp [same, apart]

theorem Sure.ends (sure : Sure s) {sid : Nat} {session : Session} {f : Nat → Call}
    (mine : s.world.sessions sid = some session) (l : Assoc Nat Nat)
    (theirs : ∀ x ∈ l, get session.consumers x.1 = some x.2)
    (fine : ∀ x ∈ l, ∀ d, s.world.destinations x.2 = some d → Fine d (f x.1))
    (lasting : ∀ d i j, Kept d → Fine d (f i) → Fine d (f j) → Fine (next d (f i)) (f j))
    (ends : ∀ cid d i mode l, owed d (f cid) i mode l =
      if cid = i ∧ mode = .SESSION_TRANSACTED then [] else l) :
    Sure ⟨World.each s.world l f, fun i =>
      if session.mode = .SESSION_TRANSACTED ∧ i ∈ l.map Prod.fst then [] else s.received i⟩ := by
  induction l generalizing s with
  | nil => simpa [World.each] using sure
  | cons x l ih =>
    have first := sure.ended mine (theirs x (by simp)) (fine x (by simp)) (ends x.1)
    have rest := ih first (by rw [onDestination_sessions]; exact mine)
      (fun y inside => theirs y (List.mem_cons_of_mem x inside)) (by
        intro y inside d' found
        rw [onDestination_at, Option.map_eq_some_iff] at found
        obtain ⟨d, before, same⟩ := found
        have now := fine y (List.mem_cons_of_mem x inside) d before
        by_cases here : y.2 = x.2
        · rw [← same, if_pos here]
          rw [here] at before
          exact lasting d x.1 y.1 (sure.kept x.2 d before) (fine x (by simp) d before) now
        · rw [← same, if_neg here]
          exact now)
    refine cast (congrArg Sure ?_) rest
    simp only [World.each, List.foldl_cons, List.map_cons, List.mem_cons, Watched.mk.injEq, true_and]
    funext i
    grind

theorem Sure.withSession (sure : Sure s) {sid : Nat} {session : Session}
    (once : (session.consumers.map Prod.fst).Nodup)
    (alone : ∀ sid' session' cid did did', sid' ≠ sid → s.world.sessions sid' = some session' →
      get session'.consumers cid = some did' → get session.consumers cid ≠ some did)
    (holds : ∀ cid did, get session.consumers cid = some did →
      ∃ d, s.world.destinations did = some d ∧ Has d cid session.mode (s.received cid)) :
    Sure { s with world := s.world.setSession sid session } := by
  have cases_ : ∀ i other, (s.world.setSession sid session).sessions i = some other →
      i = sid ∧ other = session ∨ i ≠ sid ∧ s.world.sessions i = some other := by
    intro i other found
    by_cases here : i = sid
    · subst here
      left
      simpa [World.setSession, eq_comm] using found
    · right
      simpa [World.setSession, here] using found
  refine ⟨sure.kept, ?_, ?_, ?_⟩
  · intro i other found
    rcases cases_ i other found with ⟨_, rfl⟩ | ⟨_, before⟩
    · exact once
    · exact sure.once i other before
  · intro i j one two cid did did' first second here there
    rcases cases_ i one first with ⟨rfl, rfl⟩ | ⟨away, before⟩
    · rcases cases_ j two second with ⟨same, _⟩ | ⟨away, before⟩
      · exact same.symm
      · exact absurd here (alone j two cid did did' away before there)
    · rcases cases_ j two second with ⟨rfl, rfl⟩ | ⟨_, after⟩
      · exact absurd there (alone i one cid did' did away before here)
      · exact sure.single i j one two cid did did' before after here there
  · intro i other cid did found here
    rcases cases_ i other found with ⟨_, rfl⟩ | ⟨_, before⟩
    · exact holds cid did here
    · exact sure.holds i other cid did before here

theorem Sure.sameSession (sure : Sure s) {sid : Nat} {session session' : Session}
    (mine : s.world.sessions sid = some session) (consumers : session'.consumers = session.consumers)
    (mode : session'.mode = session.mode) :
    Sure { s with world := s.world.setSession sid session' } := by
  refine sure.withSession ?_ ?_ ?_
  · rw [consumers]
    exact sure.once sid session mine
  · intro i other cid did did' away theirs there here
    rw [consumers] at here
    exact away (sure.single i sid other session cid did' did theirs mine there here)
  · rw [consumers, mode]
    exact fun cid did => sure.holds sid session cid did mine

end Sure

section Settling
variable {s : Watched} {env : Env} {sid : Nat} {session : Session}

theorem within_lasting {d : Destination} (kept : Kept d) {i j : Nat} (within : Within d i)
    (others : Within d j) (closing : Bool) : Within (d.rollbackConsumer env i closing).1 j := by
  rcases rollbackConsumer_within kept within closing with ⟨idle, _⟩ | ⟨c, object, _, back⟩
  · rw [idle]
    exact others
  · obtain ⟨queues, only⟩ := putBackAll_queues .shared c.transactQueue.toList
      (d.setObject i { c with transactQueue := .empty })
    rw [back, only]
    intro m inside
    by_cases here : j = i
    · subst here
      simp [messagesAt, receivedBy, Destination.setObject] at inside
    · have place : Place.received j ≠ .received i := fun same => here (Place.received.inj same)
      have before : m ∈ messagesAt d (.received j) := by
        have chain : ({ c with transactQueue := .empty } : Consumer).inFlight = c.inFlight := rfl
        rw [← setObject_received object chain place]
        exact inside
      exact others m before

/- No message is given up, so the dead-letter queues see nothing. -/
theorem rollbackConsumers_each (w : World) (closing : Bool) (l : Assoc Nat Nat)
    (ready : ∀ x ∈ l, ∀ d, w.destinations x.2 = some d → Kept d ∧ Within d x.1) :
    w.rollbackConsumers env closing l =
      World.each w l fun cid => .rollbackConsumer env cid closing := by
  unfold World.rollbackConsumers World.each
  induction l generalizing w with
  | nil => rfl
  | cons x l ih =>
    have one : w.redelivering env x.2 (fun d => d.rollbackConsumer env x.1 closing) =
        w.onDestination x.2 fun d => next d (.rollbackConsumer env x.1 closing) := by
      unfold World.redelivering World.onDestination
      cases found : w.destinations x.2 with
      | none => rfl
      | some d =>
        obtain ⟨kept, within⟩ := ready x (by simp) d found
        have nothing : (d.rollbackConsumer env x.1 closing).2 = [] := by
          rcases rollbackConsumer_within kept within closing with ⟨idle, _⟩ | ⟨_, _, _, back⟩
          · rw [idle]
          · rw [back]
        simp only [nothing, World.deadLetters]
        split <;> rfl
    rw [List.foldl_cons, List.foldl_cons, one]
    refine ih _ ?_
    intro y inside d' found
    rw [onDestination_at, Option.map_eq_some_iff] at found
    obtain ⟨d, before, same⟩ := found
    obtain ⟨kept, within⟩ := ready y (List.mem_cons_of_mem x inside) d before
    by_cases here : y.2 = x.2
    · rw [← same, if_pos here]
      rw [here] at before
      have first := (ready x (by simp) d before).2
      exact ⟨step_kept kept first, within_lasting kept first within closing⟩
    · rw [← same, if_neg here]
      exact ⟨kept, within⟩

theorem rollbackProducers_only (env : Env) (t : Text) (pids : List Nat) (d : Destination) :
    ∃ producers buffer, pids.foldl (fun d pid => next d (.rollbackProducer env pid t)) d =
      { d with producers := producers, buffer := buffer } := by
  induction pids generalizing d with
  | nil => exact ⟨d.producers, d.buffer, rfl⟩
  | cons pid pids ih =>
    obtain ⟨producers, buffer, first⟩ : ∃ producers buffer, d.rollbackProducer env pid t =
        { d with producers := producers, buffer := buffer } := by
      unfold Destination.rollbackProducer
      split
      · exact ⟨d.producers, d.buffer, rfl⟩
      · dsimp only
        split
        · split
          · exact ⟨_, d.buffer, rfl⟩
          · exact ⟨_, _, rfl⟩
        · exact ⟨d.producers, d.buffer, rfl⟩
    obtain ⟨producers', buffer', rest⟩ := ih (next d (.rollbackProducer env pid t))
    refine ⟨producers', buffer', rest.trans ?_⟩
    rw [show next d (.rollbackProducer env pid t) = d.rollbackProducer env pid t from rfl, first]

theorem commitProducers_each (w : World) (env : Env) (t : Text) (l : Assoc Nat Nat) :
    w.commitProducers env t l = World.each w l fun pid => .commitProducer env pid t := rfl

theorem rollbackProducers_each (w : World) (env : Env) (t : Text) (l : Assoc Nat Nat) :
    w.rollbackProducers env t l = World.each w l fun pid => .rollbackProducer env pid t := rfl

theorem commitConsumers_each (w : World) (l : Assoc Nat Nat) :
    w.commitConsumers l = World.each w l .commitConsumer := rfl

theorem commitProducers_sessions (w : World) (env : Env) (t : Text) (l : Assoc Nat Nat) :
    (w.commitProducers env t l).sessions = w.sessions := by
  rw [commitProducers_each, each_sessions]

theorem rollbackProducers_sessions (w : World) (env : Env) (t : Text) (l : Assoc Nat Nat) :
    (w.rollbackProducers env t l).sessions = w.sessions := by
  rw [rollbackProducers_each, each_sessions]

theorem Sure.committedProducers (sure : Sure s) (works : Works env) (session : Session) :
    Sure { s with world := s.world.commitProducers env session.suffix session.producers } :=
  sure.each session.producers (f := fun pid => .commitProducer env pid session.suffix)
    (fun _ _ => works) (fun _ _ _ _ _ => rfl)

theorem Sure.rolledBackProducers (sure : Sure s) (env : Env) (session : Session) :
    Sure { s with world := s.world.rollbackProducers env session.suffix session.producers } :=
  sure.each session.producers (f := fun pid => .rollbackProducer env pid session.suffix)
    (fun _ _ => trivial) (fun _ _ _ _ _ => rfl)

theorem Sure.commit (sure : Sure s) (mine : s.world.sessions sid = some session) (works : Works env)
    (newSuffix : Text) : Sure ⟨s.world.commit env sid newSuffix, settled session s.received⟩ := by
  have sent := sure.committedProducers works session
  have here : (s.world.commitProducers env session.suffix session.producers).sessions sid =
      some session := by
    rw [commitProducers_sessions]
    exact mine
  have done := sent.ends here session.consumers (f := .commitConsumer)
    (fun x inside => mem_get (sure.once sid session mine) inside) (fun _ _ _ _ => trivial)
    (fun _ _ _ _ _ _ => trivial) (fun _ _ _ _ _ => rfl)
  have still : (World.each (s.world.commitProducers env session.suffix session.producers)
      session.consumers .commitConsumer).sessions sid = some session := by
    rw [each_sessions]
    exact here
  unfold World.commit
  rw [mine]
  exact done.sameSession still rfl rfl

theorem rolledBack_ready (sure : Sure s) (mine : s.world.sessions sid = some session)
    (within : WithinLimits s.world session) (env : Env) :
    ∀ x ∈ session.consumers, ∀ d,
      (s.world.rollbackProducers env session.suffix session.producers).destinations x.2 = some d →
        Kept d ∧ Within d x.1 := by
  intro x inside d' found
  refine ⟨(sure.rolledBackProducers env session).kept x.2 d' found, ?_⟩
  rw [rollbackProducers_each, each_at, Option.map_eq_some_iff] at found
  obtain ⟨d, before, same⟩ := found
  obtain ⟨producers, buffer, only⟩ := rollbackProducers_only env session.suffix
    (workOn session.producers x.2) d
  rw [← same, only]
  exact within x.1 x.2 (mem_get (sure.once sid session mine) inside) d before

theorem rollback_each (sure : Sure s) (mine : s.world.sessions sid = some session)
    (within : WithinLimits s.world session) (env : Env) (newSuffix : Text) :
    s.world.rollback env sid false newSuffix =
      (World.each (s.world.rollbackProducers env session.suffix session.producers)
        session.consumers fun cid => .rollbackConsumer env cid false).setSession sid
          { session with suffix := newSuffix } := by
  unfold World.rollback
  rw [mine]
  dsimp only
  rw [rollbackConsumers_each _ false session.consumers (rolledBack_ready sure mine within env)]

theorem Sure.rollback (sure : Sure s) (mine : s.world.sessions sid = some session)
    (within : WithinLimits s.world session) (env : Env) (newSuffix : Text) :
    Sure ⟨s.world.rollback env sid false newSuffix, settled session s.received⟩ := by
  have sent := sure.rolledBackProducers env session
  have here : (s.world.rollbackProducers env session.suffix session.producers).sessions sid =
      some session := by
    rw [rollbackProducers_sessions]
    exact mine
  have done := sent.ends here session.consumers (f := fun cid => .rollbackConsumer env cid false)
    (fun x inside => mem_get (sure.once sid session mine) inside)
    (fun x inside d found => (rolledBack_ready sure mine within env x inside d found).2)
    (fun d i j kept first second => within_lasting kept first second false)
    (fun _ _ _ _ _ => rfl)
  have still : (World.each (s.world.rollbackProducers env session.suffix session.producers)
      session.consumers fun cid => .rollbackConsumer env cid false).sessions sid = some session := by
    rw [each_sessions]
    exact here
  rw [rollback_each sure mine within]
  exact done.sameSession still rfl rfl

end Settling

section Requests
variable {s : Watched} {env : Env}

theorem new_kept {type : DestinationType} (queue : type = .Queue ∨ type = .TemporaryQueue) :
    Kept { type := type } where
  right := unused_right (new_unused type)
  queue := by simpa [Destination.isQueueFamily] using queue
  filed := by
    refine ⟨tidy_empty, ?_⟩
    intro u buffered
    exact absurd rfl buffered
  immediate := rfl

theorem policy_kept {d : Destination} (kept : Kept d) {policy : RedeliveryPolicy}
    (immediate : policy.backoffMs = 0) : Kept { d with redeliveryPolicy := policy } where
  right := by
    have still : Still d { d with redeliveryPolicy := policy } := by
      intro p
      cases p <;> rfl
    have subs : d.durableSubs = [] := by
      rcases kept.right.ordered with ⟨_, none_⟩ | registry
      · exact none_
      · have topic := topic_notQueue registry.topic
        rw [show d.isQueueFamily = true from kept.queue] at topic
        cases topic
    refine ⟨?_, kept.right.labelled.same rfl rfl, kept.right.wired, Or.inl ⟨kept.queue, subs⟩,
      kept.right.off⟩
    refine (kept.right.tracked.still still (le_refl _)).mono ?_
    intro p m _ settled
    exact ⟨settled.readable, settled.faithful, settled.located, settled.staged⟩
  queue := kept.queue
  filed := kept.filed.same rfl rfl
  immediate := immediate

theorem Sure.setPolicy (sure : Sure s) (did : Nat) {policy : RedeliveryPolicy}
    (immediate : policy.backoffMs = 0) :
    Sure { s with
      world := s.world.onDestination did fun d => { d with redeliveryPolicy := policy } } := by
  refine sure.on (fun d _ kept => policy_kept kept immediate) ?_
  intro sid session cid i mine consumer d found has
  split
  · exact has.same rfl rfl
  · exact has

theorem Sure.made (sure : Sure s) (did : Nat) {type : DestinationType}
    (queue : type = .Queue ∨ type = .TemporaryQueue) :
    Sure { s with
      world := { s.world with
        destinations := Function.update s.world.destinations did
          (some ((s.world.destinations did).getD { type := type })) } } := by
  cases found : s.world.destinations did with
  | some d =>
    rw [Option.getD_some, ← found, Function.update_eq_self]
    exact sure
  | none =>
    refine ⟨?_, sure.once, sure.single, ?_⟩
    · intro i d here
      by_cases same : i = did
      · subst same
        simp only [Option.getD_none, Function.update_self, Option.some.injEq] at here
        rw [← here]
        exact new_kept queue
      · simp only [Function.update_of_ne same] at here
        exact sure.kept i d here
    · intro sid session cid i mine consumer
      obtain ⟨d, there, has⟩ := sure.holds sid session cid i mine consumer
      have apart : i ≠ did := by
        rintro rfl
        rw [found] at there
        cases there
      exact ⟨d, (Function.update_of_ne apart _ _).trans there, has⟩

theorem Sure.createDestination (sure : Sure s) (sid did : Nat) {type : DestinationType} {cid : Nat}
    (queue : type = .Queue ∨ type = .TemporaryQueue) (new : NewCid s.world cid) :
    Sure { s with world := s.world.createDestination sid did type cid } := by
  unfold World.createDestination
  cases s.world.sessions sid with
  | none => exact sure
  | some session =>
    have made := sure.made did queue
    have joined := made.quiet did (.createDefaultConsumer cid session.mode) ?_ ?_
    · refine cast (congrArg Sure ?_) joined
      simp [Watched.call, World.onDestination, next, step]
    · intro d found
      simp only [Function.update_self, Option.some.injEq] at found
      rw [← found]
      cases before : s.world.destinations did with
      | some d =>
        exact (new.2 did d before)
      | none => 
        refine ⟨by simp, rfl, ?_⟩
        intro p place
        rcases place with rfl | rfl <;> simp [messagesAt]
    · intro d i mode l
      rfl

theorem Sure.createSession (sure : Sure s) {sid : Nat} (mode : AcknowledgeMode) (suffix : Text) :
    Sure { s with world := s.world.createSession sid mode suffix } := by
  refine sure.withSession List.nodup_nil ?_ ?_
  · intro _ _ cid did _ _ _ _ here
    cases here
  · intro cid did here
    cases here

theorem Sure.createProducer (sure : Sure s) (sid did pid : Nat) :
    Sure { s with world := s.world.createProducer sid did pid } := by
  unfold World.createProducer
  split
  · rename_i session _ mine _
    have joined := sure.quiet did (.createProducer pid session.mode)
      (fun _ _ => trivial) (fun _ _ _ _ => rfl)
    exact joined.sameSession ((congrFun (onDestination_sessions s.world did _) sid).trans mine)
      rfl rfl
  · exact sure

theorem Sure.forget (sure : Sure s) {cid : Nat} (new : NewCid s.world cid) :
    Sure { s with received := Function.update s.received cid [] } := by
  refine ⟨sure.kept, sure.once, sure.single, ?_⟩
  intro sid session i did mine consumer
  have apart : i ≠ cid := by
    rintro rfl
    rw [new.1 sid session mine] at consumer
    cases consumer
  simp only [Function.update_of_ne apart]
  exact sure.holds sid session i did mine consumer

theorem Sure.createConsumer (sure : Sure s) (sid did : Nat) {cid : Nat} (new : NewCid s.world cid)
    (selector : Option Selector) :
    Sure ⟨s.world.createConsumer env sid did cid selector, Function.update s.received cid []⟩ := by
  unfold World.createConsumer
  split
  · rename_i session d mine found
    have joined := (sure.forget new).quiet did (.createConsumer env cid session.mode selector)
      (fun d found => new.2 did d found) (fun _ _ _ _ => rfl)
    refine joined.withSession (nodup_put (sure.once sid session mine) cid did) ?_ ?_
    · intro i other k place place' away theirs there here
      have before : s.world.sessions i = some other :=
        (congrFun (onDestination_sessions s.world did _) i).symm.trans theirs
      have apart : k ≠ cid := by
        rintro rfl
        rw [new.1 i other before] at there
        cases there
      rw [get_put_other _ _ apart] at here
      exact away (sure.single i sid other session k place' place before mine there here)
    · intro k place here
      by_cases same : k = cid
      · subst same
        rw [get_put_same] at here
        cases here
        refine ⟨_, onDestination_same found _, ?_⟩
        simp only [Watched.call, Function.update_self]
        exact createConsumer_new (sure.kept did d found).queue env k session.mode selector
      · rw [get_put_other _ _ same] at here
        exact joined.holds sid session k place
          ((congrFun (onDestination_sessions s.world did _) sid).trans mine) here
  · exact sure.forget new

theorem Sure.recv (sure : Sure s) {sid cid did : Nat} {session : Session}
    (works : World.consumerOf s.world sid cid = some (session, did)) (patience : Nat)
    (unexpired : ∀ d, s.world.destinations did = some d → Unexpired env d cid) :
    Sure (s.next (.recv env sid cid patience)) := by
  obtain ⟨mine, consumer⟩ : s.world.sessions sid = some session ∧
      get session.consumers cid = some did := by
    simp only [World.consumerOf, Option.bind_eq_some_iff, Option.map_eq_some_iff, Prod.mk.injEq] at works
    obtain ⟨found, mine, place, consumer, rfl, rfl⟩ := works
    exact ⟨mine, consumer⟩
  simp only [Watched.next, works]
  refine sure.call unexpired ?_
  intro sid' session' i place theirs there d found
  by_cases same : i = cid
  · subst same
    have one := sure.single sid' sid session' session i place did theirs mine there consumer
    subst one
    rw [mine] at theirs
    cases theirs
    rw [consumer] at there
    cases there
    simp only [owed, found, Option.bind_some, true_and, if_true]
    split
    · exact Function.update_self ..
    · rfl
  · have apart : cid ≠ i := fun equal => same equal.symm
    simp only [owed, apart, false_and, if_false, ite_self]
    split
    · exact Function.update_of_ne same _ _
    · rfl

theorem step_sure (s : Watched) (request : Request) (sure : Sure s) (asked : Asked s request) :
    Sure (s.next request) := by
  cases request with
  | createSession sid mode suffix => exact sure.createSession mode suffix
  | createDestination sid did type cid => exact sure.createDestination sid did asked.1 asked.2
  | createConsumer env sid did cid selector => exact sure.createConsumer sid did asked selector
  | createProducer sid did pid => exact sure.createProducer sid did pid
  | setRedeliveryPolicy did policy => exact sure.setPolicy did asked
  | send env sid pid m =>
    simp only [Watched.next]
    split
    · exact sure
    · rename_i session did works
      exact sure.quiet did _ (fun d found => ⟨asked.1, asked.2 session did works d found⟩)
        (fun _ _ _ _ => rfl)
  | sendWith env sid pid m opts =>
    simp only [Watched.next]
    split
    · exact sure
    · rename_i session did works
      exact sure.quiet did _ (fun d found => ⟨asked.1, asked.2 session did works d found⟩)
        (fun _ _ _ _ => rfl)
  | deliverDue env did => exact sure.quiet did _ (fun _ _ => trivial) (fun _ _ _ _ => rfl)
  | rehash did consumers => exact sure.quiet did _ (fun _ _ => trivial) (fun _ _ _ _ => rfl)
  | recv env sid cid patience =>
    cases works : World.consumerOf s.world sid cid with
    | none =>
      simp only [Watched.next, works]
      exact sure
    | some r => exact sure.recv works patience (asked r.1 r.2 works)
  | commit env sid newSuffix =>
    simp only [Watched.next, Watched.settle]
    split
    · exact sure
    · rename_i session mine
      exact sure.commit mine asked newSuffix
  | rollback env sid newSuffix =>
    simp only [Watched.next, Watched.settle]
    split
    · exact sure
    · rename_i session mine
      exact sure.rollback mine (asked session mine) env newSuffix

end Requests

def receivedOn (session : Session) (received : Nat → List Message) (did : Nat) : List Message :=
  (workOn session.consumers did).flatMap received

/-- The message as it was received, counted as given back once more. -/
structure GivenBack (m back : Message) : Prop where
  same : back.oid = m.oid
  content : back.content = { m.content with
    headers := { m.content.headers with
      redelivered := true, deliveryCount := m.content.headers.deliveryCount + 1,
      deliveryTime := 0 } }

/-- A commit takes away the records of the received messages and no other one. Their
    objects are nowhere any more, and beyond what the producers of the session sent,
    nothing is put into a queue. -/
structure Committed (d sent d' : Destination) (received : List Message) : Prop where
  removed : ∀ x ∈ liveRecords (d'.stores .shared).log, ∀ m ∈ received,
    m.isPersistent = true → x.1.key ≠ m.uuid
  others : ∀ x ∈ liveRecords (d.stores .shared).log,
    (∀ m ∈ received, m.isPersistent = true → x.1.key ≠ m.uuid) →
      x ∈ liveRecords (d'.stores .shared).log
  gone : ∀ m ∈ received, ∀ p, ∀ x ∈ messagesAt d' p, x.oid ≠ m.oid
  queues : ∀ q p, Waits q p → messagesAt d' p = messagesAt sent p

/-- A rollback takes no record away and puts each received message into the queue, once. -/
structure RolledBack (d d' : Destination) (received : List Message) : Prop where
  records : d'.stores = d.stores
  back : ∃ back, List.Forall₂ GivenBack received back ∧
    (messagesAt d' (.queued .shared)).Perm (messagesAt d (.queued .shared) ++ back)

section Effects
variable {env : Env} {d : Destination} {cid : Nat} {l : List Message}

theorem commitConsumer_effect (kept : Kept d) (has : Has d cid .SESSION_TRANSACTED l) :
    (∀ x, x ∈ liveRecords ((d.commitConsumer cid).stores .shared).log ↔
        x ∈ liveRecords (d.stores .shared).log ∧
          ∀ m ∈ l, ¬ (m.isPersistent = true ∧ x.1.key = m.uuid)) ∧
      ∀ p, messagesAt (d.commitConsumer cid) p = if p = .received cid then [] else messagesAt d p := by
  obtain ⟨_, c, object, kind, holds⟩ := has
  have emptied : Filed (d.setObject cid { c with transactQueue := .empty }) :=
    kept.filed.same rfl rfl
  have dropped := (dropRecords_filed emptied (kept.shared cid c object).2 (kept.located object)).2
  have whole : d.commitConsumer cid = c.transactQueue.toList.foldl (Destination.dropRecord c)
      (d.setObject cid { c with transactQueue := .empty }) := by
    simp [Destination.commitConsumer, object, kind]
  constructor
  · intro x
    rw [whole, dropped]
    simp only [holds.mem_iff]
    rfl
  · intro p
    obtain ⟨stores, only⟩ := dropRecords_stores
      (d.setObject cid { c with transactQueue := .empty }) c c.transactQueue.toList
    rw [whole, only, stores_still _ stores p]
    split
    · rename_i here
      subst here
      simp [messagesAt, receivedBy, Destination.setObject]
    · rename_i elsewhere
      exact setObject_received object (by rfl) elsewhere

theorem commitConsumers_effect {received : Nat → List Message} {cids : List Nat} (kept : Kept d)
    (once : cids.Nodup) (has : ∀ cid ∈ cids, Has d cid .SESSION_TRANSACTED (received cid)) :
    (∀ x, x ∈ liveRecords
          ((cids.foldl (fun d cid => next d (.commitConsumer cid)) d).stores .shared).log ↔
        x ∈ liveRecords (d.stores .shared).log ∧
          ∀ m ∈ cids.flatMap received, ¬ (m.isPersistent = true ∧ x.1.key = m.uuid)) ∧
      ∀ p, messagesAt (cids.foldl (fun d cid => next d (.commitConsumer cid)) d) p =
        if p ∈ cids.map Place.received then [] else messagesAt d p := by
  induction cids generalizing d with
  | nil => simp
  | cons cid cids ih =>
    obtain ⟨absent, rest⟩ := List.nodup_cons.mp once
    obtain ⟨live, places⟩ := commitConsumer_effect kept (has cid (by simp))
    have fine : Fine d (.commitConsumer cid) := trivial
    have later : ∀ i ∈ cids, Has (next d (.commitConsumer cid)) i .SESSION_TRANSACTED (received i) := by
      intro i inside
      have apart : cid ≠ i := by
        rintro rfl
        exact absent inside
      have stepped := step_has kept fine (has i (List.mem_cons_of_mem cid inside))
      simpa [owed, apart] using stepped
    obtain ⟨live', places'⟩ := ih (step_kept kept fine) rest later
    rw [List.foldl_cons]
    constructor
    · intro x
      rw [live', show next d (.commitConsumer cid) = d.commitConsumer cid from rfl, live, and_assoc]
      simp only [List.flatMap_cons, List.mem_append, or_imp, forall_and]
    · intro p
      rw [places', show next d (.commitConsumer cid) = d.commitConsumer cid from rfl, places]
      simp only [List.map_cons, List.mem_cons]
      grind

theorem putBackAll_perm (q : QueueId) (ms : List Message) (d : Destination) :
    (messagesAt (ms.foldl (fun d m => d.enqueue q (putBack m)) d) (.queued q)).Perm
      (messagesAt d (.queued q) ++ ms.map putBack) := by
  induction ms generalizing d with
  | nil => simp
  | cons m ms ih =>
    refine (ih (d.enqueue q (putBack m))).trans ?_
    refine ((enqueue_puts d q (putBack m)).1.append_right (ms.map putBack)).trans ?_
    exact List.perm_middle.symm

theorem rollbackConsumer_effect (kept : Kept d) (has : Has d cid .SESSION_TRANSACTED l)
    (within : Within d cid) (closing : Bool) :
    (d.rollbackConsumer env cid closing).1.stores = d.stores ∧
      (messagesAt (d.rollbackConsumer env cid closing).1 (.queued .shared)).Perm
        (messagesAt d (.queued .shared) ++ l.map putBack) := by
  obtain ⟨_, c, object, kind, holds⟩ := has
  rcases rollbackConsumer_within kept within closing with ⟨_, plain⟩ | ⟨c', found, _, back⟩
  · exact absurd kind (plain c object)
  · rw [object] at found
    cases found
    rw [back]
    constructor
    · obtain ⟨queues, only⟩ := putBackAll_queues .shared c.transactQueue.toList
        (d.setObject cid { c with transactQueue := .empty })
      rw [only]
      rfl
    · refine (putBackAll_perm .shared c.transactQueue.toList _).trans ?_
      exact (holds.map putBack).append_left _

theorem rollbackConsumers_effect (env : Env) {received : Nat → List Message} {cids : List Nat} (kept : Kept d)
    (once : cids.Nodup) (has : ∀ cid ∈ cids, Has d cid .SESSION_TRANSACTED (received cid))
    (within : ∀ cid ∈ cids, Within d cid) (closing : Bool) :
    (cids.foldl (fun d cid => next d (.rollbackConsumer env cid closing)) d).stores = d.stores ∧
      (messagesAt (cids.foldl (fun d cid => next d (.rollbackConsumer env cid closing)) d)
        (.queued .shared)).Perm
          (messagesAt d (.queued .shared) ++ (cids.flatMap received).map putBack) := by
  induction cids generalizing d with
  | nil => simp
  | cons cid cids ih =>
    obtain ⟨absent, rest⟩ := List.nodup_cons.mp once
    have first := within cid (by simp)
    have fine : Fine d (.rollbackConsumer env cid closing) := first
    obtain ⟨stores, perm⟩ := rollbackConsumer_effect kept (has cid (by simp)) first closing
    have later : ∀ i ∈ cids, Has (next d (.rollbackConsumer env cid closing)) i
        .SESSION_TRANSACTED (received i) := by
      intro i inside
      have apart : cid ≠ i := by
        rintro rfl
        exact absent inside
      have stepped := step_has kept fine (has i (List.mem_cons_of_mem cid inside))
      simpa [owed, apart] using stepped
    obtain ⟨stores', perm'⟩ := ih (step_kept kept fine)
      rest later fun i inside =>
        within_lasting kept first (within i (List.mem_cons_of_mem cid inside)) closing
    rw [List.foldl_cons]
    refine ⟨stores'.trans stores, perm'.trans ?_⟩
    rw [List.flatMap_cons, List.map_append, ← List.append_assoc]
    exact perm.append_right _

theorem appends_live {d' : Destination} {records : List Addressed} (appends : Appends env d d' records)
    {x : Entry UUID Content × Nat} (live : x ∈ liveRecords (d.stores .shared).log) :
    x ∈ liveRecords (d'.stores .shared).log := by
  obtain ⟨entry, flag⟩ := mem_liveRecords_iff.mp live
  obtain ⟨k, grown⟩ := appends_prefix (env.appendFails .shared) (d.stores .shared)
    (recordsFor .shared records)
  rw [appends.stores, appendAll_at, grown]
  refine mem_liveRecords_iff.mpr ⟨?_, flag⟩
  rw [List.getElem?_append_left (List.getElem?_eq_some_iff.mp entry).1]
  exact entry

theorem committed_here {sent : Destination} {received : Nat → List Message} {cids : List Nat}
    (kept : Kept sent) (once : cids.Nodup)
    (has : ∀ cid ∈ cids, Has sent cid .SESSION_TRANSACTED (received cid))
    (before : ∀ x ∈ liveRecords (d.stores .shared).log, x ∈ liveRecords (sent.stores .shared).log) :
    Committed d sent (cids.foldl (fun d cid => next d (.commitConsumer cid)) sent)
      (cids.flatMap received) := by
  obtain ⟨live, places⟩ := commitConsumers_effect kept once has
  refine ⟨?_, ?_, ?_, ?_⟩
  · intro x member m inside persistent same
    exact ((live x).mp member).2 m inside ⟨persistent, same⟩
  · intro x member others
    refine (live x).mpr ⟨before x member, ?_⟩
    intro m inside both
    exact others m inside both.1 both.2
  · intro m inside p x member same
    obtain ⟨cid, here, mem⟩ := List.mem_flatMap.mp inside
    rw [places] at member
    split at member
    · cases member
    · rename_i elsewhere
      -- the object was in the transaction of the consumer, so it is nowhere else
      obtain ⟨_, c, object, _, holds⟩ := has cid here
      have was : m ∈ messagesAt sent (.received cid) := by
        simpa [messagesAt, receivedBy, object] using holds.mem_iff.mpr mem
      have place := kept.unique.apart p (.received cid) x m member was same
      exact elsewhere (List.mem_map.mpr ⟨cid, here, place.symm⟩)
  · intro q p place
    rw [places, if_neg]
    intro inside
    obtain ⟨cid, _, rfl⟩ := List.mem_map.mp inside
    rcases place with same | same <;> cases same

theorem putBack_given (m : Message) : GivenBack m (putBack m) := by
  refine ⟨?_, ?_⟩
  · unfold putBack Message.refreshCachedStorageBytes
    split <;> rfl
  · unfold putBack Message.refreshCachedStorageBytes
    split <;> rfl

theorem putBacks_given (ms : List Message) : List.Forall₂ GivenBack ms (ms.map putBack) := by
  induction ms with
  | nil => exact .nil
  | cons m ms ih => exact .cons (putBack_given m) ih

end Effects

/-- The transaction of a session is one unit for what its consumers received. -/
structure Atomic (s : Watched) (sid : Nat) (session : Session) : Prop where
  holds : ∀ cid did, get session.consumers cid = some did →
    ∃ d c, s.world.destinations did = some d ∧ get d.objects cid = some c ∧
      c.transactQueue.toList.Perm (s.received cid)
  commit : ∀ env newSuffix, Works env → ∀ did d, s.world.destinations did = some d →
    ∃ sent d', (s.world.commitProducers env session.suffix session.producers).destinations did =
        some sent ∧
      (s.world.commit env sid newSuffix).destinations did = some d' ∧
        Committed d sent d' (receivedOn session s.received did)
  rollback : ∀ env newSuffix, WithinLimits s.world session → ∀ did d,
    s.world.destinations did = some d →
      ∃ d', (s.world.rollback env sid false newSuffix).destinations did = some d' ∧
        RolledBack d d' (receivedOn session s.received did)

section Atomic
variable {s : Watched} {sid : Nat} {session : Session}

theorem workOn_get {l : Assoc Nat Nat} (once : (l.map Prod.fst).Nodup) {did i : Nat}
    (inside : i ∈ workOn l did) : get l i = some did := by
  simp only [workOn, List.mem_map, List.mem_filter, decide_eq_true_eq] at inside
  obtain ⟨x, ⟨member, rfl⟩, rfl⟩ := inside
  exact mem_get once member

theorem workOn_once {l : Assoc Nat Nat} (once : (l.map Prod.fst).Nodup) (did : Nat) :
    (workOn l did).Nodup :=
  (List.filter_sublist.map Prod.fst).nodup once

theorem Sure.working (sure : Sure s) (mine : s.world.sessions sid = some session)
    {did : Nat} {d : Destination} (found : s.world.destinations did = some d) :
    ∀ cid ∈ workOn session.consumers did, Has d cid session.mode (s.received cid) := by
  intro cid inside
  obtain ⟨d', there, has⟩ := sure.holds sid session cid did mine
    (workOn_get (sure.once sid session mine) inside)
  rw [found] at there
  cases there
  exact has

theorem Sure.commits (sure : Sure s) (mine : s.world.sessions sid = some session)
    (transacted : session.mode = .SESSION_TRANSACTED) {env : Env} (works : Works env)
    (newSuffix : Text) {did : Nat} {d : Destination} (found : s.world.destinations did = some d) :
    ∃ sent d', (s.world.commitProducers env session.suffix session.producers).destinations did =
        some sent ∧
      (s.world.commit env sid newSuffix).destinations did = some d' ∧
        Committed d sent d' (receivedOn session s.received did) := by
  obtain ⟨sent, there, appends⟩ := commitProducers_appends env session.suffix session.producers found
  have after := sure.committedProducers works session
  have still : (s.world.commitProducers env session.suffix session.producers).sessions sid =
      some session := by
    rw [commitProducers_sessions]
    exact mine
  have has := after.working still there
  rw [transacted] at has
  have committed := committed_here (after.kept did sent there)
    (workOn_once (sure.once sid session mine) did) has fun x member => appends_live appends member
  refine ⟨sent, _, there, ?_, committed⟩
  unfold World.commit
  rw [mine]
  simp only [World.setSession, commitConsumers_each, each_at, there, Option.map_some]

theorem Sure.rollbacks (sure : Sure s) (mine : s.world.sessions sid = some session)
    (transacted : session.mode = .SESSION_TRANSACTED) (env : Env)
    (within : WithinLimits s.world session) (newSuffix : Text) {did : Nat} {d : Destination}
    (found : s.world.destinations did = some d) :
    ∃ d', (s.world.rollback env sid false newSuffix).destinations did = some d' ∧
      RolledBack d d' (receivedOn session s.received did) := by
  obtain ⟨producers, buffer, only⟩ := rollbackProducers_only env session.suffix
    (workOn session.producers did) d
  have there : (s.world.rollbackProducers env session.suffix session.producers).destinations did =
      some { d with producers := producers, buffer := buffer } := by
    rw [rollbackProducers_each, each_at, found, Option.map_some, only]
  have after := sure.rolledBackProducers env session
  have still : (s.world.rollbackProducers env session.suffix session.producers).sessions sid =
      some session := by
    rw [rollbackProducers_sessions]
    exact mine
  have has := after.working still there
  rw [transacted] at has
  have limits : ∀ cid ∈ workOn session.consumers did,
      Within { d with producers := producers, buffer := buffer } cid := by
    intro cid inside
    have member := get_mem (workOn_get (sure.once sid session mine) inside)
    exact (rolledBack_ready sure mine within env _ member _ there).2
  obtain ⟨stores, perm⟩ := rollbackConsumers_effect env (after.kept did _ there)
    (workOn_once (sure.once sid session mine) did) has limits false
  refine ⟨_, ?_, stores, _, putBacks_given _, perm⟩
  rw [rollback_each sure mine within]
  simp only [World.setSession, each_at, there, Option.map_some]

theorem Sure.atomic (sure : Sure s) (mine : s.world.sessions sid = some session)
    (transacted : session.mode = .SESSION_TRANSACTED) : Atomic s sid session where
  holds := by
    intro cid did consumer
    obtain ⟨d, found, _, c, object, _, holds⟩ := sure.holds sid session cid did mine consumer
    exact ⟨d, c, found, object, holds⟩
  commit := fun env newSuffix works did d found =>
    sure.commits mine transacted works newSuffix found
  rollback := fun env newSuffix within did d found =>
    sure.rollbacks mine transacted env within newSuffix found

end Atomic

def competingRun : List Request :=
  [.createSession 0 .SESSION_TRANSACTED ['t'], .createDestination 0 0 .Queue 0,
    .createConsumer calm 0 0 1 none, .createConsumer calm 0 0 2 none,
    .createSession 1 .AUTO_ACKNOWLEDGE [], .createProducer 1 0 5,
    .send calm 1 5 (letter 0 7), .send calm 1 5 (letter 0 8), .recv calm 0 1 0, .recv calm 0 2 0,
    .rollback calm 0 ['u'], .recv calm 0 2 0]

def competed : Watched := competingRun.foldl Watched.next {}

theorem newCid_two {w : World} {cid : Nat} (sessions : ∀ k, w.sessions (k + 2) = none)
    (destinations : ∀ k, w.destinations (k + 1) = none)
    (unknown : ∀ sid < 2, ∀ session ∈ w.sessions sid, get session.consumers cid = none)
    (absent : ∀ d ∈ w.destinations 0, cid ∉ d.consumers ∧ get d.objects cid = none ∧
      (d.queues (.own cid)).toList = [] ∧ d.pending = []) : NewCid w cid := by
  refine ⟨?_, ?_⟩
  · intro sid session found
    match sid, found with
    | 0, found => exact unknown 0 (by decide) session found
    | 1, found => exact unknown 1 (by decide) session found
    | k + 2, found =>
      rw [sessions k] at found
      cases found
  · intro did d found
    match did, found with
    | 0, found =>
      obtain ⟨outside, object, queue, pending⟩ := absent d found
      refine ⟨outside, object, ?_⟩
      rintro p (rfl | rfl)
      · exact queue
      · simp [messagesAt, pending]
    | k + 1, found =>
      rw [destinations k] at found
      cases found

theorem competingRun_asked : Meets Watched.next Asked {} competingRun := by
  refine ⟨rfl, ⟨Or.inl rfl, ?_⟩, ?_, ?_, rfl, trivial, ⟨fun _ _ => rfl, ?_⟩, ⟨fun _ _ => rfl, ?_⟩,
    ?_, ?_, ?_, ?_, trivial⟩
  · exact newCid_two (fun _ => rfl) (fun _ => rfl) (by decide) (by decide)
  · exact newCid_two (fun _ => rfl) (fun _ => rfl) (by decide) (by decide)
  · exact newCid_two (fun _ => rfl) (fun _ => rfl) (by decide) (by decide)
  · intro session did works d found
    cases works
    cases found
    exact ⟨fun _ => rfl, by decide⟩
  · intro session did works d found
    cases works
    cases found
    exact ⟨fun _ => rfl, by decide⟩
  · intro session did works d found
    cases works
    cases found
    decide
  · intro session did works d found
    cases works
    cases found
    decide
  · intro session mine cid did consumer d found
    cases mine
    have two : (cid, did) ∈ [(1, 0), (2, 0)] := get_mem consumer
    simp only [List.mem_cons, Prod.mk.injEq, List.not_mem_nil, or_false] at two
    rcases two with ⟨rfl, rfl⟩ | ⟨rfl, rfl⟩ <;> cases found <;> decide
  · intro session did works d found
    cases works
    cases found
    decide +kernel

end TinyMqTransactedReceive
