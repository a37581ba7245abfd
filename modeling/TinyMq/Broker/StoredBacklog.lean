import TinyMq.Broker.Inversion
import TinyMq.Broker.LabelledRecords
import TinyMq.Broker.LazyAcks
import TinyMq.Broker.Records
import TinyMq.Broker.SingleHolder

/-!
One storage and the consumers that work on it. What waits for such a consumer carries the
location and the bytes of a record, what its acknowledgements take along are records of the
acknowledged messages, and a record that is owed is not among them.
-/
namespace TinyMqStoredBacklog
open DelimitedText AssocLists BandQueues TombstoneLog TinyMqTom TinyMqMessage TinyMqStore
open TinyMqDestination TinyMqFrames TinyMqPlaces TinyMqOrigins TinyMqLabelledRecords TinyMqRecords
open TinyMqInversion TinyMqLazyAcks TinyMqSingleHolder

/-- The consumer works on the storage; the files of the consumers in `gone` are deleted. -/
def Works (sid : StorageId) (gone : List Nat) (d : Destination) (cid : Nat) (c : Consumer) : Prop :=
  get d.objects cid = some c ∧ c.storage = sid ∧ cid ∉ gone

def Extends (s s' : Store Content) : Prop :=
  ∀ (n : Nat) (e : Entry UUID Content), s.log[n]? = some e →
    ∃ e', s'.log[n]? = some e' ∧ e'.key = e.key ∧ e'.data = e.data

/-- A persistent message with the location and the bytes of one record. -/
def Bound (s : Store Content) (m : Message) : Prop :=
  m.isPersistent = true → ∃ (n : Nat) (e : Entry UUID Content) (t : Int),
    m.location = some n ∧ s.log[n]? = some e ∧ e.key = m.uuid ∧
      m.cachedStorageBytes = some (e.data.withDeliveryTime t)

def Bounded (sid : StorageId) (gone : List Nat) (d : Destination) : Prop :=
  ∀ cid c, Works sid gone d cid c → ∀ p, Waits (.own cid) p → ∀ m ∈ messagesAt d p,
    Bound (d.stores sid) m

/-- The content is that of the message, with the uuid and the number it got on its way. -/
def Says (uuid : UUID) (m : Message) (content : Content) : Prop :=
  ∃ number, content = { m.content with uuid := uuid, number := number }

/-- Records that removals name are records of the uuids they name. -/
def Named (s : Store Content) (recs : List (Nat × UUID)) : Prop :=
  ∀ r ∈ recs, ∃ e : Entry UUID Content, s.log[r.1]? = some e ∧ e.key = r.2

/-- The message has a live record under the uuid, and no consumer is about to remove it. -/
def Kept (sid : StorageId) (gone : List Nat) (d : Destination) (uuid : UUID) (m : Message) : Prop :=
  ∃ (n : Nat) (e : Entry UUID Content), (d.stores sid).log[n]? = some e ∧ e.removed = false ∧
    e.key = uuid ∧ Says uuid m e.data ∧ ∀ cid c, Works sid gone d cid c → ∀ r ∈ c.pendingAcks, r.1 ≠ n

/-- A storage that works, with what its consumers have in memory and in hand. -/
structure Backlog (sid : StorageId) (gone : List Nat) (d : Destination)
    (handed : List (Nat × Message)) (owed : List (UUID × Message)) : Prop where
  good : (d.stores sid).good = true
  own : ∀ cid c, get d.objects cid = some c → c.queue = .own cid ∧ c.mode ≠ .SESSION_TRANSACTED
  bound : Bounded sid gone d
  named : ∀ cid c, Works sid gone d cid c → Named (d.stores sid) c.pendingAcks
  handed : ∀ x ∈ handed, ∀ c, Works sid gone d x.1 c → LocatedIn (d.stores sid) x.2
  kept : ∀ o ∈ owed, Kept sid gone d o.1 o.2

section Records
variable {s s' s'' : Store Content} {m : Message}

theorem Extends.refl (s : Store Content) : Extends s s := fun _ e here => ⟨e, here, rfl, rfl⟩

theorem Extends.trans (one : Extends s s') (two : Extends s' s'') : Extends s s'' := by
  intro n e here
  obtain ⟨e', there, key, data⟩ := one n e here
  obtain ⟨e'', last, key', data'⟩ := two n e' there
  exact ⟨e'', last, key'.trans key, data'.trans data⟩

theorem extends_longer {l : Log UUID Content} (log : s'.log = s.log ++ l) : Extends s s' := by
  intro n e here
  have inside := (List.getElem?_eq_some_iff.mp here).1
  exact ⟨e, by rw [log, List.getElem?_append_left inside, here], rfl, rfl⟩

theorem extends_append (s : Store Content) (uuid : UUID) (content : Content) (fails : Bool) :
    Extends s (s.append uuid content fails).1 := by
  unfold Store.append
  split
  · exact extends_longer rfl
  · exact Extends.refl s

theorem extends_removeAll (good : s.good = true) (recs : List (Nat × UUID)) :
    Extends s (removeAll s recs) := by
  intro n e here
  rw [removeAll_log good, here, Option.map_some]
  refine ⟨_, rfl, ?_, ?_⟩
  · split <;> rfl
  · split <;> rfl

theorem removeAll_live (good : s.good = true) {recs : List (Nat × UUID)} {n : Nat}
    {e : Entry UUID Content} (here : s.log[n]? = some e) (other : ∀ r ∈ recs, r.1 ≠ n) :
    (removeAll s recs).log[n]? = some e := by
  have unnamed : n ∉ recs.map Prod.fst := by
    intro member
    obtain ⟨r, inside, same⟩ := List.mem_map.mp member
    exact other r inside same
  rw [removeAll_log good, here, Option.map_some, if_neg unnamed]

theorem Bound.extends (bound : Bound s m) (extends_ : Extends s s') : Bound s' m := by
  intro persistent
  obtain ⟨n, e, t, location, here, key, bytes⟩ := bound persistent
  obtain ⟨e', there, key', data⟩ := extends_ n e here
  exact ⟨n, e', t, location, there, key'.trans key, by rw [data]; exact bytes⟩

theorem Bound.retimed {x : Message} (bound : Bound s x) (retimed : Retimed x m) : Bound s m := by
  intro persistent
  rw [retimed.persistent] at persistent
  obtain ⟨n, e, t, location, here, key, bytes⟩ := bound persistent
  rcases retimed.cached with same | ⟨t', changed⟩
  · exact ⟨n, e, t, retimed.location.trans location, here, key.trans retimed.uuid.symm,
      same.trans bytes⟩
  · exact ⟨n, e, t', retimed.location.trans location, here, key.trans retimed.uuid.symm, by
      rw [changed, bytes, Option.map_some, withDeliveryTime_twice]⟩

theorem located_extends (located : LocatedIn s m) (extends_ : Extends s s') : LocatedIn s' m := by
  intro persistent n at_
  have before := located persistent n at_
  simp only [keys, List.getElem?_map, Option.map_eq_some_iff] at before ⊢
  obtain ⟨e, here, key⟩ := before
  obtain ⟨e', there, key', _⟩ := extends_ n e here
  exact ⟨e', there, key'.trans key⟩

theorem Named.extends {recs : List (Nat × UUID)} (named : Named s recs) (extends_ : Extends s s') :
    Named s' recs := by
  intro r member
  obtain ⟨e, here, key⟩ := named r member
  obtain ⟨e', there, key', _⟩ := extends_ r.1 e here
  exact ⟨e', there, key'.trans key⟩

end Records

/-- The call removes records of the storage and takes nothing in: what it removes, and what is
    new in the batches of the consumers, is in `fresh` or has waited in a batch. -/
structure Removes (sid : StorageId) (gone gone' : List Nat) (fresh : List (Nat × UUID))
    (d d' : Destination) : Prop where
  store : ∃ recs, d'.stores sid = removeAll (d.stores sid) recs ∧
    ∀ r ∈ recs, r ∈ fresh ∨ ∃ cid c, Works sid gone d cid c ∧ r ∈ c.pendingAcks
  own : ∀ cid c, get d'.objects cid = some c → c.queue = .own cid ∧ c.mode ≠ .SESSION_TRANSACTED
  works : ∀ cid c', Works sid gone' d' cid c' →
    ∃ c, Works sid gone d cid c ∧ ∀ r ∈ c'.pendingAcks, r ∈ fresh ∨ r ∈ c.pendingAcks
  waits : ∀ cid c', Works sid gone' d' cid c' → ∀ p, Waits (.own cid) p → ∀ m ∈ messagesAt d' p,
    ∃ p', Waits (.own cid) p' ∧ m ∈ messagesAt d p'

section Steps
variable {sid : StorageId} {gone gone' : List Nat} {d d' : Destination}
  {handed : List (Nat × Message)} {owed : List (UUID × Message)}

theorem Backlog.removes (log : Backlog sid gone d handed owed) (fresh : List (Nat × UUID))
    (removes : Removes sid gone gone' fresh d d') (named : Named (d.stores sid) fresh)
    (spared : ∀ o ∈ owed, ∀ (n : Nat) (e : Entry UUID Content), (d.stores sid).log[n]? = some e →
      e.key = o.1 → Says o.1 o.2 e.data → ∀ r ∈ fresh, r.1 ≠ n) :
    Backlog sid gone' d' handed owed := by
  obtain ⟨recs, store, from_⟩ := removes.store
  have extends_ : Extends (d.stores sid) (d'.stores sid) := by
    rw [store]
    exact extends_removeAll log.good recs
  refine
    { good := ?good
      own := removes.own
      bound := ?bound
      named := ?named
      handed := ?handed
      kept := ?kept }
  case good =>
    rw [store]
    exact removeAll_good log.good recs
  case bound =>
    intro cid c' works p place m inside
    obtain ⟨c, before, _⟩ := removes.works cid c' works
    obtain ⟨p', place', there⟩ := removes.waits cid c' works p place m inside
    exact (log.bound cid c before p' place' m there).extends extends_
  case named =>
    intro cid c' works r inside
    obtain ⟨c, before, old⟩ := removes.works cid c' works
    rcases old r inside with new | waited
    · exact named.extends extends_ r new
    · exact (log.named cid c before).extends extends_ r waited
  case handed =>
    intro x member c' works
    obtain ⟨c, before, _⟩ := removes.works x.1 c' works
    exact located_extends (log.handed x member c before) extends_
  case kept =>
    intro o member
    obtain ⟨n, e, here, live, key, content, free⟩ := log.kept o member
    have alone := spared o member n e here key content
    refine ⟨n, e, ?_, live, key, content, ?_⟩
    · rw [store]
      refine removeAll_live log.good here ?_
      intro r inside
      rcases from_ r inside with new | ⟨cid, c, works, waited⟩
      · exact alone r new
      · exact free cid c works r waited
    · intro cid c' works r inside
      obtain ⟨c, before, old⟩ := removes.works cid c' works
      rcases old r inside with new | waited
      · exact alone r new
      · exact free cid c before r waited

structure Quiet (sid : StorageId) (gone gone' : List Nat) (d d' : Destination) : Prop where
  store : d'.stores sid = d.stores sid
  own : ∀ cid c, get d'.objects cid = some c → c.queue = .own cid ∧ c.mode ≠ .SESSION_TRANSACTED
  works : ∀ cid c', Works sid gone' d' cid c' →
    ∃ c, Works sid gone d cid c ∧ c'.pendingAcks = c.pendingAcks
  waits : ∀ cid c', Works sid gone' d' cid c' → ∀ p, Waits (.own cid) p → ∀ m ∈ messagesAt d' p,
    ∃ p', Waits (.own cid) p' ∧ m ∈ messagesAt d p'

theorem Backlog.quiet (log : Backlog sid gone d handed owed) (quiet : Quiet sid gone gone' d d') :
    Backlog sid gone' d' handed owed := by
  refine log.removes [] ⟨⟨[], quiet.store, by simp⟩, quiet.own, ?_, quiet.waits⟩ (by simp [Named])
    (by simp)
  intro cid c' works
  obtain ⟨c, before, same⟩ := quiet.works cid c' works
  exact ⟨c, before, fun r inside => Or.inr (same ▸ inside)⟩

theorem waits_same {q : QueueId} {p : Place} (place : Waits q p) {m : Message}
    (inside : m ∈ messagesAt d' p) (queues : d'.queues = d.queues) (pending : d'.pending = d.pending) :
    ∃ p', Waits q p' ∧ m ∈ messagesAt d p' := by
  refine ⟨p, place, ?_⟩
  rcases place with rfl | rfl
  · rw [messagesAt, queues] at inside
    exact inside
  · rw [messagesAt, pending] at inside
    exact inside

theorem Backlog.same (log : Backlog sid gone d handed owed) (store : d'.stores sid = d.stores sid)
    (objects : d'.objects = d.objects) (queues : d'.queues = d.queues)
    (pending : d'.pending = d.pending) : Backlog sid gone d' handed owed := by
  refine log.quiet ⟨store, by rw [objects]; exact log.own, ?_,
    fun _ _ _ _ place _ inside => waits_same place inside queues pending⟩
  intro cid c works
  unfold Works at works
  rw [objects] at works
  exact ⟨c, works, rfl⟩

theorem deliverDue_backlog (log : Backlog sid gone d handed owed) (env : Env) :
    Backlog sid gone (d.deliverDue env) handed owed := by
  unfold Destination.deliverDue
  split
  · exact log
  · rename_i t q m rest first
    split
    · refine log.quiet ⟨rfl, log.own, fun _ c works => ⟨c, works, rfl⟩, ?_⟩
      intro cid _ _ p place x inside
      have puts := enqueue_puts { d with pending := rest } q m
      have takes := due_takes first
      by_cases here : p = .queued q
      · subst here
        rcases List.mem_cons.mp (puts.1.mem_iff.mp inside) with new | old
        · rw [new]
          refine ⟨.scheduled q, ?_, takes.1.mem_iff.mpr (by simp)⟩
          rcases place with same | same
          · exact Or.inr (congrArg Place.scheduled (Place.queued.inj same))
          · cases same
        · exact ⟨_, place, takes.2 (.queued q) (by simp) ▸ old⟩
      · rw [puts.2 p here] at inside
        by_cases there : p = .scheduled q
        · subst there
          exact ⟨_, place, takes.1.mem_iff.mpr (List.mem_append_right _ inside)⟩
        · exact ⟨p, place, takes.2 p there ▸ inside⟩
    · exact log

theorem Backlog.fewer (log : Backlog sid gone d handed owed) {handed' : List (Nat × Message)}
    {owed' : List (UUID × Message)} (less : handed' ⊆ handed) (less' : owed' ⊆ owed) :
    Backlog sid gone d handed' owed' :=
  { log with
    handed := fun x member => log.handed x (less member)
    kept := fun o member => log.kept o (less' member) }

end Steps

section Sends
variable {sid : StorageId} {gone : List Nat} {d e : Destination}

theorem Bounded.put (bounded : Bounded sid gone d) {p : Place} {m : Message} (puts : Puts p m d e)
    (objects : e.objects = d.objects) (stores : e.stores sid = d.stores sid)
    (fits : ∀ cid c, Works sid gone d cid c → Waits (.own cid) p → Bound (d.stores sid) m) :
    Bounded sid gone e := by
  intro cid c works p' place x inside
  unfold Works at works
  rw [objects] at works
  rw [stores]
  by_cases here : p' = p
  · subst here
    rcases List.mem_cons.mp (puts.1.mem_iff.mp inside) with new | old
    · rw [new]
      exact fits cid c works place
    · exact bounded cid c works p' place x old
  · rw [puts.2 p' here] at inside
    exact bounded cid c works p' place x inside

theorem Bounded.still (bounded : Bounded sid gone d) (still : Still d e)
    (objects : e.objects = d.objects) (extends_ : Extends (d.stores sid) (e.stores sid)) :
    Bounded sid gone e := by
  intro cid c works p place m inside
  unfold Works at works
  rw [objects] at works
  rw [still p] at inside
  exact (bounded cid c works p place m inside).extends extends_

theorem Bounded.enqueueOrSchedule (bounded : Bounded sid gone d) (env : Env) {q : QueueId}
    {m : Message} (fits : ∀ cid c, Works sid gone d cid c → q = .own cid → Bound (d.stores sid) m) :
    Bounded sid gone (d.enqueueOrSchedule env q m) := by
  have clamped : ∀ cid c, Works sid gone d cid c → ∀ p, Waits q p → Waits (.own cid) p →
      Bound (d.stores sid) (clampFuture env m) := by
    intro cid c works p place mine
    refine (fits cid c works ?_).retimed (clampFuture_retimed env m)
    rcases place with rfl | rfl <;> rcases mine with same | same <;> cases same <;> rfl
  rcases enqueueOrSchedule_cases env d q m with now | dropped | later
  · rw [now]
    exact bounded.put (enqueue_puts d q _) rfl rfl fun cid c works mine =>
      clamped cid c works _ (Or.inl rfl) mine
  · rw [dropped]
    exact bounded
  · rw [later]
    exact bounded.put (schedule_puts d _ q _) rfl rfl fun cid c works mine =>
      clamped cid c works _ (Or.inr rfl) mine

theorem appendRecord_store (env : Env) (d : Destination) (sid' : StorageId) (uuid : UUID)
    (content : Content) : Extends (d.stores sid) ((d.appendRecord env sid' uuid content).1.stores sid) := by
  by_cases here : sid = sid'
  · subst here
    simp only [Destination.appendRecord, Function.update_self]
    exact extends_append _ _ _ _
  · simp only [Destination.appendRecord, Function.update_of_ne here]
    exact Extends.refl _

theorem appendRecord_good {env : Env} (works : ∀ n, env.appendFails sid n = false)
    (good : (d.stores sid).good = true) (sid' : StorageId) (uuid : UUID) (content : Content) :
    ((d.appendRecord env sid' uuid content).1.stores sid).good = true := by
  by_cases here : sid = sid'
  · subst here
    simp [Destination.appendRecord, Store.append, good, works]
  · simp only [Destination.appendRecord, Function.update_of_ne here]
    exact good

theorem appendRecord_bound {env : Env} (works : ∀ n, env.appendFails sid n = false)
    (good : (d.stores sid).good = true) {uuid : UUID} {content : Content} {m : Message}
    (own : m.uuid = uuid) (location : m.location = (d.appendRecord env sid uuid content).2)
    (bytes : m.cachedStorageBytes = some content) :
    Bound ((d.appendRecord env sid uuid content).1.stores sid) m := by
  intro _
  have written : (d.stores sid).good = true ∧
      env.appendFails sid (d.stores sid).log.length = false := ⟨good, works _⟩
  refine ⟨(d.stores sid).log.length, ⟨uuid, content, false⟩, content.headers.deliveryTime, ?_, ?_,
    own.symm, bytes⟩
  · rw [location]
    simp [Destination.appendRecord, Store.append, written]
  · simp [Destination.appendRecord, Store.append, written, TombstoneLog.append]

/-- A storage that works, with what waits for its consumers. -/
structure Ready (sid : StorageId) (gone : List Nat) (d : Destination) : Prop where
  good : (d.stores sid).good = true
  own : ∀ cid c, get d.objects cid = some c → c.queue = .own cid
  bound : Bounded sid gone d

theorem preparePush_ready (ready : Ready sid gone d) {env : Env}
    (works : ∀ n, env.appendFails sid n = false) (cid : Nat) (c : Consumer) (number : Int)
    (m : Message) : Ready sid gone (d.preparePush env cid c number [] m).1 ∧
      (d.preparePush env cid c number [] m).1.objects = d.objects ∧
      (c.storage = sid → Bound ((d.preparePush env cid c number [] m).1.stores sid)
        (d.preparePush env cid c number [] m).2) := by
  let counted : Destination := { d with nextOid := d.nextOid + 1 }
  have start : Bounded sid gone counted := by
    refine ready.bound.still ?_ rfl (Extends.refl _)
    intro p
    cases p <;> rfl
  unfold Destination.preparePush
  dsimp only
  split
  · rw [if_neg (fun outside => outside rfl)]
    refine ⟨⟨appendRecord_good works (d := counted) ready.good _ _ _, ready.own, ?_⟩, rfl, ?_⟩
    · exact start.still (stores_still counted _) rfl (appendRecord_store env counted _ _ _)
    · intro here
      subst here
      exact appendRecord_bound works (d := counted) ready.good rfl rfl rfl
  · rename_i volatile
    exact ⟨⟨ready.good, ready.own, start⟩, rfl, fun _ persistent => absurd persistent volatile⟩

theorem Ready.enqueueOrSchedule (ready : Ready sid gone d) (env : Env) {q : QueueId} {m : Message}
    (fits : ∀ cid c, Works sid gone d cid c → q = .own cid → Bound (d.stores sid) m) :
    Ready sid gone (d.enqueueOrSchedule env q m) where
  good := by
    rw [enqueueOrSchedule_stores]
    exact ready.good
  own := by
    rw [(enqueueOrSchedule_same env d q m).objects]
    exact ready.own
  bound := ready.bound.enqueueOrSchedule env fits

theorem push_ready (ready : Ready sid gone d) {env : Env} (works : ∀ n, env.appendFails sid n = false)
    (number : Int) (pid : Nat) (m : Message) (cid : Nat) :
    Ready sid gone (Destination.push env number pid [] m d cid) := by
  unfold Destination.push
  split
  · exact ready
  · rename_i c object
    split
    · obtain ⟨after, objects, bound⟩ := preparePush_ready ready works cid c number m
      -- The queue is that of this consumer only.
      have fits : ∀ cid' c', Works sid gone (d.preparePush env cid c number [] m).1 cid' c' →
          c.queue = .own cid' → Bound ((d.preparePush env cid c number [] m).1.stores sid)
            (d.preparePush env cid c number [] m).2 := by
        intro cid' c' mine queue
        rw [ready.own cid c object] at queue
        cases queue
        unfold Works at mine
        rw [objects, object, Option.some.injEq] at mine
        exact bound (by rw [mine.1]; exact mine.2.1)
      dsimp only
      rw [if_pos rfl]
      split
      · exact after.enqueueOrSchedule env fits
      · refine ⟨after.good, after.own, ?_⟩
        exact after.bound.put (enqueue_puts _ _ _) rfl rfl fun cid' c' mine place => by
          rcases place with same | same
          · exact fits cid' c' mine (Place.queued.inj same)
          · cases same
    · exact ready

theorem persistOffline_ready (ready : Ready sid gone d) {env : Env}
    (works : ∀ n, env.appendFails sid n = false) (m : Message) :
    Ready sid gone (d.persistOffline env m) := by
  unfold Destination.persistOffline
  induction d.durableSubs generalizing d with
  | nil => exact ready
  | cons entry entries ih =>
    rw [List.foldl_cons]
    refine ih ?_
    split
    · exact ready
    · split
      · exact ⟨appendRecord_good works ready.good _ _ _, ready.own,
          ready.bound.still (stores_still d _) rfl (appendRecord_store env d _ _ _)⟩
      · exact ready

theorem save_ready (ready : Ready sid gone d) {env : Env} (works : ∀ n, env.appendFails sid n = false)
    (pid : Nat) (m : Message) : Ready sid gone (d.save env pid [] m) := by
  have pushed : ∀ (l : List Nat) (e : Destination), Ready sid gone e →
      Ready sid gone (l.foldl (Destination.push env d.messageCounter pid [] m) e) := by
    intro l
    induction l with
    | nil => exact fun e here => here
    | cons cid l ih => exact fun e here => ih _ (push_ready here works _ pid m cid)
  have counted : Ready sid gone { d with messageCounter := d.messageCounter + 1 } := by
    refine ⟨ready.good, ready.own, ready.bound.still ?_ rfl (Extends.refl _)⟩
    intro p
    cases p <;> rfl
  unfold Destination.save
  dsimp only
  split
  · exact persistOffline_ready (pushed _ _ counted) works m
  · exact pushed _ _ counted

theorem save_log (good : (d.stores sid).good = true) {env : Env}
    (works : ∀ n, env.appendFails sid n = false) (pid : Nat) (m : Message) :
    ((d.save env pid [] m).stores sid).log =
      (d.stores sid).log ++ stored (recordsFor sid (sendRecords env d m)) := by
  rw [(save_appends env d pid m).stores, appendAll_at]
  exact (appends_stored good fun i _ => works _).1

variable {handed : List (Nat × Message)} {owed : List (UUID × Message)}

theorem save_backlog (log : Backlog sid gone d handed owed) {env : Env}
    (works : ∀ n, env.appendFails sid n = false) (pid : Nat) (m : Message) :
    Backlog sid gone (d.save env pid [] m) handed owed := by
  have same := save_same env d pid [] m
  have ready : Ready sid gone d := ⟨log.good, fun cid c object => (log.own cid c object).1, log.bound⟩
  have after := save_ready ready works pid m
  have longer := save_log log.good works pid m
  have extends_ : Extends (d.stores sid) ((d.save env pid [] m).stores sid) := extends_longer longer
  have before : ∀ cid c, Works sid gone (d.save env pid [] m) cid c → Works sid gone d cid c := by
    intro cid c mine
    unfold Works at mine
    rw [same.objects] at mine
    exact mine
  refine
    { good := after.good
      own := ?own
      bound := after.bound
      named := ?named
      handed := ?handed
      kept := ?kept }
  case own =>
    rw [same.objects]
    exact log.own
  case named =>
    exact fun cid c mine => (log.named cid c (before cid c mine)).extends extends_
  case handed =>
    exact fun x member c mine => located_extends (log.handed x member c (before x.1 c mine)) extends_
  case kept =>
    intro o member
    obtain ⟨n, e, here, live, key, content, free⟩ := log.kept o member
    have inside := (List.getElem?_eq_some_iff.mp here).1
    exact ⟨n, e, by rw [longer, List.getElem?_append_left inside, here], live, key, content,
      fun cid c mine => free cid c (before cid c mine)⟩

theorem save_keeps (log : Backlog sid gone d handed owed) {env : Env}
    (works : ∀ n, env.appendFails sid n = false) (pid : Nat) {m : Message} {uuid : UUID}
    {content : Content} (record : (uuid, content) ∈ recordsFor sid (sendRecords env d m))
    (told : Says uuid m content) : Kept sid gone (d.save env pid [] m) uuid m := by
  have longer := save_log log.good works pid m
  have member : (⟨uuid, content, false⟩ : Entry UUID Content) ∈
      stored (recordsFor sid (sendRecords env d m)) := List.mem_map.mpr ⟨_, record, rfl⟩
  obtain ⟨i, inside, at_⟩ := List.getElem_of_mem member
  refine ⟨(d.stores sid).log.length + i, ⟨uuid, content, false⟩, ?_, rfl, rfl, told, ?_⟩
  · rw [longer, List.getElem?_append_right (Nat.le_add_right _ _), Nat.add_sub_cancel_left,
      List.getElem?_eq_getElem inside, at_]
  · intro cid c mine r batch same
    unfold Works at mine
    rw [(save_same env d pid [] m).objects] at mine
    obtain ⟨e, here, _⟩ := log.named cid c mine r batch
    have below := (List.getElem?_eq_some_iff.mp here).1
    omega

end Sends

section Consumers
variable {sid : StorageId} {gone gone' : List Nat} {d d' : Destination} {cid : Nat} {c : Consumer}
  {handed : List (Nat × Message)} {owed : List (UUID × Message)}

def dropped (d : Destination) (c : Consumer) (m : Message) : List (Nat × UUID) :=
  if m.isPersistent then (d.locate c m).toList else []

theorem dropRecord_spec (d : Destination) (c : Consumer) (m : Message) :
    d.dropRecord c m = { d with
      stores := Function.update d.stores c.storage
        (removeAll (d.stores c.storage) (dropped d c m)) } := by
  have nothing : d = { d with
      stores := Function.update d.stores c.storage (removeAll (d.stores c.storage) []) } := by
    have same : Function.update d.stores c.storage (removeAll (d.stores c.storage) []) = d.stores :=
      Function.update_eq_self _ _
    rw [same]
  unfold Destination.dropRecord Destination.removeLocated dropped
  split
  · cases d.locate c m with
    | none => exact nothing
    | some rec => rfl
  · exact nothing

structure Lessened (cid : Nat) (d d' : Destination) : Prop where
  objects : ∀ cid', (get d'.objects cid').map (fun c => (settings c, c.pendingAcks)) =
    (get d.objects cid').map fun c => (settings c, c.pendingAcks)
  waits : ∀ q p, Waits q p → messagesAt d' p ⊆ messagesAt d p
  stores : ∀ sid, (∀ c, get d.objects cid = some c → c.storage ≠ sid) → d'.stores sid = d.stores sid

theorem Lessened.found (less : Lessened cid d d') {cid' : Nat} {c' : Consumer}
    (object : get d'.objects cid' = some c') :
    ∃ c, get d.objects cid' = some c ∧ settings c' = settings c ∧ c'.pendingAcks = c.pendingAcks := by
  have same := less.objects cid'
  rw [object] at same
  obtain ⟨c, before, equal⟩ := Option.map_eq_some_iff.mp same.symm
  simp only [Prod.mk.injEq] at equal
  exact ⟨c, before, equal.1.symm, equal.2.symm⟩

theorem Lessened.works (less : Lessened cid d d') {cid' : Nat} {c' : Consumer}
    (works : Works sid gone d' cid' c') :
    ∃ c, Works sid gone d cid' c ∧ c'.pendingAcks = c.pendingAcks := by
  obtain ⟨c, before, same, batch⟩ := less.found works.1
  simp only [settings, Prod.mk.injEq] at same
  exact ⟨c, ⟨before, same.2.2.1 ▸ works.2.1, works.2.2⟩, batch⟩

theorem Lessened.own (less : Lessened cid d d')
    (own : ∀ cid c, get d.objects cid = some c → c.queue = .own cid ∧ c.mode ≠ .SESSION_TRANSACTED)
    (cid' : Nat) (c' : Consumer) (object : get d'.objects cid' = some c') :
    c'.queue = .own cid' ∧ c'.mode ≠ .SESSION_TRANSACTED := by
  obtain ⟨c, before, same, _⟩ := less.found object
  simp only [settings, Prod.mk.injEq] at same
  rw [same.1, same.2.1]
  exact own cid' c before

theorem Lessened.trans {e : Destination} (one : Lessened cid d e) (two : Lessened cid e d') :
    Lessened cid d d' where
  objects := fun cid' => (two.objects cid').trans (one.objects cid')
  waits := fun q p place _ inside => one.waits q p place (two.waits q p place inside)
  stores := by
    intro sid other
    rw [two.stores sid, one.stores sid other]
    intro c' object
    obtain ⟨c, before, same, _⟩ := one.found object
    simp only [settings, Prod.mk.injEq] at same
    rw [same.2.2.1]
    exact other c before

theorem dequeue_lessened (cid : Nat) {q : QueueId} {m : Message} {queue : QueueT}
    (next : (d.queues q).dequeue = some (m, queue)) : Lessened cid d (d.setQueue q queue) where
  objects := fun _ => rfl
  waits := by
    intro _ p _ x inside
    obtain ⟨here, elsewhere⟩ := dequeue_takes next
    by_cases same : p = .queued q
    · subst same
      exact here.mem_iff.mpr (List.mem_append_right _ inside)
    · exact elsewhere p same ▸ inside
  stores := fun _ _ => rfl

theorem track_lessened (object : get d.objects cid = some c) (m : Message) :
    Lessened cid d (d.setObject cid (track c m)) where
  objects := by
    intro cid'
    by_cases here : cid' = cid
    · subst here
      have batch : (track c m).pendingAcks = c.pendingAcks := by
        unfold track
        split <;> rfl
      simp [Destination.setObject, object, track_settings, batch]
    · simp only [Destination.setObject, get_put_other d.objects _ here]
  waits := by
    intro q p place x inside
    rcases place with rfl | rfl <;> exact inside
  stores := fun _ _ => rfl

theorem drop_lessened (object : get d.objects cid = some c) (m : Message) :
    Lessened cid d (d.dropRecord c m) := by
  rw [dropRecord_spec]
  refine ⟨fun _ => rfl, ?_, ?_⟩
  · intro q p place x inside
    rcases place with rfl | rfl <;> exact inside
  · intro sid other
    exact Function.update_of_ne (fun same => other c object same.symm) _ _

theorem recv_lessened (env : Env) (cid patience : Nat) (d : Destination) :
    Lessened cid d (d.recv env cid patience).1 := by
  refine recv_rule (P := fun d r => Lessened cid d r.1) ?_ ?_ ?_ patience d
  · exact fun d => ⟨fun _ => rfl, fun _ _ _ => List.Subset.refl _, fun _ _ => rfl⟩
  · intro d c m q object next
    exact (dequeue_lessened cid next).trans (track_lessened (d := d.setQueue c.queue q) object _)
  · intro d c m q r object next rest
    have gone := drop_lessened (d := d.setQueue c.queue q) object
      ((d.setQueue c.queue q).rehydrate c m)
    exact ((dequeue_lessened cid next).trans gone).trans rest

theorem Backlog.cutOff (log : Backlog sid gone d handed owed) (less : Lessened cid d d')
    {stores : StorageId → Store Content} (store : stores sid = d.stores sid) :
    Backlog sid gone { d' with stores := stores } handed owed := by
  refine log.quiet ⟨store, less.own log.own, fun _ _ works => less.works works, ?_⟩
  intro _ _ _ p place m inside
  refine ⟨p, place, less.waits _ p place ?_⟩
  rcases place with rfl | rfl <;> exact inside

theorem Backlog.lessened (log : Backlog sid gone d handed owed) (less : Lessened cid d d')
    (store : d'.stores sid = d.stores sid) : Backlog sid gone d' handed owed :=
  log.cutOff less store

theorem Bound.opened {s : Store Content} {x m : Message} (bound : Bound s x) (opened : Opened x m)
    (sound : Sound Content.uuid s) (persistent : x.isPersistent = true) :
    ∃ (n : Nat) (e : Entry UUID Content) (t : Int), m.location = some n ∧ s.log[n]? = some e ∧
      e.key = m.uuid ∧ m.content = e.data.withDeliveryTime t := by
  obtain ⟨n, e, t, location, here, _, bytes⟩ := bound persistent
  have read := opened.read persistent _ bytes
  refine ⟨n, e, t, opened.location.trans location, here, ?_, by rw [read]⟩
  rw [← sound.named e (List.mem_of_getElem? here), Message.uuid, read]
  rfl

theorem Bound.located {s : Store Content} {x m : Message} (bound : Bound s x) (opened : Opened x m)
    (sound : Sound Content.uuid s) : LocatedIn s m := by
  intro persistent n at_
  cases stored : x.isPersistent with
  | false =>
    rw [opened.volatile stored, stored] at persistent
    cases persistent
  | true =>
    obtain ⟨n', e, t, location, here, key, _⟩ := bound.opened opened sound stored
    rw [location, Option.some.injEq] at at_
    rw [← at_, keys, List.getElem?_map, here, ← key]
    rfl

theorem Bound.spares {x m o : Message} {nowMs : Int} {uuid : UUID} {s : Store Content}
    (bound : Bound s x) (opened : Opened x m) (sound : Sound Content.uuid s)
    (late : m.isExpired nowMs = true) (lives : o.isExpired nowMs = false) {n : Nat}
    {e : Entry UUID Content} (here : s.log[n]? = some e) (told : Says uuid o e.data)
    (persistent : x.isPersistent = true) : m.location ≠ some n := by
  intro same
  obtain ⟨n', e', t, location, there, _, content⟩ := bound.opened opened sound persistent
  rw [location, Option.some.injEq] at same
  subst same
  rw [here, Option.some.injEq] at there
  subst there
  obtain ⟨number, data⟩ := told
  have expiration : m.content.headers.expiration = o.content.headers.expiration := by
    rw [content, data]
    rfl
  unfold Message.isExpired at late lives
  rw [expiration, lives] at late
  cases late

theorem drop_backlog (log : Backlog sid gone d handed owed) (sound : Sound Content.uuid (d.stores sid))
    (works : Works sid gone d cid c) {x m : Message} (bound : Bound (d.stores sid) x)
    (opened : Opened x m) {nowMs : Int} (late : m.isExpired nowMs = true)
    (lives : ∀ o ∈ owed, o.2.isExpired nowMs = false) :
    Backlog sid gone (d.dropRecord c m) handed owed := by
  have one : ∀ r ∈ dropped d c m, x.isPersistent = true ∧ m.location = some r.1 ∧
      ∃ e : Entry UUID Content, (d.stores sid).log[r.1]? = some e ∧ e.key = r.2 := by
    intro r member
    unfold dropped at member
    split at member
    · rename_i persistent
      have stored : x.isPersistent = true := by
        cases stored : x.isPersistent with
        | true => rfl
        | false =>
          rw [opened.volatile stored, stored] at persistent
          cases persistent
      obtain ⟨n, e, t, location, here, key, _⟩ := bound.opened opened sound stored
      have located : d.locate c m = some (n, m.uuid) := by
        unfold Destination.locate
        rw [location]
      rw [located, Option.toList_some, List.mem_singleton] at member
      rw [member]
      exact ⟨stored, location, e, here, key⟩
    · cases member
  rw [dropRecord_spec]
  refine log.removes (dropped d c m) ⟨⟨dropped d c m, ?_, fun r inside => Or.inl inside⟩,
    log.own, fun cid c here => ⟨c, here, fun r inside => Or.inr inside⟩, ?_⟩ ?_ ?_
  · rw [← works.2.1]
    exact Function.update_self _ _ _
  · intro cid' c' _ p place m' inside
    refine ⟨p, place, ?_⟩
    rcases place with rfl | rfl <;> exact inside
  · exact fun r member => (one r member).2.2
  · rintro o member n e here - told r inside rfl
    obtain ⟨stored, location, _⟩ := one r inside
    exact bound.spares opened sound late (lives o member) here told stored location

theorem round_backlog (log : Backlog sid gone d handed owed) (labelled : Labelled d)
    (works : Works sid gone d cid c) {nowMs : Int} (lives : ∀ o ∈ owed, o.2.isExpired nowMs = false)
    {m : Message} {q : QueueT} (next : (d.queues c.queue).dequeue = some (m, q))
    (late : ((d.setQueue c.queue q).rehydrate c m).isExpired nowMs = true) :
    Backlog sid gone
      ((d.setQueue c.queue q).dropRecord c ((d.setQueue c.queue q).rehydrate c m)) handed owed := by
  let taken := d.setQueue c.queue q
  have waits : m ∈ messagesAt d (.queued (.own cid)) := by
    rw [← (log.own cid c works.1).1]
    exact (dequeue_takes next).1.mem_iff.mpr (by simp)
  have after := log.lessened (dequeue_lessened cid next) rfl
  exact drop_backlog (d := taken) after (labelled.stores sid) works
    (log.bound cid c works _ (Or.inl rfl) m waits) (rehydrate_opened taken c m) late lives

theorem recv_backlog (log : Backlog sid gone d handed owed) (labelled : Labelled d)
    (works : Works sid gone d cid c) (env : Env) (patience : Nat)
    (lives : ∀ o ∈ owed, o.2.isExpired env.nowMs = false) :
    Backlog sid gone (d.recv env cid patience).1
      (handed ++ (d.recv env cid patience).2.toList.map fun m => (cid, m)) owed := by
  refine recv_rounds env (P := fun _ d r => Labelled d → ∀ c, Works sid gone d cid c →
    Backlog sid gone d handed owed →
    Backlog sid gone r.1 (handed ++ r.2.toList.map fun m => (cid, m)) owed)
    ?_ ?_ ?_ ?_ ?_ patience d labelled c works log
  · intro patience d _ _ c _ log
    simpa using log
  · intro patience d c _ _ _ c _ log
    simpa using log
  · intro patience d c m q object next _ labelled c' works log
    obtain rfl : c = c' := Option.some.inj (object.symm.trans works.1)
    let taken := d.setQueue c.queue q
    have less := (dequeue_lessened cid next).trans
      (track_lessened (d := taken) object (taken.rehydrate c m))
    have after := log.lessened less rfl
    have waits : m ∈ messagesAt d (.queued (.own cid)) := by
      rw [← (log.own cid c object).1]
      exact (dequeue_takes next).1.mem_iff.mpr (by simp)
    have located : LocatedIn (d.stores sid) (taken.rehydrate c m) :=
      (log.bound cid c works _ (Or.inl rfl) m waits).located (rehydrate_opened taken c m)
        (labelled.stores sid)
    refine { after with handed := ?_ }
    intro x member c'' works'
    rcases List.mem_append.mp member with old | new
    · exact after.handed x old c'' works'
    · obtain rfl : x = (cid, taken.rehydrate c m) := by simpa using new
      exact located
  · intro d c m q object next late labelled c' works log
    obtain rfl : c = c' := Option.some.inj (object.symm.trans works.1)
    simpa using round_backlog log labelled works lives next late
  · intro patience d c m q r object next late rest labelled c' works log
    obtain rfl : c = c' := Option.some.inj (object.symm.trans works.1)
    have taken : Labelled (d.setQueue c.queue q) := labelled.same rfl rfl
    have still := (dropRecord_same (d.setQueue c.queue q) c
      ((d.setQueue c.queue q).rehydrate c m)).objects
    exact rest (dropRecord_labelled taken c _) c ⟨by rw [still]; exact object, works.2⟩
      (round_backlog log labelled works lives next late)

theorem acknowledge_own (log : Backlog sid gone d handed owed) (m : Message) (cid' : Nat) (c' : Consumer)
    (object : get (d.acknowledgeOn cid m).objects cid' = some c') :
    c'.queue = .own cid' ∧ c'.mode ≠ .SESSION_TRANSACTED := by
  obtain ⟨c, before, same⟩ := (acknowledgeOn_steady d cid m).found_before object
  simp only [settings, Prod.mk.injEq] at same
  rw [← same.1, ← same.2.1]
  exact log.own cid' c before

theorem acknowledge_backlog (log : Backlog sid gone d handed owed)
    (sound : Sound Content.uuid (d.stores sid)) (works : Works sid gone d cid c) {m : Message}
    (located : LocatedIn (d.stores sid) m) (other : ∀ o ∈ owed, o.1 ≠ m.uuid) :
    Backlog sid gone (d.acknowledgeOn cid m) handed owed := by
  have plain := (log.own cid c works.1).2
  obtain ⟨stores, c', object, -, storage, batch⟩ := acknowledgeOn_spec (m := m) works.1 plain
  obtain ⟨stores', c'', shape⟩ := acknowledgeOn_shape (m := m) works.1 plain
  have member := removals_batched (m := m) works.1 plain
  rw [← batch] at member
  have found : ∀ r ∈ (if m.isPersistent = true then d.locate c m else none).toList,
      r.2 = m.uuid ∧ ∃ e : Entry UUID Content, (d.stores sid).log[r.1]? = some e ∧ e.key = r.2 := by
    intro r inside
    split at inside
    · rename_i persistent
      have here := Option.mem_toList.mp inside
      have uuid := locate_uuid here
      refine ⟨uuid, ?_⟩
      unfold Destination.locate at here
      split at here
      · rename_i n at_
        obtain rfl := Option.some.inj here
        have record := located persistent n at_
        rw [keys, List.getElem?_map, Option.map_eq_some_iff] at record
        exact record
      · obtain ⟨n, record, same⟩ := Option.map_eq_some_iff.mp here
        rw [works.2.1] at record
        obtain ⟨e, at_, key⟩ := sound.indexed m.uuid n record
        rw [← same]
        exact ⟨e, at_, key⟩
    · cases inside
  refine log.removes (if m.isPersistent = true then d.locate c m else none).toList
    ⟨⟨removals d cid m, ?_, ?_⟩, acknowledge_own log m, ?_, ?_⟩ ?_ ?_
  · rw [stores, works.2.1, Function.update_self]
  · intro r inside
    rcases (member r).mp (Or.inl inside) with waited | new
    · exact Or.inr ⟨cid, c, works, waited⟩
    · exact Or.inl new
  · intro cid' d' works'
    by_cases here : cid' = cid
    · subst here
      obtain rfl := Option.some.inj (object.symm.trans works'.1)
      exact ⟨c, works, fun r inside => ((member r).mp (Or.inr inside)).symm⟩
    · refine ⟨d', ?_, fun r inside => Or.inr inside⟩
      unfold Works at works' ⊢
      rw [shape] at works'
      simp only [get_put_other d.objects _ here] at works'
      exact works'
  · intro cid' _ _ p place x inside
    rw [shape] at inside
    exact waits_same place inside rfl rfl
  · exact fun r inside => (found r inside).2
  · rintro o owing n e here key - r inside rfl
    obtain ⟨uuid, e', there, key'⟩ := found r inside
    rw [here, Option.some.injEq] at there
    subst there
    exact other o owing (key.symm.trans (key'.trans uuid))

theorem acknowledge_quiet (log : Backlog sid gone d handed owed) (m : Message)
    (off : ∀ c, ¬ Works sid gone d cid c) {stores : StorageId → Store Content}
    (same : stores sid = d.stores sid) :
    Backlog sid gone { d.acknowledgeOn cid m with stores := stores } handed owed := by
  cases object : get d.objects cid with
  | none =>
    have nothing : d.acknowledgeOn cid m = d := by
      unfold Destination.acknowledgeOn
      rw [object]
    rw [nothing]
    exact log.quiet ⟨same, log.own, fun _ c works => ⟨c, works, rfl⟩,
      fun _ _ _ p place _ inside => waits_same place inside rfl rfl⟩
  | some c =>
    obtain ⟨stores', c', shape⟩ := acknowledgeOn_shape (m := m) object (log.own cid c object).2
    refine log.quiet ⟨same, acknowledge_own log m, ?_, ?_⟩
    · intro cid' c'' works
      by_cases here : cid' = cid
      · subst here
        obtain ⟨c₀, before, settled⟩ := (acknowledgeOn_steady d cid' m).found_before works.1
        simp only [settings, Prod.mk.injEq] at settled
        exact absurd ⟨before, settled.2.2.1.symm ▸ works.2.1, works.2.2⟩ (off c₀)
      · refine ⟨c'', ?_, rfl⟩
        unfold Works at works ⊢
        rw [shape] at works
        simp only [get_put_other d.objects _ here] at works
        exact works
    · intro cid' _ _ p place x inside
      rw [shape] at inside
      exact waits_same place inside rfl rfl

theorem destroy_backlog (log : Backlog sid gone d handed owed) (env : Env) (cid : Nat)
    {stores : StorageId → Store Content}
    (written : stores sid = d.stores sid ∨ ∃ c, Works sid gone d cid c ∧
      stores sid = removeAll (d.stores sid) c.pendingAcks) :
    Backlog sid gone { (d.destroyConsumer env cid).1 with stores := stores } handed owed := by
  have stays : ∀ {objects : Assoc Nat Consumer}, (∀ cid' c', get objects cid' = some c' →
      get d.objects cid' = some c') →
      Backlog sid gone { d with stores := stores, objects := objects } handed owed := by
    intro objects less
    refine log.removes [] ⟨?_, fun cid' c' object => log.own cid' c' (less cid' c' object),
      fun cid' c' works => ⟨c', ⟨less cid' c' works.1, works.2⟩, fun r inside => Or.inr inside⟩,
      fun _ _ _ p place _ inside => waits_same place inside rfl rfl⟩ (by simp [Named]) (by simp)
    rcases written with same | ⟨c, works, removed⟩
    · exact ⟨[], same, by simp⟩
    · exact ⟨c.pendingAcks, removed, fun r inside => Or.inr ⟨cid, c, works, inside⟩⟩
  cases object : get d.objects cid with
  | none =>
    have nothing : (d.destroyConsumer env cid).1 = d := by
      unfold Destination.destroyConsumer
      rw [object]
    rw [nothing]
    exact stays fun _ _ here => here
  | some c =>
    rw [destroyConsumer_spec env object (log.own cid c object).2]
    refine stays ?_
    intro cid' c' here
    by_cases same : cid' = cid
    · rw [same, get_erase_same] at here
      cases here
    · rw [get_erase_other _ same, get_put_other _ _ same] at here
      exact here

theorem setObject_backlog (log : Backlog sid gone d handed owed) {id : Nat}
    (empty : ∀ p, Waits (.own id) p → messagesAt d p = []) {c : Consumer} (queue : c.queue = .own id)
    (plain : c.mode ≠ .SESSION_TRANSACTED) (batch : c.pendingAcks = []) :
    Backlog sid (gone.filter (· ≠ id)) (d.setObject id c) (handed.filter (·.1 ≠ id)) owed := by
  have before : ∀ cid c', Works sid (gone.filter (· ≠ id)) (d.setObject id c) cid c' →
      cid = id ∧ c' = c ∨ cid ≠ id ∧ Works sid gone d cid c' := by
    rintro cid c' ⟨object, storage, present⟩
    by_cases here : cid = id
    · rw [here, Destination.setObject, get_put_same, Option.some.injEq] at object
      exact Or.inl ⟨here, object.symm⟩
    · rw [Destination.setObject, get_put_other _ _ here] at object
      refine Or.inr ⟨here, object, storage, ?_⟩
      intro member
      exact present (List.mem_filter.mpr ⟨member, by simpa using here⟩)
  refine
    { good := log.good
      own := ?own
      bound := ?bound
      named := ?named
      handed := ?handed
      kept := ?kept }
  case own =>
    intro cid c' object
    by_cases here : cid = id
    · rw [here, Destination.setObject, get_put_same, Option.some.injEq] at object
      rw [← object, here]
      exact ⟨queue, plain⟩
    · rw [Destination.setObject, get_put_other _ _ here] at object
      exact log.own cid c' object
  case bound =>
    intro cid c' works p place m inside
    have there : m ∈ messagesAt d p := by
      rcases place with rfl | rfl <;> exact inside
    rcases before cid c' works with ⟨rfl, _⟩ | ⟨_, old⟩
    · rw [empty p place] at there
      cases there
    · exact log.bound cid c' old p place m there
  case named =>
    intro cid c' works
    rcases before cid c' works with ⟨_, rfl⟩ | ⟨_, old⟩
    · simp [Named, batch]
    · exact log.named cid c' old
  case handed =>
    intro x member c' works
    rw [List.mem_filter, decide_eq_true_eq] at member
    rcases before x.1 c' works with ⟨same, _⟩ | ⟨_, old⟩
    · exact absurd same member.2
    · exact log.handed x member.1 c' old
  case kept =>
    intro o member
    obtain ⟨n, e, here, live, key, told, free⟩ := log.kept o member
    refine ⟨n, e, here, live, key, told, ?_⟩
    intro cid c' works r inside
    rcases before cid c' works with ⟨_, rfl⟩ | ⟨_, old⟩
    · rw [batch] at inside
      cases inside
    · exact free cid c' old r inside

theorem replay_ready {records : List (Entry UUID Content × Nat)} (ready : Ready sid gone d) (env : Env)
    (q : QueueId) (of_ : ∀ cid c, Works sid gone d cid c → q = .own cid → ∀ x ∈ records,
      (d.stores sid).log[x.2]? = some x.1) :
    Ready sid gone (records.foldl (fun d x =>
      ({ d with nextOid := d.nextOid + 1 } : Destination).enqueueOrSchedule env q
        (shellOf env d.nextOid x.1.key x.1.data x.2)) d) := by
  induction records generalizing d with
  | nil => exact ready
  | cons x records ih =>
    have counted : Ready sid gone { d with nextOid := d.nextOid + 1 } := by
      refine ⟨ready.good, ready.own, ready.bound.still ?_ rfl (Extends.refl _)⟩
      intro p
      cases p <;> rfl
    have next := counted.enqueueOrSchedule env (q := q)
      (m := shellOf env d.nextOid x.1.key x.1.data x.2) fun cid c works mine _ =>
        ⟨x.2, x.1, _, rfl, of_ cid c works mine x (by simp), rfl, rfl⟩
    refine ih next ?_
    intro cid c works mine y inside
    have same := enqueueOrSchedule_same env { d with nextOid := d.nextOid + 1 } q
      (shellOf env d.nextOid x.1.key x.1.data x.2)
    unfold Works at works
    rw [same.objects] at works
    rw [enqueueOrSchedule_stores]
    exact of_ cid c works mine y (List.mem_cons_of_mem x inside)

theorem replay_backlog (log : Backlog sid gone d handed owed) (env : Env) {id : Nat} {c : Consumer}
    (object : get d.objects id = some c) :
    Backlog sid gone (d.replayFromStorage env (.own id) c.storage) handed owed := by
  have ready : Ready sid gone d := ⟨log.good, fun cid c object => (log.own cid c object).1, log.bound⟩
  have after : Ready sid gone (d.replayFromStorage env (.own id) c.storage) := by
    refine replay_ready ready env (.own id) ?_
    intro cid c' works mine x inside
    cases mine
    obtain rfl := Option.some.inj (object.symm.trans works.1)
    rw [← works.2.1]
    unfold Store.scan at inside
    split at inside
    · exact (mem_liveRecords inside).1
    · cases inside
  have same := (replayFromStorage_same env d (.own id) c.storage).objects
  have stores := replay_stores env d (.own id) c.storage
  have before : ∀ cid c', Works sid gone (d.replayFromStorage env (.own id) c.storage) cid c' →
      Works sid gone d cid c' := by
    intro cid c' works
    unfold Works at works
    rw [same] at works
    exact works
  refine ⟨after.good, by rw [same]; exact log.own, after.bound, ?_, ?_, ?_⟩
  · rw [stores]
    exact fun cid c' works => log.named cid c' (before cid c' works)
  · rw [stores]
    exact fun x member c' works => log.handed x member c' (before x.1 c' works)
  · intro o member
    obtain ⟨n, e, here, live, key, told, free⟩ := log.kept o member
    exact ⟨n, e, by rw [stores]; exact here, live, key, told,
      fun cid c' works => free cid c' (before cid c' works)⟩

end Consumers

end TinyMqStoredBacklog
