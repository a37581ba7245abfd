import TinyMq.Lib.Machines
import TinyMq.Broker.DurableRegistry

/-!
Where a send to a queue goes. `save` offers the message to the first consumer of
the map and stops there, whether or not that consumer's selector takes it: with
consumers that disagree, the order of the map decides whether the message is kept.
-/
namespace TinyMqQueueRouting
open DelimitedText AssocLists BandQueues Machines TinyMqTom TinyMqMessage TinyMqStore
open TinyMqDestination TinyMqFrames TinyMqHolders TinyMqQueueRuns TinyMqDurableRegistry

def waiting (d : Destination) : List Message :=
  (d.queues .shared).toList ++ d.pending.map fun x => x.2.2

def ordered (d : Destination) (order : List Nat) : Destination := { d with consumers := order }

/-- What a queue keeps of a sent message. -/
structure Copied (m x : Message) : Prop where
  body : x.content.body = m.content.body
  properties : x.content.properties = m.content.properties
  persistent : x.isPersistent = m.isPersistent
  uuid : m.uuid ≠ 0 → x.uuid = m.uuid

def EnqueuedOnce (d d' : Destination) (m : Message) : Prop :=
  ∃ x, Copied m x ∧ (waiting d').Perm (x :: waiting d)

def Accepting (d : Destination) (m : Message) (cid : Nat) : Prop :=
  ∃ c, get d.objects cid = some c ∧ accepts c.selector m = true

/-- For every order of the map: the message is kept once iff some consumer takes
    it, and the orders make no difference. -/
def Routed (env : Env) (d : Destination) (pid : Nat) (m : Message) : Prop :=
  (∀ order : List Nat, order.Perm d.consumers →
    (EnqueuedOnce d ((ordered d order).save env pid [] m) m ↔ ∃ cid ∈ d.consumers, Accepting d m cid)) ∧
  ∀ order order' : List Nat, order.Perm d.consumers → order'.Perm d.consumers →
    ordered ((ordered d order).save env pid [] m) [] =
      ordered ((ordered d order').save env pid [] m) []

/-- A delivery time that is still ahead and not taken for garbage. -/
def Delayed (env : Env) (m : Message) : Prop :=
  (clampFuture env m).content.headers.deliveryTime ≠ 0 ∧
    env.nowMs < (clampFuture env m).content.headers.deliveryTime

/-- A stopped scheduler leaves a delayed persistent message to the storage. -/
def Shelved (env : Env) (d : Destination) (m : Message) : Prop :=
  d.schedulerStopped = true ∧ m.isPersistent = true ∧ Delayed env m

def Unanimous (env : Env) (d : Destination) (m : Message) : Prop :=
  (∀ cid ∈ d.consumers, ¬ Accepting d m cid) ∨
    (∀ cid ∈ d.consumers, Accepting d m cid) ∧ ¬ Shelved env d m

/-- The generator's next uuid is the same whichever consumer asks for it. -/
def SameDraw (env : Env) (number : Int) (m : Message) : Prop :=
  m.uuid = 0 → ∀ a b, env.random (.push number a) = env.random (.push number b)

structure Registered (d : Destination) : Prop where
  queue : d.isQueueFamily = true
  objects : ∀ cid ∈ d.consumers, ∃ c, get d.objects cid = some c
  shared : AllShared d

section Push
variable {env : Env} {d : Destination} {number : Int} {pid : Nat} {m : Message}

theorem enqueue_waiting (d : Destination) (m : Message) :
    (waiting (d.enqueue .shared m)).Perm (m :: waiting d) := by
  simp only [waiting, Destination.enqueue, Destination.setQueue, Function.update_self]
  exact (enqueue_perm (d.queues .shared) m.band m).append_right _

theorem schedule_waiting (d : Destination) (t : Int) (m : Message) :
    (waiting { d with pending := insertPending t .shared m d.pending }).Perm (m :: waiting d) := by
  have inserted := (insertPending_perm t .shared m d.pending).map fun x => x.2.2
  exact (inserted.append_left _).trans List.perm_middle

theorem clampFuture_copied (x : Message) (copied : Copied m x) : Copied m (clampFuture env x) := by
  unfold clampFuture
  split
  · exact ⟨copied.body, copied.properties, copied.persistent, copied.uuid⟩
  · exact copied

theorem enqueueOrSchedule_once {x : Message} (copied : Copied m x)
    (kept : ¬ (d.schedulerStopped = true ∧ x.isPersistent = true ∧ Delayed env x)) :
    EnqueuedOnce d (d.enqueueOrSchedule env .shared x) m := by
  refine ⟨clampFuture env x, clampFuture_copied x copied, ?_⟩
  have persistent : (clampFuture env x).isPersistent = x.isPersistent := by
    unfold clampFuture
    split <;> rfl
  unfold Destination.enqueueOrSchedule
  dsimp only
  split
  · exact enqueue_waiting d _
  · rename_i ahead
    split
    · rename_i stopped
      split
      · rename_i stored
        rw [persistent] at stored
        exact absurd ⟨stopped, stored, by unfold Delayed; omega⟩ kept
      · exact enqueue_waiting d _
    · exact schedule_waiting d _ _

theorem enqueueOrSchedule_shelved {x : Message} (shelved : Shelved env d x) :
    d.enqueueOrSchedule env .shared x = d := by
  obtain ⟨stopped, stored, ahead⟩ := shelved
  have persistent : (clampFuture env x).isPersistent = x.isPersistent := by
    unfold clampFuture
    split <;> rfl
  unfold Delayed at ahead
  have late : ¬ ((clampFuture env x).content.headers.deliveryTime = 0 ∨
      (clampFuture env x).content.headers.deliveryTime ≤ env.nowMs) := by omega
  simp only [Destination.enqueueOrSchedule, if_neg late, stopped, persistent, stored, if_true]

theorem preparePush_waiting (env : Env) (d : Destination) (cid : Nat) (c : Consumer)
    (number : Int) (m : Message) :
    waiting (d.preparePush env cid c number [] m).1 = waiting d ∧
      (d.preparePush env cid c number [] m).1.schedulerStopped = d.schedulerStopped ∧
      Copied m (d.preparePush env cid c number [] m).2 ∧
      (d.preparePush env cid c number [] m).2.content.headers = m.content.headers := by
  have uuid : ∀ oid, m.uuid ≠ 0 → (pushCopy env oid number cid m).uuid = m.uuid := by
    intro oid named
    exact if_neg named
  unfold Destination.preparePush
  dsimp only
  split
  · exact ⟨rfl, rfl, ⟨rfl, rfl, rfl, uuid d.nextOid⟩, rfl⟩
  · exact ⟨rfl, rfl, ⟨rfl, rfl, rfl, uuid d.nextOid⟩, rfl⟩

theorem Delayed.congr {x : Message} (same : x.content.headers = m.content.headers) :
    Delayed env x ↔ Delayed env m := by
  have time : (clampFuture env x).content.headers.deliveryTime =
      (clampFuture env m).content.headers.deliveryTime := by
    unfold clampFuture
    rw [same]
    split
    · rfl
    · rw [same]
  unfold Delayed
  rw [time]

theorem push_declined {cid : Nat} (declined : ¬ Accepting d m cid) :
    Destination.push env number pid [] m d cid = d := by
  unfold Destination.push
  split
  · rfl
  · rename_i c object
    split
    · rename_i taken
      exact absurd ⟨c, object, taken⟩ declined
    · rfl

theorem push_once {cid : Nat} (shared : AllShared d) (taken : Accepting d m cid)
    (kept : ¬ Shelved env d m) :
    EnqueuedOnce d (Destination.push env number pid [] m d cid) m := by
  obtain ⟨c, object, matching⟩ := taken
  obtain ⟨same, stopped, copied, headers⟩ := preparePush_waiting env d cid c number m
  unfold Destination.push
  simp only [object, matching, if_true, (shared cid c object).1]
  have inside : ∀ d', EnqueuedOnce (d.preparePush env cid c number [] m).1 d' m →
      EnqueuedOnce d d' m := by
    rintro d' ⟨x, isCopy, perm⟩
    rw [same] at perm
    exact ⟨x, isCopy, perm⟩
  apply inside
  split
  · apply enqueueOrSchedule_once copied
    rw [stopped, copied.persistent, Delayed.congr headers]
    exact kept
  · exact ⟨_, copied, enqueue_waiting _ _⟩

theorem push_shelved {cid : Nat} (shared : AllShared d) (taken : Accepting d m cid)
    (shelved : Shelved env d m) :
    waiting (Destination.push env number pid [] m d cid) = waiting d := by
  obtain ⟨c, object, matching⟩ := taken
  obtain ⟨same, stopped, copied, headers⟩ := preparePush_waiting env d cid c number m
  have time : m.content.headers.deliveryTime ≠ 0 := by
    intro zero
    have due := shelved.2.2.1
    have whole : clampFuture env m = m := by
      unfold clampFuture
      rw [if_neg (by omega)]
    rw [whole] at due
    exact due zero
  have later : Shelved env (d.preparePush env cid c number [] m).1
      (d.preparePush env cid c number [] m).2 := by
    unfold Shelved
    rw [stopped, copied.persistent, Delayed.congr headers]
    exact shelved
  unfold Destination.push
  simp only [object, matching, if_true, (shared cid c object).1, headers, ne_eq, time,
    not_false_eq_true, enqueueOrSchedule_shelved later]
  exact same

theorem push_alike {a b : Nat} (shared : AllShared d) (draw : SameDraw env number m)
    (first : Accepting d m a) (second : Accepting d m b) :
    Destination.push env number pid [] m d a = Destination.push env number pid [] m d b := by
  obtain ⟨c, object, matching⟩ := first
  obtain ⟨e, object', matching'⟩ := second
  have copy : ∀ oid, pushCopy env oid number a m = pushCopy env oid number b m := by
    intro oid
    unfold pushCopy
    by_cases nil : m.uuid = 0
    · rw [if_pos nil, if_pos nil, draw nil a b]
    · rw [if_neg nil, if_neg nil]
  have prepared : d.preparePush env a c number [] m = d.preparePush env b e number [] m := by
    unfold Destination.preparePush
    rw [copy, (shared a c object).2, (shared b e object').2]
  unfold Destination.push
  simp only [object, object', matching, matching', if_true, prepared, (shared a c object).1,
    (shared b e object').1]

theorem push_ordered (order : List Nat) (cid : Nat) :
    Destination.push env number pid [] m (ordered d order) cid =
      ordered (Destination.push env number pid [] m d cid) order := by
  have placed : ∀ (e : Destination) (q : QueueId) (x : Message),
      (ordered e order).enqueueOrSchedule env q x = ordered (e.enqueueOrSchedule env q x) order := by
    intro e q x
    unfold Destination.enqueueOrSchedule ordered
    dsimp only
    split
    · rfl
    · split
      · split <;> rfl
      · rfl
  have made : ∀ c, (ordered d order).preparePush env cid c number [] m =
      (ordered (d.preparePush env cid c number [] m).1 order,
        (d.preparePush env cid c number [] m).2) := by
    intro c
    unfold Destination.preparePush ordered
    dsimp only
    split <;> rfl
  unfold Destination.push
  rw [show (ordered d order).objects = d.objects from rfl]
  split
  · rfl
  · rename_i c _
    split
    · rw [made c]
      dsimp only
      rw [if_pos rfl, if_pos rfl]
      split
      · exact placed _ _ _
      · rfl
    · rfl

end Push

section Save
variable {env : Env} {d : Destination} {pid : Nat} {m : Message}

def counted (d : Destination) : Destination := { d with messageCounter := d.messageCounter + 1 }

theorem save_ordered (reg : Registered d) (order : List Nat) :
    (ordered d order).save env pid [] m = ordered ((order.take 1).foldl
      (Destination.push env d.messageCounter pid [] m) (counted d)) order := by
  have shape := save_queue env (ordered d order) reg.queue pid [] m
  rw [shape]
  cases order with
  | nil => rfl
  | cons cid rest =>
    exact push_ordered (d := counted d) (cid :: rest) cid

theorem unchanged_unkept {d' : Destination} (order : List Nat) (same : waiting d' = waiting d) :
    ¬ EnqueuedOnce d (ordered d' order) m := by
  rintro ⟨x, _, perm⟩
  have length := perm.length_eq
  rw [show waiting (ordered d' order) = waiting d' from rfl, same, List.length_cons] at length
  omega

/- Consumers that disagree: the map may start with one that does not take the message, or
   the scheduler does not keep it. -/
theorem routed_unanimous (reg : Registered d) (routed : Routed env d pid m) : Unanimous env d m := by
  by_contra divided
  unfold Unanimous at divided
  push Not at divided
  obtain ⟨⟨a, member, takes⟩, rest⟩ := divided
  by_cases all : ∀ cid ∈ d.consumers, Accepting d m cid
  · have shelved := rest all
    obtain ⟨cid, others, shape⟩ := List.exists_cons_of_ne_nil (List.ne_nil_of_mem member)
    have lost := (routed.1 d.consumers (List.Perm.refl _)).mpr ⟨a, member, takes⟩
    rw [save_ordered reg, shape] at lost
    have shared : AllShared (counted d) := reg.shared
    have still : waiting (Destination.push env d.messageCounter pid [] m (counted d) cid) =
        waiting d := push_shelved shared (all cid (by simp [shape])) shelved
    exact unchanged_unkept _ still lost
  · push Not at all
    obtain ⟨r, there, declines⟩ := all
    have perm := (List.perm_cons_erase there).symm
    have lost := (routed.1 _ perm).mpr ⟨a, member, takes⟩
    rw [save_ordered reg] at lost
    simp only [List.take_succ_cons, List.take_zero, List.foldl_cons, List.foldl_nil] at lost
    rw [push_declined (d := counted d) declines] at lost
    have still : waiting (counted d) = waiting d := rfl
    exact unchanged_unkept (r :: d.consumers.erase r) still lost

theorem declined_routed (reg : Registered d) (declined : ∀ cid ∈ d.consumers, ¬ Accepting d m cid) :
    Routed env d pid m := by
  have still : ∀ order : List Nat, order.Perm d.consumers →
      (ordered d order).save env pid [] m = ordered (counted d) order := by
    intro order perm
    rw [save_ordered reg]
    cases order with
    | nil => rfl
    | cons cid rest =>
      have declines := declined cid (perm.mem_iff.mp (by simp))
      simp only [List.take_succ_cons, List.take_zero, List.foldl_cons, List.foldl_nil]
      rw [push_declined (d := counted d) declines]
  constructor
  · intro order perm
    rw [still order perm]
    constructor
    · intro once
      exact absurd once (unchanged_unkept order rfl)
    · rintro ⟨cid, member, takes⟩
      exact absurd takes (declined cid member)
  · intro order order' perm perm'
    rw [still order perm, still order' perm']
    rfl

theorem accepted_routed (reg : Registered d) (draw : SameDraw env d.messageCounter m)
    (all : ∀ cid ∈ d.consumers, Accepting d m cid) (kept : ¬ Shelved env d m) :
    Routed env d pid m := by
  have shared : AllShared (counted d) := reg.shared
  have pushed : ∀ cid rest, (ordered d (cid :: rest)).save env pid [] m =
      ordered (Destination.push env d.messageCounter pid [] m (counted d) cid) (cid :: rest) :=
    fun cid rest => save_ordered reg (cid :: rest)
  constructor
  · intro order perm
    cases order with
    | nil =>
      have unkept : ¬ EnqueuedOnce d (ordered (counted d) []) m := unchanged_unkept [] rfl
      rw [← perm.nil_eq, save_ordered reg]
      simpa using unkept
    | cons cid rest =>
      have member : cid ∈ d.consumers := perm.mem_iff.mp (by simp)
      rw [pushed cid rest]
      have once : EnqueuedOnce (counted d)
          (Destination.push env d.messageCounter pid [] m (counted d) cid) m :=
        push_once shared (all cid member) kept
      exact ⟨fun _ => ⟨cid, member, all cid member⟩, fun _ => once⟩
  · intro order order' perm perm'
    cases order with
    | nil =>
      rw [← perm.nil_eq] at perm'
      rw [perm'.eq_nil]
    | cons cid rest =>
      cases order' with
      | nil =>
        rw [← perm'.nil_eq] at perm
        exact absurd perm.eq_nil (by simp)
      | cons cid' rest' =>
        rw [pushed cid rest, pushed cid' rest']
        rw [push_alike shared draw (all cid (perm.mem_iff.mp (by simp)))
          (all cid' (perm'.mem_iff.mp (by simp)))]
        rfl

theorem routed_iff (reg : Registered d) (draw : SameDraw env d.messageCounter m) :
    Routed env d pid m ↔ Unanimous env d m := by
  constructor
  · exact routed_unanimous reg
  · rintro (declined | ⟨all, kept⟩)
    · exact declined_routed reg declined
    · exact accepted_routed reg draw all kept

end Save

structure Present (d : Destination) : Prop where
  distinct : d.consumers.Nodup
  objects : ∀ cid ∈ d.consumers, ∃ c, get d.objects cid = some c

section Present
variable {d d' : Destination}

theorem Present.steady (present : Present d) (steady : Steady d d') : Present d' where
  distinct := by
    rw [steady.consumers]
    exact present.distinct
  objects := by
    intro cid member
    rw [steady.consumers] at member
    obtain ⟨c, object⟩ := present.objects cid member
    obtain ⟨c', object', _⟩ := steady.found object
    exact ⟨c', object'⟩

theorem Present.join (present : Present d) {id : Nat} (new : id ∉ d.consumers) (c : Consumer)
    (objects : d'.objects = put d.objects id c) (consumers : d'.consumers = d.consumers ++ [id]) :
    Present d' where
  distinct := by
    rw [consumers, List.nodup_append]
    refine ⟨present.distinct, by simp, ?_⟩
    intro a member b last same
    rw [List.mem_singleton.mp last] at same
    exact new (same ▸ member)
  objects := by
    intro cid member
    rw [objects]
    by_cases here : cid = id
    · exact ⟨c, by rw [here, get_put_same]⟩
    · rw [get_put_other d.objects c here]
      rw [consumers, List.mem_append, List.mem_singleton] at member
      exact present.objects cid (member.resolve_right here)

theorem Present.leave (present : Present d) (id : Nat)
    (objects : ∀ cid, cid ≠ id → get d'.objects cid = get d.objects cid)
    (consumers : d'.consumers = d.consumers.erase id) : Present d' where
  distinct := by
    rw [consumers]
    exact present.distinct.erase id
  objects := by
    intro cid member
    rw [consumers, present.distinct.mem_erase_iff] at member
    rw [objects cid member.1]
    exact present.objects cid member.2

theorem dropDefault_present (present : Present d) : Present d.dropDefault := by
  unfold Destination.dropDefault
  split
  · exact present
  · exact present.leave _ (fun cid other => get_erase_other d.objects other) rfl

theorem dropDefault_consumers (d : Destination) : d.dropDefault.consumers ⊆ d.consumers := by
  unfold Destination.dropDefault
  split
  · exact List.Subset.refl _
  · exact List.erase_subset

theorem createConsumer_present (present : Present d) (queue : d.isQueueFamily = true) (env : Env)
    {id : Nat} (new : id ∉ d.consumers) (mode : AcknowledgeMode) (selector : Option Selector) :
    Present (d.createConsumer env id mode selector) := by
  have left := dropDefault_present present
  have absent : id ∉ d.dropDefault.consumers := fun member => new (dropDefault_consumers d member)
  unfold Destination.createConsumer
  rw [if_pos queue]
  dsimp only
  split
  · have same := replayFromStorage_same env
      (d.dropDefault.setObject id ⟨mode,.shared,.shared,selector,[],.empty,[]⟩) .shared .shared
    refine left.join absent ⟨mode,.shared,.shared,selector,[],.empty,[]⟩ same.objects ?_
    exact congrArg (· ++ [id]) same.consumers
  · exact left.join absent ⟨mode,.shared,.shared,selector,[],.empty,[]⟩ rfl rfl

theorem deleteConsumer_present (present : Present d) (id : Nat) : Present (d.deleteConsumer id) := by
  refine present.leave id ?_ ?_
  · intro cid _
    rw [(deleteConsumer_objects d id).1]
  · unfold Destination.deleteConsumer
    dsimp only
    split <;> rfl

theorem destroyConsumer_present (present : Present d) (env : Env) {id : Nat}
    (gone : id ∉ d.consumers) : Present (d.destroyConsumer env id).1 := by
  unfold Destination.destroyConsumer
  split
  · exact present
  · rename_i c object
    have steady := (flushPendingAcks_steady d id object (c := c) rfl).trans
      (rollbackConsumer_steady env _ id false)
    have kept := present.steady steady
    refine kept.leave id (fun cid other => get_erase_other _ other) ?_
    dsimp only
    rw [List.erase_of_not_mem]
    rw [steady.consumers]
    exact gone

theorem deleteSubscription_present (present : Present d) (clientID name : Text) :
    Present (d.deleteSubscription clientID name) := by
  unfold Destination.deleteSubscription
  dsimp only
  split
  · exact present
  · rename_i sub _
    split
    · exact ⟨present.distinct, present.objects⟩
    · rename_i id _
      have left := deleteConsumer_present present id
      exact ⟨left.distinct, left.objects⟩

theorem step_present (d : Destination) (call : Call) (ok : CleanQueue d ∧ Present d)
    (possible : Possible d call) : CleanQueue (next d call) ∧ Present (next d call) := by
  obtain ⟨clean, present⟩ := ok
  have queue := clean.queue
  refine ⟨step_clean clean call, ?_⟩
  cases call with
  | createDefaultConsumer id mode =>
    refine present.join possible ⟨mode,.shared,.shared,none,[],.empty,[]⟩ ?_ ?_ <;>
      simp [next, step, Destination.createDefaultConsumer, queue]
  | createConsumer env id mode selector =>
    exact createConsumer_present present queue env possible mode selector
  | createDurableConsumer env id mode clientID name selector =>
    have refused : next d (.createDurableConsumer env id mode clientID name selector) = d := by
      simp [next, step, Destination.createDurableConsumer, queue_notTopic queue]
    rw [refused]
    exact present
  | deleteConsumer id => exact deleteConsumer_present present id
  | destroyConsumer env id => exact destroyConsumer_present present env possible
  | deleteSubscription clientID name => exact deleteSubscription_present present clientID name
  | rehash l =>
    simp only [next, step, Destination.rehash]
    split
    · rename_i perm
      exact ⟨perm.nodup_iff.mpr present.distinct,
        fun cid member => present.objects cid (perm.mem_iff.mp member)⟩
    · exact present
  | restart env => exact ⟨List.nodup_nil, by simp [next, step, Destination.restart]⟩
  | _ => exact present.steady (step_steady d rfl)

end Present

theorem registered_along {start : Destination} (started : Started start)
    (empty : start.consumers = []) {calls : List Call} (possible : Meets next Possible start calls) :
    ∀ d ∈ states next start calls, Registered d := by
  have present : Present start := by
    constructor <;> simp [empty]
  have along := invariant_along step_present ⟨started.clean, present⟩ possible
  intro d member
  obtain ⟨clean, here⟩ := along d member
  exact ⟨clean.queue, here.objects, clean.clean.shared⟩

/- In every state of every run of a queue: the order of the map is of no account to a
   send exactly when the registered consumers agree about the message. -/
theorem queue_routing_iff {start : Destination} (started : Started start)
    (empty : start.consumers = []) {calls : List Call} (possible : Meets next Possible start calls)
    {d : Destination} (reached : d ∈ states next start calls) (env : Env) (pid : Nat) (m : Message)
    (draw : SameDraw env d.messageCounter m) : Routed env d pid m ↔ Unanimous env d m :=
  routed_iff (registered_along started empty possible d reached) draw

def agreed : List Call :=
  [.createDefaultConsumer 0 .AUTO_ACKNOWLEDGE, .createConsumer calm 1 .AUTO_ACKNOWLEDGE none,
    .createConsumer calm 2 .AUTO_ACKNOWLEDGE (some fun _ => true)]

theorem queue_routing_iff_agreed :
    Routed calm (agreed.foldl next { type := .Queue }) 5 (letter 0 7) := by
  have possible : Meets next Possible { type := .Queue } agreed :=
    ⟨List.not_mem_nil, show 1 ∉ [0] by decide, show 2 ∉ [1] by decide, trivial⟩
  refine (queue_routing_iff newQueue_started rfl possible (last_state_mem next _ agreed) calm 5
    (letter 0 7) (fun _ _ _ => rfl)).mpr (Or.inr ⟨?_, ?_⟩)
  · intro cid member
    have which : cid = 1 ∨ cid = 2 := by simpa using (show cid ∈ [1, 2] from member)
    rcases which with rfl | rfl
    · exact ⟨_, rfl, rfl⟩
    · exact ⟨_, rfl, rfl⟩
  · rintro ⟨stopped, _⟩
    cases stopped

/- With a consumer that declines first in the map, nobody gets the message. -/
theorem declined_first_lost :
    ¬ Routed calm (([.createDefaultConsumer 0 .AUTO_ACKNOWLEDGE,
        .createConsumer calm 1 .AUTO_ACKNOWLEDGE (some fun _ => false),
        .createConsumer calm 2 .AUTO_ACKNOWLEDGE none] : List Call).foldl next { type := .Queue })
      5 (letter 0 7) := by
  intro routed
  obtain ⟨x, _, perm⟩ := (routed.1 [1, 2] (List.Perm.refl _)).mpr ⟨2, by decide, _, rfl, rfl⟩
  have length := perm.length_eq
  rw [List.length_cons] at length
  exact absurd length (by decide)

end TinyMqQueueRouting
