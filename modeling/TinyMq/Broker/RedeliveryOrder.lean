import TinyMq.Broker.DistinctRecords

/-!
The order in which `recover` and `rollback` give messages back. They go into the consumer's
queue in the order of their receipt, a transacted one's by way of the transaction queue; both
are priority queues, so what is received next is the first of the highest band.
-/
namespace TinyMqRedeliveryOrder
open DelimitedText AssocLists BandQueues TombstoneLog TinyMqTom TinyMqMessage TinyMqStore
open TinyMqDestination TinyMqFrames TinyMqQueueRuns TinyMqOrigins TinyMqDistinctRecords

/-- `l` is what the consumer has to give back, in the order of receipt. -/
def Unsettled (c : Consumer) (l : List Message) : Prop :=
  if c.mode = .SESSION_TRANSACTED then
    c.transactQueue = BandQueue.empty.enqueueAll Message.band l
  else c.inFlight = l

/-- `recover`, or `rollback` in a transacted session, of one consumer. -/
def giveBack (env : Env) (d : Destination) (cid : Nat) (c : Consumer) (closing : Bool) : Destination :=
  if c.mode = .SESSION_TRANSACTED then (d.rollbackConsumer env cid closing).1
  else (d.recover env cid).1

def recvs (cid : Nat) : List (Env × Nat) → Destination → Destination × List (Option Message)
  | [], d => (d, [])
  | (env, patience) :: turns, d =>
    let (d, received) := d.recv env cid patience
    let (d, more) := recvs cid turns d
    (d, received :: more)

def again (m : Message) : Message :=
  if m.isPersistent then { putBack m with cachedStorageBytes := none } else putBack m

def Alive (m : Message) (turn : Env × Nat) : Prop := m.isExpired turn.1.nowMs = false

section Messages

@[simp] theorem putBack_band (m : Message) : (putBack m).band = m.band := by
  unfold putBack Message.refreshCachedStorageBytes
  split <;> rfl

@[simp] theorem again_band (m : Message) : (again m).band = m.band := by
  unfold again
  split <;> exact putBack_band m

theorem again_expired (m : Message) (now : Int) : (again m).isExpired now = m.isExpired now := by
  unfold again putBack Message.refreshCachedStorageBytes
  split <;> split <;> rfl

theorem rehydrate_putBack (d : Destination) (c : Consumer) (m : Message) :
    d.rehydrate c (putBack m) = again m := by
  by_cases persistent : m.isPersistent = true
  · have still : (putBack m).isPersistent = true := by
      unfold putBack Message.refreshCachedStorageBytes
      split <;> exact persistent
    have cached : (putBack m).cachedStorageBytes = some (putBack m).content := by
      have before : ((countRedelivery m).setDeliveryTime 0).isPersistent = true := persistent
      simp only [putBack, Message.refreshCachedStorageBytes, before, if_true]
    simp only [Destination.rehydrate, still, if_true, cached, again, persistent]
  · have still : ¬ (putBack m).isPersistent = true := by
      unfold putBack Message.refreshCachedStorageBytes
      split <;> exact persistent
    simp only [Destination.rehydrate, if_neg still, again, if_neg persistent]

end Messages

section Receive
variable {d : Destination} {cid : Nat} {c : Consumer} {env : Env}

theorem recv_unsettled (object : get d.objects cid = some c) (tracks : c.mode ≠ .AUTO_ACKNOWLEDGE)
    {l : List Message} (unsettled : Unsettled c l) (patience : Nat) :
    ∃ c', get (d.recv env cid patience).1.objects cid = some c' ∧ c'.mode = c.mode ∧
      c'.queue = c.queue ∧ Unsettled c' (l ++ (d.recv env cid patience).2.toList) := by
  refine recv_rule (P := fun d r => get d.objects cid = some c →
    ∃ c', get r.1.objects cid = some c' ∧ c'.mode = c.mode ∧ c'.queue = c.queue ∧
      Unsettled c' (l ++ r.2.toList)) ?_ ?_ ?_ patience d object
  · intro d object
    exact ⟨c, object, rfl, rfl, by simpa using unsettled⟩
  · intro d c₁ m q found next object
    rw [object] at found
    cases found
    refine ⟨track c ((d.setQueue c.queue q).rehydrate c m), by simp [Destination.setObject], ?_⟩
    unfold Unsettled at unsettled ⊢
    cases mode : c.mode with
    | AUTO_ACKNOWLEDGE => exact absurd mode tracks
    | SESSION_TRANSACTED =>
      simp only [mode, if_true] at unsettled
      simp [track, mode, unsettled, BandQueue.enqueueAll]
    | _ =>
      simp only [mode, reduceCtorEq, if_false] at unsettled
      simp [track, mode, unsettled]
  · intro d c₁ m q r found next rest object
    refine rest ?_
    rw [(dropRecord_same (d.setQueue c₁.queue q) c₁ ((d.setQueue c₁.queue q).rehydrate c₁ m)).objects]
    exact object

theorem recvs_unsettled (object : get d.objects cid = some c) (tracks : c.mode ≠ .AUTO_ACKNOWLEDGE)
    {l : List Message} (unsettled : Unsettled c l) (turns : List (Env × Nat)) :
    ∃ c', get (recvs cid turns d).1.objects cid = some c' ∧
      Unsettled c' (l ++ (recvs cid turns d).2.flatMap Option.toList) := by
  induction turns generalizing d c l with
  | nil => exact ⟨c, object, by simpa [recvs] using unsettled⟩
  | cons turn turns ih =>
    obtain ⟨env, patience⟩ := turn
    obtain ⟨c₁, object₁, mode, -, unsettled₁⟩ := @recv_unsettled d cid c env object tracks
      l unsettled patience
    obtain ⟨c', object', all⟩ := ih object₁ (by rw [mode]; exact tracks) unsettled₁
    refine ⟨c', object', ?_⟩
    simpa [recvs, List.flatMap_cons] using all

def waiting (d : Destination) (q : QueueId) : Nat := (d.queues q).toList.length

theorem waiting_next {q : QueueId} {m : Message} {queue : QueueT}
    (next : (d.queues q).dequeue = some (m, queue)) :
    waiting (d.setQueue q queue) q + 1 = waiting d q := by
  unfold waiting
  rw [dequeue_some next]
  simp [Destination.setQueue]

theorem recv_waiting (object : get d.objects cid = some c) (patience : Nat) :
    (∃ c', get (d.recv env cid patience).1.objects cid = some c' ∧ c'.queue = c.queue) ∧
      waiting (d.recv env cid patience).1 c.queue +
        (d.recv env cid patience).2.toList.length ≤ waiting d c.queue := by
  refine recv_rule (P := fun d r => ∀ c, get d.objects cid = some c →
    (∃ c', get r.1.objects cid = some c' ∧ c'.queue = c.queue) ∧
      waiting r.1 c.queue + r.2.toList.length ≤ waiting d c.queue) ?_ ?_ ?_ patience d c object
  · intro d c object
    exact ⟨⟨c, object, rfl⟩, Nat.le_refl _⟩
  · intro d e m q found next c object
    obtain rfl : c = e := Option.some.inj (object.symm.trans found)
    have fewer := waiting_next next
    refine ⟨⟨track c ((d.setQueue c.queue q).rehydrate c m), by simp [Destination.setObject], ?_⟩, ?_⟩
    · cases mode : c.mode <;> simp [track, mode]
    · have same : waiting ((d.setQueue c.queue q).setObject cid
          (track c ((d.setQueue c.queue q).rehydrate c m))) c.queue =
            waiting (d.setQueue c.queue q) c.queue := rfl
      rw [same, Option.toList_some, List.length_singleton, fewer]
  · intro d e m q r found next rest c object
    obtain rfl : c = e := Option.some.inj (object.symm.trans found)
    have fewer := waiting_next next
    obtain ⟨stores, dropped⟩ := dropRecords_stores (d.setQueue c.queue q) c
      [(d.setQueue c.queue q).rehydrate c m]
    have one : (d.setQueue c.queue q).dropRecord c ((d.setQueue c.queue q).rehydrate c m) =
        { d.setQueue c.queue q with stores := stores } := dropped
    rw [one] at rest
    obtain ⟨still, less⟩ := rest c object
    refine ⟨still, ?_⟩
    have same : waiting ({ d.setQueue c.queue q with stores := stores } : Destination) c.queue =
        waiting (d.setQueue c.queue q) c.queue := rfl
    omega

theorem recvs_short {turns : List (Env × Nat)} (object : get d.objects cid = some c)
    (short : waiting d c.queue < turns.length) : none ∈ (recvs cid turns d).2 := by
  induction turns generalizing d c with
  | nil => cases short
  | cons turn turns ih =>
    obtain ⟨env, patience⟩ := turn
    obtain ⟨⟨c', object', queue⟩, less⟩ := @recv_waiting d cid c env object patience
    simp only [recvs]
    cases received : (d.recv env cid patience).2 with
    | none => simp
    | some m =>
      rw [received, Option.toList_some, List.length_singleton] at less
      rw [List.length_cons] at short
      refine List.mem_cons_of_mem _ (ih object' ?_)
      rw [queue]
      omega

theorem recv_first (object : get d.objects cid = some c) {m : Message} {ms : List Message}
    (first : (d.queues c.queue).toList = putBack m :: ms) (patience : Nat) :
    (m.isExpired env.nowMs = false → (d.recv env cid patience).2 = some (again m) ∧
      ((d.recv env cid patience).1.queues c.queue).toList = ms) ∧
    (m.isExpired env.nowMs = true → waiting (d.recv env cid patience).1 c.queue +
      (d.recv env cid patience).2.toList.length ≤ ms.length) := by
  cases next : (d.queues c.queue).dequeue with
  | none =>
    rw [dequeue_none next] at first
    cases first
  | some found =>
    obtain ⟨x, q⟩ := found
    have split := dequeue_some next
    rw [first] at split
    obtain ⟨rfl, rest⟩ := List.cons.inj split
    have read : (d.setQueue c.queue q).rehydrate c (putBack m) = again m := rehydrate_putBack _ c m
    constructor
    · intro early
      have here : (again m).isExpired env.nowMs = false := by rw [again_expired, early]
      have done : d.recv env cid patience =
          ((d.setQueue c.queue q).setObject cid (track c (again m)), some (again m)) := by
        cases patience <;> simp [Destination.recv, object, next, read, here]
      rw [done]
      refine ⟨rfl, ?_⟩
      rw [rest]
      simp [Destination.setObject, Destination.setQueue]
    · intro late
      have here : (again m).isExpired env.nowMs = true := by rw [again_expired, late]
      obtain ⟨stores, dropped⟩ := dropRecords_stores (d.setQueue c.queue q) c [again m]
      have one : (d.setQueue c.queue q).dropRecord c (again m) =
          { d.setQueue c.queue q with stores := stores } := dropped
      have left : waiting ({ d.setQueue c.queue q with stores := stores } : Destination) c.queue =
          ms.length := by
        rw [rest]
        simp [waiting, Destination.setQueue]
      cases patience with
      | zero =>
        have done : d.recv env cid 0 = ({ d.setQueue c.queue q with stores := stores }, none) := by
          simp [Destination.recv, object, next, read, here, one]
        rw [done]
        exact Nat.le_of_eq left
      | succ patience =>
        have done : d.recv env cid (patience + 1) =
            ({ d.setQueue c.queue q with stores := stores } : Destination).recv env cid patience := by
          rw [Destination.recv]
          simp only [object, next, read, here, one, if_true]
        rw [done, ← left]
        exact (recv_waiting (d := { d.setQueue c.queue q with stores := stores })
          (by exact object) patience).2

theorem recvs_exact {ms : List Message} {turns : List (Env × Nat)}
    (object : get d.objects cid = some c) (queue : (d.queues c.queue).toList = ms.map putBack)
    (enough : turns.length = ms.length) :
    (List.Forall₂ Alive ms turns → (recvs cid turns d).2 = ms.map (fun m => some (again m)) ∧
      ((recvs cid turns d).1.queues c.queue).toList = []) ∧
    (¬ List.Forall₂ Alive ms turns → none ∈ (recvs cid turns d).2) := by
  induction ms generalizing d c turns with
  | nil =>
    rw [List.length_nil, List.length_eq_zero_iff] at enough
    subst enough
    refine ⟨fun _ => ⟨rfl, queue⟩, fun dead => ?_⟩
    exact absurd List.Forall₂.nil dead
  | cons m ms ih =>
    cases turns with
    | nil => cases enough
    | cons turn turns =>
      obtain ⟨env, patience⟩ := turn
      obtain ⟨alive, late⟩ := @recv_first d cid c env object m (ms.map putBack) queue patience
      obtain ⟨⟨c', object', same⟩, -⟩ := @recv_waiting d cid c env object patience
      have fewer : turns.length = ms.length := by simpa using enough
      simp only [recvs]
      by_cases early : m.isExpired env.nowMs = false
      · obtain ⟨received, rest⟩ := alive early
        obtain ⟨all, some_⟩ := ih object' (by rw [same]; exact rest) fewer
        rw [same] at all
        constructor
        · intro both
          obtain ⟨more, empty⟩ := all (List.forall₂_cons.mp both).2
          exact ⟨by rw [received, more, List.map_cons], empty⟩
        · intro dead
          refine List.mem_cons_of_mem _ (some_ fun others => dead ?_)
          exact List.Forall₂.cons early others
      · have expired : m.isExpired env.nowMs = true := by simpa using early
        have less := late expired
        refine ⟨fun both => absurd (List.forall₂_cons.mp both).1 early, fun _ => ?_⟩
        cases received : (d.recv env cid patience).2 with
        | none => simp
        | some x =>
          rw [received, Option.toList_some, List.length_singleton] at less
          rw [List.length_map] at less
          refine List.mem_cons_of_mem _ (recvs_short object' ?_)
          rw [same]
          omega

end Receive

section GiveBack
variable {d : Destination} {cid : Nat} {c : Consumer} {l : List Message}

theorem putBackAll_queue (q : QueueId) (ms : List Message) (d : Destination) :
    (ms.foldl (fun d m => d.enqueue q (putBack m)) d).queues q =
      (d.queues q).enqueueAll Message.band (ms.map putBack) ∧
    (ms.foldl (fun d m => d.enqueue q (putBack m)) d).objects = d.objects := by
  induction ms generalizing d with
  | nil => exact ⟨rfl, rfl⟩
  | cons m ms ih =>
    obtain ⟨queue, objects⟩ := ih (d.enqueue q (putBack m))
    refine ⟨?_, objects⟩
    rw [List.foldl_cons, queue]
    simp [Destination.enqueue, Destination.setQueue, BandQueue.enqueueAll]

/- The transaction queue drains band by band, which the consumer's queue would do anyway. -/
theorem giveBack_queue (env : Env) (object : get d.objects cid = some c)
    (unsettled : Unsettled c l) (immediate : d.redeliveryPolicy.backoffMs = 0)
    (within : ∀ m ∈ l, ¬ Limited d m) (closing : Bool) :
    (giveBack env d cid c closing).queues c.queue =
        (d.queues c.queue).enqueueAll Message.band (l.map putBack) ∧
      ∃ c', get (giveBack env d cid c closing).objects cid = some c' ∧ c'.queue = c.queue := by
  unfold giveBack Unsettled at *
  by_cases transacted : c.mode = .SESSION_TRANSACTED
  · simp only [if_pos transacted] at unsettled ⊢
    have drained : c.transactQueue.toList.map putBack =
        (BandQueue.empty.enqueueAll Message.band (l.map putBack)).toList := by
      rw [← toList_map, unsettled, enqueueAll_map putBack_band]
      rfl
    have limits : ∀ m ∈ c.transactQueue.toList,
        ¬ Limited (d.setObject cid { c with transactQueue := .empty }) m := by
      intro m member
      rw [unsettled] at member
      have inside := (enqueueAll_perm Message.band BandQueue.empty l).mem_iff.mp member
      exact within m (by simpa using inside)
    have rolled : (d.rollbackConsumer env cid closing).1 =
        c.transactQueue.toList.foldl (fun d m => d.enqueue c.queue (putBack m))
          (d.setObject cid { c with transactQueue := .empty }) := by
      unfold Destination.rollbackConsumer
      simp only [object]
      rw [if_pos transacted]
      exact congrArg Prod.fst (redeliverAll_within
        (d := d.setObject cid { c with transactQueue := .empty }) immediate limits closing)
    obtain ⟨queue, objects⟩ := putBackAll_queue c.queue c.transactQueue.toList
      (d.setObject cid { c with transactQueue := .empty })
    rw [rolled]
    refine ⟨?_, { c with transactQueue := .empty }, ?_, rfl⟩
    · rw [queue, drained, enqueueAll_drained]
      rfl
    · rw [objects]
      simp [Destination.setObject]
  · simp only [if_neg transacted] at unsettled ⊢
    have recovered : (d.recover env cid).1 =
        l.foldl (fun d m => d.enqueue c.queue (putBack m)) (d.setObject cid { c with inFlight := [] }) := by
      unfold Destination.recover
      simp only [object, unsettled]
      exact congrArg Prod.fst (redeliverAll_within
        (d := d.setObject cid { c with inFlight := [] }) immediate within false)
    obtain ⟨queue, objects⟩ := putBackAll_queue c.queue l (d.setObject cid { c with inFlight := [] })
    rw [recovered]
    refine ⟨queue, { c with inFlight := [] }, ?_, rfl⟩
    rw [objects]
    simp [Destination.setObject]

/- Whatever one consumer has received and not acknowledged, or received in its transaction: after
   one `recover` or `rollback` without backoff and below the limit, from an empty queue, it is
   received again in the same order exactly when it was received by descending bands and nothing
   of it has expired when its turn comes. -/
theorem redelivery_order (env : Env) (object : get d.objects cid = some c)
    (unsettled : Unsettled c l) (empty : (d.queues c.queue).toList = [])
    (immediate : d.redeliveryPolicy.backoffMs = 0) (within : ∀ m ∈ l, ¬ Limited d m)
    (closing : Bool) {turns : List (Env × Nat)} (enough : turns.length = l.length) :
    (recvs cid turns (giveBack env d cid c closing)).2 = l.map (fun m => some (again m)) ↔
      l.Pairwise (fun x y => y.band ≤ x.band) ∧ List.Forall₂ Alive l turns := by
  obtain ⟨queue, c', object', same⟩ := giveBack_queue env object unsettled immediate within closing
  let drained := (BandQueue.empty.enqueueAll Message.band l).toList
  have waits : ((giveBack env d cid c closing).queues c'.queue).toList = drained.map putBack := by
    rw [same, queue, empty_of_toList empty, ← toList_map, enqueueAll_map putBack_band]
    rfl
  have size : turns.length = drained.length := by
    rw [enough, enqueueAll_length]
    simp
  obtain ⟨all, missing⟩ := recvs_exact object' waits size
  have order := drain_same_iff Message.band l
  constructor
  · intro received
    have alive : List.Forall₂ Alive drained turns := by
      by_contra dead
      have none_ := missing dead
      rw [received] at none_
      obtain ⟨m, -, equal⟩ := List.mem_map.mp none_
      cases equal
    have both : drained.map (fun m => some (again m)) = l.map (fun m => some (again m)) :=
      (all alive).1.symm.trans received
    have bands : drained.map Message.band = l.map Message.band := by
      have mapped := congrArg (List.map (Option.map Message.band)) both
      simp only [List.map_map, Function.comp_def, Option.map_some, again_band] at mapped
      have inner := congrArg (List.filterMap id) mapped
      simpa [List.filterMap_map, Function.comp_def] using inner
    have down : l.Pairwise fun x y => y.band ≤ x.band := by
      have sorted := toList_descends (sorted_enqueueAll Message.band
        (sorted_empty Message.band) l)
      have mapped : (drained.map Message.band).Pairwise fun a b => b ≤ a := List.pairwise_map.mpr sorted
      rw [bands] at mapped
      exact List.pairwise_map.mp mapped
    refine ⟨down, ?_⟩
    rwa [show drained = l from order.mpr down] at alive
  · rintro ⟨down, alive⟩
    have equal : drained = l := order.mpr down
    rw [← equal] at alive
    rw [(all alive).1, equal]

end GiveBack

def risingRun (first second : Int) : List Call :=
  [.createDefaultConsumer 0 .CLIENT_ACKNOWLEDGE, .createConsumer calm 1 .CLIENT_ACKNOWLEDGE none,
    .createProducer 5 .CLIENT_ACKNOWLEDGE,
    .sendWith calm 5 [] (letter 0 7) { priority := first }, .recv calm 1 0,
    .sendWith calm 5 [] (letter 0 8) { priority := second }, .recv calm 1 0]

def received (first second : Int) : Destination :=
  (risingRun first second).foldl next { type := .Queue }

theorem redelivery_order_falling : ∃ c m m', get (received 9 4).objects 1 = some c ∧
    c.inFlight = [m, m'] ∧
    (recvs 1 [(calm, 0), (calm, 0)] (giveBack calm (received 9 4) 1 c false)).2 =
      [some (again m), some (again m')] := by
  refine ⟨_, _, _, rfl, rfl, ?_⟩
  refine (redelivery_order (l := [_, _]) calm rfl ?_ ?_ rfl ?_ false rfl).mpr ⟨?_, ?_⟩
  · unfold Unsettled
    rw [if_neg (by decide)]
    rfl
  · decide
  · decide
  · decide
  · exact .cons rfl (.cons rfl .nil)

/- The letter that was received first comes back last. -/
theorem rising_reordered : ∃ c m m', get (received 4 9).objects 1 = some c ∧
    c.inFlight = [m, m'] ∧ (m.oid, m'.oid) = (0, 1) ∧
    (recvs 1 [(calm, 0), (calm, 0)] (giveBack calm (received 4 9) 1 c false)).2.map
      (Option.map Message.oid) = [some 1, some 0] ∧
    (recvs 1 [(calm, 0), (calm, 0)] (giveBack calm (received 4 9) 1 c false)).2 ≠
      [some (again m), some (again m')] := by
  refine ⟨_, _, _, rfl, rfl, rfl, by decide +kernel, ?_⟩
  intro same
  have names := congrArg (List.map (Option.map Message.oid)) same
  revert names
  decide +kernel

end TinyMqRedeliveryOrder
