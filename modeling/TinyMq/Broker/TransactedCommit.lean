import TinyMq.Broker.DistinctRecords
import TinyMq.Broker.TransactedProducers

/-!
The end of a transaction with several producers. Each producer's commit resolves
the delays of its own messages and hands over its own messages, but the first one
takes the data of all of them out of the buffer and writes the records.
-/
namespace TinyMqTransactedCommit
open DelimitedText AssocLists BandQueues Machines TombstoneLog TinyMqTom TinyMqMessage TinyMqStore
open TinyMqDestination TinyMqTransactionBuffer TinyMqSession TinyMqFrames TinyMqSessionRuns
open TinyMqTransactedProducers
open TinyMqDistinctRecords (Works)

/-- `Session::commit`; every participant reads the clock for itself. -/
def World.commitAt (clock : (Nat × Nat) ⊕ (Nat × Nat) → Env) (w : World) (sid : Nat)
    (newSuffix : Text) : World :=
  match w.sessions sid with
  | none => w
  | some s =>
    ((participants s).foldl (fun w part => commitPart (clock part) s.suffix w part) w).setSession sid
      { s with suffix := newSuffix }

theorem commitAt_commit (env : Env) (w : World) (sid : Nat) (t : Text) :
    World.commitAt (fun _ => env) w sid t = w.commit env sid t := by
  cases found : w.sessions sid with
  | none => simp [World.commitAt, World.commit, found]
  | some s =>
    rw [commit_participants env w sid t found]
    simp only [World.commitAt, found]

def Waiting (d : Destination) (x : Message) : Prop :=
  (∃ q, x ∈ (d.queues q).toList) ∨ ∃ e ∈ d.pending, e.2.2 = x

/-- The time a message's delay comes to when its producer commits. -/
def settled (env : Env) (m : Message) : Int :=
  if 0 < m.pendingDeliveryDelay then env.nowMs + m.pendingDeliveryDelay
  else m.content.headers.deliveryTime

def Beyond (env : Env) (t : Int) : Prop := 0 < t ∧ kMaxFutureHeaderMs < t - env.nowMs

instance (env : Env) (t : Int) : Decidable (Beyond env t) := inferInstanceAs (Decidable (_ ∧ _))

/-- The delivery time a message is handed over with. -/
def handedTime (env : Env) (m : Message) : Int :=
  if Beyond env (settled env m) then 0 else settled env m

theorem resolveDelay_time (env : Env) (m : Message) :
    (resolveDelay env m).content.headers.deliveryTime = settled env m := by
  unfold resolveDelay settled
  split
  · dsimp only
    split <;> rfl
  · rfl

theorem resolveDelay_uuid (env : Env) (m : Message) : (resolveDelay env m).uuid = m.uuid := by
  unfold resolveDelay
  split
  · dsimp only
    split <;> rfl
  · rfl

theorem clampFuture_time (env : Env) (m : Message) :
    (clampFuture env m).content.headers.deliveryTime =
      if Beyond env m.content.headers.deliveryTime then 0 else m.content.headers.deliveryTime := by
  by_cases far : Beyond env m.content.headers.deliveryTime
  · rw [if_pos far]
    unfold Beyond at far
    rw [clampFuture, if_pos far]
    rfl
  · rw [if_neg far]
    unfold Beyond at far
    rw [clampFuture, if_neg far]

theorem clampFuture_uuid (env : Env) (m : Message) : (clampFuture env m).uuid = m.uuid := by
  unfold clampFuture
  split <;> rfl

def Reaches (d : Destination) : Prop := ∃ cid ∈ d.targets, ∃ c, get d.objects cid = some c

/-- The messages handed over from `d` to `d'`, each with the clock of its commit. -/
structure Gave (d d' : Destination) (given : List (Env × Message)) : Prop where
  type : d'.type = d.type
  consumers : d'.consumers = d.consumers
  objects : d'.objects = d.objects
  stopped : d'.schedulerStopped = d.schedulerStopped
  old : ∀ x, Waiting d x → Waiting d' x
  new : ∀ x, Waiting d' x → Waiting d x ∨ ∃ g ∈ given, x.uuid = g.2.uuid ∧
    x.content.headers.deliveryTime = handedTime g.1 g.2
  all : Reaches d → d.schedulerStopped = false → ∀ g ∈ given, ∃ x, Waiting d' x ∧ x.uuid = g.2.uuid
  keys : (∀ g ∈ given, g.2.uuid ≠ 0) → ∀ sid, sid ≠ .shared → ∀ u ∈ keys (d'.stores sid).log,
    u ∈ keys (d.stores sid).log ∨ ∃ g ∈ given, u = g.2.uuid

theorem gave_quiet {d d' : Destination} (type : d'.type = d.type)
    (consumers : d'.consumers = d.consumers) (objects : d'.objects = d.objects)
    (stopped : d'.schedulerStopped = d.schedulerStopped) (queues : d'.queues = d.queues)
    (pending : d'.pending = d.pending) (stores : ∀ sid, sid ≠ .shared → d'.stores sid = d.stores sid) :
    Gave d d' [] where
  type := type
  consumers := consumers
  objects := objects
  stopped := stopped
  old x waiting := by
    unfold Waiting
    rw [queues, pending]
    exact waiting
  new x waiting := by
    unfold Waiting at waiting
    rw [queues, pending] at waiting
    exact Or.inl waiting
  all _ _ := by simp
  keys _ sid other u member := by
    rw [stores sid other] at member
    exact Or.inl member

theorem Gave.reaches {d d' : Destination} {given : List (Env × Message)} (gave : Gave d d' given)
    (reaches : Reaches d) : Reaches d' := by
  obtain ⟨cid, member, c, object⟩ := reaches
  refine ⟨cid, ?_, c, by rw [gave.objects]; exact object⟩
  unfold Destination.targets Destination.isQueueFamily at member ⊢
  rw [gave.type, gave.consumers]
  exact member

theorem Gave.trans {d d' d'' : Destination} {one two : List (Env × Message)} (first : Gave d d' one)
    (second : Gave d' d'' two) : Gave d d'' (one ++ two) where
  type := second.type.trans first.type
  consumers := second.consumers.trans first.consumers
  objects := second.objects.trans first.objects
  stopped := second.stopped.trans first.stopped
  old x waiting := second.old x (first.old x waiting)
  new x waiting := by
    rcases second.new x waiting with before | ⟨g, member, rest⟩
    · rcases first.new x before with older | ⟨g, member, rest⟩
      · exact Or.inl older
      · exact Or.inr ⟨g, List.mem_append_left two member, rest⟩
    · exact Or.inr ⟨g, List.mem_append_right one member, rest⟩
  all reaches running g member := by
    rcases List.mem_append.mp member with here | there
    · obtain ⟨x, waiting, uuid⟩ := first.all reaches running g here
      exact ⟨x, second.old x waiting, uuid⟩
    · exact second.all (first.reaches reaches) (first.stopped.trans running) g there
  keys named sid other u member := by
    rcases second.keys (fun g inside => named g (List.mem_append_right one inside)) sid other u
      member with before | ⟨g, inside, same⟩
    · rcases first.keys (fun g inside => named g (List.mem_append_left two inside)) sid other u
        before with older | ⟨g, inside, same⟩
      · exact Or.inl older
      · exact Or.inr ⟨g, List.mem_append_left two inside, same⟩
    · exact Or.inr ⟨g, List.mem_append_right one inside, same⟩

theorem Gave.single {d d' : Destination} {given : List (Env × Message)} {g : Env × Message}
    (gave : Gave d d' given) (each : ∀ h ∈ given, h = g) (some : Reaches d → g ∈ given) :
    Gave d d' [g] where
  type := gave.type
  consumers := gave.consumers
  objects := gave.objects
  stopped := gave.stopped
  old := gave.old
  new x waiting := by
    rcases gave.new x waiting with before | ⟨h, member, rest⟩
    · exact Or.inl before
    · rw [each h member] at rest
      exact Or.inr ⟨g, by simp, rest⟩
  all reaches running h member := by
    rw [List.mem_singleton.mp member]
    exact gave.all reaches running g (some reaches)
  keys named sid other u member := by
    rcases gave.keys (fun h inside => by rw [each h inside]; exact named g (by simp)) sid other u
      member with before | ⟨h, inside, same⟩
    · exact Or.inl before
    · rw [each h inside] at same
      exact Or.inr ⟨g, by simp, same⟩

theorem waiting_enqueue {d : Destination} {q : QueueId} {m x : Message} :
    Waiting (d.enqueue q m) x ↔ Waiting d x ∨ x = m := by
  have queue : (∃ i, x ∈ (Function.update d.queues q ((d.queues q).enqueue m.band m) i).toList) ↔
      (∃ i, x ∈ (d.queues i).toList) ∨ x = m := by
    constructor
    · rintro ⟨i, member⟩
      by_cases same : i = q
      · subst same
        rw [Function.update_self, (enqueue_perm _ _ _).mem_iff, List.mem_cons] at member
        exact member.symm.imp (fun there => ⟨i, there⟩) id
      · rw [Function.update_of_ne same] at member
        exact Or.inl ⟨i, member⟩
    · rintro (⟨i, member⟩ | rfl)
      · by_cases same : i = q
        · subst same
          exact ⟨i, by rw [Function.update_self, (enqueue_perm _ _ _).mem_iff]; simp [member]⟩
        · exact ⟨i, by rw [Function.update_of_ne same]; exact member⟩
      · exact ⟨q, by rw [Function.update_self, (enqueue_perm _ _ _).mem_iff]; simp⟩
  unfold Waiting Destination.enqueue Destination.setQueue
  dsimp only
  rw [queue]
  exact or_right_comm

theorem waiting_schedule {d : Destination} {t : Int} {q : QueueId} {m x : Message} :
    Waiting { d with pending := insertPending t q m d.pending } x ↔ Waiting d x ∨ x = m := by
  have members : ∀ e, e ∈ insertPending t q m d.pending ↔ e ∈ d.pending ∨ e = (t, q, m) := by
    intro e
    rw [(TinyMqHolders.insertPending_perm t q m d.pending).mem_iff, List.mem_cons]
    exact or_comm
  unfold Waiting
  simp only [members]
  constructor
  · rintro (queued | ⟨e, (old | new), same⟩)
    · exact Or.inl (Or.inl queued)
    · exact Or.inl (Or.inr ⟨e, old, same⟩)
    · rw [new] at same
      exact Or.inr same.symm
  · rintro ((queued | ⟨e, old, same⟩) | rfl)
    · exact Or.inl queued
    · exact Or.inr ⟨e, Or.inl old, same⟩
    · exact Or.inr ⟨(t, q, x), Or.inr rfl, rfl⟩

theorem enqueueOrSchedule_gave (env : Env) (d : Destination) (q : QueueId) (m : Message) :
    ∀ x, (Waiting (d.enqueueOrSchedule env q m) x → Waiting d x ∨ x = clampFuture env m) ∧
      (Waiting d x → Waiting (d.enqueueOrSchedule env q m) x) ∧
      (d.schedulerStopped = false → Waiting (d.enqueueOrSchedule env q m) (clampFuture env m)) := by
  intro x
  unfold Destination.enqueueOrSchedule
  dsimp only
  split
  · exact ⟨waiting_enqueue.mp, fun old => waiting_enqueue.mpr (Or.inl old),
      fun _ => waiting_enqueue.mpr (Or.inr rfl)⟩
  · split
    · next halted =>
      split
      · exact ⟨Or.inl, id, fun running => by rw [halted] at running; cases running⟩
      · exact ⟨waiting_enqueue.mp, fun old => waiting_enqueue.mpr (Or.inl old),
          fun _ => waiting_enqueue.mpr (Or.inr rfl)⟩
    · exact ⟨waiting_schedule.mp, fun old => waiting_schedule.mpr (Or.inl old),
        fun _ => waiting_schedule.mpr (Or.inr rfl)⟩

theorem gave_enqueued {env : Env} {d : Destination} {q : QueueId} {m : Message} {g : Message}
    (uuid : g.uuid = m.uuid) (time : (clampFuture env m).content.headers.deliveryTime =
      handedTime env g) : Gave d (d.enqueueOrSchedule env q m) [(env, g)] where
  type := (enqueueOrSchedule_same env d q m).type
  consumers := (enqueueOrSchedule_same env d q m).consumers
  objects := (enqueueOrSchedule_same env d q m).objects
  stopped := by
    rcases enqueueOrSchedule_cases env d q m with queued | dropped | scheduled
    · rw [queued]
      rfl
    · rw [dropped]
    · rw [scheduled]
  old x := (enqueueOrSchedule_gave env d q m x).2.1
  new x waiting := by
    rcases (enqueueOrSchedule_gave env d q m x).1 waiting with before | same
    · exact Or.inl before
    · refine Or.inr ⟨(env, g), by simp, ?_, ?_⟩
      · rw [same, clampFuture_uuid]
        exact uuid.symm
      · rw [same]
        exact time
  all _ running h member := by
    rw [List.mem_singleton.mp member]
    refine ⟨clampFuture env m, (enqueueOrSchedule_gave env d q m m).2.2 running, ?_⟩
    rw [clampFuture_uuid]
    exact uuid.symm
  keys _ sid _ u member := by
    rw [enqueueOrSchedule_stores] at member
    exact Or.inl member

theorem resolved_time (env : Env) (m : Message) :
    (clampFuture env (resolveDelay env m)).content.headers.deliveryTime = handedTime env m := by
  rw [clampFuture_time, resolveDelay_time]
  rfl

theorem deliverTo_gave (env : Env) (m : Message) (d : Destination) (cid : Nat) :
    ∃ given, Gave d (Destination.deliverTo env (resolveDelay env m) d cid) given ∧
      (∀ h ∈ given, h = (env, m)) ∧ (∀ c, get d.objects cid = some c → (env, m) ∈ given) := by
  unfold Destination.deliverTo
  cases object : get d.objects cid with
  | none => exact ⟨[], gave_quiet rfl rfl rfl rfl rfl rfl (fun _ _ => rfl), by simp, by simp⟩
  | some c =>
    refine ⟨[(env, m)], ?_, by simp, by simp⟩
    have numbered : Gave d { d with nextOid := d.nextOid + 1 } [] :=
      gave_quiet rfl rfl rfl rfl rfl rfl (fun _ _ => rfl)
    refine numbered.trans (gave_enqueued (resolveDelay_uuid env m).symm ?_)
    have same : (clampFuture env ((resolveDelay env m).copy d.nextOid)).content.headers.deliveryTime =
        (clampFuture env (resolveDelay env m)).content.headers.deliveryTime := by
      rw [clampFuture_time, clampFuture_time]
      rfl
    exact same.trans (resolved_time env m)

theorem deliverTo_fold (env : Env) (m : Message) (l : List Nat) (d : Destination) :
    ∃ given, Gave d (l.foldl (Destination.deliverTo env (resolveDelay env m)) d) given ∧
      (∀ h ∈ given, h = (env, m)) ∧
      ∀ cid ∈ l, ∀ c, get d.objects cid = some c → (env, m) ∈ given := by
  induction l generalizing d with
  | nil => exact ⟨[], gave_quiet rfl rfl rfl rfl rfl rfl (fun _ _ => rfl), by simp, by simp⟩
  | cons cid l ih =>
    obtain ⟨one, first, each, here⟩ := deliverTo_gave env m d cid
    obtain ⟨two, rest, each', later⟩ :=
      ih (Destination.deliverTo env (resolveDelay env m) d cid)
    refine ⟨one ++ two, first.trans rest, ?_, ?_⟩
    · intro h member
      rcases List.mem_append.mp member with a | b
      · exact each h a
      · exact each' h b
    · intro i member c object
      rcases List.mem_cons.mp member with same | there
      · subst same
        exact List.mem_append_left two (here c object)
      · exact List.mem_append_right one (later i there c (by rw [first.objects]; exact object))

def Offline (m : Message) (d d' : Destination) : Prop :=
  ∃ stores, d' = { d with stores := stores } ∧ stores .shared = d.stores .shared ∧
    (m.uuid ≠ 0 → ∀ sid, ∀ u ∈ keys (stores sid).log, u ∈ keys (d.stores sid).log ∨ u = m.uuid)

theorem Offline.refl (m : Message) (d : Destination) : Offline m d d :=
  ⟨d.stores, rfl, rfl, fun _ _ _ member => Or.inl member⟩

theorem Offline.trans {m : Message} {d d' d'' : Destination} (one : Offline m d d')
    (two : Offline m d' d'') : Offline m d d'' := by
  obtain ⟨stores, rfl, shared, grown⟩ := one
  obtain ⟨stores', rfl, shared', grown'⟩ := two
  refine ⟨stores', rfl, shared'.trans shared, ?_⟩
  intro named sid u member
  rcases grown' named sid u member with before | here
  · exact grown named sid u before
  · exact Or.inr here

theorem persistToOfflineSub_offline (env : Env) (m : Message) (d : Destination)
    (entry : Text × DurableSubState) : Offline m d (d.persistToOfflineSub env m entry) := by
  unfold Destination.persistToOfflineSub Destination.appendRecord
  refine ⟨_, rfl, ?_, ?_⟩
  · exact Function.update_of_ne (by simp [DurableSubState.storage]) _ _
  · intro named sid u member
    rw [if_neg named] at member
    by_cases same : sid = entry.2.storage
    · subst same
      rw [Function.update_self] at member
      unfold Store.append at member
      split at member
      · rw [keys_append, List.mem_append, List.mem_singleton] at member
        exact member
      · exact Or.inl member
    · rw [Function.update_of_ne same] at member
      exact Or.inl member

theorem persistOffline_offline (env : Env) (d : Destination) (m : Message) :
    Offline m d (d.persistOffline env m) := by
  have loop : ∀ (l : Assoc Text DurableSubState) (e : Destination), Offline m e
      (l.foldl (fun d entry => if entry.2.active.isSome then d
        else if accepts entry.2.selector m then d.persistToOfflineSub env m entry else d) e) := by
    intro l
    induction l with
    | nil => exact Offline.refl m
    | cons entry l ih =>
      intro e
      rw [List.foldl_cons]
      split
      · exact ih e
      · split
        · exact (persistToOfflineSub_offline env m e entry).trans (ih _)
        · exact ih e
  exact loop d.durableSubs d

theorem Offline.gave {env : Env} {m g : Message} {d d' : Destination} (offline : Offline m d d')
    (uuid : m.uuid = g.uuid) {given : List (Env × Message)} {e : Destination} (before : Gave e d given)
    (listed : Reaches e → (env, g) ∈ given) (each : ∀ h ∈ given, h = (env, g)) :
    Gave e d' [(env, g)] := by
  have single := before.single each listed
  obtain ⟨stores, rfl, -, grown⟩ := offline
  refine ⟨single.type, single.consumers, single.objects, single.stopped, single.old, single.new,
    single.all, ?_⟩
  intro named sid other u member
  have name : m.uuid ≠ 0 := by
    rw [uuid]
    exact named (env, g) (by simp)
  rcases grown name sid u member with old | new
  · exact single.keys named sid other u old
  · exact Or.inr ⟨(env, g), by simp, new.trans uuid⟩

theorem deliverCommitted_gave (env : Env) (m : Message) (d : Destination) :
    Gave d (d.deliverCommitted env (resolveDelay env m)) [(env, m)] := by
  have quiet : Gave d d [] := gave_quiet rfl rfl rfl rfl rfl rfl (fun _ _ => rfl)
  unfold Destination.deliverCommitted
  by_cases queue : d.isQueueFamily = true
  · rw [if_pos queue]
    have first : d.targets = d.consumers.take 1 := if_pos queue
    split
    · next nobody =>
      refine quiet.single (by simp) ?_
      rintro ⟨cid, member, -⟩
      rw [first, nobody] at member
      cases member
    · next cid rest heads =>
      split
      · next gone =>
        refine quiet.single (by simp) ?_
        rintro ⟨i, member, c, object⟩
        rw [first, heads] at member
        have same : i = cid := by simpa using member
        rw [same, gone] at object
        cases object
      · exact gave_enqueued (resolveDelay_uuid env m).symm (resolved_time env m)
  · rw [if_neg queue]
    have all : d.targets = d.consumers := if_neg queue
    obtain ⟨given, gave, each, some⟩ := deliverTo_fold env m d.consumers d
    have listed : Reaches d → (env, m) ∈ given := by
      rintro ⟨cid, member, c, object⟩
      rw [all] at member
      exact some cid member c object
    dsimp only
    split
    · exact (persistOffline_offline env _ _).gave (resolveDelay_uuid env m) gave listed each
    · exact gave.single each listed

/-- What handing messages over does not touch. -/
def kept (d : Destination) : Assoc Nat Producer × TransactionBuffer Content × Store Content :=
  (d.producers, d.buffer, d.stores .shared)

theorem enqueueOrSchedule_kept (env : Env) (d : Destination) (q : QueueId) (m : Message) :
    kept (d.enqueueOrSchedule env q m) = kept d := by
  rcases enqueueOrSchedule_cases env d q m with queued | dropped | scheduled
  · rw [queued]
    rfl
  · rw [dropped]
  · rw [scheduled]
    rfl

theorem deliverTo_kept (env : Env) (m : Message) (d : Destination) (cid : Nat) :
    kept (Destination.deliverTo env m d cid) = kept d := by
  unfold Destination.deliverTo
  split
  · rfl
  · exact enqueueOrSchedule_kept env _ _ _

theorem kept_fold {ι : Type} {g : Destination → ι → Destination} (one : ∀ d i, kept (g d i) = kept d)
    (l : List ι) (d : Destination) : kept (l.foldl g d) = kept d := by
  induction l generalizing d with
  | nil => rfl
  | cons i l ih => exact (ih (g d i)).trans (one d i)

theorem deliverCommitted_kept (env : Env) (d : Destination) (m : Message) :
    kept (d.deliverCommitted env m) = kept d := by
  unfold Destination.deliverCommitted
  split
  · split
    · rfl
    · split
      · rfl
      · exact enqueueOrSchedule_kept env d _ m
  · have given := kept_fold (deliverTo_kept env m) d.consumers d
    dsimp only
    split
    · obtain ⟨stores, equal, shared, -⟩ := persistOffline_offline env
        (d.consumers.foldl (Destination.deliverTo env m) d) m
      rw [equal, ← given]
      simp [kept, shared]
    · exact given

/-- The patches that a producer's commit makes to the buffer. -/
def patched (env : Env) (ms : List Message) (buffer : TransactionBuffer Content) :
    TransactionBuffer Content :=
  ms.foldl (fun b m => if 0 < m.pendingDeliveryDelay ∧ m.isPersistent then
    b.patchDeliveryTime m.uuid (·.withDeliveryTime (env.nowMs + m.pendingDeliveryDelay)) else b) buffer

theorem patchPending_patched (env : Env) (ms : List Message) (d : Destination) :
    ms.foldl (Destination.patchPending env) d = { d with buffer := patched env ms d.buffer } := by
  induction ms generalizing d with
  | nil => rfl
  | cons m ms ih =>
    rw [List.foldl_cons, ih]
    unfold Destination.patchPending patched
    rw [List.foldl_cons]
    split <;> rfl

theorem deliverAll_gave (env : Env) (ms : List Message) (d : Destination) :
    Gave d ((ms.map (resolveDelay env)).foldl (Destination.deliverCommitted env) d)
      (ms.map fun m => (env, m)) := by
  induction ms generalizing d with
  | nil => exact gave_quiet rfl rfl rfl rfl rfl rfl (fun _ _ => rfl)
  | cons m ms ih => exact (deliverCommitted_gave env m d).trans (ih _)

theorem commitProducer_effect (env : Env) (d : Destination) {pid : Nat} {p : Producer} {t : Text}
    (open_ : t ≠ []) (found : get d.producers pid = some p) (mode : p.mode = .SESSION_TRANSACTED) :
    Gave d (d.commitProducer env pid t) (p.transactQueue.toList.map fun m => (env, m)) ∧
      kept (d.commitProducer env pid t) =
        (put d.producers pid { p with transactQueue := .empty },
          ((patched env p.transactQueue.toList d.buffer).commitTransaction env.stamp t).1,
          (d.stores .shared).appendBatch (env.appendFails .shared)
            ((patched env p.transactQueue.toList d.buffer).commitTransaction env.stamp t).2) := by
  unfold Destination.commitProducer
  rw [found]
  dsimp only
  rw [if_pos mode, patchPending_patched]
  have flushed : Gave d (({ d.clearStaged pid p with
      buffer := patched env p.transactQueue.toList (d.clearStaged pid p).buffer } :
        Destination).commitTransaction env t) [] := by
    unfold Destination.commitTransaction
    rw [if_neg open_]
    refine gave_quiet rfl rfl rfl rfl rfl rfl ?_
    intro sid other
    exact Function.update_of_ne other _ _
  constructor
  · have all := flushed.trans (deliverAll_gave env p.transactQueue.toList _)
    exact all
  · rw [kept_fold (deliverCommitted_kept env)]
    unfold Destination.commitTransaction
    rw [if_neg open_]
    simp only [kept, Destination.clearStaged, Function.update_self]

section Buffer
variable {α : Type}

theorem mem_takeBatch (tb : TransactionBuffer α) (ids : List UUID) (u : UUID) (a : α) :
    (u, a) ∈ (tb.takeBatch ids).2 ↔ u ∈ ids ∧ tb.bufferedData u = some a := by
  induction ids generalizing tb with
  | nil => simp [TransactionBuffer.takeBatch]
  | cons id ids ih =>
    unfold TransactionBuffer.takeBatch
    split
    · next gone =>
      rw [ih tb, List.mem_cons]
      constructor
      · exact fun both => ⟨Or.inr both.1, both.2⟩
      · rintro ⟨here | there, data⟩
        · rw [here, gone] at data
          cases data
        · exact ⟨there, data⟩
    · next b data =>
      dsimp only
      rw [List.mem_cons, ih]
      by_cases same : u = id
      · subst same
        simp [data, eq_comm]
      · simp [same]

theorem mem_committed (tb : TransactionBuffer α) (time : Stamp) (t : Text) (u : UUID) (a : α) :
    (u, a) ∈ (tb.commitTransaction time t).2 ↔
      u ∈ (get tb.transactionMessages t).getD [] ∧ tb.bufferedData u = some a := by
  unfold TransactionBuffer.commitTransaction
  cases get tb.transactionMessages t with
  | none => simp
  | some ids => exact mem_takeBatch tb ids u a

theorem committed_gone (tb : TransactionBuffer α) (time : Stamp) (t : Text) :
    get (tb.commitTransaction time t).1.transactionMessages t = none := by
  unfold TransactionBuffer.commitTransaction
  cases found : get tb.transactionMessages t with
  | none => exact found
  | some ids => exact get_erase_same _ t

end Buffer

theorem patched_ids (env : Env) (ms : List Message) (b : TransactionBuffer Content) :
    (patched env ms b).transactionMessages = b.transactionMessages := by
  unfold patched
  induction ms generalizing b with
  | nil => rfl
  | cons m ms ih =>
    rw [List.foldl_cons, ih]
    split
    · unfold TransactionBuffer.patchDeliveryTime
      split <;> rfl
    · rfl

def Patches (m : Message) (u : UUID) : Prop :=
  m.uuid = u ∧ 0 < m.pendingDeliveryDelay ∧ m.isPersistent = true

theorem patched_data (env : Env) (ms : List Message) (b : TransactionBuffer Content) {u : UUID}
    {c : Content} (data : b.bufferedData u = some c) :
    ∃ c', (patched env ms b).bufferedData u = some c' ∧
      (c' = c ∧ (∀ m ∈ ms, ¬ Patches m u) ∨ ∃ m ∈ ms, Patches m u ∧
        c'.headers.deliveryTime = env.nowMs + m.pendingDeliveryDelay) := by
  induction ms generalizing b c with
  | nil => exact ⟨c, data, Or.inl ⟨rfl, by simp⟩⟩
  | cons m ms ih =>
    by_cases patches : Patches m u
    · obtain ⟨uuid, delay, persistent⟩ := patches
      have first : (b.patchDeliveryTime m.uuid
          (·.withDeliveryTime (env.nowMs + m.pendingDeliveryDelay))).bufferedData u =
            some (c.withDeliveryTime (env.nowMs + m.pendingDeliveryDelay)) := by
        simp [TransactionBuffer.patchDeliveryTime, uuid, data]
      obtain ⟨c', there, rest⟩ := ih _ first
      refine ⟨c', ?_, Or.inr ?_⟩
      · unfold patched at there ⊢
        rw [List.foldl_cons, if_pos ⟨delay, persistent⟩]
        exact there
      · rcases rest with ⟨same, -⟩ | ⟨x, inside, later, time⟩
        · exact ⟨m, by simp, ⟨uuid, delay, persistent⟩, by rw [same]; rfl⟩
        · exact ⟨x, List.mem_cons_of_mem m inside, later, time⟩
    · have first : (if 0 < m.pendingDeliveryDelay ∧ m.isPersistent = true then
          b.patchDeliveryTime m.uuid (·.withDeliveryTime (env.nowMs + m.pendingDeliveryDelay))
          else b).bufferedData u = some c := by
        split
        · next both =>
          have other : u ≠ m.uuid := fun same => patches ⟨same.symm, both.1, both.2⟩
          unfold TransactionBuffer.patchDeliveryTime
          split
          · exact data
          · simp [Function.update_of_ne other, data]
        · exact data
      obtain ⟨c', there, rest⟩ := ih _ first
      refine ⟨c', ?_, ?_⟩
      · unfold patched at there ⊢
        rw [List.foldl_cons]
        exact there
      · rcases rest with ⟨same, none⟩ | ⟨x, inside, later, time⟩
        · refine Or.inl ⟨same, ?_⟩
          intro x member
          rcases List.mem_cons.mp member with here | there
          · rw [here]
            exact patches
          · exact none x there
        · exact Or.inr ⟨x, List.mem_cons_of_mem m inside, later, time⟩

/-- The producers' part of a commit. -/
def commitAll (clock : (Nat × Nat) ⊕ (Nat × Nat) → Env) (t : Text) (l : Assoc Nat Nat)
    (d : Destination) : Destination :=
  l.foldl (fun d e => d.commitProducer (clock (.inl e)) e.1 t) d

def stagedOf (d : Destination) (pid : Nat) : List Message :=
  ((get d.producers pid).map fun p => p.transactQueue.toList).getD []

section Visits
variable {clock : (Nat × Nat) ⊕ (Nat × Nat) → Env} {t : Text} {l : Assoc Nat Nat}

theorem commitAll_gave (open_ : t ≠ []) (distinct : (l.map Prod.fst).Nodup) (d : Destination)
    (attached : ∀ e ∈ l, ∃ p, get d.producers e.1 = some p ∧ p.mode = .SESSION_TRANSACTED) :
    Gave d (commitAll clock t l d)
      (l.flatMap fun e => (stagedOf d e.1).map fun m => (clock (.inl e), m)) := by
  induction l generalizing d with
  | nil => exact gave_quiet rfl rfl rfl rfl rfl rfl (fun _ _ => rfl)
  | cons e l ih =>
    obtain ⟨p, found, mode⟩ := attached e (by simp)
    obtain ⟨gave, after⟩ := commitProducer_effect (clock (.inl e)) d open_ found mode
    have producers : (d.commitProducer (clock (.inl e)) e.1 t).producers =
        put d.producers e.1 { p with transactQueue := .empty } := congrArg Prod.fst after
    rw [List.map_cons, List.nodup_cons] at distinct
    have others : ∀ f ∈ l, get (d.commitProducer (clock (.inl e)) e.1 t).producers f.1 =
        get d.producers f.1 := by
      intro f inside
      have apart : f.1 ≠ e.1 := by
        intro same
        exact distinct.1 (same ▸ List.mem_map_of_mem inside)
      rw [producers, get_put_other _ _ apart]
    have rest := ih distinct.2 (d.commitProducer (clock (.inl e)) e.1 t) (by
      intro f inside
      rw [others f inside]
      exact attached f (List.mem_cons_of_mem e inside))
    have same : (l.flatMap fun f => (stagedOf (d.commitProducer (clock (.inl e)) e.1 t) f.1).map
        fun m => (clock (.inl f), m)) =
          l.flatMap fun f => (stagedOf d f.1).map fun m => (clock (.inl f), m) := by
      apply List.flatMap_congr
      intro f inside
      unfold stagedOf
      rw [others f inside]
    rw [same] at rest
    have mine : stagedOf d e.1 = p.transactQueue.toList := by
      simp [stagedOf, found]
    rw [List.flatMap_cons, mine]
    exact gave.trans rest

/- Once the transaction has gone from the buffer no commit writes a record. -/
variable (clock) in
theorem commitAll_later (open_ : t ≠ []) (d : Destination)
    (gone : get d.buffer.transactionMessages t = none) :
    (commitAll clock t l d).stores .shared = d.stores .shared := by
  induction l generalizing d with
  | nil => rfl
  | cons e l ih =>
    have one : get (d.commitProducer (clock (.inl e)) e.1 t).buffer.transactionMessages t = none ∧
        (d.commitProducer (clock (.inl e)) e.1 t).stores .shared = d.stores .shared := by
      cases found : get d.producers e.1 with
      | none => simp [Destination.commitProducer, found, gone]
      | some p =>
        by_cases mode : p.mode = .SESSION_TRANSACTED
        · have after := (commitProducer_effect (clock (.inl e)) d open_ found mode).2
          simp only [kept, Prod.mk.injEq] at after
          rw [after.2.1, after.2.2]
          refine ⟨committed_gone _ _ _, ?_⟩
          have still : get (patched (clock (.inl e)) p.transactQueue.toList
              d.buffer).transactionMessages t = none := by
            rw [patched_ids]
            exact gone
          simp [TransactionBuffer.commitTransaction, still, Store.appendBatch]
        · simp [Destination.commitProducer, found, mode, gone]
    exact (ih _ one.1).trans one.2

end Visits

theorem appends_index {fails : Nat → Bool} {st : Store Content} {items : List (UUID × Content)}
    {u : UUID} (other : ∀ x ∈ items, x.1 ≠ u) : (appends fails st items).index u = st.index u := by
  unfold appends
  induction items generalizing st with
  | nil => rfl
  | cons x items ih =>
    rw [List.foldl_cons, ih fun y inside => other y (List.mem_cons_of_mem x inside)]
    unfold Store.append
    split
    · exact Function.update_of_ne (Ne.symm (other x (by simp))) _ _
    · rfl

/-- Messages wait as before, and records may have been removed below the ordinal `n` only. -/
structure Trims (n : Nat) (d d' : Destination) : Prop where
  queues : d'.queues = d.queues
  pending : d'.pending = d.pending
  keys : ∀ sid, keys (d'.stores sid).log = keys (d.stores sid).log
  live : ∀ sid, ∀ x ∈ liveRecords (d'.stores sid).log, x ∈ liveRecords (d.stores sid).log
  later : ∀ x ∈ liveRecords (d.stores .shared).log, n ≤ x.2 →
    x ∈ liveRecords (d'.stores .shared).log
  located : ∀ c m r, d'.locate c m = some r → d.locate c m = some r

theorem Trims.refl (n : Nat) (d : Destination) : Trims n d d :=
  ⟨rfl, rfl, fun _ => rfl, fun _ _ => id, fun _ member _ => member, fun _ _ _ => id⟩

theorem Trims.trans {n : Nat} {d d' d'' : Destination} (one : Trims n d d') (two : Trims n d' d'') :
    Trims n d d'' where
  queues := two.queues.trans one.queues
  pending := two.pending.trans one.pending
  keys sid := (two.keys sid).trans (one.keys sid)
  live sid x member := one.live sid x (two.live sid x member)
  later x member high := two.later x (one.later x member high) high
  located c m r found := one.located c m r (two.located c m r found)

theorem live_remove {log : Log UUID Content} {k : Nat} {x : Entry UUID Content × Nat} :
    x ∈ liveRecords (TombstoneLog.remove log k) ↔ x ∈ liveRecords log ∧ x.2 ≠ k := by
  simp only [mem_liveRecords_iff, TombstoneLog.remove, List.getElem?_modify]
  by_cases place : k = x.2
  · subst place
    simp only [if_true, ne_eq, not_true_eq_false, and_false, iff_false]
    rintro ⟨marked, live⟩
    obtain ⟨e, -, equal⟩ := Option.map_eq_some_iff.mp marked
    rw [← equal] at live
    cases live
  · simp [place, Ne.symm place]

theorem removeRecord_trims {n : Nat} (d : Destination) (sid : StorageId) (rec : Nat × UUID)
    (low : sid = .shared → rec.1 < n) : Trims n d (d.removeRecord sid rec) where
  queues := rfl
  pending := rfl
  keys i := by
    unfold Destination.removeRecord
    by_cases same : i = sid
    · subst same
      simp only [Function.update_self]
      unfold Store.remove
      split
      · exact keys_remove _ _
      · rfl
    · simp only [Function.update_of_ne same]
  live i x member := by
    unfold Destination.removeRecord at member
    by_cases same : i = sid
    · subst same
      simp only [Function.update_self] at member
      unfold Store.remove at member
      split at member
      · exact (live_remove.mp member).1
      · exact member
    · simpa only [Function.update_of_ne same] using member
  later x member high := by
    unfold Destination.removeRecord
    by_cases same : StorageId.shared = sid
    · subst same
      simp only [Function.update_self]
      unfold Store.remove
      split
      · have below := low rfl
        exact live_remove.mpr ⟨member, by omega⟩
      · exact member
    · simpa only [Function.update_of_ne same] using member
  located c m r found := by
    unfold Destination.locate Destination.removeRecord at found
    unfold Destination.locate
    cases place : m.location with
    | some k =>
      rw [place] at found
      exact found
    | none =>
      rw [place] at found
      dsimp only at found
      by_cases same : c.storage = sid
      · rw [same, Function.update_self] at found
        rw [same]
        unfold Store.record Store.remove at found
        split at found
        · by_cases mine : m.uuid = rec.2
          · rw [mine] at found
            simp at found
          · simpa only [Function.update_of_ne mine, Store.record] using found
        · exact found
      · rw [Function.update_of_ne same] at found
        exact found

theorem dropRecord_trims {n : Nat} (c : Consumer) (d : Destination) (m : Message)
    (low : c.storage = .shared → ∀ k u, d.locate c m = some (k, u) → k < n) :
    Trims n d (d.dropRecord c m) := by
  unfold Destination.dropRecord Destination.removeLocated
  split
  · split
    · exact Trims.refl n d
    · next rec found =>
      exact removeRecord_trims d c.storage rec fun shared => low shared rec.1 rec.2 found
  · exact Trims.refl n d

/-- What the consumers have received lies below the ordinal `n`. -/
def Below (n : Nat) (d : Destination) : Prop :=
  ∀ cid c, get d.objects cid = some c → c.storage = .shared →
    ∀ m ∈ c.transactQueue.toList, ∀ k u, d.locate c m = some (k, u) → k < n

theorem dropRecords_trims {n : Nat} (c : Consumer) (ms : List Message) (d : Destination)
    (low : c.storage = .shared → ∀ m ∈ ms, ∀ k u, d.locate c m = some (k, u) → k < n) :
    Trims n d (ms.foldl (Destination.dropRecord c) d) := by
  induction ms generalizing d with
  | nil => exact Trims.refl n d
  | cons m ms ih =>
    have first := dropRecord_trims c d m fun shared => low shared m (by simp)
    refine first.trans (ih _ ?_)
    intro shared x inside k u found
    exact low shared x (List.mem_cons_of_mem m inside) k u (first.located c x _ found)

theorem commitConsumer_trims {n : Nat} {d : Destination} (below : Below n d) (cid : Nat) :
    Trims n d (d.commitConsumer cid) ∧ Below n (d.commitConsumer cid) := by
  unfold Destination.commitConsumer
  cases object : get d.objects cid with
  | none => exact ⟨Trims.refl n d, below⟩
  | some c =>
    dsimp only
    split
    · have emptied : Trims n d (d.setObject cid { c with transactQueue := .empty }) :=
        ⟨rfl, rfl, fun _ => rfl, fun _ _ => id, fun _ member _ => member, fun _ _ _ => id⟩
      have trims := emptied.trans (dropRecords_trims c c.transactQueue.toList
        (d.setObject cid { c with transactQueue := .empty })
        fun shared m inside k u found => below cid c object shared m inside k u found)
      refine ⟨trims, ?_⟩
      have objects : (c.transactQueue.toList.foldl (Destination.dropRecord c)
          (d.setObject cid { c with transactQueue := .empty })).objects =
            put d.objects cid { c with transactQueue := .empty } :=
        (same_fold (l := c.transactQueue.toList) (fun e m _ => dropRecord_same e c m)
          (d.setObject cid { c with transactQueue := .empty })).objects
      intro i c' there shared m inside k u found
      rw [objects] at there
      by_cases same : i = cid
      · subst same
        rw [get_put_same] at there
        cases there
        simp at inside
      · rw [get_put_other _ _ same] at there
        exact below i c' there shared m inside k u (trims.located c' m _ found)
    · exact ⟨Trims.refl n d, below⟩

/-- The consumers' part of a commit, seen from one destination. -/
def receiveAll (did : Nat) (l : Assoc Nat Nat) (d : Destination) : Destination :=
  l.foldl (fun d c => if c.2 = did then d.commitConsumer c.1 else d) d

theorem receiveAll_trims {n : Nat} (did : Nat) (l : Assoc Nat Nat) {d : Destination}
    (below : Below n d) : Trims n d (receiveAll did l d) := by
  induction l generalizing d with
  | nil => exact Trims.refl n d
  | cons c l ih =>
    have rest : receiveAll did (c :: l) d =
        receiveAll did l (if c.2 = did then d.commitConsumer c.1 else d) := rfl
    rw [rest]
    split
    · obtain ⟨trims, still⟩ := commitConsumer_trims below c.1
      exact trims.trans (ih still)
    · exact ih below

theorem commitAt_destination (clock : (Nat × Nat) ⊕ (Nat × Nat) → Env) {w : World} {sid did : Nat}
    (newSuffix : Text) {s : Session} {d : Destination} (found : w.sessions sid = some s)
    (here : w.destinations did = some d) (on : ∀ e ∈ s.producers, e.2 = did) :
    (World.commitAt clock w sid newSuffix).destinations did =
      some (receiveAll did s.consumers (commitAll clock s.suffix s.producers d)) := by
  have producers : ∀ (l : Assoc Nat Nat) (v : World) (e : Destination), (∀ p ∈ l, p.2 = did) →
      v.destinations did = some e →
      ((l.map Sum.inl).foldl (fun w part => commitPart (clock part) s.suffix w part) v).destinations
        did = some (commitAll clock s.suffix l e) := by
    intro l
    induction l with
    | nil => exact fun v e _ there => there
    | cons p l ih =>
      intro v e all there
      have mine : p.2 = did := all p (by simp)
      refine ih _ _ (fun q inside => all q (List.mem_cons_of_mem p inside)) ?_
      rw [← mine] at there ⊢
      exact onDestination_same there _
  have consumers : ∀ (l : Assoc Nat Nat) (v : World) (e : Destination),
      v.destinations did = some e →
      ((l.map Sum.inr).foldl (fun w part => commitPart (clock part) s.suffix w part) v).destinations
        did = some (receiveAll did l e) := by
    intro l
    induction l with
    | nil => exact fun v e there => there
    | cons c l ih =>
      intro v e there
      refine ih _ _ ?_
      dsimp only
      split
      · next mine =>
        subst mine
        exact onDestination_same there _
      · next other =>
        exact (onDestination_other v (Ne.symm other) _).trans there
  simp only [World.commitAt, found, participants, List.foldl_append]
  exact consumers _ _ _ (producers _ _ _ on here)

/-- The producer that `Session::commit` comes to first. -/
def firstVisited (s : Session) : Option Nat := s.producers.head?.map Prod.fst

def storedTime (first : Option Nat) (env : Env) (x : Nat × Message) : Int :=
  if first = some x.1 then settled env x.2 else x.2.content.headers.deliveryTime

section Ends
variable {s₀ : Session} {d₀ : Destination} {sid did : Nat} {b : Book} {s : Session} {d : Destination}
  {clock : (Nat × Nat) ⊕ (Nat × Nat) → Env}

theorem going_staged (going : Going s₀ d₀ sid did b s d) {pid : Nat}
    (known : get s.producers pid ≠ none) {m : Message} :
    m ∈ stagedOf d pid ↔ (pid, m) ∈ b.sent := by
  obtain ⟨p, found, -, perm⟩ := going.attached pid known
  simp only [stagedOf, found, Option.map_some, Option.getD_some]
  rw [perm.mem_iff, List.mem_map]
  constructor
  · rintro ⟨x, member, rfl⟩
    obtain ⟨inside, mine⟩ := List.mem_filter.mp member
    rw [← (decide_eq_true_eq.mp mine : x.1 = pid)]
    exact inside
  · intro inside
    exact ⟨(pid, m), List.mem_filter.mpr ⟨inside, by simp⟩, rfl⟩

theorem going_listed (going : Going s₀ d₀ sid did b s d) {e : Nat × Nat} (member : e ∈ s.producers) :
    get s.producers e.1 ≠ none ∧ e = (e.1, did) := by
  refine ⟨get_ne_none member, ?_⟩
  rw [← going.here e member]

variable (clock) in
theorem going_handed (going : Going s₀ d₀ sid did b s d) (open_ : s₀.suffix ≠ []) :
    ∃ given, Gave d (commitAll clock s₀.suffix s.producers d) given ∧
      ∀ g, g ∈ given ↔ ∃ x ∈ b.sent, get s.producers x.1 ≠ none ∧
        g = (clock (.inl (x.1, did)), x.2) := by
  refine ⟨_, commitAll_gave open_ going.distinct d ?_, ?_⟩
  · intro e member
    obtain ⟨p, found, mode, -⟩ := going.attached e.1 (going_listed going member).1
    exact ⟨p, found, mode⟩
  · intro g
    simp only [List.mem_flatMap, List.mem_map]
    constructor
    · rintro ⟨e, member, m, inside, rfl⟩
      obtain ⟨known, shape⟩ := going_listed going member
      refine ⟨(e.1, m), (going_staged going known).mp inside, known, ?_⟩
      rw [shape]
    · rintro ⟨x, member, known, rfl⟩
      obtain ⟨i, mine⟩ := Option.ne_none_iff_exists'.mp known
      have place := going.place mine
      subst place
      exact ⟨(x.1, i), get_mem mine, x.2, (going_staged going known).mpr member, rfl⟩

/- The delivery time in the buffered bytes when the first producer has resolved its delays. -/
theorem going_patched (going : Going s₀ d₀ sid did b s d) {e : Nat × Nat} (member : e ∈ s.producers)
    (mine : firstVisited s = some e.1) {p : Producer} (found : get d.producers e.1 = some p)
    {y : Nat × Message} (recent : y ∈ b.recent) (persistent : y.2.isPersistent = true) {c : Content}
    (data : (patched (clock (.inl e)) p.transactQueue.toList d.buffer).bufferedData y.2.uuid = some c) :
    c.headers.deliveryTime = storedTime (firstVisited s) (clock (.inl (y.1, did))) y := by
  obtain ⟨known, shape⟩ := going_listed going member
  obtain ⟨c', there, time⟩ := patched_data (clock (.inl e)) p.transactQueue.toList d.buffer
    (going.data y recent persistent)
  rw [data] at there
  cases there
  have sent := going.within y recent
  have drained : p.transactQueue.toList = stagedOf d e.1 := by simp [stagedOf, found]
  have posted : ∀ {m}, m ∈ p.transactQueue.toList → (e.1, m) ∈ b.sent := by
    intro m inside
    rw [drained] at inside
    exact (going_staged going known).mp inside
  unfold storedTime settled
  rw [mine]
  by_cases first : e.1 = y.1
  · rw [if_pos (by rw [first]), ← first, ← shape]
    have own : y.2 ∈ p.transactQueue.toList := by
      rw [drained, going_staged going known, first]
      exact sent
    rcases time with ⟨same, none⟩ | ⟨m, inside, patches, time⟩
    · have still : ¬ 0 < y.2.pendingDeliveryDelay :=
        fun delayed => none y.2 own ⟨rfl, delayed, persistent⟩
      rw [if_neg still, same]
    · have delay := (going.alike _ (posted inside) y sent patches.1).2.2
      dsimp only at delay
      rw [← delay, if_pos patches.2.1]
      exact time
  · rw [if_neg (by simpa using first)]
    rcases time with ⟨same, -⟩ | ⟨m, inside, patches, -⟩
    · rw [same]
    · exact absurd (going.alike _ (posted inside) y sent patches.1).1 first

variable (clock) in
theorem going_flushed (going : Going s₀ d₀ sid did b s d) (open_ : s₀.suffix ≠ []) :
    ∃ env items, (env = clock (.inl (s.producers.headD (0, 0)))) ∧
      (commitAll clock s₀.suffix s.producers d).stores .shared =
        appends (env.appendFails .shared) (d₀.stores .shared) items ∧
      (∀ i ∈ items, s.producers ≠ [] ∧ ∃ y ∈ b.recent, y.2.isPersistent = true ∧ i.1 = y.2.uuid ∧
        i.2.headers.deliveryTime = storedTime (firstVisited s) (clock (.inl (y.1, did))) y) ∧
      (s.producers ≠ [] → ∀ y ∈ b.recent, y.2.isPersistent = true →
        ∃ i ∈ items, i.1 = y.2.uuid) := by
  have stores : d.stores = d₀.stores := by
    have same := going.setting
    simp only [scene, Prod.mk.injEq] at same
    exact same.2.2.2.2.2.1
  cases visits : s.producers with
  | nil =>
    refine ⟨_, [], rfl, ?_, by simp, fun some_ => absurd rfl some_⟩
    rw [← stores]
    rfl
  | cons e rest =>
    have member : e ∈ s.producers := by simp [visits]
    obtain ⟨p, found, mode, -⟩ := going.attached e.1 (going_listed going member).1
    have after := (commitProducer_effect (clock (.inl e)) d open_ found mode).2
    simp only [kept, Prod.mk.injEq] at after
    have batch := mem_committed (patched (clock (.inl e)) p.transactQueue.toList d.buffer)
      (clock (.inl e)).stamp s₀.suffix
    rw [patched_ids, going.ids] at batch
    refine ⟨_, ((patched (clock (.inl e)) p.transactQueue.toList d.buffer).commitTransaction
      (clock (.inl e)).stamp s₀.suffix).2, rfl, ?_, ?_, ?_⟩
    · have later := commitAll_later clock (l := rest) open_
        (d.commitProducer (clock (.inl e)) e.1 s₀.suffix)
        (by rw [after.2.1]; exact committed_gone _ _ _)
      have whole : commitAll clock s₀.suffix (e :: rest) d =
          commitAll clock s₀.suffix rest (d.commitProducer (clock (.inl e)) e.1 s₀.suffix) := rfl
      rw [whole, later, after.2.2, stores, appendBatch_appends]
      rfl
    · rintro ⟨u, c⟩ inside
      obtain ⟨named, data⟩ := (batch u c).mp inside
      obtain ⟨y, recent, same⟩ := List.mem_map.mp named
      obtain ⟨recent, persistent⟩ := List.mem_filter.mp recent
      refine ⟨by simp, y, recent, persistent, same.symm, ?_⟩
      subst same
      have mine : firstVisited s = some e.1 := by simp [firstVisited, visits]
      exact going_patched going member mine found recent persistent data
    · intro _ y recent persistent
      obtain ⟨c', there, -⟩ := patched_data (clock (.inl e)) p.transactQueue.toList d.buffer
        (going.data y recent persistent)
      refine ⟨(y.2.uuid, c'), (batch _ _).mpr ⟨?_, there⟩, rfl⟩
      exact List.mem_map.mpr ⟨y, List.mem_filter.mpr ⟨recent, persistent⟩, rfl⟩

/-- What the commit has made of the messages in the book. -/
structure Ended (b : Book) (s : Session) (did : Nat) (clock : (Nat × Nat) ⊕ (Nat × Nat) → Env)
    (good : Prop) (final : Destination) : Prop where
  waiting : ∀ x ∈ b.sent, ∀ m, Waiting final m → m.uuid = x.2.uuid →
    get s.producers x.1 ≠ none ∧
      m.content.headers.deliveryTime = handedTime (clock (.inl (x.1, did))) x.2
  delivered : ∀ x ∈ b.sent, get s.producers x.1 ≠ none → ∃ m, Waiting final m ∧ m.uuid = x.2.uuid
  record : ∀ x ∈ b.sent, ∀ r ∈ liveRecords (final.stores .shared).log, r.1.key = x.2.uuid →
    x ∈ b.recent ∧ r.1.data.headers.deliveryTime =
      storedTime (firstVisited s) (clock (.inl (x.1, did))) x
  unstored : ∀ x ∈ b.sent, get s.producers x.1 = none →
    (x ∈ b.recent → x.2.isPersistent = true → s.producers = []) →
      ∀ i, x.2.uuid ∉ keys (final.stores i).log
  recorded : (∀ part, Works (clock part)) → good → s.producers ≠ [] →
    ∀ x ∈ b.recent, x.2.isPersistent = true →
      ∃ r ∈ liveRecords (final.stores .shared).log, r.1.key = x.2.uuid
  within : ∀ x ∈ b.recent, x ∈ b.sent

theorem storedTime_alike {first : Option Nat} {x y : Nat × Message} (producer : x.1 = y.1)
    (content : x.2.content = y.2.content)
    (delay : x.2.pendingDeliveryDelay = y.2.pendingDeliveryDelay) (env : Env) :
    storedTime first env x = storedTime first env y := by
  unfold storedTime settled
  rw [producer, content, delay]

theorem handedTime_alike {m m' : Message} (content : m.content = m'.content)
    (delay : m.pendingDeliveryDelay = m'.pendingDeliveryDelay) (env : Env) :
    handedTime env m = handedTime env m' := by
  unfold handedTime settled
  rw [content, delay]

theorem below_committed (started : Below (d₀.stores .shared).log.length d₀)
    (going : Going s₀ d₀ sid did b s d) {e : Destination} (objects : e.objects = d.objects)
    {fails : Nat → Bool} {items : List (UUID × Content)}
    (store : e.stores .shared = appends fails (d₀.stores .shared) items)
    (named : ∀ i ∈ items, ∃ y ∈ b.recent, i.1 = y.2.uuid) :
    Below (d₀.stores .shared).log.length e := by
  intro cid c object shared m inside k u found
  rw [objects, (targets_moved going.setting).2] at object
  refine started cid c object shared m inside k u ?_
  unfold Destination.locate at found ⊢
  cases place : m.location with
  | some n =>
    rw [place] at found
    exact found
  | none =>
    rw [place] at found
    dsimp only at found
    have other : ∀ i ∈ items, i.1 ≠ m.uuid := by
      intro i item same
      obtain ⟨y, recent, uuid⟩ := named i item
      exact (going.unused y (going.within y recent)).received cid c object m inside
        (same.symm.trans uuid)
    rw [shared, store, Store.record, appends_index other] at found
    rw [shared]
    exact found

theorem appends_live_item {fails : Nat → Bool} {s : Store Content} {items : List (UUID × Content)}
    (good : s.good = true) (works : ∀ i < items.length, fails (s.log.length + i) = false)
    {item : UUID × Content} (inside : item ∈ items) :
    ∃ j, (⟨item.1, item.2, false⟩, s.log.length + j) ∈ liveRecords (appends fails s items).log := by
  obtain ⟨j, low, here⟩ := List.getElem_of_mem inside
  refine ⟨j, mem_liveRecords_iff.mpr ⟨?_, rfl⟩⟩
  rw [(appends_stored good works).1, List.getElem?_append_right (Nat.le_add_right _ _),
    Nat.add_sub_cancel_left]
  simp [stored, low, here]

theorem going_ended (started : Below (d₀.stores .shared).log.length d₀)
    (running : d₀.schedulerStopped = false) (going : Going s₀ d₀ sid did b s d)
    (open_ : s₀.suffix ≠ []) :
    Ended b s did clock ((d₀.stores .shared).good = true)
      (receiveAll did s.consumers (commitAll clock s₀.suffix s.producers d)) := by
  have same := going.setting
  simp only [scene, Prod.mk.injEq] at same
  obtain ⟨-, -, -, queues, pending, stores, stopped⟩ := same
  obtain ⟨given, gave, listed⟩ := going_handed clock going open_
  obtain ⟨env, items, clocked, store, named, all⟩ := going_flushed clock going open_
  have below := below_committed started going gave.objects store fun i inside => by
    obtain ⟨-, y, recent, -, uuid, -⟩ := named i inside
    exact ⟨y, recent, uuid⟩
  have trims := receiveAll_trims did s.consumers below
  have before : ∀ x ∈ b.sent, ∀ m, Waiting d m → m.uuid ≠ x.2.uuid := by
    intro x member m waiting
    have unused := going.unused x member
    unfold Waiting at waiting
    rw [queues, pending] at waiting
    rcases waiting with ⟨q, inside⟩ | ⟨e, inside, rfl⟩
    · exact unused.queues q m inside
    · exact unused.pending e inside
  have still : ∀ m, Waiting (receiveAll did s.consumers (commitAll clock s₀.suffix s.producers d)) m ↔
      Waiting (commitAll clock s₀.suffix s.producers d) m := by
    intro m
    unfold Waiting
    rw [trims.queues, trims.pending]
  refine ⟨?_, ?_, ?_, ?_, ?_, going.within⟩
  · intro x member m waiting uuid
    rcases gave.new m ((still m).mp waiting) with old | ⟨g, inside, equal, time⟩
    · exact absurd uuid (before x member m old)
    · obtain ⟨y, sent, known, rfl⟩ := (listed g).mp inside
      obtain ⟨producer, content, delay⟩ := going.alike x member y sent (uuid.symm.trans equal)
      rw [producer]
      exact ⟨known, time.trans (handedTime_alike content.symm delay.symm _)⟩
  · intro x member known
    have reaches : Reaches d := by
      obtain ⟨targets, objects⟩ := targets_moved going.setting
      unfold Reaches
      rw [targets, objects]
      exact going.reach x member
    obtain ⟨m, waiting, uuid⟩ := gave.all reaches (stopped.trans running)
      (clock (.inl (x.1, did)), x.2) ((listed _).mpr ⟨x, member, known, rfl⟩)
    exact ⟨m, (still m).mpr waiting, uuid⟩
  · intro x member r live key
    obtain ⟨place, -⟩ := mem_liveRecords_iff.mp (trims.live .shared r live)
    have entry := List.mem_of_getElem? place
    rw [store] at entry
    rcases mem_appends entry with old | item
    · refine absurd ?_ ((going.unused x member).records .shared)
      rw [← key]
      exact List.mem_map_of_mem old
    · obtain ⟨-, y, recent, -, uuid, time⟩ := named _ item
      have equal : x.2.uuid = y.2.uuid := key.symm.trans uuid
      obtain ⟨producer, content, delay⟩ := going.alike x member y (going.within y recent) equal
      refine ⟨going.together x member y recent equal, ?_⟩
      rw [producer, storedTime_alike producer content delay]
      exact time
  · intro x member deleted unflushed i inside
    rw [trims.keys i] at inside
    by_cases shared : i = .shared
    · subst shared
      rw [store] at inside
      obtain ⟨e, entry, key⟩ := List.mem_map.mp inside
      rcases mem_appends entry with old | item
      · refine (going.unused x member).records .shared ?_
        rw [← key]
        exact List.mem_map_of_mem old
      · obtain ⟨some_, y, recent, persistent, uuid, -⟩ := named _ item
        have equal : x.2.uuid = y.2.uuid := key.symm.trans uuid
        have content := (going.alike x member y (going.within y recent) equal).2.1
        refine some_ (unflushed (going.together x member y recent equal) ?_)
        unfold Message.isPersistent at persistent ⊢
        rw [content]
        exact persistent
    · have notNull : ∀ g ∈ given, g.2.uuid ≠ 0 := by
        intro g there
        obtain ⟨y, sent, -, rfl⟩ := (listed g).mp there
        exact (going.unused y sent).null
      rcases gave.keys notNull i shared _ inside with old | ⟨g, there, uuid⟩
      · rw [stores] at old
        exact (going.unused x member).records i old
      · obtain ⟨y, sent, known, rfl⟩ := (listed g).mp there
        rw [(going.alike x member y sent uuid).1] at deleted
        exact known deleted
  · intro works good some_ x recent persistent
    obtain ⟨item, inside, key⟩ := all some_ x recent persistent
    have taken : ∀ i < items.length,
        env.appendFails .shared ((d₀.stores .shared).log.length + i) = false := by
      intro i _
      rw [clocked]
      exact works _ _ _
    obtain ⟨j, live⟩ := appends_live_item good taken inside
    exact ⟨_, trims.later _ (by rw [store]; exact live) (Nat.le_add_right _ j), key⟩

end Ends

def survives (b : Book) (sid pid : Nat) : Bool :=
  (b.world.sessions sid).any fun s => (get s.producers pid).isSome

theorem survives_iff {b : Book} {sid : Nat} {s : Session} (found : b.world.sessions sid = some s)
    (pid : Nat) : survives b sid pid = true ↔ get s.producers pid ≠ none := by
  simp [survives, found, Option.isSome_iff_ne_none]

/-- The persistent messages of the producers that are left are delivered and stored, the messages
    of the deleted ones are neither. -/
structure Isolated (b : Book) (sid : Nat) (final : Destination) : Prop where
  surviving : ∀ x ∈ b.sent, survives b sid x.1 = true → x.2.isPersistent = true →
    (∃ m, Waiting final m ∧ m.uuid = x.2.uuid) ∧
      ∃ r ∈ liveRecords (final.stores .shared).log, r.1.key = x.2.uuid
  deleted : ∀ x ∈ b.sent, survives b sid x.1 = false →
    (∀ m, Waiting final m → m.uuid ≠ x.2.uuid) ∧ ∀ i, x.2.uuid ∉ keys (final.stores i).log

def bookOf (w : World) (sid did : Nat) (deleted : List Nat) (steps : List Step) : Book :=
  steps.foldl (Book.next sid did) { world := w, deleted := deleted }

section Claims
variable {w : World} {sid did : Nat} {deleted : List Nat} {s : Session} {d : Destination}

theorem transaction_ended (started : Started w sid did deleted s d) {steps : List Step}
    (fresh : Meets (Book.next sid did) (Fresh sid did) { world := w, deleted := deleted } steps)
    (clock : (Nat × Nat) ⊕ (Nat × Nat) → Env) (newSuffix : Text) :
    ∃ s' final, (bookOf w sid did deleted steps).world.sessions sid = some s' ∧
      (World.commitAt clock (bookOf w sid did deleted steps).world sid newSuffix).destinations did =
        some final ∧
      Ended (bookOf w sid did deleted steps) s' did clock ((d.stores .shared).good = true) final := by
  obtain ⟨s', d', going⟩ := going_run (going_start started) started.transaction fresh
  refine ⟨s', _, going.session,
    commitAt_destination clock newSuffix going.session going.destination going.here, ?_⟩
  rw [going.suffix]
  exact going_ended started.received started.running going started.transaction

/-- A commit keeps the producers apart exactly when no rollback of a destroyed producer came after
    a message of one that is left, and one came after every message of a deleted producer. -/
theorem producers_isolated_iff (started : Started w sid did deleted s d) {steps : List Step}
    (fresh : Meets (Book.next sid did) (Fresh sid did) { world := w, deleted := deleted } steps)
    (clock : (Nat × Nat) ⊕ (Nat × Nat) → Env) (works : ∀ part, Works (clock part))
    (good : (d.stores .shared).good = true) (newSuffix : Text) :
    ∃ final, (World.commitAt clock (bookOf w sid did deleted steps).world sid
        newSuffix).destinations did = some final ∧
      (Isolated (bookOf w sid did deleted steps) sid final ↔
        (∀ x ∈ (bookOf w sid did deleted steps).sent,
          survives (bookOf w sid did deleted steps) sid x.1 = true → x.2.isPersistent = true →
            x ∈ (bookOf w sid did deleted steps).recent) ∧
        ∀ x ∈ (bookOf w sid did deleted steps).recent,
          survives (bookOf w sid did deleted steps) sid x.1 = false → x.2.isPersistent = true →
            ∀ pid, survives (bookOf w sid did deleted steps) sid pid = false) := by
  obtain ⟨s', final, found, there, ended⟩ := transaction_ended started fresh clock newSuffix
  have unknown : ∀ {pid}, survives (bookOf w sid did deleted steps) sid pid = false →
      get s'.producers pid = none := by
    intro pid dead
    by_contra known
    rw [(survives_iff found pid).mpr known] at dead
    cases dead
  refine ⟨final, there, ?_, ?_⟩
  · intro isolated
    refine ⟨?_, ?_⟩
    · intro x sent alive persistent
      obtain ⟨-, r, live, key⟩ := isolated.surviving x sent alive persistent
      exact (ended.record x sent r live key).1
    · intro x recent dead persistent pid
      by_contra alive
      have some_ : s'.producers ≠ [] := by
        intro nobody
        have known := (survives_iff found pid).mp (by simpa using alive)
        rw [nobody] at known
        exact known rfl
      obtain ⟨r, live, key⟩ := ended.recorded works good some_ x recent persistent
      refine (isolated.deleted x (ended.within x recent) dead).2 .shared ?_
      rw [← key]
      exact List.mem_map_of_mem (List.mem_of_getElem? (mem_liveRecords_iff.mp live).1)
  · rintro ⟨after, before⟩
    refine ⟨?_, ?_⟩
    · intro x sent alive persistent
      have known := (survives_iff found x.1).mp alive
      have some_ : s'.producers ≠ [] := by
        intro nobody
        rw [nobody] at known
        exact known rfl
      exact ⟨ended.delivered x sent known,
        ended.recorded works good some_ x (after x sent alive persistent) persistent⟩
    · intro x sent dead
      refine ⟨?_, ended.unstored x sent (unknown dead) ?_⟩
      · intro m waiting uuid
        exact (ended.waiting x sent m waiting uuid).1 (unknown dead)
      · intro recent persistent
        have nobody := before x recent dead persistent
        cases list : s'.producers with
        | nil => rfl
        | cons e l =>
          have known : get s'.producers e.1 ≠ none := get_ne_none (by rw [list]; simp)
          have alive := (survives_iff found e.1).mpr known
          rw [nobody e.1] at alive
          cases alive

/-- The delivery time in a message's record is the one in its header. -/
def Matches (b : Book) (final : Destination) : Prop :=
  ∀ x ∈ b.sent, x.2.isPersistent = true → ∀ m, Waiting final m → m.uuid = x.2.uuid →
    ∀ r ∈ liveRecords (final.stores .shared).log, r.1.key = x.2.uuid →
      r.1.data.headers.deliveryTime = m.content.headers.deliveryTime

/-- The message's time is within ten years at its producer's commit, and unless this commit is the
    first one, it is the time the message was sent with. -/
def OnTime (first : Option Nat) (env : Env) (x : Nat × Message) : Prop :=
  if first = some x.1 then ¬ Beyond env (settled env x.2)
  else settled env x.2 = x.2.content.headers.deliveryTime ∧ ¬ Beyond env (settled env x.2) ∨
    x.2.content.headers.deliveryTime = 0 ∧ Beyond env (settled env x.2)

instance (first : Option Nat) (env : Env) (x : Nat × Message) : Decidable (OnTime first env x) :=
  inferInstanceAs (Decidable (ite _ _ _))

theorem onTime_iff (first : Option Nat) (env : Env) (x : Nat × Message) :
    OnTime first env x ↔ storedTime first env x = handedTime env x.2 := by
  unfold OnTime storedTime handedTime
  by_cases mine : first = some x.1
  · rw [if_pos mine, if_pos mine]
    by_cases far : Beyond env (settled env x.2)
    · rw [if_pos far]
      have positive := far.1
      exact iff_of_false (fun near => near far) (by omega)
    · simp [far]
  · rw [if_neg mine, if_neg mine]
    by_cases far : Beyond env (settled env x.2)
    · simp [far]
    · simp [far, eq_comm]

theorem delays_stored_iff (started : Started w sid did deleted s d) {steps : List Step}
    (fresh : Meets (Book.next sid did) (Fresh sid did) { world := w, deleted := deleted } steps)
    (clock : (Nat × Nat) ⊕ (Nat × Nat) → Env) (newSuffix : Text) :
    ∃ s' final, (bookOf w sid did deleted steps).world.sessions sid = some s' ∧
      (World.commitAt clock (bookOf w sid did deleted steps).world sid newSuffix).destinations did =
        some final ∧
      ((∀ x ∈ (bookOf w sid did deleted steps).recent,
        survives (bookOf w sid did deleted steps) sid x.1 = true → x.2.isPersistent = true →
          OnTime (firstVisited s') (clock (.inl (x.1, did))) x) →
            Matches (bookOf w sid did deleted steps) final) ∧
      ((∀ part, Works (clock part)) → (d.stores .shared).good = true →
        Matches (bookOf w sid did deleted steps) final →
        ∀ x ∈ (bookOf w sid did deleted steps).recent,
          survives (bookOf w sid did deleted steps) sid x.1 = true → x.2.isPersistent = true →
            OnTime (firstVisited s') (clock (.inl (x.1, did))) x) := by
  obtain ⟨s', final, found, there, ended⟩ := transaction_ended started fresh clock newSuffix
  refine ⟨s', final, found, there, ?_, ?_⟩
  · intro onTime x sent persistent m waiting uuid r live key
    obtain ⟨recent, stored⟩ := ended.record x sent r live key
    obtain ⟨known, handed⟩ := ended.waiting x sent m waiting uuid
    rw [stored, handed]
    exact (onTime_iff _ _ _).mp
      (onTime x recent ((survives_iff found x.1).mpr known) persistent)
  · intro works good equal x recent alive persistent
    have sent := ended.within x recent
    have known := (survives_iff found x.1).mp alive
    have some_ : s'.producers ≠ [] := by
      intro nobody
      rw [nobody] at known
      exact known rfl
    obtain ⟨m, waiting, uuid⟩ := ended.delivered x sent known
    obtain ⟨r, live, key⟩ := ended.recorded works good some_ x recent persistent
    have same := equal x sent persistent m waiting uuid r live key
    rw [(ended.record x sent r live key).2, (ended.waiting x sent m waiting uuid).2] at same
    exact (onTime_iff _ _ _).mpr same

end Claims

def twoProducers : World :=
  ((((({} : World).createSession 0 .SESSION_TRANSACTED ['t']).createDestination 0 0 .Queue
    10).createProducer 0 0 20).createProducer 0 0 21)

def pairSession : Session := ⟨.SESSION_TRANSACTED,['t'],[(20, 0), (21, 0)],[]⟩

def pairQueue : Destination := (twoProducers.destinations 0).getD { type := .Queue }

def hundred : Env := { calm with nowMs := 100 }

theorem hundred_works (part : (Nat × Nat) ⊕ (Nat × Nat)) : Works ((fun _ => hundred) part) :=
  fun _ _ => rfl

theorem pair_started : Started twoProducers 0 0 [] pairSession pairQueue where
  session := rfl
  destination := rfl
  transaction := by decide
  distinct := by decide
  here := by decide
  attached pid known := by
    by_cases one : pid = 20
    · subst one
      exact ⟨_, rfl, rfl, rfl⟩
    · by_cases two : pid = 21
      · subst two
        exact ⟨_, rfl, rfl, rfl⟩
      · exact absurd (by simp [pairSession, get_cons, Ne.symm one, Ne.symm two]) known
  left pid none := by cases none
  unbegun := rfl
  running := rfl
  received cid c object _ m inside := by
    have member := get_mem object
    rw [show pairQueue.objects = [(10, ⟨.SESSION_TRANSACTED,.shared,.shared,none,[],.empty,[]⟩)] from rfl,
      List.mem_singleton, Prod.mk.injEq] at member
    rw [member.2] at inside
    simp at inside

theorem pair_unused {d : Destination} (same : scene d = scene pairQueue) {u : UUID} (named : u ≠ 0) :
    Unused d u := by
  refine Unused.moved ⟨named, ?_, ?_, ?_, ?_⟩ same
  · intro sid
    exact List.not_mem_nil
  · intro q m inside
    rw [show pairQueue.queues = fun _ => .empty from rfl] at inside
    simp at inside
  · intro x inside
    cases inside
  · intro cid c object m inside
    have member := get_mem object
    rw [show pairQueue.objects = [(10, ⟨.SESSION_TRANSACTED,.shared,.shared,none,[],.empty,[]⟩)] from rfl,
      List.mem_singleton, Prod.mk.injEq] at member
    rw [member.2] at inside
    simp at inside

theorem pair_fresh {b : Book} {step : Step} {u : UUID} (named : u ≠ 0)
    (uuids : (entries b 0 0 step).map (fun x => x.2.uuid) ⊆ [u])
    (old : ∀ y ∈ b.sent, y.2.uuid ≠ u)
    (same : (b.world.destinations 0).map scene = some (scene pairQueue)) : Fresh 0 0 b step := by
  intro x member
  have uuid := List.mem_singleton.mp (uuids (List.mem_map_of_mem member))
  rw [uuid]
  refine ⟨old, ?_⟩
  intro d there
  rw [there, Option.map_some, Option.some.injEq] at same
  exact pair_unused same named

def delayedSecond : List Step :=
  [.send hundred 20 (letter 0 7),
    .sendWith hundred 21 (letter 0 8) { deliveryMode := .PERSISTENT, deliveryDelay := 5 }]

theorem delayedSecond_fresh :
    Meets (Book.next 0 0) (Fresh 0 0) { world := twoProducers } delayedSecond := by
  refine ⟨pair_fresh (u := 7) (by decide) (by decide) (by decide) rfl,
    pair_fresh (u := 8) (by decide) (by decide) (by decide) rfl, trivial⟩

def afterCommit (steps : List Step) : Destination :=
  ((World.commitAt (fun _ => hundred) (bookOf twoProducers 0 0 [] steps).world 0
    ['u']).destinations 0).getD { type := .Queue }

theorem second_delay_not_stored :
    Started twoProducers 0 0 [] pairSession pairQueue ∧
    Meets (Book.next 0 0) (Fresh 0 0) { world := twoProducers } delayedSecond ∧
    (World.commitAt (fun _ => hundred) (bookOf twoProducers 0 0 [] delayedSecond).world 0
      ['u']).destinations 0 = some (afterCommit delayedSecond) ∧
    ¬ Matches (bookOf twoProducers 0 0 [] delayedSecond) (afterCommit delayedSecond) := by
  refine ⟨pair_started, delayedSecond_fresh, rfl, ?_⟩
  intro equal
  have sent : ∃ x ∈ (bookOf twoProducers 0 0 [] delayedSecond).sent,
      x.2.isPersistent = true ∧ x.2.uuid = 8 := by decide
  have scheduled : ∃ e ∈ (afterCommit delayedSecond).pending,
      e.2.2.uuid = 8 ∧ e.2.2.content.headers.deliveryTime = 105 := by decide
  have stored : ∃ r ∈ liveRecords ((afterCommit delayedSecond).stores .shared).log,
      r.1.key = 8 ∧ r.1.data.headers.deliveryTime = 0 := by decide
  obtain ⟨x, member, persistent, uuid⟩ := sent
  obtain ⟨e, waits, uuid', time⟩ := scheduled
  obtain ⟨r, live, key, zero⟩ := stored
  have same := equal x member persistent e.2.2 (Or.inr ⟨e, waits, rfl⟩) (uuid'.trans uuid.symm) r
    live (key.trans uuid.symm)
  rw [zero, time] at same
  cases same

def delayedFirst : List Step :=
  [.sendWith hundred 20 (letter 0 7) { deliveryMode := .PERSISTENT, deliveryDelay := 5 },
    .send hundred 21 (letter 0 8)]

theorem delayedFirst_fresh :
    Meets (Book.next 0 0) (Fresh 0 0) { world := twoProducers } delayedFirst :=
  ⟨pair_fresh (u := 7) (by decide) (by decide) (by decide) rfl,
    pair_fresh (u := 8) (by decide) (by decide) (by decide) rfl, trivial⟩

theorem first_delay_stored :
    Matches (bookOf twoProducers 0 0 [] delayedFirst) (afterCommit delayedFirst) := by
  obtain ⟨s', final, found, there, enough, -⟩ :=
    delays_stored_iff pair_started delayedFirst_fresh (fun _ => hundred) ['u']
  have same : afterCommit delayedFirst = final := by
    unfold afterCommit
    rw [there]
    rfl
  have session : (bookOf twoProducers 0 0 [] delayedFirst).world.sessions 0 = some pairSession := rfl
  rw [session] at found
  cases found
  rw [same]
  refine enough ?_
  decide

/-- The second producer is deleted and destroyed when the first one has sent. -/
def deletedLater : List Step :=
  [.send hundred 20 (letter 0 7), .deleteProducer 21, .destroyProducer hundred 21]

theorem deletedLater_fresh :
    Meets (Book.next 0 0) (Fresh 0 0) { world := twoProducers } deletedLater :=
  ⟨pair_fresh (u := 7) (by decide) (by decide) (by decide) rfl,
    pair_fresh (u := 8) (by decide) (by decide) (by decide) rfl,
    pair_fresh (u := 8) (by decide) (by decide) (by decide) rfl, trivial⟩

/-- The second producer sends and is deleted, and its client still holds it at the commit. -/
def deletedHeld : List Step :=
  [.send hundred 21 (letter 0 7), .deleteProducer 21, .send hundred 20 (letter 0 8)]

theorem deletedHeld_fresh :
    Meets (Book.next 0 0) (Fresh 0 0) { world := twoProducers } deletedHeld :=
  ⟨pair_fresh (u := 7) (by decide) (by decide) (by decide) rfl,
    pair_fresh (u := 9) (by decide) (by decide) (by decide) rfl,
    pair_fresh (u := 8) (by decide) (by decide) (by decide) rfl, trivial⟩

/- A record too few, and a record too many. -/
theorem deletion_loses_record :
    Started twoProducers 0 0 [] pairSession pairQueue ∧
    (Meets (Book.next 0 0) (Fresh 0 0) { world := twoProducers } deletedLater ∧
      (World.commitAt (fun _ => hundred) (bookOf twoProducers 0 0 [] deletedLater).world 0
        ['u']).destinations 0 = some (afterCommit deletedLater) ∧
      ¬ Isolated (bookOf twoProducers 0 0 [] deletedLater) 0 (afterCommit deletedLater)) ∧
    Meets (Book.next 0 0) (Fresh 0 0) { world := twoProducers } deletedHeld ∧
      (World.commitAt (fun _ => hundred) (bookOf twoProducers 0 0 [] deletedHeld).world 0
        ['u']).destinations 0 = some (afterCommit deletedHeld) ∧
      ¬ Isolated (bookOf twoProducers 0 0 [] deletedHeld) 0 (afterCommit deletedHeld) := by
  refine ⟨pair_started, ⟨deletedLater_fresh, rfl, ?_⟩, deletedHeld_fresh, rfl, ?_⟩
  · intro isolated
    have sent : ∃ x ∈ (bookOf twoProducers 0 0 [] deletedLater).sent,
        survives (bookOf twoProducers 0 0 [] deletedLater) 0 x.1 = true ∧
          x.2.isPersistent = true := by decide
    have lost : liveRecords ((afterCommit deletedLater).stores .shared).log = [] := by
      decide
    obtain ⟨x, member, alive, persistent⟩ := sent
    obtain ⟨-, r, live, -⟩ := isolated.surviving x member alive persistent
    rw [lost] at live
    cases live
  · intro isolated
    have stored : ∃ x ∈ (bookOf twoProducers 0 0 [] deletedHeld).sent,
        survives (bookOf twoProducers 0 0 [] deletedHeld) 0 x.1 = false ∧
          x.2.uuid ∈ keys ((afterCommit deletedHeld).stores .shared).log := by decide
    obtain ⟨x, member, dead, record⟩ := stored
    exact (isolated.deleted x member dead).2 .shared record

/-- The second producer sends, is deleted and destroyed before the first one sends. -/
def deletedBefore : List Step :=
  [.send hundred 21 (letter 0 7), .deleteProducer 21, .destroyProducer hundred 21,
    .send hundred 20 (letter 0 8)]

theorem deletedBefore_fresh :
    Meets (Book.next 0 0) (Fresh 0 0) { world := twoProducers } deletedBefore :=
  ⟨pair_fresh (u := 7) (by decide) (by decide) (by decide) rfl,
    pair_fresh (u := 9) (by decide) (by decide) (by decide) rfl,
    pair_fresh (u := 9) (by decide) (by decide) (by decide) rfl,
    pair_fresh (u := 8) (by decide) (by decide) (by decide) rfl, trivial⟩

theorem deletion_before_isolated :
    (bookOf twoProducers 0 0 [] deletedBefore).sent.map (fun x => (x.1, x.2.uuid)) =
      [(21, 7), (20, 8)] ∧
    Isolated (bookOf twoProducers 0 0 [] deletedBefore) 0 (afterCommit deletedBefore) := by
  obtain ⟨final, there, exact_⟩ := producers_isolated_iff pair_started deletedBefore_fresh
    (fun _ => hundred) hundred_works rfl ['u']
  have same : afterCommit deletedBefore = final := by
    unfold afterCommit
    rw [there]
    rfl
  have left : ∀ x ∈ (bookOf twoProducers 0 0 [] deletedBefore).recent,
      survives (bookOf twoProducers 0 0 [] deletedBefore) 0 x.1 = true := by decide
  rw [same]
  refine ⟨by decide, exact_.mpr ⟨by decide, ?_⟩⟩
  intro x recent dead
  rw [left x recent] at dead
  cases dead

end TinyMqTransactedCommit
