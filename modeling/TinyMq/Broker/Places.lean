import TinyMq.Broker.QueueRuns

/-!
Where the messages of a destination are: in a queue, with the scheduler, in the
in-flight chain or the transaction queue of a consumer, in the transaction queue
of a producer. A call works on one message after the other: it takes them from
their place, has them in hand, and puts them somewhere or lets them go. No object
is ever in two places, and everything a call leaves somewhere has an origin.
-/
namespace TinyMqPlaces
open DelimitedText AssocLists BandQueues TombstoneLog TinyMqTom TinyMqMessage TinyMqStore
open TinyMqDestination TinyMqTransactionBuffer TinyMqSession TinyMqFrames TinyMqHolders TinyMqQueueRuns

inductive Place where
  | queued (q : QueueId)
  | scheduled (q : QueueId)
  | inFlight (cid : Nat)
  | received (cid : Nat)
  | staged (pid : Nat)
  deriving DecidableEq

def chainOf (c : Option Consumer) : List Message := (c.map Consumer.inFlight).getD []

def receivedBy (c : Option Consumer) : List Message :=
  (c.map fun c => c.transactQueue.toList).getD []

def stagedBy (p : Option Producer) : List Message := (p.map fun p => p.transactQueue.toList).getD []

def messagesAt (d : Destination) : Place → List Message
  | .queued q => (d.queues q).toList
  | .scheduled q => (d.pending.filter (·.2.1 = q)).map fun x => x.2.2
  | .inFlight cid => chainOf (get d.objects cid)
  | .received cid => receivedBy (get d.objects cid)
  | .staged pid => stagedBy (get d.producers pid)

def Still (d d' : Destination) : Prop := ∀ p, messagesAt d' p = messagesAt d p

def Puts (p : Place) (m : Message) (d d' : Destination) : Prop :=
  (messagesAt d' p).Perm (m :: messagesAt d p) ∧ ∀ p', p' ≠ p → messagesAt d' p' = messagesAt d p'

def Takes (p : Place) (ms : List Message) (d d' : Destination) : Prop :=
  (messagesAt d p).Perm (ms ++ messagesAt d' p) ∧ ∀ p', p' ≠ p → messagesAt d' p' = messagesAt d p'

/-- What is where, with the objects a call has in hand: each object is in one place
    or in hand, once, and `src` holds of everything that is somewhere. -/
structure Tracked (src : Place → Message → Prop) (d : Destination) (hand : List Nat) : Prop where
  origin : ∀ p, ∀ m ∈ messagesAt d p, src p m
  once : ∀ p, ((messagesAt d p).map Message.oid).Nodup
  apart : ∀ p p' m m', m ∈ messagesAt d p → m' ∈ messagesAt d p' → m.oid = m'.oid → p = p'
  single : hand.Nodup
  free : ∀ p, ∀ m ∈ messagesAt d p, m.oid ∉ hand
  made : ∀ p, ∀ m ∈ messagesAt d p, m.oid < d.nextOid
  known : ∀ o ∈ hand, o < d.nextOid

def HeldOnce (d : Destination) : Prop := Tracked (fun _ _ => True) d []

section Tracked
variable {src src' : Place → Message → Prop} {d d' : Destination} {hand : List Nat}

theorem Tracked.mono (tracked : Tracked src d hand)
    (wider : ∀ p, ∀ m ∈ messagesAt d p, src p m → src' p m) : Tracked src' d hand :=
  { tracked with origin := fun p m member => wider p m member (tracked.origin p m member) }

theorem Tracked.still (tracked : Tracked src d hand) (still : Still d d')
    (next : d.nextOid ≤ d'.nextOid) : Tracked src d' hand where
  origin := by
    intro p m member
    rw [still p] at member
    exact tracked.origin p m member
  once := by
    intro p
    rw [still p]
    exact tracked.once p
  apart := by
    intro p p' m m' one two
    rw [still] at one two
    exact tracked.apart p p' m m' one two
  single := tracked.single
  free := by
    intro p m member
    rw [still p] at member
    exact tracked.free p m member
  made := by
    intro p m member
    rw [still p] at member
    exact lt_of_lt_of_le (tracked.made p m member) next
  known := fun o member => lt_of_lt_of_le (tracked.known o member) next

theorem Tracked.fewer (tracked : Tracked src d hand)
    (less : ∀ p, (messagesAt d' p).Subperm (messagesAt d p)) (next : d.nextOid ≤ d'.nextOid) :
    Tracked src d' hand where
  origin := fun p m member => tracked.origin p m ((less p).subset member)
  once := by
    intro p
    obtain ⟨l, perm, sub⟩ := less p
    exact (perm.map Message.oid).nodup_iff.mp ((sub.map Message.oid).nodup (tracked.once p))
  apart := fun p p' m m' one two => tracked.apart p p' m m' ((less p).subset one) ((less p').subset two)
  single := tracked.single
  free := fun p m member => tracked.free p m ((less p).subset member)
  made := fun p m member => lt_of_lt_of_le (tracked.made p m ((less p).subset member)) next
  known := fun o member => lt_of_lt_of_le (tracked.known o member) next

theorem Tracked.release {o : Nat} (tracked : Tracked src d (o :: hand)) : Tracked src d hand where
  origin := tracked.origin
  once := tracked.once
  apart := tracked.apart
  single := (List.nodup_cons.mp tracked.single).2
  free := fun p m member inside => tracked.free p m member (List.mem_cons_of_mem o inside)
  made := tracked.made
  known := fun o' inside => tracked.known o' (List.mem_cons_of_mem o inside)

theorem Tracked.put {p : Place} {m : Message} (tracked : Tracked src d (m.oid :: hand))
    (puts : Puts p m d d') (fits : src p m) (next : d.nextOid ≤ d'.nextOid) :
    Tracked src d' hand := by
  obtain ⟨here, elsewhere⟩ := puts
  have cases_ : ∀ p' x, x ∈ messagesAt d' p' → p' = p ∧ x = m ∨ x ∈ messagesAt d p' := by
    intro p' x member
    by_cases same : p' = p
    · subst same
      rcases List.mem_cons.mp (here.mem_iff.mp member) with new | old
      · exact Or.inl ⟨rfl, new⟩
      · exact Or.inr old
    · rw [elsewhere p' same] at member
      exact Or.inr member
  have fresh : ∀ p', ∀ x ∈ messagesAt d p', x.oid ≠ m.oid := by
    intro p' x member same
    exact tracked.free p' x member (by simp [same])
  refine
    { origin := ?origin
      once := ?once
      apart := ?apart
      single := (List.nodup_cons.mp tracked.single).2
      free := ?free
      made := ?made
      known := ?known }
  case origin =>
    intro p' x member
    rcases cases_ p' x member with ⟨rfl, rfl⟩ | old
    · exact fits
    · exact tracked.origin p' x old
  case once =>
    intro p'
    by_cases same : p' = p
    · subst same
      rw [(here.map Message.oid).nodup_iff, List.map_cons, List.nodup_cons]
      refine ⟨?_, tracked.once p'⟩
      intro inside
      obtain ⟨x, member, equal⟩ := List.mem_map.mp inside
      exact fresh p' x member equal
    · rw [elsewhere p' same]
      exact tracked.once p'
  case apart =>
    intro p₁ p₂ x y one two equal
    rcases cases_ p₁ x one with ⟨rfl, rfl⟩ | old <;> rcases cases_ p₂ y two with ⟨rfl, rfl⟩ | old'
    · rfl
    · exact absurd equal.symm (fresh p₂ y old')
    · exact absurd equal (fresh p₁ x old)
    · exact tracked.apart p₁ p₂ x y old old' equal
  case free =>
    intro p' x member inside
    rcases cases_ p' x member with ⟨rfl, rfl⟩ | old
    · exact (List.nodup_cons.mp tracked.single).1 inside
    · exact tracked.free p' x old (List.mem_cons_of_mem _ inside)
  case made =>
    intro p' x member
    rcases cases_ p' x member with ⟨rfl, rfl⟩ | old
    · exact lt_of_lt_of_le (tracked.known _ (by simp)) next
    · exact lt_of_lt_of_le (tracked.made p' x old) next
  case known =>
    intro o inside
    exact lt_of_lt_of_le (tracked.known o (List.mem_cons_of_mem _ inside)) next

theorem Tracked.take {p : Place} {ms : List Message} (tracked : Tracked src d hand)
    (takes : Takes p ms d d') (next : d.nextOid ≤ d'.nextOid) :
    Tracked src d' (ms.map Message.oid ++ hand) := by
  obtain ⟨here, elsewhere⟩ := takes
  have less : ∀ p', (messagesAt d' p').Subperm (messagesAt d p') := by
    intro p'
    by_cases same : p' = p
    · subst same
      exact (List.sublist_append_right ms _).subperm.trans here.symm.subperm
    · rw [elsewhere p' same]
  have gone := tracked.fewer less next
  have distinct := (here.map Message.oid).nodup_iff.mp (tracked.once p)
  rw [List.map_append, List.nodup_append] at distinct
  have was : ∀ m ∈ ms, m ∈ messagesAt d p := fun m member =>
    here.mem_iff.mpr (List.mem_append_left _ member)
  refine ⟨gone.origin, gone.once, gone.apart, ?_, ?_, gone.made, ?_⟩
  · rw [List.nodup_append]
    refine ⟨distinct.1, tracked.single, ?_⟩
    intro a taken b held same
    obtain ⟨m, member, rfl⟩ := List.mem_map.mp taken
    subst same
    exact tracked.free p m (was m member) held
  · intro p' x member inside
    rcases List.mem_append.mp inside with taken | held
    · obtain ⟨m, mine, equal⟩ := List.mem_map.mp taken
      by_cases same : p' = p
      · subst same
        exact distinct.2.2 x.oid (equal ▸ List.mem_map_of_mem mine) x.oid
          (List.mem_map_of_mem member) rfl
      · have stayed := member
        rw [elsewhere p' same] at stayed
        exact same (tracked.apart p' p x m stayed (was m mine) equal.symm)
    · exact gone.free p' x member held
  · intro o inside
    rcases List.mem_append.mp inside with taken | held
    · obtain ⟨m, mine, rfl⟩ := List.mem_map.mp taken
      exact lt_of_lt_of_le (tracked.made p m (was m mine)) next
    · exact gone.known o held

theorem Tracked.create (tracked : Tracked src d hand) :
    Tracked src { d with nextOid := d.nextOid + 1 } (d.nextOid :: hand) where
  origin := tracked.origin
  once := tracked.once
  apart := tracked.apart
  single := by
    rw [List.nodup_cons]
    refine ⟨?_, tracked.single⟩
    intro inside
    exact absurd (tracked.known _ inside) (Nat.lt_irrefl _)
  free := by
    intro p m member inside
    have old := tracked.made p m member
    rcases List.mem_cons.mp inside with same | held
    · omega
    · exact tracked.free p m member held
  made := fun p m member => Nat.lt_succ_of_lt (tracked.made p m member)
  known := by
    intro o inside
    rcases List.mem_cons.mp inside with rfl | held
    · exact Nat.lt_succ_self _
    · exact Nat.lt_succ_of_lt (tracked.known o held)

end Tracked

section Moves
variable {src : Place → Message → Prop} {d : Destination} {hand : List Nat}

theorem enqueue_puts (d : Destination) (q : QueueId) (m : Message) :
    Puts (.queued q) m d (d.enqueue q m) := by
  constructor
  · simp only [messagesAt, Destination.enqueue, Destination.setQueue, Function.update_self]
    exact enqueue_perm (d.queues q) m.band m
  · intro p' other
    cases p' with
    | queued q' =>
      have apart : q' ≠ q := fun same => other (by rw [same])
      simp only [messagesAt, Destination.enqueue, Destination.setQueue, Function.update_of_ne apart]
    | _ => rfl

theorem schedule_puts (d : Destination) (t : Int) (q : QueueId) (m : Message) :
    Puts (.scheduled q) m d { d with pending := insertPending t q m d.pending } := by
  have inserted := insertPending_perm t q m d.pending
  constructor
  · have here := (inserted.filter (·.2.1 = q)).map fun x => x.2.2
    simpa [messagesAt] using here
  · intro p' other
    cases p' with
    | scheduled q' =>
      have apart : q ≠ q' := fun same => other (by rw [same])
      have whole := List.takeWhile_append_dropWhile
        (p := fun x : Int × QueueId × Message => decide (x.1 ≤ t)) (l := d.pending)
      simp only [messagesAt, insertPending, List.filter_append, List.map_append]
      rw [List.filter_cons_of_neg (by simpa using apart), ← List.map_append, ← List.filter_append,
        whole]
    | _ => rfl

theorem dequeue_takes {q : QueueId} {m : Message} {queue : QueueT}
    (next : (d.queues q).dequeue = some (m, queue)) :
    Takes (.queued q) [m] d (d.setQueue q queue) := by
  constructor
  · simp only [messagesAt, Destination.setQueue, Function.update_self, dequeue_some next]
    exact List.Perm.refl _
  · intro p' other
    cases p' with
    | queued q' =>
      have apart : q' ≠ q := fun same => other (by rw [same])
      simp only [messagesAt, Destination.setQueue, Function.update_of_ne apart]
    | _ => rfl

theorem setObject_chain {cid : Nat} {c c' : Consumer} (object : get d.objects cid = some c)
    (same : c'.transactQueue = c.transactQueue) {p' : Place} (other : p' ≠ .inFlight cid) :
    messagesAt (d.setObject cid c') p' = messagesAt d p' := by
  cases p' with
  | inFlight cid' =>
    have apart : cid' ≠ cid := fun equal => other (by rw [equal])
    simp only [messagesAt, Destination.setObject, get_put_other d.objects c' apart]
  | received cid' =>
    by_cases equal : cid' = cid
    · subst equal
      simp [messagesAt, Destination.setObject, object, receivedBy, same]
    · simp only [messagesAt, Destination.setObject, get_put_other d.objects c' equal]
  | _ => rfl

theorem setObject_received {cid : Nat} {c c' : Consumer} (object : get d.objects cid = some c)
    (same : c'.inFlight = c.inFlight) {p' : Place} (other : p' ≠ .received cid) :
    messagesAt (d.setObject cid c') p' = messagesAt d p' := by
  cases p' with
  | received cid' =>
    have apart : cid' ≠ cid := fun equal => other (by rw [equal])
    simp only [messagesAt, Destination.setObject, get_put_other d.objects c' apart]
  | inFlight cid' =>
    by_cases equal : cid' = cid
    · subst equal
      simp [messagesAt, Destination.setObject, object, chainOf, same]
    · simp only [messagesAt, Destination.setObject, get_put_other d.objects c' equal]
  | _ => rfl

theorem setObject_still {cid : Nat} {c c' : Consumer} (object : get d.objects cid = some c)
    (chain : c'.inFlight = c.inFlight) (queue : c'.transactQueue = c.transactQueue) :
    Still d (d.setObject cid c') := by
  intro p
  by_cases here : p = .inFlight cid
  · subst here
    simp [messagesAt, Destination.setObject, object, chainOf, chain]
  · exact setObject_chain object queue here

theorem setProducer_other {pid : Nat} {p : Producer} {p' : Place} (other : p' ≠ .staged pid) :
    messagesAt { d with producers := put d.producers pid p } p' = messagesAt d p' := by
  cases p' with
  | staged pid' =>
    have apart : pid' ≠ pid := fun equal => other (by rw [equal])
    simp only [messagesAt, get_put_other d.producers p apart]
  | _ => rfl

theorem enqueue_tracked {q : QueueId} {m : Message} (tracked : Tracked src d (m.oid :: hand))
    (fits : src (.queued q) m) : Tracked src (d.enqueue q m) hand :=
  tracked.put (enqueue_puts d q m) fits (le_refl _)

theorem clampFuture_oid (env : Env) (m : Message) : (clampFuture env m).oid = m.oid := by
  unfold clampFuture
  split <;> rfl

theorem enqueueOrSchedule_tracked (env : Env) {q : QueueId} {m : Message}
    (tracked : Tracked src d (m.oid :: hand)) (queued : src (.queued q) (clampFuture env m))
    (scheduled : src (.scheduled q) (clampFuture env m)) :
    Tracked src (d.enqueueOrSchedule env q m) hand := by
  rw [← clampFuture_oid env m] at tracked
  rcases enqueueOrSchedule_cases env d q m with now | dropped | later
  · rw [now]
    exact enqueue_tracked tracked queued
  · rw [dropped]
    exact tracked.release
  · rw [later]
    exact tracked.put (schedule_puts d _ q _) scheduled (le_refl _)

theorem stage_tracked {pid : Nat} {m : Message} (tracked : Tracked src d (m.oid :: hand))
    (fits : src (.staged pid) m) : Tracked src (d.stage pid m) hand := by
  unfold Destination.stage
  split
  · exact tracked.release
  · rename_i p found
    refine tracked.put (p := .staged pid) ⟨?_, fun p' other => setProducer_other other⟩ fits
      (le_refl _)
    simp only [messagesAt, get_put_same, found, stagedBy, Option.map_some, Option.getD_some]
    exact enqueue_perm p.transactQueue m.band m

theorem track_tracked {cid : Nat} {c : Consumer} (object : get d.objects cid = some c) {m : Message}
    (tracked : Tracked src d (m.oid :: hand)) (chain : src (.inFlight cid) m)
    (received : src (.received cid) m) : Tracked src (d.setObject cid (track c m)) hand := by
  have linked : ∀ c', c' = { c with inFlight := c.inFlight ++ [m] } →
      Tracked src (d.setObject cid c') hand := by
    intro c' same
    subst same
    refine tracked.put (p := .inFlight cid) ⟨?_, fun p' other => setObject_chain object (by rfl) other⟩
      chain (le_refl _)
    simp only [messagesAt, Destination.setObject, get_put_same, object, chainOf, Option.map_some,
      Option.getD_some]
    exact List.perm_append_singleton m c.inFlight
  unfold track
  split
  · refine tracked.put (p := .received cid)
      ⟨?_, fun p' other => setObject_received object (by rfl) other⟩ received (le_refl _)
    simp only [messagesAt, Destination.setObject, get_put_same, object, receivedBy, Option.map_some,
      Option.getD_some]
    exact enqueue_perm c.transactQueue m.band m
  · exact tracked.release.still (setObject_still object rfl rfl) (le_refl _)
  · exact linked _ rfl

end Moves

section Losses
variable {d : Destination}

theorem stores_still (d : Destination) (stores : StorageId → Store Content) :
    Still d { d with stores := stores } := by
  intro p
  cases p <;> rfl

theorem buffer_still (d : Destination) (buffer : TransactionBuffer Content) :
    Still d { d with buffer := buffer } := by
  intro p
  cases p <;> rfl

theorem Still.trans {d d' d'' : Destination} (one : Still d d') (two : Still d' d'') : Still d d'' :=
  fun p => (two p).trans (one p)

theorem Still.less {d d' : Destination} (still : Still d d') (p : Place) :
    (messagesAt d' p).Subperm (messagesAt d p) := by
  rw [still p]

theorem setObject_fewer {cid : Nat} {c : Consumer}
    (chain : c.inFlight.Subperm (chainOf (get d.objects cid)))
    (queue : c.transactQueue.toList.Subperm (receivedBy (get d.objects cid))) (p : Place) :
    (messagesAt (d.setObject cid c) p).Subperm (messagesAt d p) := by
  cases p with
  | inFlight cid' =>
    by_cases here : cid' = cid
    · subst here
      simpa [messagesAt, Destination.setObject, chainOf] using chain
    · simp only [messagesAt, Destination.setObject, get_put_other d.objects c here]
      exact List.Subperm.refl _
  | received cid' =>
    by_cases here : cid' = cid
    · subst here
      simpa [messagesAt, Destination.setObject, receivedBy] using queue
    · simp only [messagesAt, Destination.setObject, get_put_other d.objects c here]
      exact List.Subperm.refl _
  | _ => exact List.Subperm.refl _

theorem newObject_fewer (cid : Nat) {c : Consumer} (chain : c.inFlight = [])
    (queue : c.transactQueue = .empty) (p : Place) :
    (messagesAt (d.setObject cid c) p).Subperm (messagesAt d p) :=
  setObject_fewer (by rw [chain]; exact List.nil_subperm)
    (by rw [queue, toList_empty]; exact List.nil_subperm) p

theorem eraseObject_fewer (cid : Nat) (p : Place) :
    (messagesAt { d with objects := erase d.objects cid } p).Subperm (messagesAt d p) := by
  cases p with
  | inFlight cid' =>
    by_cases here : cid' = cid
    · subst here
      simp [messagesAt, chainOf]
    · simp only [messagesAt, get_erase_other d.objects here]
      exact List.Subperm.refl _
  | received cid' =>
    by_cases here : cid' = cid
    · subst here
      simp [messagesAt, receivedBy]
    · simp only [messagesAt, get_erase_other d.objects here]
      exact List.Subperm.refl _
  | _ => exact List.Subperm.refl _

theorem setProducer_fewer (pid : Nat) {q : Producer} (idle : q.transactQueue = .empty) (p : Place) :
    (messagesAt { d with producers := put d.producers pid q } p).Subperm (messagesAt d p) := by
  by_cases here : p = .staged pid
  · subst here
    simp [messagesAt, stagedBy, idle]
  · rw [setProducer_other here]

theorem eraseProducer_fewer (pid : Nat) (p : Place) :
    (messagesAt { d with producers := erase d.producers pid } p).Subperm (messagesAt d p) := by
  cases p with
  | staged pid' =>
    by_cases here : pid' = pid
    · subst here
      simp [messagesAt, stagedBy]
    · simp only [messagesAt, get_erase_other d.producers here]
      exact List.Subperm.refl _
  | _ => exact List.Subperm.refl _

theorem clearStaged_takes {pid : Nat} {q : Producer} (found : get d.producers pid = some q) :
    Takes (.staged pid) q.transactQueue.toList d (d.clearStaged pid q) := by
  refine ⟨?_, fun p' other => setProducer_other other⟩
  simp [messagesAt, Destination.clearStaged, stagedBy, found]

theorem emptyChain_takes {cid : Nat} {c : Consumer} (object : get d.objects cid = some c) :
    Takes (.inFlight cid) c.inFlight d (d.setObject cid { c with inFlight := [] }) := by
  refine ⟨?_, fun p' other => setObject_chain object (by rfl) other⟩
  simp [messagesAt, Destination.setObject, chainOf, object]

theorem emptyReceived_takes {cid : Nat} {c : Consumer} (object : get d.objects cid = some c) :
    Takes (.received cid) c.transactQueue.toList d
      (d.setObject cid { c with transactQueue := .empty }) := by
  refine ⟨?_, fun p' other => setObject_received object (by rfl) other⟩
  simp [messagesAt, Destination.setObject, receivedBy, object]

theorem due_takes {t : Int} {q : QueueId} {m : Message} {rest : List (Int × QueueId × Message)}
    (first : d.pending = (t, q, m) :: rest) :
    Takes (.scheduled q) [m] d { d with pending := rest } := by
  constructor
  · simp [messagesAt, first]
  · intro p' other
    cases p' with
    | scheduled q' =>
      have apart : q ≠ q' := fun same => other (by rw [same])
      simp [messagesAt, first, apart]
    | _ => rfl

end Losses

end TinyMqPlaces
