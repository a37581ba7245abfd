import TinyMq.Broker.RestartRuns

/-!
The first consumer of a queue after a restart. The replay makes a message of every
record that is left, with the record as its bytes: what is due goes into the queue,
by bands and in the order of the log, and what is not waits in the scheduler, whose
thread brings it into its band later. From there on messages only leave, to the
consumer or because they have expired.
-/
namespace TinyMqRestartFidelity
open DelimitedText AssocLists BandQueues Machines TombstoneLog TinyMqTom TinyMqMessage TinyMqStore
open TinyMqDestination TinyMqSession TinyMqFrames TinyMqHolders TinyMqInversion TinyMqRestartRuns

def bandOf (c : Content) : Fin 10 := Message.band { oid := 0, content := c }

/-- The message is not, or no longer, held back. -/
def Due (c : Content) (clock : Int) : Prop :=
  c.headers.deliveryTime = 0 ∨ c.headers.deliveryTime ≤ clock

instance (c : Content) (clock : Int) : Decidable (Due c clock) := inferInstanceAs (Decidable (_ ∨ _))

/-- Higher bands first, and inside a band as in the list. -/
def byBand (l : List Content) : List Content := (order 10).flatMap fun b => l.filter (bandOf · = b)

/-- When the message is there to be received by a consumer created at `start`. -/
def visible (start : Int) (c : Content) : Int := if Due c start then start else c.headers.deliveryTime

/-- Of two messages of one band that were both due at the start, or both not, the one that is
    visible first comes first, and the one that was appended first when both become visible
    together. The replay enqueues the former and the scheduler's thread the latter: a band
    has no order between the two. -/
def Before (all : List Content) (start : Int) (x y : Content) : Prop :=
  bandOf x = bandOf y → (Due x start ↔ Due y start) → visible start x < visible start y ∨
    visible start x = visible start y ∧ [x, y].Sublist all

def byReplay (start : Int) (x : Message) : Bool := Due (shown x) start

/-- The queue after the restart, and what its consumer received when. -/
structure Reader where
  queue : Destination
  clock : Int
  returned : List (Int × Message) := []

inductive Later where
  | recv (patience : Nat)
  | acknowledge (m : Message)
  | deliverDue
  | reorder (q : QueueT)
  | sweepExpired (location : Nat)
  | tick (ms : Nat)

def env (r : Reader) : Env := now r.clock fun _ => 0

def read (cid : Nat) (start : Int) (r : Reader) : Later → Reader
  | .recv patience =>
    { r with
      queue := (r.queue.recv (env r) cid patience).1,
      returned := r.returned ++
        (r.queue.recv (env r) cid patience).2.toList.map fun m => (r.clock, m) }
  | .acknowledge m => { r with queue := r.queue.acknowledgeOn cid m }
  | .deliverDue => { r with queue := r.queue.deliverDue (env r) }
  | .reorder q =>
    if Rearranged (byReplay start) (r.queue.queues .shared) q then
      { r with queue := r.queue.setQueue .shared q } else r
  | .sweepExpired location => { r with queue := sweep r.clock r.queue location }
  | .tick ms => { r with clock := r.clock + ms }

/-- A clean shutdown and, `pause` later, a new start: the storage may be swept before the
    queue gets its default consumer and then its first real one. -/
def reopened (s : State) (pause : Nat) (swept : List Nat) (id cid : Nat)
    (default mode : AcknowledgeMode) : Reader where
  queue := ((swept.foldl (sweep (s.clock + pause))
    (s.queue.restart (now (s.clock + pause) fun _ => 0))).createDefaultConsumer id
      default).createConsumer (now (s.clock + pause) fun _ => 0) cid mode none
  clock := s.clock + pause

structure Replayed (x : Message) : Prop where
  persistent : x.isPersistent = true
  bytes : x.cachedStorageBytes = some (shown x)
  band : x.band = bandOf (shown x)

/-- Where the contents of the records `all` are, for a consumer created at `start`. -/
structure Reading (cid : Nat) (all : List Content) (start : Int) (r : Reader) (lost : List Content) :
    Prop where
  object : ∃ c, get r.queue.objects cid = some c ∧ c.queue = .shared
  started : start ≤ r.clock
  sorted : (r.queue.queues .shared).Sorted Message.band
  replayed : ∀ x ∈ (r.queue.queues .shared).toList, Replayed x
  scheduled : ∀ e ∈ r.queue.pending, e.2.1 = .shared ∧ Replayed e.2.2 ∧
    e.1 = (shown e.2.2).headers.deliveryTime ∧ ¬ Due (shown e.2.2) start
  ordered : r.queue.pending.Pairwise fun a b => a.1 ≤ b.1
  account : (r.returned.map (fun y => y.2.content) ++ lost ++
    (r.queue.queues .shared).toList.map shown ++
    r.queue.pending.map fun e => shown e.2.2).Perm all
  expired : ∀ c ∈ lost, Content.isExpired c r.clock
  inTurn : ((r.returned.map (fun y => y.2.content) ++
    (r.queue.queues .shared).toList.map shown).filter (Due · start)).Sublist
      (byBand (all.filter (Due · start)))
  due : ∀ x ∈ (r.queue.queues .shared).toList, Due (shown x) r.clock
  good : ∀ y ∈ r.returned, ¬ Content.isExpired y.2.content y.1 ∧ Due y.2.content y.1
  turns : (r.returned.map (fun y => y.2.content) ++ (r.queue.queues .shared).toList.map shown ++
    r.queue.pending.map fun e => shown e.2.2).Pairwise (Before all start)

theorem clampPriority_clamped (p : Int) : clampPriority (clampPriority p) = clampPriority p := by
  unfold clampPriority
  omega

section Replay
variable {at_ : Int}

theorem shell_shape {c : Content} (past : 0 ≤ c.headers.deliveryTime)
    (bound : c.headers.deliveryTime ≤ at_ + kMaxFutureHeaderMs) (oid : Nat) (uuid : UUID)
    (location : Nat) :
    Replayed (shellOf (now at_ fun _ => 0) oid uuid c location) ∧
      shown (shellOf (now at_ fun _ => 0) oid uuid c location) = c ∧
      (shellOf (now at_ fun _ => 0) oid uuid c location).content.headers.deliveryTime =
        c.headers.deliveryTime ∧
      clampFuture (now at_ fun _ => 0) (shellOf (now at_ fun _ => 0) oid uuid c location) =
        shellOf (now at_ fun _ => 0) oid uuid c location := by
  have time : storedDeliveryTime (now at_ fun _ => 0) c = c.headers.deliveryTime := by
    unfold storedDeliveryTime
    rw [if_neg]
    simp only [now]
    omega
  have whole : c.withDeliveryTime c.headers.deliveryTime = c := rfl
  have seen : shown (shellOf (now at_ fun _ => 0) oid uuid c location) = c := by
    unfold shown shellOf
    dsimp only
    rw [time, whole]
    rfl
  refine ⟨⟨rfl, ?_, ?_⟩, seen, time, ?_⟩
  · rw [seen]
    unfold shellOf
    dsimp only
    rw [time, whole]
  · rw [seen]
    apply Fin.ext
    exact congrArg Int.toNat (clampPriority_clamped c.headers.priority)
  · unfold clampFuture
    rw [if_neg]
    have here : (shellOf (now at_ fun _ => 0) oid uuid c location).content.headers.deliveryTime =
        c.headers.deliveryTime := time
    rw [here]
    simp only [now]
    omega

/-- The entry is due first, or was appended first among those that are due together. -/
def Sooner (l : List Content) (a b : Int × QueueId × Message) : Prop :=
  a.1 < b.1 ∨ a.1 = b.1 ∧ [shown a.2.2, shown b.2.2].Sublist l

theorem Sooner.le {l : List Content} {a b : Int × QueueId × Message} (sooner : Sooner l a b) :
    a.1 ≤ b.1 := by
  rcases sooner with less | ⟨same, _⟩
  · exact le_of_lt less
  · exact le_of_eq same

theorem Sooner.mono {l l' : List Content} (sub : l.Sublist l') {a b : Int × QueueId × Message}
    (sooner : Sooner l a b) : Sooner l' a b :=
  sooner.imp_right fun ⟨same, inside⟩ => ⟨same, inside.trans sub⟩

theorem insertPending_ordered (t : Int) (q : QueueId) (m : Message) {l : List Content}
    {pending : List (Int × QueueId × Message)} (ordered : pending.Pairwise (Sooner l))
    (last : ∀ e ∈ pending, e.1 ≤ t → Sooner l e (t, q, m)) :
    (insertPending t q m pending).Pairwise (Sooner l) := by
  induction pending with
  | nil => simp [insertPending]
  | cons e rest ih =>
    obtain ⟨first, tail⟩ := List.pairwise_cons.mp ordered
    by_cases sooner : e.1 ≤ t
    · have shape : insertPending t q m (e :: rest) = e :: insertPending t q m rest := by
        simp [insertPending, sooner]
      rw [shape]
      refine List.pairwise_cons.mpr
        ⟨?_, ih tail fun x inside => last x (List.mem_cons_of_mem e inside)⟩
      intro x inside
      rcases List.mem_cons.mp ((insertPending_perm t q m rest).mem_iff.mp inside) with rfl | old
      · exact last e (by simp) sooner
      · exact first x old
    · have shape : insertPending t q m (e :: rest) = (t, q, m) :: e :: rest := by
        simp [insertPending, sooner]
      rw [shape]
      refine List.pairwise_cons.mpr ⟨?_, ordered⟩
      intro x inside
      rcases List.mem_cons.mp inside with rfl | old
      · exact Or.inl (not_le.mp sooner)
      · exact Or.inl (lt_of_lt_of_le (not_le.mp sooner) (first x old).le)

/-- The queue when the records with these contents have been replayed. -/
structure Loaded (start : Int) (l : List Content) (d : Destination) : Prop where
  running : d.schedulerStopped = false
  queue : (d.queues .shared).map shown = BandQueue.empty.enqueueAll bandOf (l.filter (Due · start))
  sorted : (d.queues .shared).Sorted Message.band
  replayed : ∀ x ∈ (d.queues .shared).toList, Replayed x
  scheduled : ∀ e ∈ d.pending, e.2.1 = .shared ∧ Replayed e.2.2 ∧
    e.1 = (shown e.2.2).headers.deliveryTime ∧ ¬ Due (shown e.2.2) start
  ordered : d.pending.Pairwise (Sooner l)
  rest : (d.pending.map fun e => shown e.2.2).Perm (l.filter fun c => ¬ Due c start)

theorem loaded_empty {start : Int} {d : Destination} (running : d.schedulerStopped = false)
    (queue : d.queues .shared = BandQueue.empty) (pending : d.pending = []) : Loaded start [] d := by
  refine
    { running := running
      queue := ?queue
      sorted := ?sorted
      replayed := ?replayed
      scheduled := ?scheduled
      ordered := ?ordered
      rest := ?rest }
  case queue =>
    rw [queue]
    rfl
  case sorted =>
    rw [queue]
    exact sorted_empty _
  case replayed =>
    simp [queue]
  case scheduled =>
    simp [pending]
  case ordered =>
    simp [pending]
  case rest =>
    simp [pending]

theorem Loaded.put {start : Int} {l : List Content} {d : Destination} (loaded : Loaded start l d)
    {x : Message} (replayed : Replayed x) (due : Due (shown x) start) :
    Loaded start (l ++ [shown x]) (d.enqueue .shared x) := by
  have queue : (Destination.queues (d.enqueue .shared x) .shared) =
      (d.queues .shared).enqueue x.band x := by
    simp [Destination.enqueue, Destination.setQueue]
  refine
    { running := loaded.running
      queue := ?queue
      sorted := ?sorted
      replayed := ?replayed
      scheduled := loaded.scheduled
      ordered := loaded.ordered.imp (Sooner.mono (List.sublist_append_left _ _))
      rest := ?rest }
  case queue =>
    rw [queue, map_enqueue, loaded.queue, replayed.band, List.filter_append, enqueueAll_append]
    simp [BandQueue.enqueueAll, due]
  case sorted =>
    rw [queue]
    exact sorted_enqueue loaded.sorted x
  case replayed =>
    intro y inside
    rw [queue] at inside
    rcases List.mem_cons.mp ((enqueue_perm _ x.band x).mem_iff.mp inside) with rfl | old
    · exact replayed
    · exact loaded.replayed y old
  case rest =>
    have same : (d.enqueue .shared x).pending = d.pending := rfl
    rw [same, List.filter_append]
    simpa [due] using loaded.rest

theorem Loaded.hold {start : Int} {l : List Content} {d : Destination} (loaded : Loaded start l d)
    {x : Message} (replayed : Replayed x) (ahead : ¬ Due (shown x) start) :
    Loaded start (l ++ [shown x]) { d with
      pending := insertPending (shown x).headers.deliveryTime .shared x d.pending } := by
  have inserted := insertPending_perm (shown x).headers.deliveryTime .shared x d.pending
  refine
    { running := loaded.running
      queue := ?queue
      sorted := loaded.sorted
      replayed := loaded.replayed
      scheduled := ?scheduled
      ordered := ?ordered
      rest := ?rest }
  case queue =>
    dsimp only
    rw [loaded.queue, List.filter_append]
    simp [ahead]
  case scheduled =>
    intro e inside
    rcases List.mem_cons.mp (inserted.mem_iff.mp inside) with rfl | old
    · exact ⟨rfl, replayed, rfl, ahead⟩
    · exact loaded.scheduled e old
  case ordered =>
    refine insertPending_ordered _ _ _
      (loaded.ordered.imp (Sooner.mono (List.sublist_append_left _ _))) ?_
    intro e inside early
    rcases lt_or_eq_of_le early with less | same
    · exact Or.inl less
    · have member := loaded.rest.mem_iff.mp (List.mem_map_of_mem inside)
      have known : shown e.2.2 ∈ l := List.mem_of_mem_filter member
      exact Or.inr ⟨same, (List.singleton_sublist.mpr known).append (List.Sublist.refl _)⟩
  case rest =>
    refine (inserted.map fun e => shown e.2.2).trans ?_
    rw [List.filter_append, List.map_cons]
    simp only [List.filter_singleton, ahead]
    exact (loaded.rest.cons (shown x)).trans (List.perm_append_singleton _ _).symm

theorem Loaded.record {l : List Content} {d : Destination} (loaded : Loaded at_ l d) {c : Content}
    (past : 0 ≤ c.headers.deliveryTime) (bound : c.headers.deliveryTime ≤ at_ + kMaxFutureHeaderMs)
    (oid : Nat) (uuid : UUID) (location : Nat) :
    Loaded at_ (l ++ [c]) (d.enqueueOrSchedule (now at_ fun _ => 0) .shared
      (shellOf (now at_ fun _ => 0) oid uuid c location)) := by
  obtain ⟨replayed, seen, time, unclamped⟩ := shell_shape past bound oid uuid location
  generalize shellOf (now at_ fun _ => 0) oid uuid c location = x at replayed seen time unclamped ⊢
  subst seen
  unfold Destination.enqueueOrSchedule
  dsimp only
  rw [unclamped, time, show (now at_ fun _ => 0).nowMs = at_ from rfl]
  by_cases due : Due (shown x) at_
  · rw [if_pos (show _ ∨ _ from due)]
    exact loaded.put replayed due
  · rw [if_neg (show ¬ (_ ∨ _) from due), if_neg (by simp [loaded.running])]
    exact loaded.hold replayed due

theorem replay_loaded (records : List (Entry UUID Content × Nat)) {l : List Content} {d : Destination}
    (loaded : Loaded at_ l d)
    (times : ∀ x ∈ records, 0 ≤ x.1.data.headers.deliveryTime ∧
      x.1.data.headers.deliveryTime ≤ at_ + kMaxFutureHeaderMs) :
    Loaded at_ (l ++ records.map fun x => x.1.data) (records.foldl (fun d x =>
      ({ d with nextOid := d.nextOid + 1 } : Destination).enqueueOrSchedule (now at_ fun _ => 0)
        .shared (shellOf (now at_ fun _ => 0) d.nextOid x.1.key x.1.data x.2)) d) := by
  induction records generalizing l d with
  | nil => simpa using loaded
  | cons x records ih =>
    obtain ⟨past, bound⟩ := times x (by simp)
    have numbered : Loaded at_ l { d with nextOid := d.nextOid + 1 } :=
      ⟨loaded.running, loaded.queue, loaded.sorted, loaded.replayed, loaded.scheduled,
        loaded.ordered, loaded.rest⟩
    have next := numbered.record past bound d.nextOid x.1.key x.2
    have all := ih next fun y inside => times y (List.mem_cons_of_mem x inside)
    rw [List.append_assoc] at all
    exact all

end Replay

section Reads
variable {cid : Nat} {all lost : List Content} {start : Int} {r : Reader}

theorem replayed_content {x : Message} (replayed : Replayed x) (d : Destination) (c : Consumer) :
    (d.rehydrate c x).content = shown x := by
  unfold Destination.rehydrate
  rw [if_pos replayed.persistent, replayed.bytes]

theorem replayed_expired {x : Message} (replayed : Replayed x) (d : Destination) (c : Consumer)
    (clock : Int) :
    (d.rehydrate c x).isExpired clock = decide (Content.isExpired (shown x) clock) := by
  unfold Message.isExpired
  rw [replayed_content replayed d c]
  rfl

theorem Reading.front (reading : Reading cid all start r lost) {c : Consumer} {x : Message}
    {q : QueueT} (object : get r.queue.objects cid = some c)
    (next : (r.queue.queues c.queue).dequeue = some (x, q)) :
    c.queue = .shared ∧ (r.queue.queues .shared).toList = x :: q.toList ∧ q.Sorted Message.band ∧
      Replayed x := by
  obtain ⟨c', object', shared⟩ := reading.object
  rw [object, Option.some.injEq] at object'
  subst object'
  rw [shared] at next
  have drained := dequeue_some next
  exact ⟨shared, drained, sorted_dequeue reading.sorted next,
    reading.replayed x (by rw [drained]; simp)⟩

theorem Reading.give (reading : Reading cid all start r lost) {x m : Message} {d : Destination}
    (drained : (r.queue.queues .shared).toList = x :: (d.queues .shared).toList)
    (sorted : (d.queues .shared).Sorted Message.band) (pending : d.pending = r.queue.pending)
    (object : ∃ c, get d.objects cid = some c ∧ c.queue = .shared) (content : m.content = shown x)
    (early : ¬ Content.isExpired (shown x) r.clock) :
    Reading cid all start { r with queue := d, returned := r.returned ++ [(r.clock, m)] } lost := by
  have rest : ∀ y ∈ (d.queues .shared).toList, y ∈ (r.queue.queues .shared).toList := by
    intro y inside
    rw [drained]
    exact List.mem_cons_of_mem x inside
  have account := reading.account
  have inTurn := reading.inTurn
  have turns := reading.turns
  rw [drained] at account inTurn turns
  refine
    { object := object
      started := reading.started
      sorted := sorted
      replayed := fun y inside => reading.replayed y (rest y inside)
      scheduled := ?scheduled
      ordered := ?ordered
      account := ?account
      expired := reading.expired
      inTurn := ?inTurn
      due := fun y inside => reading.due y (rest y inside)
      good := ?good
      turns := ?turns }
  case scheduled =>
    dsimp only
    rw [pending]
    exact reading.scheduled
  case ordered =>
    dsimp only
    rw [pending]
    exact reading.ordered
  case account =>
    refine List.Perm.trans ?_ account
    dsimp only
    rw [pending]
    simp only [List.map_append, List.map_cons, List.map_nil, content, List.append_assoc,
      List.cons_append, List.nil_append]
    exact List.perm_middle.symm.append_left _
  case inTurn =>
    dsimp only
    simpa [content] using inTurn
  case good =>
    intro y inside
    rcases List.mem_append.mp inside with old | new
    · exact reading.good y old
    · rw [List.mem_singleton.mp new]
      dsimp only
      rw [content]
      exact ⟨early, reading.due x (by rw [drained]; simp)⟩
  case turns =>
    have same : (r.returned ++ [(r.clock, m)]).map (fun y => y.2.content) ++
        (d.queues .shared).toList.map shown = r.returned.map (fun y => y.2.content) ++
          (x :: (d.queues .shared).toList).map shown := by
      simp [content]
    dsimp only
    rw [pending, same]
    exact turns

theorem Reading.drop (reading : Reading cid all start r lost) {x : Message} {d : Destination}
    (drained : (r.queue.queues .shared).toList = x :: (d.queues .shared).toList)
    (sorted : (d.queues .shared).Sorted Message.band) (pending : d.pending = r.queue.pending)
    (objects : d.objects = r.queue.objects) (late : Content.isExpired (shown x) r.clock) :
    Reading cid all start { r with queue := d } (shown x :: lost) := by
  have rest : ∀ y ∈ (d.queues .shared).toList, y ∈ (r.queue.queues .shared).toList := by
    intro y inside
    rw [drained]
    exact List.mem_cons_of_mem x inside
  have account := reading.account
  have inTurn := reading.inTurn
  have turns := reading.turns
  rw [drained] at account inTurn turns
  refine
    { object := ?object
      started := reading.started
      sorted := sorted
      replayed := fun y inside => reading.replayed y (rest y inside)
      scheduled := ?scheduled
      ordered := ?ordered
      account := ?account
      expired := ?expired
      inTurn := ?inTurn
      due := fun y inside => reading.due y (rest y inside)
      good := reading.good
      turns := ?turns }
  case object =>
    dsimp only
    rw [objects]
    exact reading.object
  case scheduled =>
    dsimp only
    rw [pending]
    exact reading.scheduled
  case ordered =>
    dsimp only
    rw [pending]
    exact reading.ordered
  case account =>
    refine List.Perm.trans ?_ account
    dsimp only
    rw [pending]
    simp only [List.map_cons, List.append_assoc, List.cons_append]
    exact List.perm_middle.symm.append_left _
  case expired =>
    intro c inside
    rcases List.mem_cons.mp inside with rfl | old
    · exact late
    · exact reading.expired c old
  case inTurn =>
    refine List.Sublist.trans ?_ inTurn
    refine List.Sublist.filter _ ?_
    exact (List.sublist_cons_self _ _).append_left _
  case turns =>
    dsimp only
    rw [pending]
    refine turns.sublist (List.Sublist.append_right ?_ _)
    exact (List.sublist_cons_self _ _).append_left _

theorem Reading.expire (reading : Reading cid all start r lost) {c : Consumer} {x : Message}
    {q : QueueT} (object : get r.queue.objects cid = some c)
    (next : (r.queue.queues c.queue).dequeue = some (x, q))
    (late : ((r.queue.setQueue c.queue q).rehydrate c x).isExpired r.clock = true) :
    Content.isExpired (shown x) r.clock ∧ (r.queue.queues .shared).toList = x :: q.toList ∧
      ∃ d, (r.queue.setQueue c.queue q).dropRecord c ((r.queue.setQueue c.queue q).rehydrate c x) = d ∧
        (d.queues .shared).toList = q.toList ∧
        Reading cid all start { r with queue := d } (shown x :: lost) := by
  obtain ⟨shared, drained, sorted, replayed⟩ := reading.front object next
  rw [replayed_expired replayed] at late
  obtain ⟨stores, only⟩ := dropRecords_stores (r.queue.setQueue c.queue q) c
    [(r.queue.setQueue c.queue q).rehydrate c x]
  have queue : ((r.queue.setQueue c.queue q).queues .shared) = q := by
    simp [Destination.setQueue, shared]
  refine ⟨of_decide_eq_true late, drained, _, only, by rw [queue], ?_⟩
  refine reading.drop (x := x) ?_ ?_ rfl rfl (of_decide_eq_true late)
  · dsimp only
    rw [queue]
    exact drained
  · dsimp only
    rw [queue]
    exact sorted

theorem recv_reading (patience : Nat) (reading : Reading cid all start r lost) :
    ∃ lost', Reading cid all start (read cid start r (.recv patience)) lost' := by
  refine recv_rounds (env r) (P := fun _ d result => ∀ lost,
      Reading cid all start { r with queue := d } lost →
      ∃ lost', Reading cid all start { r with
        queue := result.1,
        returned := r.returned ++ result.2.toList.map fun m => (r.clock, m) } lost')
    ?_ ?_ ?_ ?_ ?_ patience r.queue lost reading
  · intro _ d _ lost reading
    exact ⟨lost, by simpa using reading⟩
  · intro _ d c _ _ lost reading
    exact ⟨lost, by simpa using reading⟩
  · intro _ d c x q object next early lost reading
    obtain ⟨shared, drained, sorted, replayed⟩ := reading.front object next
    rw [replayed_expired replayed] at early
    refine ⟨lost, reading.give (x := x) ?_ ?_ rfl ?_ (replayed_content replayed _ c)
      (of_decide_eq_false early)⟩
    · simpa [Destination.setObject, Destination.setQueue, shared] using drained
    · simpa [Destination.setObject, Destination.setQueue, shared] using sorted
    · refine ⟨track c ((d.setQueue c.queue q).rehydrate c x), by simp [Destination.setObject], ?_⟩
      unfold track
      split
      · exact shared
      · exact shared
      · exact shared
  · intro d c x q object next late lost reading
    obtain ⟨_, _, e, dropped, _, left⟩ := reading.expire object next late
    rw [dropped]
    exact ⟨shown x :: lost, by simpa using left⟩
  · intro _ d c x q result object next late rest lost reading
    obtain ⟨_, _, e, dropped, _, left⟩ := reading.expire object next late
    rw [dropped] at rest
    exact rest (shown x :: lost) left

theorem Reading.same (reading : Reading cid all start r lost) {d : Destination}
    (queues : d.queues = r.queue.queues) (pending : d.pending = r.queue.pending)
    (object : ∃ c, get d.objects cid = some c ∧ c.queue = .shared) :
    Reading cid all start { r with queue := d } lost := by
  refine
    { object := object
      started := reading.started
      sorted := ?sorted
      replayed := ?replayed
      scheduled := ?scheduled
      ordered := ?ordered
      account := ?account
      expired := reading.expired
      inTurn := ?inTurn
      due := ?due
      good := reading.good
      turns := ?turns }
  case sorted =>
    dsimp only
    rw [queues]
    exact reading.sorted
  case replayed =>
    dsimp only
    rw [queues]
    exact reading.replayed
  case scheduled =>
    dsimp only
    rw [pending]
    exact reading.scheduled
  case ordered =>
    dsimp only
    rw [pending]
    exact reading.ordered
  case account =>
    dsimp only
    rw [queues, pending]
    exact reading.account
  case inTurn =>
    dsimp only
    rw [queues]
    exact reading.inTurn
  case due =>
    dsimp only
    rw [queues]
    exact reading.due
  case turns =>
    dsimp only
    rw [queues, pending]
    exact reading.turns

theorem turns_moved {a b c : List Content} {x : Content}
    (turns : (a ++ b ++ x :: c).Pairwise (Before all start)) (other : ∀ y ∈ b, bandOf y ≠ bandOf x) :
    (a ++ x :: b ++ c).Pairwise (Before all start) := by
  rw [List.pairwise_append, List.pairwise_append, List.pairwise_cons] at turns
  obtain ⟨⟨first, second, ahead_b⟩, ⟨behind, third⟩, ahead_c⟩ := turns
  rw [List.append_assoc, List.cons_append, List.pairwise_append, List.pairwise_cons,
    List.pairwise_append]
  refine ⟨first, ⟨?_, second, third, ?_⟩, ?_⟩
  · intro y inside
    rcases List.mem_append.mp inside with inside | inside
    · exact fun same _ => absurd same.symm (other y inside)
    · exact behind y inside
  · intro y inside z there
    exact ahead_c y (List.mem_append_right a inside) z (List.mem_cons_of_mem x there)
  · intro y inside z there
    rcases List.mem_cons.mp there with rfl | there
    · exact ahead_c y (List.mem_append_left b inside) z (by simp)
    · rcases List.mem_append.mp there with there | there
      · exact ahead_b y inside z there
      · exact ahead_c y (List.mem_append_left b inside) z (List.mem_cons_of_mem x there)

theorem deliverDue_reading (reading : Reading cid all start r lost) :
    Reading cid all start (read cid start r .deliverDue) lost := by
  unfold read Destination.deliverDue
  dsimp only
  split
  · exact reading
  · rename_i t q x rest first
    split
    · rename_i now_
      obtain ⟨shared, replayed, key, ahead⟩ := reading.scheduled (t, q, x) (by rw [first]; simp)
      dsimp only at shared replayed key ahead
      subst shared
      have queue : (Destination.queues (Destination.enqueue { r.queue with pending := rest } .shared x)
          .shared) = (r.queue.queues .shared).enqueue x.band x := by
        simp [Destination.enqueue, Destination.setQueue]
      have left : (Destination.enqueue { r.queue with pending := rest } .shared x).pending = rest := rfl
      have moved := enqueue_perm (r.queue.queues .shared) x.band x
      have account := reading.account
      rw [first] at account
      refine
        { object := reading.object
          started := reading.started
          sorted := ?sorted
          replayed := ?replayed
          scheduled := ?scheduled
          ordered := ?ordered
          account := ?account
          expired := reading.expired
          inTurn := ?inTurn
          due := ?due
          good := reading.good
          turns := ?turns }
      case sorted =>
        dsimp only
        rw [queue]
        exact sorted_enqueue reading.sorted x
      case replayed =>
        intro y inside
        dsimp only at inside
        rw [queue] at inside
        rcases List.mem_cons.mp (moved.mem_iff.mp inside) with rfl | old
        · exact replayed
        · exact reading.replayed y old
      case scheduled =>
        intro e inside
        exact reading.scheduled e (by rw [first]; exact List.mem_cons_of_mem _ inside)
      case ordered =>
        have ordered := reading.ordered
        rw [first] at ordered
        exact (List.pairwise_cons.mp ordered).2
      case account =>
        refine List.Perm.trans ?_ account
        dsimp only
        rw [queue, left, List.map_cons]
        refine ((moved.map shown).append_left _ |>.append_right _).trans ?_
        simp only [List.map_cons, List.append_assoc, List.cons_append]
        exact (List.perm_middle.symm.append_left _).append_left _
      case inTurn =>
        dsimp only
        have other : (decide (Due (shown x) start)) = false := by simpa using ahead
        have unchanged := filter_enqueue_other (fun y => decide (Due (shown y) start))
          (r.queue.queues .shared) x.band other
        have mapped : ∀ l : List Message, (l.map shown).filter (Due · start) =
            (l.filter fun y => decide (Due (shown y) start)).map shown := fun l => List.filter_map
        have inTurn := reading.inTurn
        rw [List.filter_append, mapped] at inTurn ⊢
        rw [queue, unchanged]
        exact inTurn
      case due =>
        intro y inside
        dsimp only at inside
        rw [queue] at inside
        rcases List.mem_cons.mp (moved.mem_iff.mp inside) with rfl | old
        · exact Or.inr (by rw [← key]; exact now_)
        · exact reading.due y old
      case turns =>
        obtain ⟨front, back, before, after, other⟩ := enqueue_position reading.sorted x
        have turns := reading.turns
        rw [first, before, List.map_append, ← List.append_assoc, List.map_cons] at turns
        dsimp only
        rw [queue, left, after, List.map_append, ← List.append_assoc, List.map_cons]
        refine turns_moved turns ?_
        intro c inside
        obtain ⟨y, there, rfl⟩ := List.mem_map.mp inside
        have listed : y ∈ (r.queue.queues .shared).toList := by
          rw [before]
          exact List.mem_append_right front there
        rw [← (reading.replayed y listed).band, ← replayed.band]
        exact other y there
    · exact reading

theorem reorder_reading (reading : Reading cid all start r lost) (q : QueueT) :
    Reading cid all start (read cid start r (.reorder q)) lost := by
  unfold read
  dsimp only
  split
  · rename_i same
    have queue : (r.queue.setQueue .shared q).queues .shared = q := by
      simp [Destination.setQueue]
    have members : ∀ x, x ∈ q.toList ↔ x ∈ (r.queue.queues .shared).toList :=
      fun x => same.perm.mem_iff
    refine
      { object := reading.object
        started := reading.started
        sorted := ?sorted
        replayed := ?replayed
        scheduled := reading.scheduled
        ordered := reading.ordered
        account := ?account
        expired := reading.expired
        inTurn := ?inTurn
        due := ?due
        good := reading.good
        turns := ?turns }
    case sorted =>
      dsimp only
      rw [queue]
      exact same.sorted reading.sorted
    case replayed =>
      intro x inside
      dsimp only at inside
      rw [queue] at inside
      exact reading.replayed x ((members x).mp inside)
    case account =>
      refine List.Perm.trans ?_ reading.account
      dsimp only
      rw [queue]
      exact ((same.perm.map shown).append_left _).append_right _
    case inTurn =>
      have replay : (q.toList.map shown).filter (Due · start) =
          ((r.queue.queues .shared).toList.map shown).filter (Due · start) := by
        have mapped : ∀ l : List Message, (l.map shown).filter (Due · start) =
            (l.filter (byReplay start · = true)).map shown := by
          intro l
          rw [List.filter_map]
          simp [Function.comp_def, byReplay]
        rw [mapped, mapped, same.filter true]
      have inTurn := reading.inTurn
      rw [List.filter_append] at inTurn
      dsimp only
      rw [queue, List.filter_append, replay]
      exact inTurn
    case due =>
      intro x inside
      dsimp only at inside
      rw [queue] at inside
      exact reading.due x ((members x).mp inside)
    case turns =>
      have banded : (r.queue.queues .shared).Sorted fun x => bandOf (shown x) := by
        intro b x inside
        have own := (reading.replayed x (mem_toList.mpr ⟨b, inside⟩)).band
        exact own.symm.trans (reading.sorted b x inside)
      obtain ⟨front, rest, across⟩ := List.pairwise_append.mp reading.turns
      obtain ⟨given, waiting, between⟩ := List.pairwise_append.mp front
      have moved : (q.toList.map shown).Pairwise (Before all start) := by
        rw [List.pairwise_map] at waiting ⊢
        refine same.pairwise banded ?_ waiting
        intro x y before one lanes
        exact before one (by simpa [byReplay] using lanes) one lanes
      have shownMembers : ∀ c, c ∈ q.toList.map shown ↔
          c ∈ (r.queue.queues .shared).toList.map shown :=
        fun c => (same.perm.map shown).mem_iff
      dsimp only
      rw [queue, List.pairwise_append, List.pairwise_append]
      refine ⟨⟨given, moved, ?_⟩, rest, ?_⟩
      · intro x inside y there
        exact between x inside y ((shownMembers y).mp there)
      · intro x inside
        refine across x ?_
        rcases List.mem_append.mp inside with old | new
        · exact List.mem_append_left _ old
        · exact List.mem_append_right _ ((shownMembers x).mp new)
  · exact reading

theorem acknowledgeOn_waiting (d : Destination) (cid : Nat) (m : Message) :
    (d.acknowledgeOn cid m).queues = d.queues ∧ (d.acknowledgeOn cid m).pending = d.pending := by
  unfold Destination.acknowledgeOn
  split
  · exact ⟨rfl, rfl⟩
  · split
    · exact ⟨rfl, rfl⟩
    · dsimp only
      split
      · split
        · exact ⟨rfl, rfl⟩
        · split
          · split
            · unfold Destination.flushPendingAcks
              obtain ⟨stores, only⟩ := removeRecords_frame _ _ _
              rw [only]
              exact ⟨rfl, rfl⟩
            · exact ⟨rfl, rfl⟩
          · exact ⟨rfl, rfl⟩
      · exact ⟨rfl, rfl⟩

theorem acknowledge_reading (reading : Reading cid all start r lost) (m : Message) :
    Reading cid all start (read cid start r (.acknowledge m)) lost := by
  obtain ⟨queues, pending⟩ := acknowledgeOn_waiting r.queue cid m
  refine reading.same queues pending ?_
  obtain ⟨c, object, shared⟩ := reading.object
  have settled := (acknowledgeOn_steady r.queue cid m).settled cid
  rw [object] at settled
  cases after : get (r.queue.acknowledgeOn cid m).objects cid with
  | none =>
    rw [after] at settled
    cases settled
  | some c' =>
    rw [after, Option.map_some, Option.map_some, Option.some.injEq] at settled
    simp only [settings, Prod.mk.injEq] at settled
    exact ⟨c', rfl, settled.2.1.trans shared⟩

theorem sweep_only (clock : Int) (d : Destination) (location : Nat) :
    ∃ stores, sweep clock d location = { d with stores := stores } := by
  unfold sweep
  split
  · exact ⟨d.stores, rfl⟩
  · split
    · exact ⟨_, rfl⟩
    · exact ⟨d.stores, rfl⟩

theorem tick_reading (reading : Reading cid all start r lost) (ms : Nat) :
    Reading cid all start (read cid start r (.tick ms)) lost := by
  refine { reading with started := ?_, expired := ?_, due := ?_ }
  · have before := reading.started
    simp only [read]
    omega
  · intro c inside
    obtain ⟨set, late⟩ := reading.expired c inside
    refine ⟨set, ?_⟩
    simp only [read]
    omega
  · intro x inside
    rcases reading.due x inside with never | passed
    · exact Or.inl never
    · refine Or.inr ?_
      simp only [read]
      omega

theorem read_reading (reading : Reading cid all start r lost) (l : Later) :
    ∃ lost', Reading cid all start (read cid start r l) lost' := by
  cases l with
  | recv patience => exact recv_reading patience reading
  | acknowledge m => exact ⟨lost, acknowledge_reading reading m⟩
  | deliverDue => exact ⟨lost, deliverDue_reading reading⟩
  | reorder q => exact ⟨lost, reorder_reading reading q⟩
  | sweepExpired location =>
    obtain ⟨stores, only⟩ := sweep_only r.clock r.queue location
    refine ⟨lost, ?_⟩
    unfold read
    dsimp only
    rw [only]
    exact reading.same rfl rfl reading.object
  | tick ms => exact ⟨lost, tick_reading reading ms⟩

theorem reads_reading (later : List Later) (reading : Reading cid all start r lost) :
    ∃ lost', Reading cid all start (later.foldl (read cid start) r) lost' := by
  induction later generalizing r lost with
  | nil => exact ⟨lost, reading⟩
  | cons l later ih =>
    obtain ⟨lost', next⟩ := read_reading reading l
    exact ih next

theorem recv_highest (reading : Reading cid all start r lost) (patience : Nat) {m : Message}
    (returned : (r.queue.recv (env r) cid patience).2 = some m) :
    ∀ x ∈ (r.queue.queues .shared).toList,
      Content.isExpired (shown x) r.clock ∨ bandOf (shown x) ≤ bandOf m.content := by
  refine recv_rounds (env r) (P := fun _ d result => ∀ lost,
      Reading cid all start { r with queue := d } lost → result.2 = some m →
      ∀ x ∈ (d.queues .shared).toList,
        Content.isExpired (shown x) r.clock ∨ bandOf (shown x) ≤ bandOf m.content)
    ?_ ?_ ?_ ?_ ?_ patience r.queue lost reading returned
  · intro _ d _ lost _ nothing
    cases nothing
  · intro _ d c _ _ lost _ nothing
    cases nothing
  · intro _ d c x q object next _ lost reading given y inside
    obtain ⟨shared, drained, _, replayed⟩ := reading.front object next
    have descends := toList_descends reading.sorted
    dsimp only at drained descends
    rw [drained] at descends inside
    rw [← Option.some.inj given, replayed_content replayed]
    right
    rcases List.mem_cons.mp inside with rfl | behind
    · exact le_refl _
    · have below := (List.pairwise_cons.mp descends).1 y behind
      rw [replayed.band, (reading.replayed y (by
        dsimp only
        rw [drained]
        exact inside)).band] at below
      exact below
  · intro d c x q _ _ _ lost _ nothing
    cases nothing
  · intro _ d c x q result object next late rest lost reading given y inside
    obtain ⟨overdue, drained, e, dropped, queue, left⟩ := reading.expire object next late
    rw [dropped] at rest
    dsimp only at drained
    rw [drained] at inside
    rcases List.mem_cons.mp inside with rfl | behind
    · exact Or.inl overdue
    · exact rest (shown x :: lost) left given y (by rw [queue]; exact behind)

/- A patient receive returns nothing only when everything in the queue has expired. -/
theorem recv_nothing (reading : Reading cid all start r lost) {patience : Nat}
    (patient : (r.queue.queues .shared).toList.length ≤ patience)
    (nothing : (r.queue.recv (env r) cid patience).2 = none) :
    ∀ x ∈ (r.queue.queues .shared).toList, Content.isExpired (shown x) r.clock := by
  refine recv_rounds (env r) (P := fun patience d result => ∀ lost,
      Reading cid all start { r with queue := d } lost →
      (d.queues .shared).toList.length ≤ patience → result.2 = none →
      ∀ x ∈ (d.queues .shared).toList, Content.isExpired (shown x) r.clock)
    ?_ ?_ ?_ ?_ ?_ patience r.queue lost reading patient nothing
  · intro _ d absent lost reading _ _ x inside
    obtain ⟨c, object, _⟩ := reading.object
    dsimp only at object
    rw [absent] at object
    cases object
  · intro _ d c object empty lost reading _ _ x inside
    obtain ⟨c', object', shared⟩ := reading.object
    dsimp only at object'
    rw [object, Option.some.injEq] at object'
    subst object'
    rw [shared] at empty
    rw [dequeue_none empty] at inside
    cases inside
  · intro _ d c x q _ _ _ lost _ _ given
    cases given
  · intro d c x q object next _ lost reading patient _ y inside
    obtain ⟨_, drained, _, _⟩ := reading.front object next
    dsimp only at drained
    rw [drained] at patient
    simp at patient
  · intro _ d c x q result object next late rest lost reading patient nothing y inside
    obtain ⟨overdue, drained, e, dropped, queue, left⟩ := reading.expire object next late
    rw [dropped] at rest
    dsimp only at drained
    rw [drained] at inside patient
    rcases List.mem_cons.mp inside with rfl | behind
    · exact overdue
    · refine rest (shown x :: lost) left ?_ nothing y (by rw [queue]; exact behind)
      rw [queue]
      simpa using patient

end Reads

section Start
variable {sent : List Content} {gone : List UUID}

theorem live_contents (sent : List Content) (gone : List UUID) :
    (liveRecords (entries sent gone)).map (fun x => x.1.data) =
      sent.filter fun c => c.uuid ∉ gone := by
  have first : (liveRecords (entries sent gone)).map Prod.fst =
      (entries sent gone).filter fun e => !e.removed := by
    have mapped := List.filter_map (p := fun e : Entry UUID Content => !e.removed)
      (f := Prod.fst) (l := (entries sent gone).zipIdx)
    rw [List.zipIdx_map_fst] at mapped
    rw [mapped]
    rfl
  have split : (liveRecords (entries sent gone)).map (fun x => x.1.data) =
      ((liveRecords (entries sent gone)).map Prod.fst).map Entry.data := by
    rw [List.map_map]
    rfl
  rw [split, first]
  unfold entries
  rw [List.filter_map, List.map_map]
  simp [Function.comp_def]

theorem record_times (gone : List UUID) {bound : Int} (times : ∀ c ∈ sent, 0 ≤ c.headers.deliveryTime ∧
      c.headers.deliveryTime ≤ bound) :
    ∀ x ∈ liveRecords (entries sent gone), 0 ≤ x.1.data.headers.deliveryTime ∧
      x.1.data.headers.deliveryTime ≤ bound := by
  intro x inside
  have member : x.1.data ∈ sent.filter fun c => c.uuid ∉ gone := by
    rw [← live_contents]
    exact List.mem_map_of_mem inside
  exact times _ (List.mem_of_mem_filter member)

theorem sweeps_logged {d : Destination} (swept : List Nat) (clock : Int)
    (logged : Logged sent gone (d.stores .shared)) :
    ∃ lost stores, swept.foldl (sweep clock) d = { d with stores := stores } ∧
      Logged sent (lost ++ gone) (stores .shared) ∧
      ∀ u ∈ lost, ∃ c ∈ sent, c.uuid = u ∧ Content.isExpired c clock := by
  induction swept generalizing d gone with
  | nil => exact ⟨[], d.stores, rfl, logged, by simp⟩
  | cons location swept ih =>
    obtain ⟨lost, stores, first, logged', expired⟩ := logged.sweep clock location
    obtain ⟨more, stores', rest, logged'', expired'⟩ := ih (d := { d with stores := stores }) logged'
    refine ⟨more ++ lost, stores', ?_, by rw [List.append_assoc]; exact logged'', ?_⟩
    · rw [List.foldl_cons, first, rest]
    · intro u inside
      rcases List.mem_append.mp inside with late | early
      · exact expired' u late
      · exact expired u early

theorem mem_byBand {l : List Content} {c : Content} : c ∈ byBand l ↔ c ∈ l := by
  simp [byBand, mem_order]

theorem byBand_turns (l : List Content) (start : Int) :
    (byBand (l.filter (Due · start))).Pairwise (Before l start) := by
  unfold byBand
  rw [List.pairwise_flatMap]
  constructor
  · intro b _
    rw [List.pairwise_iff_forall_sublist]
    intro x y part _ _
    have due : ∀ c ∈ [x, y], Due c start := by
      intro c inside
      have member := List.mem_of_mem_filter (part.subset inside)
      simpa using (List.mem_filter.mp member).2
    refine Or.inr ⟨?_, part.trans (List.filter_sublist.trans List.filter_sublist)⟩
    unfold visible
    rw [if_pos (due x (by simp)), if_pos (due y (by simp))]
  · refine (order_nodup 10).imp ?_
    intro a b apart x here y there same _
    have first : bandOf x = a := by simpa using (List.mem_filter.mp here).2
    have second : bandOf y = b := by simpa using (List.mem_filter.mp there).2
    exact absurd (first.symm.trans (same.trans second)) apart

theorem Loaded.turns {l : List Content} {start : Int} {d : Destination} (loaded : Loaded start l d) :
    (byBand (l.filter (Due · start)) ++ d.pending.map fun e => shown e.2.2).Pairwise
      (Before l start) := by
  have ahead : ∀ e ∈ d.pending, visible start (shown e.2.2) = e.1 := by
    intro e inside
    obtain ⟨_, _, key, later⟩ := loaded.scheduled e inside
    unfold visible
    rw [if_neg later, key]
  rw [List.pairwise_append]
  refine ⟨byBand_turns l start, ?_, ?_⟩
  · rw [List.pairwise_map]
    refine loaded.ordered.imp_of_mem ?_
    intro a b first second sooner _ _
    rw [ahead a first, ahead b second]
    exact sooner
  · intro x inside y there _ lanes
    obtain ⟨e, scheduled, rfl⟩ := List.mem_map.mp there
    obtain ⟨_, _, _, later⟩ := loaded.scheduled e scheduled
    have due : Due x start := by
      simpa using (List.mem_filter.mp (mem_byBand.mp inside)).2
    exact absurd (lanes.mp due) later

theorem Loaded.reading {cid : Nat} {l : List Content} {r : Reader} (loaded : Loaded r.clock l r.queue)
    (object : ∃ c, get r.queue.objects cid = some c ∧ c.queue = .shared) (new : r.returned = []) :
    Reading cid l r.clock r [] := by
  have drained : (r.queue.queues .shared).toList.map shown = byBand (l.filter (Due · r.clock)) := by
    rw [← toList_map, loaded.queue, enqueueAll_drains]
    rfl
  have now_ : ((r.queue.queues .shared).toList.map shown).Perm (l.filter (Due · r.clock)) := by
    rw [← toList_map, loaded.queue]
    simpa using enqueueAll_perm bandOf BandQueue.empty (l.filter (Due · r.clock))
  refine ⟨object, le_refl _, loaded.sorted, loaded.replayed, loaded.scheduled,
    loaded.ordered.imp Sooner.le, ?_, by simp, ?_, ?_, by simp [new], ?_⟩
  · rw [new]
    simp only [List.map_nil, List.nil_append]
    refine (now_.append loaded.rest).trans ?_
    simpa using List.filter_append_perm (fun c => decide (Due c r.clock)) l
  · rw [new]
    simp only [List.map_nil, List.nil_append]
    rw [drained]
    exact List.filter_sublist
  · intro x inside
    have member := now_.mem_iff.mp (List.mem_map_of_mem inside)
    simpa using (List.mem_filter.mp member).2
  · rw [new, List.map_nil, List.nil_append, drained]
    exact loaded.turns

theorem reopened_reading {cid : Nat} {s : State} (recorded : Recorded cid s gone) (pause : Nat)
    (swept : List Nat) (id cid' : Nat) (default mode : AcknowledgeMode) :
    ∃ lost, (∀ u ∈ lost, ∃ c ∈ s.sent, c.uuid = u ∧ Content.isExpired c (s.clock + pause)) ∧
      Reading cid' (s.sent.filter fun c => c.uuid ∉ lost ++ gone) (s.clock + pause)
        (reopened s pause swept id cid' default mode) [] := by
  let e₀ := s.queue.restart (now (s.clock + pause) fun _ => 0)
  have again : Logged s.sent gone (e₀.stores .shared) :=
    ⟨rfl, recorded.stocked.logged.log, recorded.stocked.logged.distinct, recorded.stocked.logged.gone⟩
  obtain ⟨lost, stores, only, logged, expired⟩ := sweeps_logged swept (s.clock + pause) again
  have family : Destination.isQueueFamily { e₀ with stores := stores } = true :=
    recorded.stocked.family
  obtain ⟨e, made, object, _, stores', queues, pending, running⟩ := first_consumer family rfl
    (now (s.clock + pause) fun _ => 0) id cid' default mode
  refine ⟨lost, expired, ?_⟩
  have shape : (reopened s pause swept id cid' default mode).queue =
      { e.replayFromStorage (now (s.clock + pause) fun _ => 0) .shared .shared with
        consumers := [cid'] } := by
    rw [← made, ← only]
    rfl
  have fresh : Loaded (s.clock + pause) [] e := by
    refine loaded_empty running ?_ ?_
    · rw [queues]
      rfl
    · rw [pending]
      rfl
  have records : (e.stores .shared).scan = liveRecords (entries s.sent (lost ++ gone)) := by
    rw [stores']
    unfold Store.scan
    dsimp only
    rw [if_pos logged.good, logged.log]
  have times := record_times (lost ++ gone) fun c sent => by
    obtain ⟨past, bound⟩ := recorded.times c sent
    exact ⟨past, show c.headers.deliveryTime ≤ s.clock + pause + kMaxFutureHeaderMs by omega⟩
  have loaded := replay_loaded _ fresh times
  rw [live_contents, List.nil_append] at loaded
  have same := replayFromStorage_same (now (s.clock + pause) fun _ => 0) e .shared .shared
  refine Loaded.reading (r := reopened s pause swept id cid' default mode) ?_ ?_ rfl
  · rw [shape]
    unfold Destination.replayFromStorage
    rw [records]
    exact ⟨loaded.running, loaded.queue, loaded.sorted, loaded.replayed, loaded.scheduled,
      loaded.ordered, loaded.rest⟩
  · rw [shape]
    dsimp only
    rw [same.objects]
    exact ⟨_, object, rfl⟩

end Start

def unacknowledged (s : State) : List Content := s.sent.filter fun c => !s.acked.contains c.uuid

/-- What the first consumer after a restart at `start` has been given: only messages that
    were not acknowledged, as they were sent, each once, none before it is due and none that
    has expired. Those that are due at `start` come by bands and in the order of the log, a
    later one joins its band when it is due, and at any time the highest band goes first. When
    a patient receive finds nothing and the scheduler has nothing that is due, nothing is
    missing. -/
structure Served (s : State) (start : Int) (cid : Nat) (r : Reader) : Prop where
  sound : ∀ y ∈ r.returned, y.2.content ∈ unacknowledged s ∧
    ¬ Content.isExpired y.2.content y.1 ∧ Due y.2.content y.1
  once : (r.returned.map fun y => y.2.content.uuid).Nodup
  inTurn : ((r.returned.map fun y => y.2.content).filter (Due · start)).Sublist
    (byBand ((unacknowledged s).filter (Due · start)))
  inBand : (r.returned.map fun y => y.2.content).Pairwise (Before (unacknowledged s) start)
  highest : ∀ patience m, (r.queue.recv (env r) cid patience).2 = some m →
    ∀ x ∈ (r.queue.queues .shared).toList,
      Content.isExpired (shown x) r.clock ∨ bandOf (shown x) ≤ bandOf m.content
  complete : ∀ patience, s.sent.length ≤ patience →
    (r.queue.recv (env r) cid patience).2 = none → r.queue.deliverDue (env r) = r.queue →
    ∀ c ∈ unacknowledged s, ¬ Content.isExpired c r.clock → Due c r.clock →
      c ∈ r.returned.map fun y => y.2.content

theorem byBand_sublist {l l' : List Content} (sub : l.Sublist l') : (byBand l).Sublist (byBand l') := by
  unfold byBand
  induction order 10 with
  | nil => simp
  | cons b rest ih =>
    rw [List.flatMap_cons, List.flatMap_cons]
    exact (sub.filter _).append ih

theorem Reading.idle {cid : Nat} {all lost : List Content} {start : Int} {r : Reader}
    (reading : Reading cid all start r lost) (idle : r.queue.deliverDue (env r) = r.queue) :
    ∀ e ∈ r.queue.pending, ¬ Due (shown e.2.2) r.clock := by
  intro e inside due
  obtain ⟨_, _, key, ahead⟩ := reading.scheduled e inside
  have late : e.1 ≤ r.clock := by
    rcases due with never | passed
    · exact absurd (Or.inl never) ahead
    · rw [key]
      exact passed
  cases first : r.queue.pending with
  | nil =>
    rw [first] at inside
    cases inside
  | cons head rest =>
    obtain ⟨t, q, x⟩ := head
    have soonest : t ≤ e.1 := by
      have ordered := reading.ordered
      rw [first] at ordered inside
      rcases List.mem_cons.mp inside with rfl | behind
      · exact le_refl _
      · exact (List.pairwise_cons.mp ordered).1 e behind
    have fires : t ≤ (env r).nowMs := le_trans soonest late
    have lengths := congrArg (fun d => d.pending.length) idle
    unfold Destination.deliverDue at lengths
    rw [first] at lengths
    dsimp only at lengths
    rw [if_pos fires] at lengths
    change rest.length = (rest.length + 1) at lengths
    omega

theorem expired_later {cid : Nat} {s : State} {gone : List UUID} (recorded : Recorded cid s gone)
    {c : Content} (wanted : c ∈ unacknowledged s) {clock clock' : Int}
    (overdue : ∃ c' ∈ s.sent, c'.uuid = c.uuid ∧ Content.isExpired c' clock) (later : clock ≤ clock') :
    Content.isExpired c clock' := by
  obtain ⟨c', member, same, set, late⟩ := overdue
  have equal : c' = c := List.inj_on_of_nodup_map recorded.stocked.logged.distinct member
    (List.mem_of_mem_filter wanted) same
  subst equal
  exact ⟨set, le_trans late later⟩

theorem left_unacknowledged {cid : Nat} {s : State} {gone : List UUID}
    (recorded : Recorded cid s gone) (swept : List UUID) :
    (s.sent.filter fun c => c.uuid ∉ swept ++ gone).Sublist (unacknowledged s) := by
  refine List.monotone_filter_right s.sent ?_
  intro c here
  simp only [List.mem_append, not_or, decide_eq_true_eq] at here
  have unasked : c.uuid ∉ s.acked := fun acked => here.2 (recorded.acked _ acked)
  simpa using unasked

theorem unexpired_left {cid : Nat} {s : State} {gone swept : List UUID}
    (recorded : Recorded cid s gone) {clock clock' : Int} (after : s.clock ≤ clock)
    (expired : ∀ u ∈ swept, ∃ c ∈ s.sent, c.uuid = u ∧ Content.isExpired c clock)
    (later : clock ≤ clock') {c : Content} (wanted : c ∈ unacknowledged s)
    (early : ¬ Content.isExpired c clock') : c ∈ s.sent.filter fun c => c.uuid ∉ swept ++ gone := by
  refine List.mem_filter.mpr ⟨List.mem_of_mem_filter wanted, ?_⟩
  rw [decide_eq_true_eq, List.mem_append, not_or]
  constructor
  · intro inside
    exact early (expired_later recorded wanted (expired _ inside) later)
  · intro inside
    rcases recorded.why _ inside with acked | overdue
    · exact absurd acked (by simpa using (List.mem_filter.mp wanted).2)
    · exact early (expired_later recorded wanted overdue (le_trans after later))

/- When a patient receive finds nothing and the scheduler has nothing that is due, everything
   that has not expired and is due has been returned. -/
theorem Reading.complete {cid : Nat} {all lost : List Content} {start : Int} {r : Reader}
    (reading : Reading cid all start r lost) {patience : Nat} (patient : all.length ≤ patience)
    (nothing : (r.queue.recv (env r) cid patience).2 = none)
    (idle : r.queue.deliverDue (env r) = r.queue) {c : Content} (inside : c ∈ all)
    (early : ¬ Content.isExpired c r.clock) (due : Due c r.clock) :
    c ∈ r.returned.map fun y => y.2.content := by
  have lengths := reading.account.length_eq
  simp only [List.length_append, List.length_map] at lengths
  have overdue := recv_nothing reading (by omega) nothing
  have somewhere := reading.account.mem_iff.mpr inside
  simp only [List.mem_append] at somewhere
  rcases somewhere with ((given | dropped) | queued) | scheduled
  · exact given
  · exact absurd (reading.expired c dropped) early
  · obtain ⟨x, here, rfl⟩ := List.mem_map.mp queued
    exact absurd (overdue x here) early
  · obtain ⟨e, here, rfl⟩ := List.mem_map.mp scheduled
    exact absurd due (reading.idle idle e here)

def firstLetter : Message :=
  { prepared (now 0 fun _ => 0) { mode := .CLIENT_ACKNOWLEDGE } [] (letter 0 7) with
    location := some 0 }

def firstLife : List Act :=
  let urgent := letter 2 9
  [.createProducer 5 .CLIENT_ACKNOWLEDGE, .send (fun _ => 0) 5 (letter 0 7),
    .send (fun _ => 0) 5 (letter 1 8),
    .send (fun _ => 0) 5 { urgent with
      content := { urgent.content with headers := { priority := 9, deliveryTime := 20 } } },
    .recv 0, .acknowledge firstLetter, .recv 0, .recover, .tick 5]

/-- Two letters of one priority, the second with a delivery time. -/
def delayedSecond : List Act :=
  let late := letter 1 8
  [.createProducer 5 .CLIENT_ACKNOWLEDGE, .send (fun _ => 0) 5 (letter 0 7),
    .send (fun _ => 0) 5 { late with
      content := { late.content with headers := { deliveryTime := 20 } } }]

def turned (r : Reader) : QueueT := ⟨fun b => ((r.queue.queues .shared).bands b).reverse⟩

end TinyMqRestartFidelity
