import TinyMq.Broker.Frames

/-!
The messages a queue holds in memory: in its shared queue, in the scheduler, in
the in-flight chains and in the transaction queues. A call may move a message
and rewrite its headers; the object and the uuid stay what they were.
-/
namespace TinyMqHolders
open DelimitedText AssocLists BandQueues TombstoneLog TinyMqTom TinyMqMessage TinyMqStore
open TinyMqDestination TinyMqTransactionBuffer TinyMqSession TinyMqFrames

def contents (c : Consumer) : Multiset Message :=
  (c.inFlight : Multiset Message) + (c.transactQueue.toList : Multiset Message)

def staged (p : Producer) : Multiset Message := (p.transactQueue.toList : Multiset Message)

/-- All messages a queue holds in memory, each as often as it is held. -/
def held (d : Destination) : Multiset Message :=
  ((d.queues .shared).toList : Multiset Message) +
    (d.pending.map (fun x => x.2.2) : Multiset Message) +
    (d.objects.map fun e => contents e.2).sum + (d.producers.map fun e => staged e.2).sum

def tag (m : Message) : Nat × UUID := (m.oid, m.uuid)

/-- The bytes kept for `recv` are those of this message. -/
def Faithful (m : Message) : Prop :=
  m.isPersistent = true → ∀ content, m.cachedStorageBytes = some content → content.uuid = m.uuid

/-- Messages that come from given ones: each object at most as often as before. -/
def Versions (new old : Multiset Message) : Prop :=
  (∀ m ∈ old, Faithful m) → new.map tag ≤ old.map tag ∧ ∀ m ∈ new, Faithful m

section Versions
variable {a b c : Multiset Message}

theorem Versions.refl (a : Multiset Message) : Versions a a := fun faithful => ⟨le_refl _, faithful⟩

theorem Versions.trans (one : Versions b a) (two : Versions c b) : Versions c a := by
  intro faithful
  obtain ⟨tags, middle⟩ := one faithful
  obtain ⟨tags', last⟩ := two middle
  exact ⟨le_trans tags' tags, last⟩

theorem Versions.of_le (less : b ≤ a) : Versions b a := fun faithful =>
  ⟨Multiset.map_le_map less, fun m member => faithful m (Multiset.mem_of_le less member)⟩

theorem Versions.add {a' b' : Multiset Message} (one : Versions a' a) (two : Versions b' b) :
    Versions (a' + b') (a + b) := by
  intro faithful
  obtain ⟨tags, first⟩ := one fun m member => faithful m (Multiset.mem_add.mpr (Or.inl member))
  obtain ⟨tags', second⟩ := two fun m member => faithful m (Multiset.mem_add.mpr (Or.inr member))
  constructor
  · rw [Multiset.map_add, Multiset.map_add]
    exact add_le_add tags tags'
  · intro m member
    rcases Multiset.mem_add.mp member with left | right
    · exact first m left
    · exact second m right

theorem versions_single {m m' : Message} (same : Faithful m → tag m' = tag m ∧ Faithful m') :
    Versions {m'} {m} := by
  intro faithful
  obtain ⟨tags, kept⟩ := same (faithful m (by simp))
  refine ⟨by simp [tags], ?_⟩
  intro x member
  rw [Multiset.mem_singleton.mp member]
  exact kept

theorem versions_map {f : Message → Message}
    (same : ∀ m, Faithful m → tag (f m) = tag m ∧ Faithful (f m)) (l : List Message) :
    Versions (l.map f : List Message) (l : Multiset Message) := by
  induction l with
  | nil => exact Versions.refl _
  | cons m l ih =>
    have head : ((m :: l : List Message) : Multiset Message) = {m} + (l : Multiset Message) := rfl
    have head' : (((m :: l).map f : List Message) : Multiset Message) =
        {f m} + ((l.map f : List Message) : Multiset Message) := rfl
    rw [head, head']
    exact (versions_single (same m)).add ih

end Versions

section Places
variable (d : Destination)

theorem held_setQueue {m : Message} {q : QueueT}
    (next : (d.queues .shared).dequeue = some (m, q)) :
    held d = {m} + held (d.setQueue .shared q) := by
  have order := dequeue_some next
  simp only [held, Destination.setQueue, Function.update_self, order]
  rw [← Multiset.cons_coe, ← Multiset.singleton_add]
  simp only [add_assoc]

theorem held_enqueue (m : Message) : held (d.enqueue .shared m) = {m} + held d := by
  have perm := enqueue_perm (d.queues .shared) m.band m
  simp only [held, Destination.enqueue, Destination.setQueue, Function.update_self]
  rw [Multiset.coe_eq_coe.mpr perm, ← Multiset.cons_coe, ← Multiset.singleton_add]
  simp only [add_assoc]

theorem insertPending_perm (t : Int) (q : QueueId) (m : Message)
    (pending : List (Int × QueueId × Message)) :
    (insertPending t q m pending).Perm ((t, q, m) :: pending) := by
  have whole := List.takeWhile_append_dropWhile
    (p := fun x : Int × QueueId × Message => decide (x.1 ≤ t)) (l := pending)
  conv_rhs => rw [← whole]
  exact List.perm_middle

theorem held_schedule (t : Int) (m : Message) :
    held { d with pending := insertPending t .shared m d.pending } = {m} + held d := by
  have inserted := (insertPending_perm t .shared m d.pending).map fun x => x.2.2
  simp only [held]
  rw [Multiset.coe_eq_coe.mpr inserted, List.map_cons, ← Multiset.cons_coe,
    ← Multiset.singleton_add]
  abel

theorem held_setObject {cid : Nat} {c : Consumer} (object : get d.objects cid = some c)
    (c' : Consumer) : contents c + held (d.setObject cid c') = contents c' + held d := by
  have sums := sum_put contents object c'
  simp only [held, Destination.setObject]
  calc contents c + ((((d.queues .shared).toList : Multiset Message) +
          (d.pending.map (fun x => x.2.2) : Multiset Message) +
          ((put d.objects cid c').map fun e => contents e.2).sum) +
          (d.producers.map fun e => staged e.2).sum)
      = ((d.queues .shared).toList : Multiset Message) +
          (d.pending.map (fun x => x.2.2) : Multiset Message) +
          (contents c + ((put d.objects cid c').map fun e => contents e.2).sum) +
          (d.producers.map fun e => staged e.2).sum := by abel
    _ = ((d.queues .shared).toList : Multiset Message) +
          (d.pending.map (fun x => x.2.2) : Multiset Message) +
          (contents c' + (d.objects.map fun e => contents e.2).sum) +
          (d.producers.map fun e => staged e.2).sum := by rw [sums]
    _ = _ := by abel

theorem held_release {cid : Nat} {c c' : Consumer} (object : get d.objects cid = some c)
    {part : Multiset Message} (split : contents c = part + contents c') :
    held d = part + held (d.setObject cid c') := by
  have moved := held_setObject d object c'
  rw [split] at moved
  have same : contents c' + held d = contents c' + (part + held (d.setObject cid c')) := by
    rw [← moved]
    abel
  exact add_left_cancel same

theorem held_setProducer {pid : Nat} {p : Producer} (found : get d.producers pid = some p)
    (p' : Producer) :
    staged p + held { d with producers := put d.producers pid p' } = staged p' + held d := by
  have sums := sum_put staged found p'
  simp only [held]
  rw [add_left_comm, sums]
  abel

end Places

/-- The data of a transaction is kept under the uuid inside it. -/
def Buffered (d : Destination) : Prop :=
  ∀ u content, d.buffer.bufferedData u = some content → content.uuid = u

def OnShared (d : Destination) : Prop := ∀ x ∈ d.pending, x.2.1 = .shared

/-- A call that brings in the messages `extra` and moves the others. -/
structure Moves (extra : Multiset Message) (d d' : Destination) : Prop where
  versions : Versions (held d') (extra + held d)
  due : OnShared d → OnShared d'
  store : Sound Content.uuid (d.stores .shared) → Sound Content.uuid (d'.stores .shared)
  buffered : Buffered d → Buffered d'
  next : d.nextOid ≤ d'.nextOid

theorem Moves.trans {a b : Multiset Message} {d d' d'' : Destination} (one : Moves a d d')
    (two : Moves b d' d'') : Moves (b + a) d d'' where
  versions := by
    rw [add_assoc]
    exact ((Versions.refl b).add one.versions).trans two.versions
  due := fun due => two.due (one.due due)
  store := fun sound => two.store (one.store sound)
  buffered := fun buffered => two.buffered (one.buffered buffered)
  next := le_trans one.next two.next

theorem Moves.quiet {a : Multiset Message} {d d' d'' : Destination} (one : Moves 0 d d')
    (two : Moves a d' d'') : Moves a d d'' := by
  have both := one.trans two
  rw [add_zero] at both
  exact both

theorem Moves.rest {a : Multiset Message} {d d' d'' : Destination} (one : Moves a d d')
    (two : Moves 0 d' d'') : Moves a d d'' := by
  have both := one.trans two
  rw [zero_add] at both
  exact both

theorem Moves.less {a b : Multiset Message} {d d' : Destination} (moves : Moves a d d')
    (versions : Versions a b) : Moves b d d' :=
  ⟨(versions.add (Versions.refl _)).trans moves.versions, moves.due, moves.store, moves.buffered,
    moves.next⟩

theorem moves_le {d d' : Destination} (less : held d' ≤ held d) (pending : d'.pending = d.pending)
    (stores : d'.stores = d.stores) (buffer : d'.buffer = d.buffer)
    (next : d.nextOid ≤ d'.nextOid) : Moves 0 d d' where
  versions := by
    rw [zero_add]
    exact Versions.of_le less
  due := by
    unfold OnShared
    rw [pending]
    exact id
  store := by
    rw [stores]
    exact id
  buffered := by
    unfold Buffered
    rw [buffer]
    exact id
  next := next

theorem Moves.refl (d : Destination) : Moves 0 d d := moves_le (le_refl _) rfl rfl rfl (le_refl _)

theorem moves_fold {ι : Type} {g : Destination → ι → Destination} {extra : ι → Multiset Message}
    {l : List ι} (one : ∀ d, ∀ i ∈ l, Moves (extra i) d (g d i)) (d : Destination) :
    Moves ((l.map extra).sum) d (l.foldl g d) := by
  induction l generalizing d with
  | nil => exact Moves.refl d
  | cons i l ih =>
    have first := one d i (by simp)
    have rest := ih (fun d j member => one d j (List.mem_cons_of_mem i member)) (g d i)
    rw [List.foldl_cons, List.map_cons, List.sum_cons, add_comm]
    exact first.trans rest

section Calls
variable (env : Env) (d : Destination)

theorem enqueue_moves (m : Message) : Moves {m} d (d.enqueue .shared m) where
  versions := by
    rw [held_enqueue]
    exact Versions.refl _
  due := id
  store := id
  buffered := id
  next := le_refl _

theorem patched_faithful {m : Message} (t : Int) (faithful : Faithful m) :
    Faithful ((m.setDeliveryTime t).patchCachedDeliveryTime t) := by
  intro persistent content cached
  obtain ⟨old, before, same⟩ := Option.map_eq_some_iff.mp cached
  rw [← same]
  exact faithful persistent old before

theorem clampFuture_version (m : Message) (faithful : Faithful m) :
    tag (clampFuture env m) = tag m ∧ Faithful (clampFuture env m) := by
  unfold clampFuture
  split
  · exact ⟨rfl, patched_faithful 0 faithful⟩
  · exact ⟨rfl, faithful⟩

theorem enqueueOrSchedule_moves (m : Message) : Moves {m} d (d.enqueueOrSchedule env .shared m) := by
  have clamped := versions_single (clampFuture_version env m)
  unfold Destination.enqueueOrSchedule
  dsimp only
  split
  · exact (enqueue_moves d _).less clamped
  · split
    · split
      · exact (Moves.refl d).less (Versions.of_le (Multiset.zero_le _))
      · exact (enqueue_moves d _).less clamped
    · refine Moves.less ⟨?_, ?_, id, id, le_refl _⟩ clamped
      · rw [held_schedule]
        exact Versions.refl _
      · intro due x member
        simp only [insertPending, List.mem_append, List.mem_cons] at member
        rcases member with before | here | after
        · exact due x ((List.takeWhile_sublist _).subset before)
        · rw [here]
        · exact due x ((List.dropWhile_sublist _).subset after)

theorem deliverDue_moves (due : OnShared d) : Moves 0 d (d.deliverDue env) := by
  unfold Destination.deliverDue
  split
  · exact Moves.refl d
  · rename_i t q m rest pending
    split
    · have shared : q = .shared := due (t, q, m) (by simp [pending])
      rw [shared]
      refine ⟨?_, ?_, id, id, le_refl _⟩
      · have all : held d = {m} + held { d with pending := rest } := by
          simp only [held, pending, List.map_cons]
          rw [← Multiset.cons_coe, ← Multiset.singleton_add]
          abel
        rw [zero_add, held_enqueue, ← all]
        exact Versions.refl _
      · intro _ x member
        exact due x (by rw [pending]; exact List.mem_cons_of_mem _ member)
    · exact Moves.refl d

theorem stores_moves {stores : StorageId → Store Content}
    (sound : Sound Content.uuid (d.stores .shared) → Sound Content.uuid (stores .shared)) :
    Moves 0 d { d with stores := stores } where
  versions := by
    rw [zero_add]
    exact Versions.refl _
  due := id
  store := sound
  buffered := id
  next := le_refl _

theorem removeRecord_moves (sid : StorageId) (rec : Nat × UUID) :
    Moves 0 d (d.removeRecord sid rec) := by
  refine stores_moves d ?_
  intro sound
  by_cases shared : sid = .shared
  · subst shared
    rw [Function.update_self]
    exact sound.remove _ _
  · rw [Function.update_of_ne (Ne.symm shared)]
    exact sound

theorem appendRecord_moves (sid : StorageId) {uuid : UUID} {content : Content}
    (own : content.uuid = uuid) : Moves 0 d (d.appendRecord env sid uuid content).1 := by
  refine stores_moves d ?_
  intro sound
  by_cases shared : sid = .shared
  · subst shared
    rw [Function.update_self]
    exact sound.append own _
  · rw [Function.update_of_ne (Ne.symm shared)]
    exact sound

theorem dropRecord_moves (c : Consumer) (m : Message) : Moves 0 d (d.dropRecord c m) := by
  unfold Destination.dropRecord Destination.removeLocated
  split
  · split
    · exact Moves.refl d
    · exact removeRecord_moves d _ _
  · exact Moves.refl d

theorem moves_fold_none {ι : Type} {g : Destination → ι → Destination} {l : List ι}
    (one : ∀ d, ∀ i ∈ l, Moves 0 d (g d i)) : Moves 0 d (l.foldl g d) := by
  have all := moves_fold one d
  rw [List.map_const', List.sum_replicate, nsmul_zero] at all
  exact all

theorem setObject_moves {cid : Nat} {c c' : Consumer} (object : get d.objects cid = some c)
    (less : contents c' ≤ contents c) : Moves 0 d (d.setObject cid c') := by
  refine moves_le ?_ rfl rfl rfl (le_refl _)
  have bound : contents c + held (d.setObject cid c') ≤ contents c + held d := by
    rw [held_setObject d object c']
    exact add_le_add_left less _
  exact le_of_add_le_add_left bound

theorem flushPendingAcks_moves {cid : Nat} {c₀ c : Consumer} (object : get d.objects cid = some c₀)
    (same : contents c = contents c₀) : Moves 0 d (d.flushPendingAcks cid c) := by
  have removed : Moves 0 d (c.pendingAcks.foldl (fun d rec => d.removeRecord c.storage rec) d) :=
    moves_fold_none d fun e rec _ => removeRecord_moves e c.storage rec
  have objects : (c.pendingAcks.foldl (fun d rec => d.removeRecord c.storage rec) d).objects =
      d.objects := (same_fold (fun e rec _ => removeRecord_same e c.storage rec) d).objects
  unfold Destination.flushPendingAcks
  refine removed.quiet (setObject_moves _ (c := c₀) ?_ ?_)
  · rw [objects]
    exact object
  · exact le_of_eq same

theorem acknowledgeOn_moves (cid : Nat) (m : Message) : Moves 0 d (d.acknowledgeOn cid m) := by
  unfold Destination.acknowledgeOn
  split
  · exact Moves.refl d
  · rename_i c object
    split
    · exact Moves.refl d
    · let c' : Consumer := { c with inFlight := c.inFlight.filter (·.oid ≠ m.oid) }
      have again : get (d.setObject cid c').objects cid = some c' := by
        simp [Destination.setObject]
      have filtered : Moves 0 d (d.setObject cid c') := by
        refine setObject_moves d object ?_
        unfold contents
        exact add_le_add_left (Multiset.coe_le.mpr List.filter_sublist.subperm) _
      dsimp only
      split
      · split
        · exact filtered
        · split
          · split
            · exact filtered.quiet (flushPendingAcks_moves _ again rfl)
            · exact filtered.quiet (setObject_moves _ again (le_refl _))
          · exact filtered.quiet (removeRecord_moves _ _ _)
      · exact filtered

theorem redelivered_version (t : Int) (m : Message) (faithful : Faithful m) :
    tag ((countRedelivery m).setDeliveryTime t).refreshCachedStorageBytes = tag m ∧
      Faithful ((countRedelivery m).setDeliveryTime t).refreshCachedStorageBytes := by
  unfold Message.refreshCachedStorageBytes
  split
  · refine ⟨rfl, ?_⟩
    intro _ content cached
    rw [← Option.some.inj cached]
    rfl
  · exact ⟨rfl, faithful⟩

theorem redeliver_moves {c : Consumer} (shared : c.queue = .shared) (closing : Bool) (m : Message) :
    Moves {m} d (d.redeliver env c closing m).1 := by
  unfold Destination.redeliver
  dsimp only
  rw [shared]
  split
  · exact (dropRecord_moves d c _).less (Versions.of_le (Multiset.zero_le _))
  · split
    · exact (enqueueOrSchedule_moves env d _).less (versions_single (redelivered_version _ m))
    · exact (enqueue_moves d _).less (versions_single (redelivered_version _ m))

theorem redeliverAll_moves {c : Consumer} (shared : c.queue = .shared) (closing : Bool)
    (ms : List Message) : Moves ms d (d.redeliverAll env c closing ms).1 := by
  induction ms generalizing d with
  | nil => exact Moves.refl d
  | cons m ms ih =>
    have both := (redeliver_moves env d shared closing m).trans (ih _)
    have list : (ms : Multiset Message) + {m} = ((m :: ms : List Message) : Multiset Message) := by
      rw [← Multiset.cons_coe, ← Multiset.singleton_add, add_comm]
    rw [list] at both
    exact both

theorem giveBack_moves {cid : Nat} {c c' : Consumer} (object : get d.objects cid = some c)
    (shared : c.queue = .shared) (closing : Bool) {ms : List Message}
    (split : contents c = ms + contents c') :
    Moves 0 d ((d.setObject cid c').redeliverAll env c closing ms).1 := by
  have released := held_release d object split
  have moves := redeliverAll_moves env (d.setObject cid c') shared closing ms
  refine ⟨?_, moves.due, moves.store, moves.buffered, moves.next⟩
  rw [zero_add, released]
  exact moves.versions

theorem recover_moves (cid : Nat)
    (shared : ∀ c, get d.objects cid = some c → c.queue = .shared) :
    Moves 0 d (d.recover env cid).1 := by
  unfold Destination.recover
  split
  · exact Moves.refl d
  · rename_i c object
    refine giveBack_moves env d object (shared c object) false ?_
    simp [contents]

theorem rollbackConsumer_moves (cid : Nat) (closing : Bool)
    (shared : ∀ c, get d.objects cid = some c → c.queue = .shared) :
    Moves 0 d (d.rollbackConsumer env cid closing).1 := by
  unfold Destination.rollbackConsumer
  split
  · exact Moves.refl d
  · rename_i c object
    split
    · refine giveBack_moves env d object (shared c object) closing ?_
      simp [contents, add_comm]
    · exact Moves.refl d

theorem commitConsumer_moves (cid : Nat) : Moves 0 d (d.commitConsumer cid) := by
  unfold Destination.commitConsumer
  split
  · exact Moves.refl d
  · rename_i c object
    split
    · have cleared : Moves 0 d (d.setObject cid { c with transactQueue := .empty }) := by
        refine setObject_moves d object ?_
        unfold contents
        rw [toList_empty]
        exact add_le_add (le_refl _) (Multiset.zero_le _)
      exact cleared.quiet (moves_fold_none _ fun e m _ => dropRecord_moves e c m)
    · exact Moves.refl d

end Calls

/-- The consumers all work on the queue's own queue and storage. -/
def AllShared (d : Destination) : Prop :=
  ∀ cid c, get d.objects cid = some c → c.queue = .shared ∧ c.storage = .shared

theorem AllShared.steady {d d' : Destination} (all : AllShared d) (steady : Steady d d') :
    AllShared d' := by
  intro cid c' object'
  obtain ⟨c, object, same⟩ := steady.found_before object'
  have before := all cid c object
  simp only [settings, Prod.mk.injEq] at same
  rw [← same.2.1, ← same.2.2.1]
  exact before

/-- The state of a queue: its consumers share the queue and the storage, and every
    message in memory carries the uuid it was stored under. -/
structure Clean (d : Destination) : Prop where
  shared : AllShared d
  due : OnShared d
  faithful : ∀ m ∈ held d, Faithful m
  store : Sound Content.uuid (d.stores .shared)
  buffered : Buffered d
  below : ∀ m ∈ held d, m.oid < d.nextOid

section Clean
variable {d d' : Destination}

theorem Moves.tags {extra : Multiset Message} (moves : Moves extra d d') (clean : Clean d)
    (faithful : ∀ m ∈ extra, Faithful m) :
    (held d').map tag ≤ extra.map tag + (held d).map tag ∧ ∀ m ∈ held d', Faithful m := by
  have all := moves.versions (by
    intro m member
    rcases Multiset.mem_add.mp member with new | old
    · exact faithful m new
    · exact clean.faithful m old)
  rw [Multiset.map_add] at all
  exact all

theorem Clean.moves {extra : Multiset Message} (clean : Clean d) (moves : Moves extra d d')
    (shared : AllShared d')
    (added : ∀ m ∈ extra, Faithful m ∧ m.oid < d'.nextOid) : Clean d' := by
  obtain ⟨tags, faithful⟩ := moves.tags clean fun m member => (added m member).1
  refine ⟨shared, moves.due clean.due, faithful, moves.store clean.store,
    moves.buffered clean.buffered, ?_⟩
  intro m member
  have known := Multiset.mem_of_le tags (Multiset.mem_map_of_mem tag member)
  rcases Multiset.mem_add.mp known with new | old
  · obtain ⟨x, inside, same⟩ := Multiset.mem_map.mp new
    have bound := (added x inside).2
    rw [show m.oid = x.oid from (congrArg Prod.fst same).symm]
    exact bound
  · obtain ⟨x, inside, same⟩ := Multiset.mem_map.mp old
    have bound := clean.below x inside
    rw [show m.oid = x.oid from (congrArg Prod.fst same).symm]
    exact lt_of_lt_of_le bound moves.next

theorem Clean.steady (clean : Clean d) (moves : Moves 0 d d') (steady : Steady d d') : Clean d' :=
  clean.moves moves (clean.shared.steady steady) (by simp)

theorem rehydrate_version (sound : Sound Content.uuid (d.stores .shared)) {c : Consumer}
    (shared : c.storage = .shared) (m : Message) (faithful : Faithful m) :
    tag (d.rehydrate c m) = tag m ∧ Faithful (d.rehydrate c m) := by
  unfold Destination.rehydrate
  split
  · rename_i persistent
    split
    · rename_i content cached
      refine ⟨?_, fun _ _ none_ => by cases none_⟩
      exact Prod.ext rfl (faithful persistent content cached)
    · rename_i uncached
      split
      · exact ⟨rfl, faithful⟩
      · rename_i content read
        constructor
        · obtain ⟨i, found, bytes⟩ := Option.bind_eq_some_iff.mp read
          rw [shared] at found bytes
          obtain ⟨e, at_, key⟩ := sound.indexed m.uuid i found
          have stored : content = e.data := by
            unfold Store.data at bytes
            split at bytes
            · rw [at_, Option.map_some, Option.some.injEq] at bytes
              exact bytes.symm
            · cases bytes
          have named := sound.named e (List.mem_of_getElem? at_)
          have same : content.uuid = m.uuid := by rw [stored, named, key]
          exact Prod.ext rfl same
        · intro _ other cached
          rw [uncached] at cached
          cases cached
  · exact ⟨rfl, faithful⟩

theorem track_contents (c : Consumer) (m : Message) : contents (track c m) ≤ {m} + contents c := by
  unfold track
  split
  · have perm := enqueue_perm c.transactQueue m.band m
    unfold contents
    rw [Multiset.coe_eq_coe.mpr perm, ← Multiset.cons_coe, ← Multiset.singleton_add]
    exact le_of_eq (by abel)
  · exact Multiset.le_add_left _ _
  · unfold contents
    rw [← Multiset.coe_add, Multiset.coe_singleton]
    exact le_of_eq (by abel)

/-- What a receive does to the messages, and where the one it returns was. -/
structure Received (d : Destination) (r : Destination × Option Message) : Prop where
  moves : Moves 0 d r.1
  steady : Steady d r.1
  given : ∀ m, r.2 = some m → tag m ∈ (held d).map tag

theorem recv_received (env : Env) (cid patience : Nat) (clean : Clean d) :
    Received d (d.recv env cid patience) := by
  refine recv_rule (P := fun d r => Clean d → Received d r) ?_ ?_ ?_ patience d clean
  · intro d _
    exact ⟨Moves.refl d, Steady.refl d, fun m none_ => by cases none_⟩
  · intro d c m q object next clean
    obtain ⟨queue, storage⟩ := clean.shared cid c object
    rw [queue] at next ⊢
    have all := held_setQueue d next
    have known : Faithful m := clean.faithful m (by rw [all]; simp)
    have version := rehydrate_version (d := d.setQueue .shared q) clean.store storage m
    have less : held ((d.setQueue .shared q).setObject cid
        (track c ((d.setQueue .shared q).rehydrate c m))) ≤
          {(d.setQueue .shared q).rehydrate c m} + held (d.setQueue .shared q) := by
      have moved := held_setObject (d.setQueue .shared q) object
        (track c ((d.setQueue .shared q).rehydrate c m))
      have bound := add_le_add_left (track_contents c ((d.setQueue .shared q).rehydrate c m))
        (held (d.setQueue .shared q))
      rw [← moved, add_assoc, add_left_comm] at bound
      exact le_of_add_le_add_left bound
    refine ⟨⟨?_, id, id, id, le_refl _⟩, ?_, ?_⟩
    · rw [zero_add, all]
      exact ((versions_single version).add (Versions.refl _)).trans (Versions.of_le less)
    · exact (setQueue_same d _ q).steady.trans (setObject_steady object (track_settings c _))
    · intro m' given
      rw [← Option.some.inj given, (version known).1, all]
      simp
  · intro d c m q r object next rest clean
    obtain ⟨queue, storage⟩ := clean.shared cid c object
    rw [queue] at next rest
    have all := held_setQueue d next
    have taken : Moves 0 d (d.setQueue .shared q) := by
      refine moves_le ?_ rfl rfl rfl (le_refl _)
      rw [all]
      exact Multiset.le_add_left _ _
    have dropped := taken.quiet (dropRecord_moves (d.setQueue .shared q) c
      ((d.setQueue .shared q).rehydrate c m))
    have steady := ((setQueue_same d .shared q).trans (dropRecord_same _ c
      ((d.setQueue .shared q).rehydrate c m))).steady
    have later := rest (clean.steady dropped steady)
    refine ⟨dropped.quiet later.moves, steady.trans later.steady, ?_⟩
    intro m' given
    have tags := (dropped.tags clean (by simp)).1
    rw [Multiset.map_zero, zero_add] at tags
    exact Multiset.mem_of_le tags (later.given m' given)

end Clean

end TinyMqHolders
