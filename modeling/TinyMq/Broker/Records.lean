import TinyMq.Broker.Frames

/-!
The records a call appends, and to which storage. `send` appends one for every
consumer the message is pushed to and one for every offline durable
subscription; the commit of a producer appends the batch of its transaction to
the destination's storage and then those of the offline subscriptions.
-/
namespace TinyMqRecords
open DelimitedText AssocLists BandQueues TombstoneLog TinyMqTom TinyMqMessage TinyMqStore
open TinyMqDestination TinyMqTransactionBuffer TinyMqSession TinyMqFrames

abbrev Stores := StorageId → Store Content

abbrev Addressed := StorageId × UUID × Content

def appendTo (env : Env) (stores : Stores) (r : Addressed) : Stores :=
  Function.update stores r.1
    ((stores r.1).append r.2.1 r.2.2 (env.appendFails r.1 (stores r.1).log.length)).1

def appendAll (env : Env) (stores : Stores) (records : List Addressed) : Stores :=
  records.foldl (appendTo env) stores

def recordsFor (sid : StorageId) (records : List Addressed) : List (UUID × Content) :=
  (records.filter (·.1 = sid)).map (·.2)

theorem appendAll_at (env : Env) (stores : Stores) (records : List Addressed) (sid : StorageId) :
    appendAll env stores records sid =
      appends (env.appendFails sid) (stores sid) (recordsFor sid records) := by
  unfold appendAll
  induction records generalizing stores with
  | nil => rfl
  | cons r records ih =>
    rw [List.foldl_cons, ih]
    by_cases mine : r.1 = sid
    · have here : recordsFor sid (r :: records) = r.2 :: recordsFor sid records := by
        simp [recordsFor, mine]
      subst mine
      rw [here]
      simp [appends, appendTo]
    · have elsewhere : recordsFor sid (r :: records) = recordsFor sid records := by
        simp [recordsFor, mine]
      have same : appendTo env stores r sid = stores sid :=
        Function.update_of_ne (fun equal => mine equal.symm) _ _
      rw [elsewhere, same]

theorem appendAll_append (env : Env) (stores : Stores) (a b : List Addressed) :
    appendAll env stores (a ++ b) = appendAll env (appendAll env stores a) b :=
  List.foldl_append

/-- The record `preparePush` writes for a consumer. -/
def pushRecords (env : Env) (number : Int) (m : Message) (d : Destination) (cid : Nat) :
    List Addressed :=
  match get d.objects cid with
  | none => []
  | some c =>
    if accepts c.selector m ∧ m.isPersistent then
      [(c.storage, (pushCopy env 0 number cid m).uuid, (pushCopy env 0 number cid m).content)]
    else []

def offlineRecord (env : Env) (m : Message) (entry : Text × DurableSubState) : List Addressed :=
  if entry.2.active.isSome then []
  else if accepts entry.2.selector m then
    let uuid := if m.uuid = 0 then env.random (.offline m.content.number entry.1) else m.uuid
    [(entry.2.storage, uuid, { m.content with uuid := uuid })]
  else []

def offlineRecords (env : Env) (d : Destination) (m : Message) : List Addressed :=
  if d.isTopicFamily ∧ m.isPersistent then d.durableSubs.flatMap (offlineRecord env m) else []

/-- What a plain send of a message appends. -/
def sendRecords (env : Env) (d : Destination) (m : Message) : List Addressed :=
  d.targets.flatMap (pushRecords env d.messageCounter m d) ++ offlineRecords env d m

theorem pushRecords_same {d d' : Destination} (same : Same d d') (env : Env) (number : Int)
    (m : Message) : pushRecords env number m d' = pushRecords env number m d := by
  funext cid
  unfold pushRecords
  rw [same.objects]

theorem offlineRecords_same {d d' : Destination} (same : Same d d') (env : Env) (m : Message) :
    offlineRecords env d' m = offlineRecords env d m := by
  unfold offlineRecords
  rw [same.topicFamily, same.subs]

/-- A call that leaves the subscriptions alone and appends the given records. -/
structure Appends (env : Env) (d d' : Destination) (records : List Addressed) : Prop where
  same : Same d d'
  stores : d'.stores = appendAll env d.stores records

theorem Appends.refl (env : Env) (d : Destination) : Appends env d d [] := ⟨Same.refl d, rfl⟩

theorem Appends.trans {env : Env} {d d' d'' : Destination} {a b : List Addressed}
    (one : Appends env d d' a) (two : Appends env d' d'' b) : Appends env d d'' (a ++ b) where
  same := one.same.trans two.same
  stores := by rw [two.stores, one.stores, appendAll_append]

theorem appends_nothing {env : Env} {d d' : Destination} (same : Same d d')
    (stores : d'.stores = d.stores) : Appends env d d' [] := ⟨same, stores⟩

theorem appends_fold {ι : Type} {env : Env} {g : Destination → ι → Destination}
    {r : Destination → ι → List Addressed} {l : List ι}
    (one : ∀ d, ∀ i ∈ l, Appends env d (g d i) (r d i))
    (stable : ∀ d d', Same d d' → ∀ i ∈ l, r d' i = r d i) (d : Destination) :
    Appends env d (l.foldl g d) (l.flatMap (r d)) := by
  induction l generalizing d with
  | nil => exact Appends.refl env d
  | cons i l ih =>
    have first := one d i (by simp)
    have rest := ih (fun d j member => one d j (List.mem_cons_of_mem i member))
      (fun d d' same j member => stable d d' same j (List.mem_cons_of_mem i member)) (g d i)
    have again : l.flatMap (r (g d i)) = l.flatMap (r d) := by
      apply List.flatMap_congr
      intro j member
      exact stable d (g d i) first.same j (List.mem_cons_of_mem i member)
    rw [again] at rest
    rw [List.foldl_cons, List.flatMap_cons]
    exact first.trans rest

theorem enqueue_appends (env : Env) (d : Destination) (q : QueueId) (m : Message) :
    Appends env d (d.enqueue q m) [] := appends_nothing (same_registry rfl) rfl

theorem enqueueOrSchedule_appends (env : Env) (d : Destination) (q : QueueId) (m : Message) :
    Appends env d (d.enqueueOrSchedule env q m) [] := by
  unfold Destination.enqueueOrSchedule
  dsimp only
  split
  · exact enqueue_appends env d q _
  · split
    · split
      · exact Appends.refl env d
      · exact enqueue_appends env d q _
    · exact appends_nothing (same_registry rfl) rfl

theorem preparePush_appends (env : Env) (d : Destination) (cid : Nat) (c : Consumer) (number : Int)
    (m : Message) :
    Appends env d (d.preparePush env cid c number [] m).1
      (if m.isPersistent then
        [(c.storage, (pushCopy env 0 number cid m).uuid, (pushCopy env 0 number cid m).content)]
      else []) := by
  unfold Destination.preparePush Destination.appendRecord
  have persistent : (pushCopy env d.nextOid number cid m).isPersistent = m.isPersistent := rfl
  simp only [persistent, ne_eq, not_true_eq_false, if_false]
  split
  · exact ⟨same_registry rfl, rfl⟩
  · exact appends_nothing (same_registry rfl) rfl

theorem push_appends (env : Env) (number : Int) (pid : Nat) (m : Message) (d : Destination)
    (cid : Nat) :
    Appends env d (Destination.push env number pid [] m d cid) (pushRecords env number m d cid) := by
  unfold Destination.push pushRecords
  cases get d.objects cid with
  | none => exact Appends.refl env d
  | some c =>
    dsimp only
    by_cases accepted : accepts c.selector m = true
    · have prepared := preparePush_appends env d cid c number m
      simp only [accepted, if_true, true_and]
      rw [← List.append_nil (if m.isPersistent = true then _ else _)]
      split
      · exact prepared.trans (enqueueOrSchedule_appends env _ _ _)
      · exact prepared.trans (enqueue_appends env _ _ _)
    · simp only [accepted]
      exact Appends.refl env d

theorem persistOffline_appends (env : Env) (d : Destination) (m : Message) :
    Appends env d (d.persistOffline env m) (d.durableSubs.flatMap (offlineRecord env m)) := by
  unfold Destination.persistOffline
  apply appends_fold (r := fun _ => offlineRecord env m)
  · intro d entry _
    unfold offlineRecord
    split
    · exact Appends.refl env d
    · split
      · exact ⟨same_registry rfl, rfl⟩
      · exact Appends.refl env d
  · intro d d' _ i _
    rfl

theorem save_appends (env : Env) (d : Destination) (pid : Nat) (m : Message) :
    Appends env d (d.save env pid [] m) (sendRecords env d m) := by
  let counted : Destination := { d with messageCounter := d.messageCounter + 1 }
  have start : Appends env d counted [] := appends_nothing (same_registry rfl) rfl
  have pushed := appends_fold (g := Destination.push env d.messageCounter pid [] m)
    (r := pushRecords env d.messageCounter m) (l := counted.targets)
    (fun e cid _ => push_appends env d.messageCounter pid m e cid)
    (fun e e' same cid _ => by rw [pushRecords_same same]) counted
  have before := start.trans pushed
  rw [start.same.targets, pushRecords_same start.same] at before
  unfold Destination.save sendRecords
  dsimp only
  rw [show Destination.targets { d with messageCounter := d.messageCounter + 1 } = d.targets
    from start.same.targets]
  have offline : offlineRecords env d m = offlineRecords env
      (d.targets.foldl (Destination.push env d.messageCounter pid [] m) counted) m :=
    (offlineRecords_same before.same env m).symm
  rw [offline]
  unfold offlineRecords
  simp only [and_true]
  split
  · exact before.trans (persistOffline_appends env _ m)
  · exact before.trans (Appends.refl env _)

theorem send_appends (env : Env) {d : Destination} {pid : Nat} {p : Producer}
    (found : get d.producers pid = some p) (m : Message) :
    Appends env d (d.send env pid [] m).1 (sendRecords env d (prepared env p [] m)) := by
  simp only [Destination.send, found]
  exact save_appends env d pid (prepared env p [] m)

theorem deliverTo_appends (env : Env) (m : Message) (d : Destination) (cid : Nat) :
    Appends env d (Destination.deliverTo env m d cid) [] := by
  unfold Destination.deliverTo
  cases get d.objects cid with
  | none => exact Appends.refl env d
  | some c =>
    have numbered : Appends env d { d with nextOid := d.nextOid + 1 } [] :=
      appends_nothing (same_registry rfl) rfl
    exact numbered.trans (enqueueOrSchedule_appends env _ _ _)

theorem deliverCommitted_appends (env : Env) (d : Destination) (m : Message) :
    Appends env d (d.deliverCommitted env m) (offlineRecords env d m) := by
  unfold Destination.deliverCommitted
  rcases queue_or_topic d with queue | topic
  · have none_ : offlineRecords env d m = [] := by
      simp [offlineRecords, queue_notTopic queue]
    rw [if_pos queue, none_]
    cases d.consumers with
    | nil => exact Appends.refl env d
    | cons cid rest =>
      dsimp only
      cases get d.objects cid with
      | none => exact Appends.refl env d
      | some c => exact enqueueOrSchedule_appends env d _ m
  · have reached := appends_fold (g := Destination.deliverTo env m) (r := fun _ _ => [])
      (l := d.consumers) (fun e cid _ => deliverTo_appends env m e cid) (fun _ _ _ _ _ => rfl) d
    have nothing : d.consumers.flatMap (fun _ => ([] : List Addressed)) = [] := by simp
    rw [nothing] at reached
    rw [topic_notQueue topic]
    simp only [Bool.false_eq_true, if_false]
    have offline := (offlineRecords_same reached.same env m).symm
    rw [offline]
    unfold offlineRecords
    simp only [reached.same.topicFamily, topic, true_and]
    split
    · exact reached.trans (persistOffline_appends env _ m)
    · exact reached

/-- The batch the commit of a producer moves out of the transaction buffer, with the
    delivery times of its delayed messages filled in. -/
def committedBatch (env : Env) (d : Destination) (pid : Nat) (p : Producer) (t : Text) :
    List (UUID × Content) :=
  if t = [] then []
  else ((p.transactQueue.toList.foldl (Destination.patchPending env)
    (d.clearStaged pid p)).buffer.commitTransaction env.stamp t).2

/-- What the commit of a producer appends. -/
def commitRecords (env : Env) (d : Destination) (pid : Nat) (t : Text) : List Addressed :=
  match get d.producers pid with
  | none => []
  | some p =>
    if p.mode = .SESSION_TRANSACTED then
      (committedBatch env d pid p t).map (fun x => (.shared, x)) ++
        (p.transactQueue.toList.map (resolveDelay env)).flatMap (offlineRecords env d)
    else []

theorem appendAll_batch (env : Env) (stores : Stores) (batch : List (UUID × Content)) :
    appendAll env stores (batch.map fun x => (.shared, x)) =
      Function.update stores .shared
        ((stores .shared).appendBatch (env.appendFails .shared) batch) := by
  funext sid
  rw [appendAll_at, appendBatch_appends]
  by_cases shared : sid = .shared
  · subst shared
    have all : recordsFor .shared (batch.map fun x => (StorageId.shared, x)) = batch := by
      simp [recordsFor, List.filter_map]
    rw [all, Function.update_self]
  · have none_ : recordsFor sid (batch.map fun x => (StorageId.shared, x)) = [] := by
      have apart : ¬ StorageId.shared = sid := fun same => shared same.symm
      simp [recordsFor, List.filter_map, apart]
    rw [none_, Function.update_of_ne shared]
    rfl

theorem commitTransaction_appends (env : Env) (d : Destination) (t : Text) :
    Appends env d (d.commitTransaction env t)
      ((if t = [] then [] else (d.buffer.commitTransaction env.stamp t).2).map
        fun x => (.shared, x)) := by
  unfold Destination.commitTransaction
  split
  · exact Appends.refl env d
  · exact ⟨same_registry rfl, (appendAll_batch env d.stores _).symm⟩

theorem patchPending_appends (env : Env) (d : Destination) (m : Message) :
    Appends env d (d.patchPending env m) [] := by
  unfold Destination.patchPending
  split
  · exact appends_nothing (same_registry rfl) rfl
  · exact Appends.refl env d

theorem commitProducer_appends (env : Env) (d : Destination) (pid : Nat) (t : Text) :
    Appends env d (d.commitProducer env pid t) (commitRecords env d pid t) := by
  unfold Destination.commitProducer commitRecords
  cases get d.producers pid with
  | none => exact Appends.refl env d
  | some p =>
    dsimp only
    split
    · have cleared : Appends env d (d.clearStaged pid p) [] :=
        appends_nothing (same_registry rfl) rfl
      have patched := appends_fold (g := Destination.patchPending env) (r := fun _ _ => [])
        (l := p.transactQueue.toList) (fun e m _ => patchPending_appends env e m)
        (fun _ _ _ _ _ => rfl) (d.clearStaged pid p)
      have nothing : p.transactQueue.toList.flatMap (fun _ => ([] : List Addressed)) = [] := by simp
      rw [nothing] at patched
      have committed := (cleared.trans patched).trans (commitTransaction_appends env _ t)
      have delivered := appends_fold (g := Destination.deliverCommitted env)
        (r := offlineRecords env) (l := p.transactQueue.toList.map (resolveDelay env))
        (fun e m _ => deliverCommitted_appends env e m)
        (fun e e' same m _ => offlineRecords_same same env m)
        ((p.transactQueue.toList.foldl (Destination.patchPending env)
          (d.clearStaged pid p)).commitTransaction env t)
      have stable := funext (offlineRecords_same committed.same env)
      rw [stable] at delivered
      exact committed.trans delivered
    · exact Appends.refl env d

/-- What the commit of a session appends to the storages of one destination. -/
def sessionRecords (env : Env) (t : Text) (did : Nat) : Destination → Assoc Nat Nat → List Addressed
  | _, [] => []
  | d, p :: producers =>
    if p.2 = did then
      commitRecords env d p.1 t ++ sessionRecords env t did (d.commitProducer env p.1 t) producers
    else sessionRecords env t did d producers

theorem commitProducers_appends (env : Env) (t : Text) {did : Nat} (l : Assoc Nat Nat) {w : World}
    {d : Destination} (here : w.destinations did = some d) :
    ∃ d', (w.commitProducers env t l).destinations did = some d' ∧
      Appends env d d' (sessionRecords env t did d l) := by
  unfold World.commitProducers
  induction l generalizing w d with
  | nil => exact ⟨d, here, Appends.refl env d⟩
  | cons p l ih =>
    rw [List.foldl_cons]
    unfold sessionRecords
    by_cases mine : p.2 = did
    · obtain ⟨d', there, rest⟩ := ih (w := w.onDestination p.2 fun d => d.commitProducer env p.1 t)
        (by rw [mine]; exact onDestination_same here _)
      rw [if_pos mine]
      exact ⟨d', there, (commitProducer_appends env d p.1 t).trans rest⟩
    · rw [if_neg mine]
      exact ih (by rw [onDestination_other w (fun same => mine same.symm)]; exact here)

end TinyMqRecords
