import TinyMq.Broker.DurableRegistry
import TinyMq.Broker.Records

/-!
The records of the durable subscriptions. A plain send writes one record for every
subscription that takes the message, through its consumer or for it while it is
offline. In a transaction the copies for the consumers go to the storage of the
topic instead, and every copy is written again for the offline subscriptions.
-/
namespace TinyMqDurableSubs
open DelimitedText AssocLists BandQueues Machines TombstoneLog TinyMqTom TinyMqMessage TinyMqStore
open TinyMqDestination TinyMqFrames TinyMqRecords TinyMqQueueRuns TinyMqDurableRegistry

/-- The live records of a message in a storage. -/
def copies (d : Destination) (sid : StorageId) (uuid : UUID) : Nat :=
  (d.stores sid).log.countP fun e => !e.removed && decide (e.key = uuid)

/-- Every durable subscription that takes the message has one more record of it in its
    storage, and every other one has none more. -/
def Complete (d d' : Destination) (m : Message) : Prop :=
  ∀ k sub, get d.durableSubs k = some sub →
    copies d' sub.storage m.uuid =
      copies d sub.storage m.uuid + if accepts sub.selector m then 1 else 0

def audience (d : Destination) (m : Message) : Nat :=
  d.consumers.countP fun cid => (get d.objects cid).any fun c => accepts c.selector m

def outgoing (env : Env) (p : Producer) (t : Text) (m : Message) : Option SendOptions → Message
  | none => prepared env p t m
  | some opts => fillHeaders env p (applyOptions env m opts (t ≠ []))

def publishSend (env : Env) (d : Destination) (pid : Nat) (t : Text) (m : Message) :
    Option SendOptions → Destination
  | none => (d.send env pid t m).1
  | some opts => (d.sendWith env pid t m opts).1

/-- A plain send, or a send in a transaction and its commit. -/
def publish (env commitEnv : Env) (d : Destination) (pid : Nat) (t : Text) (m : Message)
    (opts : Option SendOptions) : Destination :=
  let d := publishSend env d pid t m opts
  if t = [] then d else d.commitProducer commitEnv pid t

/-- The uuid under which an offline subscription keeps a message. -/
def keptUuid (env : Env) (key : Text) (m : Message) : UUID :=
  if m.uuid = 0 then env.random (.offline m.content.number key) else m.uuid

/-- A persistent message with a uuid of its own, sent by a producer of a session with
    the transaction `t`, while the storages of the subscriptions work. -/
structure Publication (env commitEnv : Env) (d : Destination) (pid : Nat) (p : Producer) (t : Text)
    (m : Message) (opts : Option SendOptions) : Prop where
  producer : get d.producers pid = some p
  valid : ∀ o, opts = some o → validateSendOptions o = .ok ()
  session : t ≠ [] → p.mode = .SESSION_TRANSACTED
  persistent : (outgoing env p t m opts).isPersistent = true
  uuid : m.uuid ≠ 0
  new : ∀ x ∈ p.transactQueue.toList, ∀ key, keptUuid commitEnv key x ≠ m.uuid
  works : ∀ sid n, env.appendFails sid n = false ∧ commitEnv.appendFails sid n = false
  good : ∀ k sub, get d.durableSubs k = some sub → (d.stores sub.storage).good = true

section Counting

theorem flatMap_only {ι β : Type} {l : List ι} (distinct : l.Nodup) {a : ι} (member : a ∈ l)
    {f : ι → List β} (others : ∀ x ∈ l, x ≠ a → f x = []) : l.flatMap f = f a := by
  induction l with
  | nil => cases member
  | cons x l ih =>
    rw [List.nodup_cons] at distinct
    rw [List.flatMap_cons]
    by_cases here : x = a
    · have rest : l.flatMap f = [] := by
        rw [List.flatMap_eq_nil_iff]
        intro y inside
        refine others y (List.mem_cons_of_mem x inside) ?_
        intro same
        exact distinct.1 (here ▸ same ▸ inside)
      rw [rest, here, List.append_nil]
    · have inside : a ∈ l := by
        rcases List.mem_cons.mp member with same | later
        · exact absurd same.symm here
        · exact later
      rw [others x (by simp) here, List.nil_append]
      exact ih distinct.2 inside fun y there => others y (List.mem_cons_of_mem x there)

theorem recordsFor_flatMap {ι : Type} (sid : StorageId) (l : List ι) (f : ι → List Addressed) :
    recordsFor sid (l.flatMap f) = l.flatMap fun x => recordsFor sid (f x) := by
  induction l with
  | nil => rfl
  | cons x l ih =>
    rw [List.flatMap_cons, List.flatMap_cons, ← ih]
    simp [recordsFor]

theorem countP_flatMap_single {ι β : Type} {l : List ι} {f : ι → List β} {P : β → Bool}
    {Q : ι → Bool} (one : ∀ x ∈ l, (f x).countP P = if Q x then 1 else 0) :
    (l.flatMap f).countP P = l.countP Q := by
  induction l with
  | nil => rfl
  | cons x l ih =>
    rw [List.flatMap_cons, List.countP_append, one x (by simp),
      ih fun y inside => one y (List.mem_cons_of_mem x inside), List.countP_cons, Nat.add_comm]

theorem copies_appended {env : Env} {d d' : Destination} {records : List Addressed}
    (appended : d'.stores = appendAll env d.stores records) {sid : StorageId}
    (good : (d.stores sid).good = true) (works : ∀ n, env.appendFails sid n = false) (uuid : UUID) :
    copies d' sid uuid =
      copies d sid uuid + (recordsFor sid records).countP fun r => decide (r.1 = uuid) := by
  unfold copies
  rw [appended, appendAll_at, (appends_stored good fun i _ => works _).1, List.countP_append, stored,
    List.countP_map]
  rfl

end Counting

section Plain
variable {d : Destination} (reg : Registry d) {k : Text} {sub : DurableSubState}
  (found : get d.durableSubs k = some sub)
include reg found

theorem same_storage {k' : Text} {sub' : DurableSubState} (found' : get d.durableSubs k' = some sub')
    (same : sub'.storage = sub.storage) : k' = k ∧ sub' = sub := by
  have key := reg.apart k' k sub' sub found' found (StorageId.sub.inj same)
  rw [key, found, Option.some.injEq] at found'
  exact ⟨key, found'.symm⟩

theorem recordsFor_offline (env : Env) (m : Message) :
    recordsFor sub.storage (d.durableSubs.flatMap (offlineRecord env m)) =
      recordsFor sub.storage (offlineRecord env m (k, sub)) := by
  rw [recordsFor_flatMap]
  refine flatMap_only (List.Nodup.of_map _ reg.keys) (get_mem found) ?_
  intro entry member other
  have apart : entry.2.storage ≠ sub.storage := by
    intro same
    obtain ⟨key, state⟩ := same_storage reg found (mem_get reg.keys member) same
    exact other (Prod.ext key state)
  unfold offlineRecord
  split
  · rfl
  · split
    · simp [recordsFor, apart]
    · rfl

theorem offline_count (env : Env) (m : Message) (uuid : UUID) :
    (recordsFor sub.storage (offlineRecords env d m)).countP (fun r => decide (r.1 = uuid)) =
      if m.isPersistent && sub.active.isNone && accepts sub.selector m &&
        decide (keptUuid env k m = uuid) then 1 else 0 := by
  unfold offlineRecords
  rw [reg.topic]
  by_cases persistent : m.isPersistent
  · rw [if_pos ⟨rfl, persistent⟩, recordsFor_offline reg found]
    unfold offlineRecord
    cases active : sub.active with
    | some id => simp [recordsFor, persistent]
    | none =>
      cases taken : accepts sub.selector m with
      | false => simp [recordsFor, persistent]
      | true =>
        simp only [recordsFor, persistent, Option.isSome_none, Bool.false_eq_true, if_false, if_true,
          decide_true, List.filter_cons_of_pos, List.filter_nil, List.map_cons, List.map_nil,
          Option.isNone_none, Bool.and_self, Bool.true_and, List.countP_singleton, decide_eq_true_eq]
        rfl
  · rw [if_neg fun both => persistent both.2]
    simp [recordsFor, persistent]

theorem push_count (env : Env) (number : Int) (m : Message) (persistent : m.isPersistent = true)
    (named : m.uuid ≠ 0) :
    (recordsFor sub.storage (d.consumers.flatMap (pushRecords env number m d))).countP
        (fun r => decide (r.1 = m.uuid)) =
      if sub.active.isSome && accepts sub.selector m then 1 else 0 := by
  -- A consumer on this storage is the active one of this subscription.
  have active_of : ∀ cid c, cid ∈ d.consumers → get d.objects cid = some c →
      c.storage = sub.storage → sub.active = some cid := by
    intro cid c member object storage
    obtain ⟨c', object', works⟩ := reg.attached cid member
    rw [object, Option.some.injEq] at object'
    rw [← object'] at works
    rcases works with shared | ⟨k', sub', found', active, own⟩
    · rw [shared] at storage
      cases storage
    · rw [← (same_storage reg found found' (own.symm.trans storage)).2]
      exact active
  have nothing : ∀ cid ∈ d.consumers, sub.active ≠ some cid →
      recordsFor sub.storage (pushRecords env number m d cid) = [] := by
    intro cid member inactive
    unfold pushRecords
    cases object : get d.objects cid with
    | none => rfl
    | some c =>
      have apart : c.storage ≠ sub.storage :=
        fun storage => inactive (active_of cid c member object storage)
      dsimp only
      split
      · simp [recordsFor, apart]
      · rfl
  rw [recordsFor_flatMap]
  cases active : sub.active with
  | none =>
    have none_ : d.consumers.flatMap
        (fun cid => recordsFor sub.storage (pushRecords env number m d cid)) = [] := by
      rw [List.flatMap_eq_nil_iff]
      intro cid member
      exact nothing cid member (by rw [active]; exact Option.some_ne_none cid |>.symm)
    rw [none_]
    simp
  | some id =>
    obtain ⟨member, _, c, object, storage, selector⟩ := reg.online k sub id found active
    rw [flatMap_only reg.distinct member fun cid inside other => nothing cid inside (by
      rw [active, ne_eq, Option.some.injEq]
      exact fun same => other same.symm)]
    cases taken : accepts sub.selector m with
    | false => simp [pushRecords, object, selector, taken, recordsFor]
    | true =>
      simp [pushRecords, object, selector, taken, persistent, storage, recordsFor, pushCopy,
        Message.uuid] at named ⊢
      simp [named]

end Plain

theorem save_complete {d : Destination} (reg : Registry d) (env : Env) (pid : Nat) {m : Message}
    (persistent : m.isPersistent = true) (named : m.uuid ≠ 0)
    (works : ∀ sid n, env.appendFails sid n = false)
    (good : ∀ k sub, get d.durableSubs k = some sub → (d.stores sub.storage).good = true) :
    Complete d (d.save env pid [] m) m := by
  intro k sub found
  have targets : d.targets = d.consumers := by
    simp [Destination.targets, topic_notQueue reg.topic]
  have split : recordsFor sub.storage (sendRecords env d m) =
      recordsFor sub.storage (d.consumers.flatMap (pushRecords env d.messageCounter m d)) ++
        recordsFor sub.storage (offlineRecords env d m) := by
    simp [sendRecords, recordsFor, targets]
  rw [copies_appended (save_appends env d pid m).stores (good k sub found) (works _), split,
    List.countP_append, push_count reg found env d.messageCounter m persistent named,
    offline_count reg found env m m.uuid]
  have kept : keptUuid env k m = m.uuid := if_neg named
  cases sub.active with
  | none => simp [persistent, kept]
  | some id => simp

structure CopyOf (m x : Message) : Prop where
  uuid : x.uuid = m.uuid
  persistent : x.isPersistent = m.isPersistent
  properties : x.content.properties = m.content.properties

/-- The call puts `k` copies of the message into the transaction queue of a producer. -/
structure Stages (pid : Nat) (m : Message) (k : Nat) (d d' : Destination) : Prop where
  stores : d'.stores = d.stores
  queued : ∀ p, get d.producers pid = some p → ∃ p' new, get d'.producers pid = some p' ∧
    p'.mode = p.mode ∧ p'.transactQueue.toList.Perm (p.transactQueue.toList ++ new) ∧
    new.length = k ∧ ∀ x ∈ new, CopyOf m x

section Stages
variable {pid : Nat} {m : Message}

theorem Stages.refl (pid : Nat) (m : Message) (d : Destination) : Stages pid m 0 d d :=
  ⟨rfl, fun p here => ⟨p, [], here, rfl, by simp, rfl, by simp⟩⟩

theorem Stages.trans {j k : Nat} {d d' d'' : Destination} (one : Stages pid m j d d')
    (two : Stages pid m k d' d'') : Stages pid m (j + k) d d'' := by
  refine ⟨two.stores.trans one.stores, ?_⟩
  intro p here
  obtain ⟨p', new, here', mode', perm', length', copies'⟩ := one.queued p here
  obtain ⟨p'', more, here'', mode'', perm'', length'', copies''⟩ := two.queued p' here'
  refine ⟨p'', new ++ more, here'', mode''.trans mode', ?_, by simp [length', length''], ?_⟩
  · rw [← List.append_assoc]
    exact perm''.trans (perm'.append_right more)
  · intro x member
    rcases List.mem_append.mp member with first | second
    · exact copies' x first
    · exact copies'' x second

theorem stage_stages (pid : Nat) (d : Destination) {copy : Message} (copyOf : CopyOf m copy) :
    Stages pid m 1 d (d.stage pid copy) := by
  unfold Destination.stage
  cases here : get d.producers pid with
  | none =>
    refine ⟨rfl, ?_⟩
    intro p found
    rw [here] at found
    cases found
  | some q =>
    refine ⟨rfl, ?_⟩
    intro p found
    rw [here, Option.some.injEq] at found
    rw [← found]
    refine ⟨_, [copy], get_put_same _ _ _, rfl, ?_, rfl, ?_⟩
    · exact (enqueue_perm q.transactQueue copy.band copy).trans
        (List.perm_append_singleton copy _).symm
    · intro x member
      rw [List.mem_singleton.mp member]
      exact copyOf

theorem preparePush_stages (pid : Nat) (env : Env) (number : Int) {t : Text} (transaction : t ≠ [])
    (named : m.uuid ≠ 0) (d : Destination) (cid : Nat) (c : Consumer) :
    Stages pid m 0 d (d.preparePush env cid c number t m).1 ∧
      CopyOf m (d.preparePush env cid c number t m).2 := by
  have kept : ∀ e : Destination, e.stores = d.stores → e.producers = d.producers →
      Stages pid m 0 d e := by
    intro e stores producers
    refine ⟨stores, ?_⟩
    intro p here
    exact ⟨p, [], by rw [producers]; exact here, rfl, by simp, rfl, by simp⟩
  unfold Destination.preparePush
  dsimp only
  rw [if_pos transaction]
  split <;> exact ⟨kept _ rfl rfl, if_neg named, rfl, rfl⟩

theorem push_stages (pid : Nat) (env : Env) (number : Int) {t : Text} (transaction : t ≠ [])
    (named : m.uuid ≠ 0) (d : Destination) (cid : Nat) :
    Stages pid m (if (get d.objects cid).any fun c => accepts c.selector m then 1 else 0) d
      (Destination.push env number pid t m d cid) := by
  unfold Destination.push
  cases get d.objects cid with
  | none => exact Stages.refl pid m d
  | some c =>
    simp only [Option.any_some]
    by_cases taken : accepts c.selector m
    · obtain ⟨numbered, copyOf⟩ := preparePush_stages pid env number transaction named d cid c
      have both := numbered.trans (stage_stages pid _ copyOf)
      rw [Nat.zero_add] at both
      rw [if_pos taken, if_pos taken, if_neg transaction]
      exact both
    · rw [if_neg taken, if_neg taken]
      exact Stages.refl pid m d

theorem pushes_stage (pid : Nat) (env : Env) (number : Int) {t : Text} (transaction : t ≠ [])
    (named : m.uuid ≠ 0) (l : List Nat) (d : Destination) :
    Stages pid m (l.countP fun cid => (get d.objects cid).any fun c => accepts c.selector m) d
      (l.foldl (Destination.push env number pid t m) d) := by
  induction l generalizing d with
  | nil => exact Stages.refl pid m d
  | cons cid l ih =>
    have first := push_stages pid env number transaction named d cid
    have rest := ih (Destination.push env number pid t m d cid)
    rw [(push_same env d number pid t m cid).objects] at rest
    rw [List.foldl_cons, List.countP_cons, Nat.add_comm]
    exact first.trans rest

end Stages

theorem commit_count {d : Destination} (reg : Registry d) {k : Text} {sub : DurableSubState}
    (found : get d.durableSubs k = some sub) (env : Env) {pid : Nat} {p : Producer}
    (producer : get d.producers pid = some p) (mode : p.mode = .SESSION_TRANSACTED) (t : Text)
    (uuid : UUID) :
    (recordsFor sub.storage (commitRecords env d pid t)).countP (fun r => decide (r.1 = uuid)) =
      p.transactQueue.toList.countP fun x => x.isPersistent && sub.active.isNone &&
        accepts sub.selector x && decide (keptUuid env k x = uuid) := by
  have resolved : ∀ x, (resolveDelay env x).isPersistent = x.isPersistent ∧
      accepts sub.selector (resolveDelay env x) = accepts sub.selector x ∧
      keptUuid env k (resolveDelay env x) = keptUuid env k x := by
    intro x
    unfold resolveDelay
    split
    · dsimp only
      split <;> exact ⟨rfl, rfl, rfl⟩
    · exact ⟨rfl, rfl, rfl⟩
  have shared : recordsFor sub.storage
      ((committedBatch env d pid p t).map fun x => (StorageId.shared, x)) = [] := by
    unfold recordsFor
    rw [List.filter_eq_nil_iff.mpr, List.map_nil]
    intro r member
    obtain ⟨x, _, same⟩ := List.mem_map.mp member
    rw [← same]
    simp [DurableSubState.storage]
  have split : recordsFor sub.storage (commitRecords env d pid t) =
      (p.transactQueue.toList.map (resolveDelay env)).flatMap
        fun x => recordsFor sub.storage (offlineRecords env d x) := by
    rw [← recordsFor_flatMap]
    unfold commitRecords
    rw [producer]
    dsimp only
    rw [if_pos mode]
    unfold recordsFor at shared ⊢
    rw [List.filter_append, List.map_append, shared, List.nil_append]
  rw [split, countP_flatMap_single fun x _ => offline_count reg found env x uuid, List.countP_map]
  congr 1
  funext x
  obtain ⟨persistent, taken, kept⟩ := resolved x
  simp only [Function.comp, persistent, taken, kept]

theorem save_stages {d : Destination} (reg : Registry d) (env : Env) (pid : Nat) {t : Text}
    (transaction : t ≠ []) {m : Message} (named : m.uuid ≠ 0) :
    Stages pid m (audience d m) d (d.save env pid t m) := by
  have targets : d.targets = d.consumers := by
    simp [Destination.targets, topic_notQueue reg.topic]
  have shape : d.save env pid t m = d.consumers.foldl (Destination.push env d.messageCounter pid t m)
      { d with messageCounter := d.messageCounter + 1 } := by
    simp only [Destination.save, transaction, and_false, if_false]
    rw [show Destination.targets { d with messageCounter := d.messageCounter + 1 } = d.consumers
      from targets]
  have pushed := pushes_stage pid env d.messageCounter transaction named d.consumers
    { d with messageCounter := d.messageCounter + 1 }
  rw [shape]
  exact ⟨pushed.stores, pushed.queued⟩

theorem CopyOf.accepted {m x : Message} (copy : CopyOf m x) (selector : Option Selector) :
    accepts selector x = accepts selector m := by
  unfold accepts
  rw [copy.properties]

theorem CopyOf.kept {m x : Message} (copy : CopyOf m x) (named : m.uuid ≠ 0) (env : Env) (key : Text) :
    keptUuid env key x = m.uuid := by
  unfold keptUuid
  rw [copy.uuid, if_neg named]

theorem committed_copies {d : Destination} (reg : Registry d) (env commitEnv : Env) {pid : Nat}
    {p : Producer} (producer : get d.producers pid = some p) (mode : p.mode = .SESSION_TRANSACTED)
    {t : Text} (transaction : t ≠ []) {m : Message} (persistent : m.isPersistent = true)
    (named : m.uuid ≠ 0)
    (new : ∀ x ∈ p.transactQueue.toList, ∀ key, keptUuid commitEnv key x ≠ m.uuid)
    (works : ∀ sid n, commitEnv.appendFails sid n = false) {k : Text} {sub : DurableSubState}
    (found : get d.durableSubs k = some sub) (good : (d.stores sub.storage).good = true) :
    copies ((d.save env pid t m).commitProducer commitEnv pid t) sub.storage m.uuid =
      copies d sub.storage m.uuid +
        if sub.active.isNone && accepts sub.selector m then audience d m else 0 := by
  let saved := d.save env pid t m
  have same : Same d saved := save_same env d pid t m
  have staged : Stages pid m (audience d m) d saved := save_stages reg env pid transaction named
  obtain ⟨p', copied, producer', mode', perm, length, copyOf⟩ := staged.queued p producer
  have written := commit_count (reg.steady same.steady)
    (show get saved.durableSubs k = some sub by rw [same.subs]; exact found) commitEnv producer'
    (mode'.trans mode) t m.uuid
  have before : copies saved sub.storage m.uuid = copies d sub.storage m.uuid := by
    unfold copies
    rw [staged.stores]
  rw [copies_appended (commitProducer_appends commitEnv saved pid t).stores
    (by rw [staged.stores]; exact good) (works _), before, written, perm.countP_eq, List.countP_append]
  congr 1
  have old : p.transactQueue.toList.countP (fun x => x.isPersistent && sub.active.isNone &&
      accepts sub.selector x && decide (keptUuid commitEnv k x = m.uuid)) = 0 := by
    rw [List.countP_eq_zero]
    intro x member
    simp [new x member k]
  have one : ∀ x ∈ copied, (x.isPersistent && sub.active.isNone && accepts sub.selector x &&
      decide (keptUuid commitEnv k x = m.uuid)) = (sub.active.isNone && accepts sub.selector m) := by
    intro x member
    have copy := copyOf x member
    rw [copy.persistent, persistent, copy.accepted, copy.kept named]
    simp
  rw [old, Nat.zero_add, List.countP_congr fun x member => by rw [one x member]]
  split
  · rename_i written
    rw [List.countP_eq_length.mpr fun _ _ => written, length]
  · rename_i unwritten
    rw [List.countP_eq_zero.mpr fun _ _ => unwritten]

section Outgoing
variable (env : Env) (p : Producer) (t : Text) (m : Message) (opts : Option SendOptions)

theorem outgoing_same : (outgoing env p t m opts).uuid = m.uuid ∧
    (outgoing env p t m opts).content.properties = m.content.properties := by
  unfold outgoing prepared
  split
  · split <;> exact ⟨rfl, rfl⟩
  · exact ⟨rfl, rfl⟩

theorem outgoing_accepts (selector : Option Selector) :
    accepts selector (outgoing env p t m opts) = accepts selector m := by
  unfold accepts
  rw [(outgoing_same env p t m opts).2]

theorem outgoing_audience (d : Destination) : audience d (outgoing env p t m opts) = audience d m := by
  unfold audience
  simp only [outgoing_accepts]

theorem outgoing_complete (d d' : Destination) :
    Complete d d' (outgoing env p t m opts) ↔ Complete d d' m := by
  unfold Complete
  simp only [outgoing_accepts, (outgoing_same env p t m opts).1]

end Outgoing

theorem publishSend_save {env commitEnv : Env} {d : Destination} {pid : Nat} {p : Producer} {t : Text}
    {m : Message} {opts : Option SendOptions} (pub : Publication env commitEnv d pid p t m opts) :
    publishSend env d pid t m opts = d.save env pid t (outgoing env p t m opts) := by
  cases opts with
  | none => simp only [publishSend, outgoing, Destination.send, pub.producer]
  | some o => simp only [publishSend, outgoing, Destination.sendWith, pub.producer, pub.valid o rfl]

/-- Everybody who takes the message is offline, but for one online consumer. -/
def OneOnline (d : Destination) (m : Message) : Prop :=
  ∀ k sub, get d.durableSubs k = some sub → accepts sub.selector m = true →
    sub.active = none ∧ audience d m = 1

theorem publish_complete {d : Destination} (reg : Registry d) {env commitEnv : Env} {pid : Nat}
    {p : Producer} {t : Text} {m : Message} {opts : Option SendOptions}
    (pub : Publication env commitEnv d pid p t m opts) :
    Complete d (publish env commitEnv d pid t m opts) m ↔ t = [] ∨ OneOnline d m := by
  let sent := outgoing env p t m opts
  have uuid : sent.uuid = m.uuid := (outgoing_same env p t m opts).1
  have named : sent.uuid ≠ 0 := by
    rw [uuid]
    exact pub.uuid
  unfold publish
  dsimp only
  rw [publishSend_save pub]
  by_cases plain : t = []
  · subst plain
    have all := save_complete reg env pid pub.persistent named (fun sid n => (pub.works sid n).1) pub.good
    rw [if_pos rfl]
    exact ⟨fun _ => Or.inl rfl, fun _ => (outgoing_complete env p [] m opts d _).mp all⟩
  · have written : ∀ k sub, get d.durableSubs k = some sub →
        copies ((d.save env pid t sent).commitProducer commitEnv pid t) sub.storage m.uuid =
          copies d sub.storage m.uuid +
            if sub.active.isNone && accepts sub.selector m then audience d m else 0 := by
      intro k sub found
      have committed := committed_copies reg env commitEnv pub.producer (pub.session plain) plain
        pub.persistent named (by rw [uuid]; exact pub.new) (fun sid n => (pub.works sid n).2) found
        (pub.good k sub found)
      rw [uuid, outgoing_accepts, outgoing_audience] at committed
      exact committed
    rw [if_neg plain]
    constructor
    · intro complete
      refine Or.inr ?_
      intro k sub found taken
      have once := complete k sub found
      rw [written k sub found, taken, if_pos rfl, Nat.add_left_cancel_iff] at once
      cases active : sub.active with
      | none =>
        rw [active] at once
        exact ⟨rfl, once⟩
      | some id =>
        rw [active] at once
        cases once
    · intro condition k sub found
      rw [written k sub found, Nat.add_left_cancel_iff]
      cases taken : accepts sub.selector m with
      | false => simp
      | true =>
        rcases condition with empty | offline
        · exact absurd empty plain
        · obtain ⟨inactive, one⟩ := offline k sub found taken
          rw [inactive, one]
          rfl

/-- In every reachable state of a topic: a plain send completes every durable
    subscription, and a send in a transaction exactly when all that take the message
    are offline and one consumer online takes it too, or none takes it at all. -/
theorem durable_complete_iff {start d : Destination} (begun : Begun start) {calls : List Call}
    (possible : Meets next Possible start calls) (reached : d ∈ states next start calls)
    {env commitEnv : Env} {pid : Nat} {p : Producer} {t : Text} {m : Message}
    {opts : Option SendOptions} (pub : Publication env commitEnv d pid p t m opts) :
    Complete d (publish env commitEnv d pid t m opts) m ↔ t = [] ∨ OneOnline d m :=
  publish_complete (registry_along begun possible d reached) pub

def oneAway : List Call :=
  [.createDurableConsumer calm 1 .AUTO_ACKNOWLEDGE [] ['s'] none, .deleteConsumer 1,
    .createConsumer calm 2 .AUTO_ACKNOWLEDGE none, .createProducer 5 .SESSION_TRANSACTED]

theorem durable_complete_iff_offline :
    Complete (oneAway.foldl next { type := .Topic })
      (publish calm calm (oneAway.foldl next { type := .Topic }) 5 ['t'] (letter 0 7) none)
      (letter 0 7) := by
  have possible : Meets next Possible { type := .Topic } oneAway := by
    refine ⟨⟨List.not_mem_nil, ?_⟩, trivial, List.not_mem_nil, trivial, trivial⟩
    intro k sub found
    cases found
  have only : ∀ k sub, get (oneAway.foldl next { type := .Topic }).durableSubs k = some sub →
      sub = ⟨['s'],durableDirectory [] ['s'],none,none⟩ :=
    fun k sub found => congrArg Prod.snd (List.mem_singleton.mp (get_mem found))
  refine (durable_complete_iff ⟨rfl, rfl, rfl, rfl⟩ possible (last_state_mem next _ oneAway)
    (p := { mode := .SESSION_TRANSACTED })
    ⟨rfl, by simp, fun _ => rfl, rfl, by decide, by simp, fun _ _ => ⟨rfl, rfl⟩, ?_⟩).mpr (Or.inr ?_)
  · intro k sub found
    rw [only k sub found]
    rfl
  · intro k sub found _
    rw [only k sub found]
    exact ⟨rfl, by decide⟩

def oneHere : List Call :=
  [.createDurableConsumer calm 1 .AUTO_ACKNOWLEDGE [] ['s'] none,
    .createProducer 5 .SESSION_TRANSACTED]

/- The record of a transacted message goes to the topic's storage, not to that of the
   durable subscriber who is online. -/
theorem online_durable_no_record : Meets next Possible { type := .Topic } oneHere ∧
    ¬ Complete (oneHere.foldl next { type := .Topic })
      (publish calm calm (oneHere.foldl next { type := .Topic }) 5 ['t'] (letter 0 7) none)
      (letter 0 7) := by
  refine ⟨⟨⟨List.not_mem_nil, ?_⟩, trivial, trivial⟩, ?_⟩
  · intro k sub found
    cases found
  · intro complete
    have once := complete ['s'] _ rfl
    revert once
    decide

end TinyMqDurableSubs
