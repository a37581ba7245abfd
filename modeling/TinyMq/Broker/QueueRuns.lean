import TinyMq.Broker.Holders

/-!
Runs of calls on one queue. For every call: which messages it brings into memory,
and that it keeps the state clean. Only a send, a dead letter and the replay of
the storage by a new consumer bring messages in.
-/
namespace TinyMqQueueRuns
open DelimitedText AssocLists BandQueues TombstoneLog TinyMqTom TinyMqMessage TinyMqStore
open TinyMqDestination TinyMqTransactionBuffer TinyMqSession TinyMqFrames TinyMqHolders

def Made (d' : Destination) (extra : Multiset Message) : Prop :=
  ∀ m ∈ extra, Faithful m ∧ m.oid < d'.nextOid

def sentUuid (env : Env) (number : Int) (cid : Nat) (m : Message) : UUID :=
  if m.uuid = 0 then env.random (.push number cid) else m.uuid

theorem brings {d e e' : Destination} {x : Message} {u : UUID} (start : Moves 0 d e)
    (placed : Moves {x} e e') (new : x.oid < e.nextOid) (faithful : Faithful x) (uuid : x.uuid = u) :
    ∃ extra, Moves extra d e' ∧ Made e' extra ∧ extra.map Message.uuid ≤ {u} := by
  refine ⟨{x}, start.quiet placed, ?_, by simp [uuid]⟩
  intro y member
  rw [Multiset.mem_singleton.mp member]
  exact ⟨faithful, lt_of_lt_of_le new placed.next⟩

section Sends
variable (env : Env) (d : Destination)

theorem addMessage_buffered {tb : TransactionBuffer Content}
    (buffered : ∀ u content, tb.bufferedData u = some content → content.uuid = u) (time : Stamp)
    (t : Text) (content : Content) :
    ∀ u c, (tb.addMessage time t content.uuid content).bufferedData u = some c → c.uuid = u := by
  have begun : (tb.begin time t).bufferedData = tb.bufferedData := by
    unfold TransactionBuffer.begin
    split <;> rfl
  intro u c found
  simp only [TransactionBuffer.addMessage, TransactionBuffer.logOperation, begun] at found
  by_cases here : u = content.uuid
  · rw [here, Function.update_self, Option.some.injEq] at found
    rw [← found, here]
  · rw [Function.update_of_ne here] at found
    exact buffered u c found

theorem preparePush_moves (cid : Nat) (c : Consumer) (number : Int) (t : Text) (m : Message) :
    Moves 0 d (d.preparePush env cid c number t m).1 ∧
      (d.preparePush env cid c number t m).1.nextOid = d.nextOid + 1 ∧
      (d.preparePush env cid c number t m).2.oid = d.nextOid ∧
      (d.preparePush env cid c number t m).2.uuid = sentUuid env number cid m ∧
      Faithful (d.preparePush env cid c number t m).2 := by
  have numbered : Moves 0 d { d with nextOid := d.nextOid + 1 } :=
    moves_le (le_refl _) rfl rfl rfl (Nat.le_succ _)
  unfold Destination.preparePush
  dsimp only
  split
  · have own : ∀ location, Faithful { pushCopy env d.nextOid number cid m with
        cachedStorageBytes := some (pushCopy env d.nextOid number cid m).content,
        location := location } := by
      intro location _ content cached
      rw [← Option.some.inj cached]
      rfl
    split
    · refine ⟨?_, rfl, rfl, rfl, own _⟩
      refine ⟨?_, id, id, ?_, Nat.le_succ _⟩
      · rw [zero_add]
        exact Versions.refl _
      · exact fun buffered => addMessage_buffered buffered env.stamp t
          (pushCopy env d.nextOid number cid m).content
    · refine ⟨?_, rfl, rfl, rfl, own _⟩
      exact numbered.quiet (appendRecord_moves env _ c.storage rfl)
  · rename_i volatile
    exact ⟨numbered, rfl, rfl, rfl, fun persistent => absurd persistent volatile⟩

theorem stage_moves (pid : Nat) (m : Message) : Moves {m} d (d.stage pid m) := by
  unfold Destination.stage
  split
  · exact (Moves.refl d).less (Versions.of_le (Multiset.zero_le _))
  · rename_i p found
    have perm := enqueue_perm p.transactQueue m.band m
    have moved := held_setProducer d found
      { p with transactQueue := p.transactQueue.enqueue m.band m }
    have more : staged { p with transactQueue := p.transactQueue.enqueue m.band m } =
        staged p + {m} := by
      unfold staged
      rw [Multiset.coe_eq_coe.mpr perm, ← Multiset.cons_coe, ← Multiset.singleton_add, add_comm]
    rw [more, add_assoc] at moved
    refine ⟨?_, id, id, id, le_refl _⟩
    rw [add_left_cancel moved]
    exact Versions.refl _

theorem push_moves (number : Int) (pid : Nat) (t : Text) (m : Message) {cid : Nat}
    (shared : ∀ c, get d.objects cid = some c → c.queue = .shared) :
    ∃ extra, Moves extra d (Destination.push env number pid t m d cid) ∧
      Made (Destination.push env number pid t m d cid) extra ∧
      extra.map Message.uuid ≤ {sentUuid env number cid m} := by
  unfold Destination.push
  split
  · exact ⟨0, Moves.refl d, by simp [Made], by simp⟩
  · rename_i c object
    split
    · obtain ⟨prepared, next, oid, uuid, faithful⟩ := preparePush_moves env d cid c number t m
      rw [shared c object]
      generalize d.preparePush env cid c number t m = r at prepared next oid uuid faithful ⊢
      obtain ⟨e, copy⟩ := r
      dsimp only at prepared next oid uuid faithful ⊢
      have delivered : Moves {copy} e (if t = [] then
          if copy.content.headers.deliveryTime ≠ 0 then e.enqueueOrSchedule env .shared copy
          else e.enqueue .shared copy
          else e.stage pid copy) := by
        split
        · split
          · exact enqueueOrSchedule_moves env _ _
          · exact enqueue_moves _ _
        · exact stage_moves _ _ _
      exact brings prepared delivered (by omega) faithful uuid
    · exact ⟨0, Moves.refl d, by simp [Made], by simp⟩

theorem save_queue (queue : d.isQueueFamily = true) (pid : Nat) (t : Text) (m : Message) :
    d.save env pid t m = (d.consumers.take 1).foldl
      (Destination.push env d.messageCounter pid t m)
      { d with messageCounter := d.messageCounter + 1 } := by
  have targets : Destination.targets { d with messageCounter := d.messageCounter + 1 } =
      d.consumers.take 1 := by
    unfold Destination.targets
    exact if_pos queue
  have topic : ∀ e, Same { d with messageCounter := d.messageCounter + 1 } e →
      e.isTopicFamily = false := by
    intro e same
    exact queue_notTopic (same.queueFamily.trans queue)
  unfold Destination.save
  dsimp only
  rw [targets, topic _ (same_fold (fun e cid _ => push_same env e d.messageCounter pid t m cid) _)]
  simp

theorem save_moves (queue : d.isQueueFamily = true) (pid : Nat) (t : Text) (m : Message)
    (shared : ∀ cid c, get d.objects cid = some c → c.queue = .shared) :
    ∃ extra, Moves extra d (d.save env pid t m) ∧ Made (d.save env pid t m) extra ∧
      (extra = 0 ∨ ∃ cid ∈ d.targets,
        extra.map Message.uuid ≤ {sentUuid env d.messageCounter cid m}) := by
  have start : Moves 0 d { d with messageCounter := d.messageCounter + 1 } :=
    moves_le (le_refl _) rfl rfl rfl (le_refl _)
  have targets : d.targets = d.consumers.take 1 := if_pos queue
  have shape : d.consumers.take 1 = [] ∨ ∃ cid, d.consumers.take 1 = [cid] := by
    cases d.consumers with
    | nil => exact Or.inl rfl
    | cons cid rest => exact Or.inr ⟨cid, rfl⟩
  rw [save_queue env d queue, targets]
  rcases shape with none_ | ⟨cid, one⟩
  · rw [none_]
    exact ⟨0, start, by simp [Made], Or.inl rfl⟩
  · obtain ⟨extra, moves, made, uuids⟩ := push_moves env
      { d with messageCounter := d.messageCounter + 1 } d.messageCounter pid t m (shared cid)
    rw [one]
    exact ⟨extra, start.quiet moves, made, Or.inr ⟨cid, by simp, uuids⟩⟩

theorem resolveDelay_version (m : Message) (faithful : Faithful m) :
    tag (resolveDelay env m) = tag m ∧ Faithful (resolveDelay env m) := by
  unfold resolveDelay
  split
  · dsimp only
    split
    · exact ⟨rfl, patched_faithful (env.nowMs + m.pendingDeliveryDelay) faithful⟩
    · exact ⟨rfl, faithful⟩
  · exact ⟨rfl, faithful⟩

theorem patchPending_moves (m : Message) : Moves 0 d (d.patchPending env m) := by
  unfold Destination.patchPending
  split
  · refine ⟨by rw [zero_add]; exact Versions.refl _, id, id, ?_, le_refl _⟩
    intro buffered u content found
    unfold TransactionBuffer.patchDeliveryTime at found
    split at found
    · exact buffered u content found
    · rename_i old before
      dsimp only at found
      by_cases here : u = m.uuid
      · rw [here, Function.update_self, Option.some.injEq] at found
        rw [← found, here]
        exact buffered m.uuid old before
      · rw [Function.update_of_ne here] at found
        exact buffered u content found
  · exact Moves.refl d

theorem takeBatch_buffered {tb : TransactionBuffer Content}
    (buffered : ∀ u content, tb.bufferedData u = some content → content.uuid = u)
    (ids : List UUID) :
    (∀ u content, (tb.takeBatch ids).1.bufferedData u = some content → content.uuid = u) ∧
      ∀ x ∈ (tb.takeBatch ids).2, x.2.uuid = x.1 := by
  induction ids generalizing tb with
  | nil => exact ⟨buffered, by simp [TransactionBuffer.takeBatch]⟩
  | cons id ids ih =>
    unfold TransactionBuffer.takeBatch
    split
    · exact ih buffered
    · rename_i data here
      let tb' : TransactionBuffer Content := { tb with
        bufferedData := Function.update tb.bufferedData id none,
        messageToTransaction := Function.update tb.messageToTransaction id none }
      have kept : ∀ u content, tb'.bufferedData u = some content → content.uuid = u := by
        intro u content found
        dsimp only [tb'] at found
        by_cases same : u = id
        · rw [same, Function.update_self] at found
          cases found
        · rw [Function.update_of_ne same] at found
          exact buffered u content found
      have rest := ih kept
      refine ⟨rest.1, ?_⟩
      intro x member
      rcases List.mem_cons.mp member with first | later
      · rw [first]
        exact buffered id data here
      · exact rest.2 x later

theorem commitTransaction_moves (buffered : Buffered d) (t : Text) :
    Moves 0 d (d.commitTransaction env t) := by
  unfold Destination.commitTransaction
  split
  · exact Moves.refl d
  · have taken : (∀ u content, (d.buffer.commitTransaction env.stamp t).1.bufferedData u =
        some content → content.uuid = u) ∧
        ∀ x ∈ (d.buffer.commitTransaction env.stamp t).2, x.2.uuid = x.1 := by
      unfold TransactionBuffer.commitTransaction
      split
      · exact ⟨buffered, by simp⟩
      · rename_i ids _
        exact takeBatch_buffered buffered ids
    refine ⟨by rw [zero_add]; exact Versions.refl _, id, ?_, fun _ => taken.1, le_refl _⟩
    intro sound
    dsimp only
    rw [Function.update_self]
    exact sound.appendBatch taken.2 _

theorem deliverCommitted_moves (queue : d.isQueueFamily = true) (m : Message)
    (shared : ∀ cid c, get d.objects cid = some c → c.queue = .shared) :
    Moves {m} d (d.deliverCommitted env m) := by
  have nothing : Moves {m} d d := (Moves.refl d).less (Versions.of_le (Multiset.zero_le _))
  unfold Destination.deliverCommitted
  rw [if_pos queue]
  split
  · exact nothing
  · rename_i cid _ _
    split
    · exact nothing
    · rename_i c object
      rw [shared cid c object]
      exact enqueueOrSchedule_moves env d m

theorem deliverAll_moves (queue : d.isQueueFamily = true)
    (shared : ∀ cid c, get d.objects cid = some c → c.queue = .shared) (ms : List Message) :
    Moves ms d (ms.foldl (Destination.deliverCommitted env) d) := by
  induction ms generalizing d with
  | nil => exact Moves.refl d
  | cons m ms ih =>
    have same := deliverCommitted_same env d m
    have rest := ih (d.deliverCommitted env m) (by rw [same.queueFamily]; exact queue)
      (by rw [same.objects]; exact shared)
    have both := (deliverCommitted_moves env d queue m shared).trans rest
    have list : (ms : Multiset Message) + {m} = ((m :: ms : List Message) : Multiset Message) := by
      rw [← Multiset.cons_coe, ← Multiset.singleton_add, add_comm]
    rw [list] at both
    exact both

theorem commitProducer_moves (queue : d.isQueueFamily = true) (clean : Clean d) (pid : Nat)
    (t : Text) : Moves 0 d (d.commitProducer env pid t) := by
  unfold Destination.commitProducer
  split
  · exact Moves.refl d
  · rename_i p found
    split
    · let cleared := d.clearStaged pid p
      let patched := p.transactQueue.toList.foldl (Destination.patchPending env) cleared
      have all : held d = staged p + held cleared := by
        have moved := held_setProducer d found { p with transactQueue := .empty }
        have empty : staged { p with transactQueue := .empty } = 0 := by
          simp [staged]
        rw [empty, zero_add] at moved
        exact moved.symm
      have patching : Moves 0 cleared patched :=
        moves_fold_none cleared fun e m _ => patchPending_moves env e m
      have same : Same d (patched.commitTransaction env t) := by
        have kept : Same cleared patched :=
          same_fold (fun e m _ => patchPending_same env e m) cleared
        exact ((clearStaged_same d pid p).trans kept).trans (commitTransaction_same env _ t)
      have committed := patching.quiet
        (commitTransaction_moves env patched (patching.buffered clean.buffered) t)
      have delivered := deliverAll_moves env (patched.commitTransaction env t)
        (by rw [same.queueFamily]; exact queue)
        (by rw [same.objects]; exact fun cid c object => (clean.shared cid c object).1)
        (p.transactQueue.toList.map (resolveDelay env))
      have whole := committed.quiet
        (delivered.less (versions_map (resolveDelay_version env) p.transactQueue.toList))
      refine ⟨?_, whole.due, whole.store, whole.buffered, whole.next⟩
      rw [zero_add, all]
      exact whole.versions
    · exact Moves.refl d

theorem forget_buffered {tb : TransactionBuffer Content}
    (buffered : ∀ u content, tb.bufferedData u = some content → content.uuid = u)
    (ids : List UUID) :
    ∀ u content, (tb.forget ids).bufferedData u = some content → content.uuid = u := by
  unfold TransactionBuffer.forget
  induction ids generalizing tb with
  | nil => exact buffered
  | cons id ids ih =>
    rw [List.foldl_cons]
    refine ih ?_
    intro u content found
    dsimp only at found
    by_cases same : u = id
    · rw [same, Function.update_self] at found
      cases found
    · rw [Function.update_of_ne same] at found
      exact buffered u content found

theorem clearStaged_moves {pid : Nat} {p : Producer} (found : get d.producers pid = some p) :
    Moves 0 d (d.clearStaged pid p) := by
  refine moves_le ?_ rfl rfl rfl (le_refl _)
  have moved := held_setProducer d found { p with transactQueue := .empty }
  have empty : staged { p with transactQueue := .empty } = 0 := by simp [staged]
  rw [empty, zero_add] at moved
  rw [← moved]
  exact Multiset.le_add_left _ _

theorem rollbackProducer_moves (pid : Nat) (t : Text) : Moves 0 d (d.rollbackProducer env pid t) := by
  unfold Destination.rollbackProducer
  split
  · exact Moves.refl d
  · rename_i p found
    split
    · dsimp only
      split
      · exact clearStaged_moves d found
      · have rolled : Moves 0 d
            { d with buffer := d.buffer.rollbackTransaction env.stamp t } := by
          refine ⟨by rw [zero_add]; exact Versions.refl _, id, id, ?_, le_refl _⟩
          intro buffered
          unfold Buffered TransactionBuffer.rollbackTransaction
          dsimp only
          split
          · exact buffered
          · exact forget_buffered buffered _
        exact rolled.quiet (clearStaged_moves { d with
          buffer := d.buffer.rollbackTransaction env.stamp t } found)
    · exact Moves.refl d

theorem acceptDeadLetter_moves (m : Message) :
    ∃ extra, Moves extra d (acceptDeadLetter env m d) ∧ Made (acceptDeadLetter env m d) extra ∧
      extra.map Message.uuid ≤ {m.uuid} := by
  have numbered : Moves 0 d { d with nextOid := d.nextOid + 1 } :=
    moves_le (le_refl _) rfl rfl rfl (Nat.le_succ _)
  unfold acceptDeadLetter
  dsimp only
  split
  · have stored := numbered.quiet (appendRecord_moves env { d with nextOid := d.nextOid + 1 } .shared
      (show (deadLetterCopy m d.nextOid).content.uuid = (deadLetterCopy m d.nextOid).uuid from rfl))
    dsimp only
    split
    · refine brings stored (enqueueOrSchedule_moves env _ _) (Nat.lt_succ_self _) ?_ rfl
      intro _ content cached
      rw [← Option.some.inj cached]
      rfl
    · exact ⟨0, stored, by simp [Made], by simp⟩
  · rename_i volatile
    dsimp only
    split
    · exact brings numbered (enqueueOrSchedule_moves env _ _) (Nat.lt_succ_self _)
        (fun persistent => absurd persistent volatile) rfl
    · exact ⟨0, numbered, by simp [Made], by simp⟩

theorem shell_faithful (oid : Nat) {uuid : UUID} {content : Content} (own : content.uuid = uuid)
    (location : Nat) : Faithful (shellOf env oid uuid content location) := by
  intro _ cached here
  rw [← Option.some.inj here]
  exact own

theorem replay_moves (sound : Sound Content.uuid (d.stores .shared)) :
    ∃ extra, Moves extra d (d.replayFromStorage env .shared .shared) ∧
      Made (d.replayFromStorage env .shared .shared) extra ∧
      extra.map Message.uuid = (((d.stores .shared).scan.map fun x => x.1.key : List UUID) :
        Multiset UUID) := by
  have loop : ∀ (l : List (Entry UUID Content × Nat)) (d : Destination),
      (∀ x ∈ l, x.1.data.uuid = x.1.key) →
      ∃ extra, Moves extra d (l.foldl (fun d x =>
          ({ d with nextOid := d.nextOid + 1 } : Destination).enqueueOrSchedule env .shared
            (shellOf env d.nextOid x.1.key x.1.data x.2)) d) ∧
        Made (l.foldl (fun d x =>
          ({ d with nextOid := d.nextOid + 1 } : Destination).enqueueOrSchedule env .shared
            (shellOf env d.nextOid x.1.key x.1.data x.2)) d) extra ∧
        extra.map Message.uuid = ((l.map fun x => x.1.key : List UUID) : Multiset UUID) := by
    intro l
    induction l with
    | nil => exact fun d _ => ⟨0, Moves.refl d, by simp [Made], by simp⟩
    | cons x l ih =>
      intro d own
      let next : Destination := ({ d with nextOid := d.nextOid + 1 } : Destination).enqueueOrSchedule
        env .shared (shellOf env d.nextOid x.1.key x.1.data x.2)
      have numbered : Moves 0 d { d with nextOid := d.nextOid + 1 } :=
        moves_le (le_refl _) rfl rfl rfl (Nat.le_succ _)
      have placed := enqueueOrSchedule_moves env { d with nextOid := d.nextOid + 1 }
        (shellOf env d.nextOid x.1.key x.1.data x.2)
      obtain ⟨extra, moves, made, uuids⟩ := ih next
        fun y inside => own y (List.mem_cons_of_mem x inside)
      refine ⟨extra + {shellOf env d.nextOid x.1.key x.1.data x.2},
        (numbered.quiet placed).trans moves, ?_, ?_⟩
      · intro y member
        rcases Multiset.mem_add.mp member with later | here
        · exact made y later
        · rw [Multiset.mem_singleton.mp here]
          refine ⟨shell_faithful env d.nextOid (own x (by simp)) x.2, ?_⟩
          have grown := le_trans placed.next moves.next
          exact lt_of_lt_of_le (Nat.lt_succ_self d.nextOid) grown
      · rw [Multiset.map_add, uuids, Multiset.map_singleton, List.map_cons, ← Multiset.cons_coe,
          ← Multiset.singleton_add, add_comm]
        rfl
  unfold Destination.replayFromStorage
  refine loop _ d ?_
  intro x member
  unfold Store.scan at member
  split at member
  · exact sound.named x.1 (List.mem_of_getElem? (mem_liveRecords member).1)
  · simp at member

end Sends

section Registry
variable (env : Env) (d : Destination)

theorem putObject_moves (cid : Nat) {c : Consumer} (idle : contents c = 0) :
    Moves 0 d (d.setObject cid c) := by
  refine moves_le ?_ rfl rfl rfl (le_refl _)
  have less := sum_put_le contents d.objects cid c
  rw [idle, zero_add] at less
  simp only [held, Destination.setObject]
  exact add_le_add_left (add_le_add_right less _) _

theorem eraseObject_moves (cid : Nat) : Moves 0 d { d with objects := erase d.objects cid } := by
  refine moves_le ?_ rfl rfl rfl (le_refl _)
  have less := sum_erase_le contents d.objects cid
  simp only [held]
  exact add_le_add_left (add_le_add_right less _) _

theorem createProducer_moves (pid : Nat) (mode : AcknowledgeMode) :
    Moves 0 d (d.createProducer pid mode) := by
  refine moves_le ?_ rfl rfl rfl (le_refl _)
  have less := sum_put_le staged d.producers pid { mode := mode }
  have idle : staged { mode := mode } = 0 := by simp [staged]
  rw [idle, zero_add] at less
  simp only [held, Destination.createProducer]
  exact add_le_add_right less _

theorem deleteProducer_moves (pid : Nat) (t : Text) : Moves 0 d (d.deleteProducer env pid t) := by
  refine (rollbackProducer_moves env d pid t).quiet (moves_le ?_ rfl rfl rfl (le_refl _))
  simp only [held]
  exact add_le_add_right (sum_erase_le staged _ pid) _

theorem dropDefault_moves : Moves 0 d d.dropDefault := by
  unfold Destination.dropDefault
  split
  · exact Moves.refl d
  · rename_i old _
    exact (eraseObject_moves d old).quiet (moves_le (le_refl _) rfl rfl rfl (le_refl _))

theorem createDefaultConsumer_moves (cid : Nat) (mode : AcknowledgeMode) :
    Moves 0 d (d.createDefaultConsumer cid mode) := by
  unfold Destination.createDefaultConsumer
  split
  · exact (putObject_moves d cid (c := ⟨mode,.shared,.shared,none,[],.empty,[]⟩)
      (by simp [contents])).quiet (moves_le (le_refl _) rfl rfl rfl (le_refl _))
  · exact Moves.refl d

theorem createConsumer_moves (queue : d.isQueueFamily = true)
    (sound : Sound Content.uuid (d.stores .shared)) (cid : Nat) (mode : AcknowledgeMode)
    (selector : Option Selector) :
    ∃ extra, Moves extra d (d.createConsumer env cid mode selector) ∧
      Made (d.createConsumer env cid mode selector) extra ∧
      extra.map Message.uuid ≤ if d.queueMade then
        (((d.stores .shared).scan.map fun x => x.1.key : List UUID) : Multiset UUID) else 0 := by
  let fresh : Consumer := ⟨mode,.shared,.shared,selector,[],.empty,[]⟩
  have joined : Moves 0 d (d.dropDefault.setObject cid fresh) :=
    (dropDefault_moves d).quiet (putObject_moves d.dropDefault cid (by simp [contents, fresh]))
  have made : d.dropDefault.queueMade = d.queueMade ∧ d.dropDefault.stores = d.stores := by
    unfold Destination.dropDefault
    split <;> exact ⟨rfl, rfl⟩
  have same : (d.dropDefault.setObject cid fresh).queueMade = d.queueMade := made.1
  unfold Destination.createConsumer
  rw [if_pos queue]
  dsimp only
  rw [show (d.dropDefault.setObject cid ⟨mode,.shared,.shared,selector,[],.empty,[]⟩).queueMade =
    d.queueMade from same]
  split
  · obtain ⟨extra, moves, new, uuids⟩ := replay_moves env (d.dropDefault.setObject cid fresh)
      (by rw [show (d.dropDefault.setObject cid fresh).stores = d.stores from made.2]; exact sound)
    refine ⟨extra, (joined.quiet moves).rest (moves_le (le_refl _) rfl rfl rfl (le_refl _)), new, ?_⟩
    rw [uuids]
    exact le_of_eq (by rw [← made.2]; rfl)
  · exact ⟨0, joined.quiet (moves_le (le_refl _) rfl rfl rfl (le_refl _)), by simp [Made], by simp⟩

theorem deleteConsumer_moves (cid : Nat) : Moves 0 d (d.deleteConsumer cid) := by
  unfold Destination.deleteConsumer
  dsimp only
  split <;> exact moves_le (le_refl _) rfl rfl rfl (le_refl _)

theorem deleteConsumer_objects (cid : Nat) : (d.deleteConsumer cid).objects = d.objects ∧
    (d.deleteConsumer cid).type = d.type ∧ (d.deleteConsumer cid).stores = d.stores := by
  unfold Destination.deleteConsumer
  dsimp only
  split <;> exact ⟨rfl, rfl, rfl⟩

theorem destroyConsumer_moves (clean : Clean d) (cid : Nat) :
    Moves 0 d (d.destroyConsumer env cid).1 := by
  unfold Destination.destroyConsumer
  split
  · exact Moves.refl d
  · rename_i c object
    have flushed := flushPendingAcks_moves d object (c := c) rfl
    have steady := flushPendingAcks_steady d cid object (c := c) rfl
    have clean' := clean.steady flushed steady
    exact (flushed.quiet (rollbackConsumer_moves env _ cid false
      fun c' found => (clean'.shared cid c' found).1)).quiet (eraseObject_moves _ cid)

theorem deleteSubscription_moves (clientID name : Text) :
    Moves 0 d (d.deleteSubscription clientID name) := by
  unfold Destination.deleteSubscription
  dsimp only
  split
  · exact Moves.refl d
  · rename_i sub _
    have wiped : ∀ (e : Destination) (subs : Assoc Text DurableSubState), Moves 0 e
        { e with stores := Function.update e.stores sub.storage {}, durableSubs := subs } := by
      intro e subs
      refine ⟨by rw [zero_add]; exact Versions.refl _, id, ?_, id, le_refl _⟩
      intro sound
      have apart : StorageId.shared ≠ sub.storage := by simp [DurableSubState.storage]
      dsimp only
      rw [Function.update_of_ne apart]
      exact sound
    split
    · exact wiped _ _
    · exact (deleteConsumer_moves d _).quiet (wiped _ _)

theorem rehash_moves (l : List Nat) : Moves 0 d (d.rehash l) := by
  unfold Destination.rehash
  split
  · exact moves_le (le_refl _) rfl rfl rfl (le_refl _)
  · exact Moves.refl d

theorem loadLine_buffered (tb : TransactionBuffer Content) (line : Text) :
    (tb.loadLine line).bufferedData = tb.bufferedData := by
  unfold TransactionBuffer.loadLine
  split
  · rfl
  · split
    · rfl
    · split
      · split
        · rfl
        · split <;> rfl
      · split <;> rfl

theorem loaded_buffered (log : Text) (u : UUID) :
    (loadTransactionLog log : TransactionBuffer Content).bufferedData u = none := by
  have loop : ∀ (ls : List Text) (tb : TransactionBuffer Content),
      (ls.foldl TransactionBuffer.loadLine tb).bufferedData = tb.bufferedData := by
    intro ls
    induction ls with
    | nil => exact fun _ => rfl
    | cons line ls ih =>
      intro tb
      rw [List.foldl_cons, ih, loadLine_buffered]
  unfold loadTransactionLog
  rw [loop]

theorem recover_buffered {tb : TransactionBuffer Content}
    (buffered : ∀ u content, tb.bufferedData u = some content → content.uuid = u) (time : Stamp) :
    ∀ u content, (tb.recover time).bufferedData u = some content → content.uuid = u := by
  unfold TransactionBuffer.recover
  generalize tb.incompleteTransactions = ids
  induction ids generalizing tb with
  | nil => exact buffered
  | cons id ids ih =>
    rw [List.foldl_cons]
    exact ih (forget_buffered buffered _)

theorem restart_moves : Moves 0 d (d.restart env) := by
  refine ⟨?_, ?_, fun sound => sound.reopen, ?_, le_refl _⟩
  · have empty : held (d.restart env) = 0 := by simp [held, Destination.restart]
    rw [empty]
    exact Versions.of_le (Multiset.zero_le _)
  · intro _ x member
    simp [Destination.restart] at member
  · intro _
    refine recover_buffered ?_ env.stamp
    intro u content found
    rw [loaded_buffered] at found
    cases found

end Registry

/-- The calls on a destination, the scheduler and the end of the process included. -/
inductive Call where
  | createDefaultConsumer (id : Nat) (mode : AcknowledgeMode)
  | createConsumer (env : Env) (id : Nat) (mode : AcknowledgeMode) (selector : Option Selector)
  | createDurableConsumer (env : Env) (id : Nat) (mode : AcknowledgeMode) (clientID name : Text)
      (selector : Option Selector)
  | deleteConsumer (id : Nat)
  | destroyConsumer (env : Env) (id : Nat)
  | deleteSubscription (clientID name : Text)
  | createProducer (id : Nat) (mode : AcknowledgeMode)
  | deleteProducer (env : Env) (id : Nat) (transactionId : Text)
  | send (env : Env) (pid : Nat) (transactionId : Text) (m : Message)
  | sendWith (env : Env) (pid : Nat) (transactionId : Text) (m : Message) (opts : SendOptions)
  | commitProducer (env : Env) (pid : Nat) (transactionId : Text)
  | rollbackProducer (env : Env) (pid : Nat) (transactionId : Text)
  | recv (env : Env) (cid patience : Nat)
  | acknowledgeOn (cid : Nat) (m : Message)
  | recover (env : Env) (cid : Nat)
  | rollbackConsumer (env : Env) (cid : Nat) (sessionClosing : Bool)
  | commitConsumer (cid : Nat)
  | deliverDue (env : Env)
  | acceptDeadLetter (env : Env) (m : Message)
  | rehash (consumers : List Nat)
  | restart (env : Env)

/-- The call, with the message a receive returns. -/
def step (d : Destination) : Call → Destination × Option Message
  | .createDefaultConsumer id mode => (d.createDefaultConsumer id mode, none)
  | .createConsumer env id mode selector => (d.createConsumer env id mode selector, none)
  | .createDurableConsumer env id mode clientID name selector =>
    ((d.createDurableConsumer env id mode clientID name selector).1, none)
  | .deleteConsumer id => (d.deleteConsumer id, none)
  | .destroyConsumer env id => ((d.destroyConsumer env id).1, none)
  | .deleteSubscription clientID name => (d.deleteSubscription clientID name, none)
  | .createProducer id mode => (d.createProducer id mode, none)
  | .deleteProducer env id transactionId => (d.deleteProducer env id transactionId, none)
  | .send env pid transactionId m => ((d.send env pid transactionId m).1, none)
  | .sendWith env pid transactionId m opts => ((d.sendWith env pid transactionId m opts).1, none)
  | .commitProducer env pid transactionId => (d.commitProducer env pid transactionId, none)
  | .rollbackProducer env pid transactionId => (d.rollbackProducer env pid transactionId, none)
  | .recv env cid patience => d.recv env cid patience
  | .acknowledgeOn cid m => (d.acknowledgeOn cid m, none)
  | .recover env cid => ((d.recover env cid).1, none)
  | .rollbackConsumer env cid sessionClosing => ((d.rollbackConsumer env cid sessionClosing).1, none)
  | .commitConsumer cid => (d.commitConsumer cid, none)
  | .deliverDue env => (d.deliverDue env, none)
  | .acceptDeadLetter env m => (acceptDeadLetter env m d, none)
  | .rehash consumers => (d.rehash consumers, none)
  | .restart env => (d.restart env, none)

def next (d : Destination) (call : Call) : Destination := (step d call).1

/-- The calls that change who is registered; the others are about messages. -/
def Call.registers : Call → Bool
  | .createDefaultConsumer _ _ | .createConsumer _ _ _ _ | .createDurableConsumer _ _ _ _ _ _
  | .deleteConsumer _ | .destroyConsumer _ _ | .deleteSubscription _ _ | .rehash _ | .restart _ => true
  | _ => false

theorem step_steady (d : Destination) {call : Call} (quiet : call.registers = false) :
    Steady d (next d call) := by
  cases call with
  | createProducer id mode => exact (createProducer_same d id mode).steady
  | deleteProducer env id t => exact (deleteProducer_same env d id t).steady
  | send env pid t m => exact (send_same env d pid t m).steady
  | sendWith env pid t m opts => exact (sendWith_same env d pid t m opts).steady
  | commitProducer env pid t => exact (commitProducer_same env d pid t).steady
  | rollbackProducer env pid t => exact (rollbackProducer_same env d pid t).steady
  | recv env cid patience => exact recv_steady env d cid patience
  | acknowledgeOn cid m => exact acknowledgeOn_steady d cid m
  | recover env cid => exact recover_steady env d cid
  | rollbackConsumer env cid closing => exact rollbackConsumer_steady env d cid closing
  | commitConsumer cid => exact commitConsumer_steady d cid
  | deliverDue env => exact (deliverDue_same env d).steady
  | acceptDeadLetter env m => exact (acceptDeadLetter_same env d m).steady
  | _ => cases quiet

/-- The uuids of the messages a call on a queue may bring into memory. -/
def arrivals (d : Destination) : Call → Multiset UUID
  | .createConsumer _ _ _ _ =>
    if d.queueMade then (((d.stores .shared).scan.map fun x => x.1.key : List UUID) : Multiset UUID)
    else 0
  | .send env _ _ m | .sendWith env _ _ m _ =>
    ((d.targets.map fun cid => sentUuid env d.messageCounter cid m : List UUID) : Multiset UUID)
  | .acceptDeadLetter _ m => {m.uuid}
  | _ => 0

theorem save_arrivals (env : Env) {d : Destination} (queue : d.isQueueFamily = true)
    (clean : Clean d) (pid : Nat) (t : Text) {m m' : Message} (same : m'.uuid = m.uuid) :
    ∃ extra, Moves extra d (d.save env pid t m') ∧ Made (d.save env pid t m') extra ∧
      extra.map Message.uuid ≤
        ((d.targets.map fun cid => sentUuid env d.messageCounter cid m : List UUID) :
          Multiset UUID) := by
  obtain ⟨extra, moves, made, few⟩ := save_moves env d queue pid t m'
    fun cid c object => (clean.shared cid c object).1
  refine ⟨extra, moves, made, ?_⟩
  rcases few with none_ | ⟨cid, target, one⟩
  · rw [none_]
    exact Multiset.zero_le _
  · have alike : sentUuid env d.messageCounter cid m' = sentUuid env d.messageCounter cid m := by
      unfold sentUuid
      rw [same]
    rw [alike] at one
    exact le_trans one (Multiset.singleton_le.mpr (Multiset.mem_coe.mpr (List.mem_map_of_mem target)))

theorem prepared_uuid (env : Env) (p : Producer) (t : Text) (m : Message) :
    (prepared env p t m).uuid = m.uuid := by
  unfold prepared
  split <;> rfl

theorem silent {d d' : Destination} (moves : Moves 0 d d') (bound : Multiset UUID) :
    ∃ extra, Moves extra d d' ∧ Made d' extra ∧ extra.map Message.uuid ≤ bound :=
  ⟨0, moves, by simp [Made], by rw [Multiset.map_zero]; exact Multiset.zero_le _⟩

theorem step_moves {d : Destination} (queue : d.isQueueFamily = true) (clean : Clean d)
    (call : Call) :
    ∃ extra, Moves extra d (step d call).1 ∧ Made (step d call).1 extra ∧
      extra.map Message.uuid ≤ arrivals d call := by
  have shared : ∀ cid c, get d.objects cid = some c → c.queue = .shared :=
    fun cid c object => (clean.shared cid c object).1
  cases call with
  | createDefaultConsumer id mode => exact silent (createDefaultConsumer_moves d id mode) _
  | createConsumer env id mode selector =>
    exact createConsumer_moves env d queue clean.store id mode selector
  | createDurableConsumer env id mode clientID name selector =>
    have refused : (d.createDurableConsumer env id mode clientID name selector).1 = d := by
      simp [Destination.createDurableConsumer, queue_notTopic queue]
    simp only [step, refused]
    exact silent (Moves.refl d) _
  | deleteConsumer id => exact silent (deleteConsumer_moves d id) _
  | destroyConsumer env id => exact silent (destroyConsumer_moves env d clean id) _
  | deleteSubscription clientID name => exact silent (deleteSubscription_moves d clientID name) _
  | createProducer id mode => exact silent (createProducer_moves d id mode) _
  | deleteProducer env id t => exact silent (deleteProducer_moves env d id t) _
  | send env pid t m =>
    simp only [step, Destination.send]
    split
    · exact silent (Moves.refl d) _
    · exact save_arrivals env queue clean pid t (prepared_uuid env _ t m)
  | sendWith env pid t m opts =>
    simp only [step, Destination.sendWith]
    split
    · exact silent (Moves.refl d) _
    · split
      · exact silent (Moves.refl d) _
      · exact save_arrivals env queue clean pid t rfl
  | commitProducer env pid t => exact silent (commitProducer_moves env d queue clean pid t) _
  | rollbackProducer env pid t => exact silent (rollbackProducer_moves env d pid t) _
  | recv env cid patience => exact silent (recv_received env cid patience clean).moves _
  | acknowledgeOn cid m => exact silent (acknowledgeOn_moves d cid m) _
  | recover env cid => exact silent (recover_moves env d cid (shared cid)) _
  | rollbackConsumer env cid closing =>
    exact silent (rollbackConsumer_moves env d cid closing (shared cid)) _
  | commitConsumer cid => exact silent (commitConsumer_moves d cid) _
  | deliverDue env => exact silent (deliverDue_moves env d clean.due) _
  | acceptDeadLetter env m => exact acceptDeadLetter_moves env d m
  | rehash l => exact silent (rehash_moves d l) _
  | restart env => exact silent (restart_moves env d) _

theorem allShared_put {d : Destination} (all : AllShared d) {id : Nat} {c : Consumer}
    (queue : c.queue = .shared) (storage : c.storage = .shared) : AllShared (d.setObject id c) := by
  intro cid c' object
  by_cases here : cid = id
  · rw [here] at object
    simp only [Destination.setObject, get_put_same, Option.some.injEq] at object
    rw [← object]
    exact ⟨queue, storage⟩
  · simp only [Destination.setObject, get_put_other d.objects c here] at object
    exact all cid c' object

theorem allShared_erase {d : Destination} (all : AllShared d) (id : Nat) :
    AllShared { d with objects := erase d.objects id } := by
  intro cid c object
  by_cases here : cid = id
  · rw [here] at object
    simp at object
  · simp only [get_erase_other d.objects here] at object
    exact all cid c object

theorem dropDefault_shared {d : Destination} (all : AllShared d) : AllShared d.dropDefault := by
  unfold Destination.dropDefault
  split
  · exact all
  · rename_i old _
    exact allShared_erase all old

theorem createConsumer_shared {d : Destination} (queue : d.isQueueFamily = true)
    (all : AllShared d) (env : Env) (id : Nat) (mode : AcknowledgeMode)
    (selector : Option Selector) : AllShared (d.createConsumer env id mode selector) := by
  have joined : AllShared
      (d.dropDefault.setObject id ⟨mode,.shared,.shared,selector,[],.empty,[]⟩) :=
    allShared_put (dropDefault_shared all) rfl rfl
  unfold Destination.createConsumer
  rw [if_pos queue]
  dsimp only
  split
  · have same := replayFromStorage_same env
      (d.dropDefault.setObject id ⟨mode,.shared,.shared,selector,[],.empty,[]⟩) .shared .shared
    unfold AllShared
    dsimp only
    rw [same.objects]
    exact joined
  · exact joined

theorem destroyConsumer_shared {d : Destination} (all : AllShared d) (env : Env) (id : Nat) :
    AllShared (d.destroyConsumer env id).1 := by
  unfold Destination.destroyConsumer
  split
  · exact all
  · rename_i c object
    have steady := (flushPendingAcks_steady d id object (c := c) rfl).trans
      (rollbackConsumer_steady env _ id false)
    exact allShared_erase (all.steady steady) id

theorem deleteSubscription_objects (d : Destination) (clientID name : Text) :
    (d.deleteSubscription clientID name).objects = d.objects ∧
      (d.deleteSubscription clientID name).type = d.type := by
  unfold Destination.deleteSubscription
  dsimp only
  split
  · exact ⟨rfl, rfl⟩
  · dsimp only
    split
    · exact ⟨rfl, rfl⟩
    · rename_i id _
      exact ⟨(deleteConsumer_objects d id).1, (deleteConsumer_objects d id).2.1⟩

theorem rehash_objects (d : Destination) (l : List Nat) :
    (d.rehash l).objects = d.objects ∧ (d.rehash l).type = d.type := by
  unfold Destination.rehash
  split <;> exact ⟨rfl, rfl⟩

theorem step_type (d : Destination) (call : Call) : (next d call).type = d.type := by
  cases call with
  | createDefaultConsumer id mode =>
    simp only [next, step, Destination.createDefaultConsumer]
    split <;> rfl
  | createConsumer env id mode selector =>
    have kept : d.dropDefault.type = d.type := by
      unfold Destination.dropDefault
      split <;> rfl
    simp only [next, step, Destination.createConsumer]
    split
    · split
      · exact (replayFromStorage_same env _ _ _).type.trans kept
      · exact kept
    · rfl
  | createDurableConsumer env id mode clientID name selector =>
    have attached : ∀ key sub, (d.attachDurable env id mode key sub selector).type = d.type :=
      fun key sub => (replayFromStorage_same env _ _ _).type
    simp only [next, step, Destination.createDurableConsumer]
    split
    · rfl
    · split
      · exact attached _ _
      · split
        · rfl
        · exact attached _ _
  | deleteConsumer id => exact (deleteConsumer_objects d id).2.1
  | destroyConsumer env id =>
    simp only [next, step, Destination.destroyConsumer]
    split
    · rfl
    · rename_i c object
      exact ((flushPendingAcks_steady d id object (c := c) rfl).trans
        (rollbackConsumer_steady env _ id false)).type
  | deleteSubscription clientID name => exact (deleteSubscription_objects d clientID name).2
  | rehash l => exact (rehash_objects d l).2
  | restart env => rfl
  | _ => exact (step_steady d rfl).type

theorem step_shared {d : Destination} (queue : d.isQueueFamily = true) (clean : Clean d)
    (call : Call) : AllShared (step d call).1 := by
  have all := clean.shared
  cases call with
  | createDefaultConsumer id mode =>
    simp only [step, Destination.createDefaultConsumer, queue, if_true]
    exact allShared_put (c := ⟨mode,.shared,.shared,none,[],.empty,[]⟩) all rfl rfl
  | createConsumer env id mode selector => exact createConsumer_shared queue all env id mode selector
  | createDurableConsumer env id mode clientID name selector =>
    simp only [step, Destination.createDurableConsumer, queue_notTopic queue]
    exact all
  | deleteConsumer id =>
    obtain ⟨objects, _⟩ := deleteConsumer_objects d id
    unfold AllShared
    rw [step, objects]
    exact all
  | destroyConsumer env id => exact destroyConsumer_shared all env id
  | deleteSubscription clientID name =>
    obtain ⟨objects, _⟩ := deleteSubscription_objects d clientID name
    unfold AllShared
    rw [step, objects]
    exact all
  | rehash l =>
    obtain ⟨objects, _⟩ := rehash_objects d l
    unfold AllShared
    rw [step, objects]
    exact all
  | restart env =>
    intro cid c object
    simp [step, Destination.restart] at object
  | _ => exact all.steady (step_steady d rfl)

structure CleanQueue (d : Destination) : Prop where
  queue : d.isQueueFamily = true
  clean : Clean d

theorem step_clean {d : Destination} (ok : CleanQueue d) (call : Call) :
    CleanQueue (step d call).1 := by
  obtain ⟨extra, moves, made, _⟩ := step_moves ok.queue ok.clean call
  refine ⟨?_, ok.clean.moves moves (step_shared ok.queue ok.clean call) made⟩
  have queue := ok.queue
  have type : (step d call).1.type = d.type := step_type d call
  unfold Destination.isQueueFamily at queue ⊢
  rw [type]
  exact queue

/-- A queue as a new process finds it: nothing in memory, whatever the storage holds. -/
structure Started (d : Destination) : Prop where
  queue : d.isQueueFamily = true
  objects : d.objects = []
  producers : d.producers = []
  queued : (d.queues .shared).toList = []
  pending : d.pending = []
  buffered : Buffered d
  store : Sound Content.uuid (d.stores .shared)

theorem Started.held {d : Destination} (started : Started d) : held d = 0 := by
  simp [TinyMqHolders.held, started.queued, started.pending, started.objects, started.producers]

theorem Started.clean {d : Destination} (started : Started d) : CleanQueue d where
  queue := started.queue
  clean := by
    refine ⟨?_, ?_, ?_, started.store, started.buffered, ?_⟩
    · intro cid c object
      rw [started.objects] at object
      cases object
    · intro x member
      rw [started.pending] at member
      cases member
    · simp [started.held]
    · simp [started.held]

theorem newQueue_started : Started { type := .Queue } where
  queue := rfl
  objects := rfl
  producers := rfl
  queued := by decide
  pending := rfl
  buffered := by
    intro u content found
    cases found
  store := sound_empty _

end TinyMqQueueRuns
