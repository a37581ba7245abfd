import TinyMq.Lib.Machines
import TinyMq.Broker.Origins

/-!
Each call on a destination: what it leaves in memory has one of the origins. From
the inversion of one call follows, for every run, that no object is in two places.
-/
namespace TinyMqInversion
open DelimitedText AssocLists BandQueues Machines TombstoneLog TinyMqTom TinyMqMessage TinyMqStore
open TinyMqDestination TinyMqTransactionBuffer TinyMqSession TinyMqFrames TinyMqHolders TinyMqQueueRuns
open TinyMqPlaces TinyMqOrigins

section Sends
variable {d e : Destination} {call : Call} {hand : List Nat}

/-- What `preparePush` makes of a message that a consumer takes. -/
structure Prepared (e : Destination) (c : Consumer) (t : Text) (sent : Message)
    (r : Destination × Message) : Prop where
  still : Still e r.1
  grows : Grows e r.1
  policy : r.1.redeliveryPolicy = e.redeliveryPolicy
  next : r.1.nextOid = e.nextOid + 1
  oid : r.2.oid = e.nextOid
  copy : Copied sent r.2
  located : t = [] → LocatedIn (r.1.stores c.storage) r.2
  location : t ≠ [] → r.2.isPersistent = true → r.2.location = sent.location

theorem appendRecord_located (env : Env) (e : Destination) (sid : StorageId) {uuid : UUID}
    {content : Content} {m : Message} (own : m.uuid = uuid)
    (location : m.location = (e.appendRecord env sid uuid content).2) :
    LocatedIn ((e.appendRecord env sid uuid content).1.stores sid) m := by
  intro _ n at_
  rw [location] at at_
  simp only [Destination.appendRecord, Function.update_self, own]
  simp only [Destination.appendRecord, Store.append] at at_
  unfold Store.append
  split
  · rename_i works
    rw [if_pos works, Option.some.injEq] at at_
    have here : (e.stores sid).log.length = (keys (e.stores sid).log).length := by simp [keys]
    dsimp only
    rw [keys_append, ← at_, here, List.getElem?_append_right (le_refl _), Nat.sub_self]
    rfl
  · rename_i fails
    rw [if_neg fails] at at_
    cases at_

theorem preparePush_prepared (env : Env) (e : Destination) (cid : Nat) (c : Consumer) (number : Int)
    (t : Text) (sent : Message) : Prepared e c t sent (e.preparePush env cid c number t sent) := by
  unfold Destination.preparePush
  dsimp only
  split
  · rename_i persistent
    have cached : ∀ location, Cached { pushCopy env e.nextOid number cid sent with
        cachedStorageBytes := some (pushCopy env e.nextOid number cid sent).content,
        location := location } := fun _ _ => ⟨_, rfl⟩
    split
    · rename_i inside
      refine ⟨?_, grows_same rfl, rfl, rfl, rfl, ⟨rfl, rfl, rfl, cached _⟩,
        fun outside => absurd outside inside, fun _ _ => rfl⟩
      intro p
      cases p <;> rfl
    · rename_i outside
      refine ⟨?_, ?_, rfl, rfl, rfl, ⟨rfl, rfl, rfl, cached _⟩, ?_,
        fun inside => absurd inside outside⟩
      · intro p
        cases p <;> rfl
      · exact appendRecord_grows env { e with nextOid := e.nextOid + 1 } c.storage _ _
      · intro _
        exact appendRecord_located env { e with nextOid := e.nextOid + 1 } c.storage rfl rfl
  · rename_i volatile
    refine ⟨?_, grows_same rfl, rfl, rfl, rfl, ⟨rfl, rfl, rfl, ?_⟩, ?_, ?_⟩
    · intro p
      cases p <;> rfl
    · exact fun persistent => absurd persistent volatile
    · exact fun _ persistent => absurd persistent volatile
    · exact fun _ persistent => absurd persistent volatile

theorem push_along {sent : Message} {pid : Nat} {t : Text} (sends : Sends d sent pid t call)
    (env : Env) (number : Int) {cid : Nat} (target : cid ∈ d.targets) (same : Same d e)
    (along : Along d call e []) :
    Along d call (Destination.push env number pid t sent e cid) [] := by
  unfold Destination.push
  split
  · exact along
  · rename_i c object
    rw [same.objects] at object
    split
    · rename_i takes
      have made := preparePush_prepared env e cid c number t sent
      generalize e.preparePush env cid c number t sent = r at made
      obtain ⟨e', m⟩ := r
      have new : d.nextOid ≤ m.oid := by
        have here : m.oid = e.nextOid := made.oid
        rw [here]
        exact along.next
      have ready : Along d call e' [m.oid] := by
        have created := along.create.still made.still made.grows made.policy (le_of_eq made.next.symm)
        rw [← made.oid] at created
        exact created
      dsimp only
      split
      · rename_i outside
        subst outside
        have located := made.located rfl
        split
        · refine ready.enqueueOrSchedule env ?_
          intro p place
          have retimed := clampFuture_retimed env m
          exact .pushed sends target object takes place (retimed.copied made.copy)
            (retimed.located located) (by rw [clampFuture_oid]; exact new)
        · exact ready.enqueue (.pushed sends target object takes (Or.inl rfl) made.copy located new)
      · rename_i inside
        have fits : Origin d call e' (.staged pid) m :=
          .staged sends inside made.copy (made.location inside) new
        have tracked := stage_tracked ready.tracked fits
        have kept : (e'.stage pid m).stores = e'.stores ∧
            (e'.stage pid m).redeliveryPolicy = e'.redeliveryPolicy ∧
            (e'.stage pid m).nextOid = e'.nextOid := by
          unfold Destination.stage
          split <;> exact ⟨rfl, rfl, rfl⟩
        refine ⟨?_, ready.grown.trans (grows_same kept.1), kept.2.1.trans ready.policy,
          by rw [kept.2.2]; exact ready.next⟩
        exact tracked.mono fun _ _ _ origin => origin.grows (grows_same kept.1)
    · exact along

theorem save_along (unique : HeldOnce d) {sent : Message} {pid : Nat} {t : Text}
    (sends : Sends d sent pid t call) (env : Env) : Along d call (d.save env pid t sent) [] := by
  have start : Along d call { d with messageCounter := d.messageCounter + 1 } [] := by
    refine (along_before unique call).still ?_ (grows_same rfl) rfl (le_refl _)
    intro p
    cases p <;> rfl
  have counted : Same d { d with messageCounter := d.messageCounter + 1 } := same_registry rfl
  have pushed := start.fold (r := d) (l := d.targets)
    (g := Destination.push env d.messageCounter pid t sent)
    (fun e cid _ => push_same env e d.messageCounter pid t sent cid)
    (fun e cid target same along => push_along sends env d.messageCounter target same along) counted
  unfold Destination.save
  dsimp only
  rw [counted.targets]
  split
  · exact pushed.persistOffline env sent
  · exact pushed

theorem send_along (unique : HeldOnce d) (env : Env) (pid : Nat) (t : Text) (m : Message) :
    Along d (.send env pid t m) (d.send env pid t m).1 [] := by
  unfold Destination.send
  split
  · exact along_before unique _
  · rename_i p found
    have sends : Sends d (prepared env p t m) pid t (.send env pid t m) := ⟨rfl, rfl, p, found, rfl⟩
    exact save_along unique sends env

theorem sendWith_along (unique : HeldOnce d) (env : Env) (pid : Nat) (t : Text) (m : Message)
    (opts : SendOptions) :
    Along d (.sendWith env pid t m opts) (d.sendWith env pid t m opts).1 [] := by
  unfold Destination.sendWith
  split
  · exact along_before unique _
  · rename_i p found
    split
    · exact along_before unique _
    · rename_i valid
      have sends : Sends d (fillHeaders env p (applyOptions env m opts (t ≠ []))) pid t
          (.sendWith env pid t m opts) := ⟨rfl, rfl, p, found, valid, rfl⟩
      exact save_along unique sends env

end Sends

section Commits
variable {d e : Destination} {call : Call} {hand : List Nat}

theorem patchPending_along (env : Env) (along : Along d call e hand) (m : Message) :
    Along d call (e.patchPending env m) hand := by
  unfold Destination.patchPending
  split
  · exact along.still (buffer_still e _) (grows_same rfl) rfl (le_refl _)
  · exact along

theorem commitTransaction_along (env : Env) (along : Along d call e hand) (t : Text) :
    Along d call (e.commitTransaction env t) hand := by
  have grows := commitTransaction_grows env e t
  unfold Destination.commitTransaction at grows ⊢
  split at grows
  · rw [if_pos (by assumption)]
    exact along
  · rw [if_neg (by assumption)]
    refine along.still ?_ grows rfl (le_refl _)
    intro p
    cases p <;> rfl

/- A queue gives the object itself to its first consumer; a topic gives each one a copy. -/
theorem deliverCommitted_along {env : Env} {pid : Nat} {t : Text}
    (commit : call = .commitProducer env pid t) {x : Message} (was : x ∈ messagesAt d (.staged pid))
    (same : Same d e) (along : Along d call e ((resolveDelay env x).oid :: hand)) :
    Along d call (e.deliverCommitted env (resolveDelay env x)) hand := by
  have oid : (resolveDelay env x).oid = x.oid := by
    unfold resolveDelay
    split
    · dsimp only
      split <;> rfl
    · rfl
  have retimed : ∀ {m}, Retimed (resolveDelay env x) m → Retimed x (clampFuture env m) :=
    fun {m} given => ((resolveDelay_retimed env x).trans given).trans (clampFuture_retimed env m)
  unfold Destination.deliverCommitted
  split
  · rename_i family
    split
    · exact along.release
    · rename_i cid rest consumers
      split
      · exact along.release
      · rename_i c object
        rw [same.objects] at object
        have target : cid ∈ d.targets := by
          rw [← same.targets]
          simp [Destination.targets, family, consumers]
        refine along.enqueueOrSchedule env ?_
        intro p place
        refine .delivered commit target object was place (retimed (Retimed.refl _)) (Or.inl ?_)
        rw [clampFuture_oid, oid]
  · rename_i family
    have targets : e.consumers = d.targets := by
      rw [← same.targets]
      simp [Destination.targets, family]
    have copies : Along d call (e.consumers.foldl (Destination.deliverTo env (resolveDelay env x)) e)
        ((resolveDelay env x).oid :: hand) := by
      refine along.fold (r := d) ?_ ?_ same
      · intro e cid _
        unfold Destination.deliverTo
        split
        · exact Same.refl e
        · exact (enqueueOrSchedule_same env _ _ _).after (same_registry rfl)
      · intro e cid inside same along
        unfold Destination.deliverTo
        split
        · exact along
        · rename_i c object
          rw [same.objects] at object
          refine along.create.enqueueOrSchedule env ?_
          intro p place
          refine .delivered commit (targets ▸ inside) object was place (retimed ?_) (Or.inr ?_)
          · exact ⟨rfl, ⟨_, rfl⟩, Or.inl rfl⟩
          · rw [clampFuture_oid]
            exact along.next
    dsimp only
    split
    · exact copies.release.persistOffline env _
    · exact copies.release

theorem deliverAll_along {env : Env} {pid : Nat} {t : Text} (commit : call = .commitProducer env pid t)
    (ms : List Message) (was : ∀ x ∈ ms, x ∈ messagesAt d (.staged pid)) (same : Same d e)
    (along : Along d call e ((ms.map (resolveDelay env)).map Message.oid)) :
    Along d call ((ms.map (resolveDelay env)).foldl (Destination.deliverCommitted env) e) [] := by
  induction ms generalizing e with
  | nil => exact along
  | cons x ms ih =>
    refine ih (fun y inside => was y (List.mem_cons_of_mem x inside))
      (same.trans (deliverCommitted_same env e _)) ?_
    exact deliverCommitted_along commit (was x (by simp)) same along

theorem commitProducer_along (unique : HeldOnce d) (env : Env) (pid : Nat) (t : Text) :
    Along d (.commitProducer env pid t) (d.commitProducer env pid t) [] := by
  have start := along_before unique (.commitProducer env pid t)
  unfold Destination.commitProducer
  split
  · exact start
  · rename_i p found
    split
    · have taken := start.take (clearStaged_takes found) rfl rfl rfl
      have patched := taken.fold (r := d) (l := p.transactQueue.toList)
        (g := Destination.patchPending env) (fun e m _ => patchPending_same env e m)
        (fun e m _ _ along => patchPending_along env along m) (clearStaged_same d pid p)
      have committed := commitTransaction_along env patched t
      have same : Same d ((p.transactQueue.toList.foldl (Destination.patchPending env)
          (d.clearStaged pid p)).commitTransaction env t) :=
        ((clearStaged_same d pid p).trans
          (same_fold (fun e m _ => patchPending_same env e m) _)).trans
          (commitTransaction_same env _ t)
      refine deliverAll_along rfl p.transactQueue.toList ?_ same ?_
      · intro x inside
        simpa [messagesAt, stagedBy, found] using inside
      · have oids : (p.transactQueue.toList.map (resolveDelay env)).map Message.oid =
            p.transactQueue.toList.map Message.oid := by
          rw [List.map_map]
          refine List.map_congr_left fun x _ => ?_
          unfold Function.comp resolveDelay
          split
          · dsimp only
            split <;> rfl
          · rfl
        rw [oids]
        simpa using committed
    · exact start

theorem rollbackProducer_along (along : Along d call e hand) (env : Env) (pid : Nat) (t : Text) :
    Along d call (e.rollbackProducer env pid t) hand := by
  unfold Destination.rollbackProducer
  split
  · exact along
  · dsimp only
    split
    · split
      · exact along.fewer (setProducer_fewer pid rfl) (grows_same rfl) rfl (le_refl _)
      · have rolled := along.still (buffer_still e (e.buffer.rollbackTransaction env.stamp t))
          (grows_same rfl) rfl (le_refl _)
        exact rolled.fewer (setProducer_fewer pid rfl) (grows_same rfl) rfl (le_refl _)
    · exact along

end Commits

section Receives
variable {d e : Destination} {call : Call} {hand : List Nat}

theorem rehydrate_opened (e : Destination) (c : Consumer) (m : Message) :
    Opened m (e.rehydrate c m) := by
  unfold Destination.rehydrate
  split
  · rename_i persistent
    split
    · rename_i content cached
      refine ⟨rfl, rfl, ?_, ?_⟩
      · intro volatile
        rw [persistent] at volatile
        cases volatile
      · intro _ content' same
        rw [cached, Option.some.injEq] at same
        rw [same]
    · rename_i missing
      have shape : ∀ m' : Message, m'.oid = m.oid → m'.location = m.location → Opened m m' := by
        intro m' oid location
        refine ⟨oid, location, ?_, ?_⟩
        · intro volatile
          rw [persistent] at volatile
          cases volatile
        · intro _ content' same
          rw [missing] at same
          cases same
      split
      · exact shape m rfl rfl
      · exact shape _ rfl rfl
  · rename_i volatile
    exact ⟨rfl, rfl, fun _ => rfl, fun persistent => absurd persistent volatile⟩

theorem recv_along (unique : HeldOnce d) (env : Env) (cid patience : Nat) :
    Along d (.recv env cid patience) (d.recv env cid patience).1 [] := by
  refine recv_rule (P := fun e r => Along d (.recv env cid patience) e [] → Same d e →
      (∀ q, ∀ m ∈ messagesAt e (.queued q), m ∈ messagesAt d (.queued q)) →
      Along d (.recv env cid patience) r.1 []) (fun _ along _ _ => along) ?_ ?_ patience d
    (along_before unique _) (Same.refl d) (fun _ _ inside => inside)
  · intro e c m q object next along same queued
    have was : m ∈ messagesAt d (.queued c.queue) :=
      queued c.queue m ((dequeue_takes next).1.mem_iff.mpr (by simp))
    rw [same.objects] at object
    have opened := rehydrate_opened (e.setQueue c.queue q) c m
    have taken := along.take (dequeue_takes next) rfl rfl rfl
    rw [List.map_cons, List.map_nil, List.cons_append, List.nil_append, ← opened.oid] at taken
    have now : get (e.setQueue c.queue q).objects cid = some c := by
      rw [show (e.setQueue c.queue q).objects = e.objects from rfl, same.objects]
      exact object
    refine ⟨?_, taken.grown.trans (grows_same rfl), taken.policy, taken.next⟩
    exact (track_tracked now taken.tracked (.received rfl object was opened (Or.inl rfl))
      (.received rfl object was opened (Or.inr rfl))).mono fun _ _ _ origin =>
        origin.grows (grows_same rfl)
  · intro e c m q r object next rest along same queued
    have taken := (along.take (dequeue_takes next) rfl rfl rfl).release
    have dropped := taken.dropRecord c ((e.setQueue c.queue q).rehydrate c m)
    obtain ⟨stores, only⟩ := dropRecords_stores (e.setQueue c.queue q) c
      [(e.setQueue c.queue q).rehydrate c m]
    refine rest dropped (same.trans ((setQueue_same e _ q).trans (dropRecord_same _ c _))) ?_
    intro q' m' inside
    have one : (e.setQueue c.queue q).dropRecord c ((e.setQueue c.queue q).rehydrate c m) =
        { e.setQueue c.queue q with stores := stores } := only
    rw [one] at inside
    have before : m' ∈ messagesAt (e.setQueue c.queue q) (.queued q') := inside
    refine queued q' m' ?_
    by_cases here : q' = c.queue
    · subst here
      exact (dequeue_takes next).1.mem_iff.mpr (List.mem_append_right _ before)
    · rw [(dequeue_takes next).2 (.queued q') (by simpa using here)] at before
      exact before

end Receives

section Redelivery
variable {d e : Destination} {call : Call} {hand : List Nat}

theorem redeliver_along {cid : Nat} {c c' : Consumer} {p₀ : Place} {x : Message}
    (gives : GivesBack cid p₀ call) (object : get d.objects cid = some c)
    (transacted : p₀ = .received cid → c.mode = .SESSION_TRANSACTED)
    (was : x ∈ messagesAt d p₀) (alike : c'.queue = c.queue) (env : Env) (closing : Bool)
    (along : Along d call e (x.oid :: hand)) :
    Along d call (e.redeliver env c' closing x).1 hand := by
  unfold Destination.redeliver
  dsimp only
  split
  · exact along.release.dropRecord c' _
  · rename_i below
    have within : ¬ Limited d x := by
      intro limited
      rw [along.policy] at below
      exact below limited
    have again : ∀ t, Again x ((countRedelivery x).setDeliveryTime t).refreshCachedStorageBytes := by
      intro t
      unfold Message.refreshCachedStorageBytes
      split
      · exact ⟨rfl, rfl, ⟨t, rfl⟩, fun _ => ⟨_, rfl⟩⟩
      · rename_i volatile
        exact ⟨rfl, rfl, ⟨t, rfl⟩, fun persistent => absurd persistent volatile⟩
    rw [alike]
    split
    · rw [← (again _).oid] at along
      refine along.enqueueOrSchedule env ?_
      intro p place
      exact .redelivered gives object transacted was within
        ((clampFuture_retimed env _).again (clampFuture_oid env _) (again _)) place
    · rw [← (again _).oid] at along
      exact along.enqueue (.redelivered gives object transacted was within (again _) (Or.inl rfl))

theorem redeliverAll_along {cid : Nat} {c c' : Consumer} {p₀ : Place}
    (gives : GivesBack cid p₀ call) (object : get d.objects cid = some c)
    (transacted : p₀ = .received cid → c.mode = .SESSION_TRANSACTED) (alike : c'.queue = c.queue)
    (env : Env) (closing : Bool) (ms : List Message) (was : ∀ x ∈ ms, x ∈ messagesAt d p₀)
    (along : Along d call e (ms.map Message.oid ++ hand)) :
    Along d call (e.redeliverAll env c' closing ms).1 hand := by
  induction ms generalizing e with
  | nil => exact along
  | cons x ms ih =>
    refine ih (fun y inside => was y (List.mem_cons_of_mem x inside)) ?_
    exact redeliver_along gives object transacted (was x (by simp)) alike env closing along

theorem recover_along (unique : HeldOnce d) (env : Env) (cid : Nat) :
    Along d (.recover env cid) (d.recover env cid).1 [] := by
  have start := along_before unique (.recover env cid)
  unfold Destination.recover
  split
  · exact start
  · rename_i c object
    have gives : GivesBack cid (.inFlight cid) (.recover env cid) := ⟨rfl, rfl⟩
    refine redeliverAll_along gives object (by simp) rfl env false c.inFlight ?_
      (start.take (emptyChain_takes object) rfl rfl rfl)
    intro x inside
    simpa [messagesAt, chainOf, object] using inside

theorem rollback_along {cid : Nat} {c c' : Consumer} (gives : GivesBack cid (.received cid) call)
    (object : get d.objects cid = some c) (now : get e.objects cid = some c')
    (mode : c'.mode = c.mode) (alike : c'.queue = c.queue)
    (had : c'.transactQueue = c.transactQueue) (env : Env) (closing : Bool) (along : Along d call e []) :
    Along d call (e.rollbackConsumer env cid closing).1 [] := by
  unfold Destination.rollbackConsumer
  rw [now]
  dsimp only
  split
  · rename_i transacted
    refine redeliverAll_along gives object (fun _ => mode ▸ transacted) alike env closing
      c'.transactQueue.toList ?_
      (along.take (emptyReceived_takes now) rfl rfl rfl)
    intro x inside
    simpa [messagesAt, receivedBy, object, had] using inside
  · exact along

theorem rollbackConsumer_along (unique : HeldOnce d) (env : Env) (cid : Nat) (closing : Bool) :
    Along d (.rollbackConsumer env cid closing) (d.rollbackConsumer env cid closing).1 [] := by
  have start := along_before unique (.rollbackConsumer env cid closing)
  have gives : GivesBack cid (.received cid) (.rollbackConsumer env cid closing) := ⟨rfl, rfl⟩
  cases object : get d.objects cid with
  | none =>
    simp only [Destination.rollbackConsumer, object]
    exact start
  | some c => exact rollback_along gives object object rfl rfl rfl env closing start

theorem removals_along (sid : StorageId) (recs : List (Nat × UUID)) (along : Along d call e hand) :
    Along d call (recs.foldl (fun e rec => e.removeRecord sid rec) e) hand :=
  along.fold (r := e) (fun e rec _ => removeRecord_same e sid rec)
    (fun e rec _ _ along =>
      along.still (stores_still e _) (removeRecord_grows e sid rec) rfl (le_refl _)) (Same.refl e)

theorem flushPendingAcks_along {cid : Nat} {c₀ c : Consumer} (object : get e.objects cid = some c₀)
    (chain : c.inFlight = c₀.inFlight) (queue : c.transactQueue = c₀.transactQueue)
    (along : Along d call e hand) : Along d call (e.flushPendingAcks cid c) hand := by
  have removed := removals_along c.storage c.pendingAcks along
  have same : Same e (c.pendingAcks.foldl (fun e rec => e.removeRecord c.storage rec) e) :=
    same_fold (fun e rec _ => removeRecord_same e c.storage rec) e
  unfold Destination.flushPendingAcks
  have there : get (c.pendingAcks.foldl (fun e rec => e.removeRecord c.storage rec) e).objects cid =
      some c₀ := by
    rw [same.objects]
    exact object
  exact removed.still (setObject_still there chain queue) (grows_same rfl) rfl (le_refl _)

theorem destroyConsumer_along (unique : HeldOnce d) (env : Env) (cid : Nat) :
    Along d (.destroyConsumer env cid) (d.destroyConsumer env cid).1 [] := by
  have start := along_before unique (.destroyConsumer env cid)
  unfold Destination.destroyConsumer
  split
  · exact start
  · rename_i c object
    have flushed := flushPendingAcks_along object (c := c) rfl rfl start
    have now : get (d.flushPendingAcks cid c).objects cid = some { c with pendingAcks := [] } := by
      simp [Destination.flushPendingAcks, Destination.setObject]
    have gives : GivesBack cid (.received cid) (.destroyConsumer env cid) := ⟨rfl, rfl⟩
    have rolled := rollback_along gives object now rfl rfl rfl env false flushed
    exact rolled.fewer (eraseObject_fewer cid) (grows_same rfl) rfl (le_refl _)

theorem commitConsumer_along (unique : HeldOnce d) (cid : Nat) :
    Along d (.commitConsumer cid) (d.commitConsumer cid) [] := by
  have start := along_before unique (.commitConsumer cid)
  unfold Destination.commitConsumer
  split
  · exact start
  · rename_i c object
    split
    · have emptied : Along d (.commitConsumer cid)
          (d.setObject cid { c with transactQueue := .empty }) [] := by
        refine start.fewer (setObject_fewer ?_ ?_) (grows_same rfl) rfl (le_refl _)
        · rw [object]
          exact List.Subperm.refl _
        · simp
      exact emptied.fold (r := d.setObject cid { c with transactQueue := .empty })
        (fun e m _ => dropRecord_same e c m) (fun e m _ _ along => along.dropRecord c m)
        (Same.refl _)
    · exact start

theorem acknowledgeOn_along (unique : HeldOnce d) (cid : Nat) (m : Message) :
    Along d (.acknowledgeOn cid m) (d.acknowledgeOn cid m) [] := by
  have start := along_before unique (.acknowledgeOn cid m)
  unfold Destination.acknowledgeOn
  split
  · exact start
  · rename_i c object
    split
    · exact start
    · let c' : Consumer := { c with inFlight := c.inFlight.filter (·.oid ≠ m.oid) }
      have unlinked : Along d (.acknowledgeOn cid m) (d.setObject cid c') [] := by
        refine start.fewer (setObject_fewer ?_ ?_) (grows_same rfl) rfl (le_refl _)
        · rw [object]
          exact List.filter_sublist.subperm
        · rw [object]
          exact List.Subperm.refl _
      have now : get (d.setObject cid c').objects cid = some c' := by
        simp [Destination.setObject]
      dsimp only
      split
      · split
        · exact unlinked
        · rename_i rec _
          split
          · split
            · exact flushPendingAcks_along now rfl rfl unlinked
            · exact unlinked.still (setObject_still now rfl rfl) (grows_same rfl) rfl (le_refl _)
          · exact unlinked.still (stores_still _ _) (removeRecord_grows _ c.storage rec) rfl
              (le_refl _)
      · exact unlinked

theorem deliverDue_along (unique : HeldOnce d) (env : Env) :
    Along d (.deliverDue env) (d.deliverDue env) [] := by
  have start := along_before unique (.deliverDue env)
  unfold Destination.deliverDue
  split
  · exact start
  · rename_i t q m rest first
    split
    · have taken := start.take (due_takes first) rfl rfl rfl
      refine taken.enqueue (.due rfl ?_)
      simp [messagesAt, first]
    · exact start

theorem acceptDeadLetter_along (unique : HeldOnce d) (env : Env) (m : Message) :
    Along d (.acceptDeadLetter env m) (acceptDeadLetter env m d) [] := by
  have start := (along_before unique (.acceptDeadLetter env m)).create
  unfold acceptDeadLetter
  dsimp only
  split
  · have stored := start.appendRecord env .shared (deadLetterCopy m d.nextOid).uuid
      (deadLetterCopy m d.nextOid).content
    dsimp only
    split
    · rename_i made
      refine stored.enqueueOrSchedule env ?_
      intro p place
      have retimed := clampFuture_retimed env { deadLetterCopy m d.nextOid with
        cachedStorageBytes := some (deadLetterCopy m d.nextOid).content,
        location := (Destination.appendRecord env { d with nextOid := d.nextOid + 1 } .shared
          (deadLetterCopy m d.nextOid).uuid (deadLetterCopy m d.nextOid).content).2 }
      refine .deadLettered rfl made place (retimed.copied ?_) (retimed.located ?_) ?_
      · exact ⟨by rfl, by rfl, by rfl, fun _ => ⟨_, rfl⟩⟩
      · exact appendRecord_located env { d with nextOid := d.nextOid + 1 } .shared rfl rfl
      · rw [clampFuture_oid]
        exact le_refl _
    · exact stored.release
  · rename_i volatile
    dsimp only
    split
    · rename_i made
      refine start.enqueueOrSchedule env ?_
      intro p place
      have retimed := clampFuture_retimed env (deadLetterCopy m d.nextOid)
      refine .deadLettered rfl made place (retimed.copied ?_) (retimed.located ?_) ?_
      · exact ⟨by rfl, by rfl, by rfl, fun persistent => absurd persistent volatile⟩
      · exact fun persistent => absurd persistent volatile
      · rw [clampFuture_oid]
        exact le_refl _
    · exact start.release

end Redelivery

section Registry
variable {d e : Destination} {call : Call} {hand : List Nat}

theorem replay_along (along : Along d call e []) {q : QueueId} {sid : StorageId}
    (asked : Replays d q sid call) (stores : e.stores sid = d.stores sid) (env : Env) :
    Along d call (e.replayFromStorage env q sid) [] := by
  unfold Destination.replayFromStorage
  rw [stores]
  refine along.fold (r := e) ?_ ?_ (Same.refl e)
  · intro e x _
    exact (enqueueOrSchedule_same env _ _ _).after (same_registry rfl)
  · intro e x record _ along
    refine along.create.enqueueOrSchedule env ?_
    intro p place
    refine .replayed asked record place (clampFuture_retimed env _) ?_
    rw [clampFuture_oid]
    exact along.next

theorem registered_along (along : Along d call e hand) (consumers : List Nat)
    (subs : Assoc Text DurableSubState) (names : Assoc Nat Text) :
    Along d call { e with
      consumers := consumers, durableSubs := subs, consumerToSubName := names } hand := by
  refine along.still ?_ (grows_same rfl) rfl (le_refl _)
  intro p
  cases p <;> rfl

theorem newObject_along (along : Along d call e hand) (cid : Nat) (mode : AcknowledgeMode)
    (q : QueueId) (sid : StorageId) (selector : Option Selector) :
    Along d call (e.setObject cid ⟨mode,q,sid,selector,[],.empty,[]⟩) hand :=
  along.fewer (newObject_fewer cid rfl rfl) (grows_same rfl) rfl (le_refl _)

theorem createDefaultConsumer_along (unique : HeldOnce d) (id : Nat) (mode : AcknowledgeMode) :
    Along d (.createDefaultConsumer id mode) (d.createDefaultConsumer id mode) [] := by
  have start := along_before unique (.createDefaultConsumer id mode)
  unfold Destination.createDefaultConsumer
  split
  · refine (newObject_along start id mode .shared .shared none).still ?_ (grows_same rfl) rfl
      (le_refl _)
    intro p
    cases p <;> rfl
  · exact start

theorem dropDefault_along (along : Along d call e hand) : Along d call e.dropDefault hand := by
  unfold Destination.dropDefault
  split
  · exact along
  · rename_i old _
    refine (along.fewer (eraseObject_fewer old) (grows_same rfl) rfl (le_refl _)).still ?_
      (grows_same rfl) rfl (le_refl _)
    intro p
    cases p <;> rfl

theorem createConsumer_along (unique : HeldOnce d) (env : Env) (id : Nat) (mode : AcknowledgeMode)
    (selector : Option Selector) :
    Along d (.createConsumer env id mode selector) (d.createConsumer env id mode selector) [] := by
  have start := along_before unique (.createConsumer env id mode selector)
  unfold Destination.createConsumer
  split
  · rename_i family
    have joined := newObject_along (dropDefault_along start) id mode .shared .shared selector
    have kept : d.dropDefault.queueMade = d.queueMade ∧ d.dropDefault.stores = d.stores := by
      unfold Destination.dropDefault
      split <;> exact ⟨rfl, rfl⟩
    dsimp only
    split
    · rename_i made
      have asked : Replays d .shared .shared (.createConsumer env id mode selector) :=
        ⟨family, kept.1.symm.trans made, rfl, rfl⟩
      have replayed := replay_along joined asked (congrFun kept.2 .shared) env
      exact registered_along replayed _ _ _
    · exact registered_along joined _ _ _
  · exact registered_along (newObject_along start id mode (.own id) .shared selector) _ _ _

theorem createDurableConsumer_along (unique : HeldOnce d) (env : Env) (id : Nat)
    (mode : AcknowledgeMode) (clientID name : Text) (selector : Option Selector) :
    Along d (.createDurableConsumer env id mode clientID name selector)
      (d.createDurableConsumer env id mode clientID name selector).1 [] := by
  have start := along_before unique (.createDurableConsumer env id mode clientID name selector)
  have attached : ∀ sub : DurableSubState,
      Replays d (.own id) sub.storage (.createDurableConsumer env id mode clientID name selector) →
      Along d (.createDurableConsumer env id mode clientID name selector)
        (d.attachDurable env id mode (durableKey clientID name) sub selector) [] := by
    intro sub asked
    have joined := newObject_along start id mode (.own id) sub.storage selector
    exact registered_along (replay_along joined asked rfl env) _ _ _
  unfold Destination.createDurableConsumer
  split
  · exact start
  · dsimp only
    split
    · rename_i missing
      exact attached _ ⟨rfl, by rw [missing]; rfl⟩
    · rename_i sub found
      split
      · exact start
      · exact attached sub ⟨rfl, by rw [found]; rfl⟩

theorem deleteConsumer_still (d : Destination) (id : Nat) : Still d (d.deleteConsumer id) := by
  unfold Destination.deleteConsumer
  intro p
  dsimp only
  split
  · cases p <;> rfl
  · cases p <;> rfl

theorem deleteConsumer_kept (d : Destination) (id : Nat) :
    (d.deleteConsumer id).stores = d.stores ∧
      (d.deleteConsumer id).redeliveryPolicy = d.redeliveryPolicy ∧
      (d.deleteConsumer id).nextOid = d.nextOid := by
  unfold Destination.deleteConsumer
  dsimp only
  split <;> exact ⟨rfl, rfl, rfl⟩

theorem deleteConsumer_along (unique : HeldOnce d) (id : Nat) :
    Along d (.deleteConsumer id) (d.deleteConsumer id) [] := by
  obtain ⟨stores, policy, next⟩ := deleteConsumer_kept d id
  exact (along_before unique _).still (deleteConsumer_still d id) (grows_same stores) policy
    (le_of_eq next.symm)

theorem deleteSubscription_still (d : Destination) (clientID name : Text) :
    Still d (d.deleteSubscription clientID name) ∧
      (d.deleteSubscription clientID name).nextOid = d.nextOid := by
  unfold Destination.deleteSubscription
  dsimp only
  split
  · exact ⟨fun _ => rfl, rfl⟩
  · dsimp only
    split
    · refine ⟨?_, rfl⟩
      intro p
      cases p <;> rfl
    · rename_i id _
      refine ⟨(deleteConsumer_still d id).trans ?_, (deleteConsumer_kept d id).2.2⟩
      intro p
      cases p <;> rfl

theorem restart_fewer (env : Env) (d : Destination) (p : Place) :
    (messagesAt (d.restart env) p).Subperm (messagesAt d p) := by
  have nothing : messagesAt (d.restart env) p = [] := by
    cases p <;> simp [messagesAt, Destination.restart, chainOf, receivedBy, stagedBy]
  rw [nothing]
  exact List.nil_subperm

theorem createProducer_along (unique : HeldOnce d) (id : Nat) (mode : AcknowledgeMode) :
    Along d (.createProducer id mode) (d.createProducer id mode) [] :=
  (along_before unique _).fewer (setProducer_fewer id rfl) (grows_same rfl) rfl (le_refl _)

theorem deleteProducer_along (unique : HeldOnce d) (env : Env) (id : Nat) (t : Text) :
    Along d (.deleteProducer env id t) (d.deleteProducer env id t) [] :=
  (rollbackProducer_along (along_before unique _) env id t).fewer (eraseProducer_fewer id)
    (grows_same rfl) rfl (le_refl _)

theorem rehash_along (unique : HeldOnce d) (l : List Nat) : Along d (.rehash l) (d.rehash l) [] := by
  unfold Destination.rehash
  split
  · exact registered_along (along_before unique _) l _ _
  · exact along_before unique _

end Registry

/-- Only this call takes records away from their places. -/
def Unsubscribes : Call → Prop
  | .deleteSubscription _ _ => True
  | _ => False

/-- What is true of a call as a whole. -/
structure Traced (d : Destination) (call : Call) (e : Destination) : Prop where
  tracked : Tracked (Origin d call e) e []
  grown : ¬ Unsubscribes call → Grows d e
  next : d.nextOid ≤ e.nextOid

/- Everything a call leaves has an origin, and the numbers of objects only grow. -/
theorem step_traced {d : Destination} (unique : HeldOnce d) (call : Call) :
    Traced d call (next d call) := by
  have traced : ∀ {e}, Along d call e [] → Traced d call e :=
    fun along => ⟨along.tracked, fun _ => along.grown, along.next⟩
  cases call with
  | createDefaultConsumer id mode => exact traced (createDefaultConsumer_along unique id mode)
  | createConsumer env id mode selector =>
    exact traced (createConsumer_along unique env id mode selector)
  | createDurableConsumer env id mode clientID name selector =>
    exact traced (createDurableConsumer_along unique env id mode clientID name selector)
  | deleteConsumer id => exact traced (deleteConsumer_along unique id)
  | destroyConsumer env id => exact traced (destroyConsumer_along unique env id)
  | deleteSubscription clientID name =>
    obtain ⟨still, same⟩ := deleteSubscription_still d clientID name
    exact ⟨(tracked_before unique _ _).still still (le_of_eq same.symm),
      fun other => absurd trivial other, le_of_eq same.symm⟩
  | createProducer id mode => exact traced (createProducer_along unique id mode)
  | deleteProducer env id t => exact traced (deleteProducer_along unique env id t)
  | send env pid t m => exact traced (send_along unique env pid t m)
  | sendWith env pid t m opts => exact traced (sendWith_along unique env pid t m opts)
  | commitProducer env pid t => exact traced (commitProducer_along unique env pid t)
  | rollbackProducer env pid t =>
    exact traced (rollbackProducer_along (along_before unique _) env pid t)
  | recv env cid patience => exact traced (recv_along unique env cid patience)
  | acknowledgeOn cid m => exact traced (acknowledgeOn_along unique cid m)
  | recover env cid => exact traced (recover_along unique env cid)
  | rollbackConsumer env cid closing => exact traced (rollbackConsumer_along unique env cid closing)
  | commitConsumer cid => exact traced (commitConsumer_along unique cid)
  | deliverDue env => exact traced (deliverDue_along unique env)
  | acceptDeadLetter env m => exact traced (acceptDeadLetter_along unique env m)
  | rehash l => exact traced (rehash_along unique l)
  | restart env =>
    exact ⟨(tracked_before unique _ _).fewer (restart_fewer env d) (le_refl _),
      fun _ _ => List.prefix_refl _, le_refl _⟩

/- The inversion of a call: what is where afterwards, and where it came from. -/
theorem step_origin {d : Destination} (unique : HeldOnce d) (call : Call) :
    Tracked (Origin d call (next d call)) (next d call) [] :=
  (step_traced unique call).tracked

theorem step_unique {d : Destination} (unique : HeldOnce d) (call : Call) : HeldOnce (next d call) :=
  (step_origin unique call).mono fun _ _ _ _ => trivial

/-- The content a receive returns: that of the bytes, for a persistent message. -/
def shown (m : Message) : Content :=
  if m.isPersistent then m.cachedStorageBytes.getD m.content else m.content

/-- A persistent message that waits has its bytes with it; a received one has been read. -/
def Readable : Place → Message → Prop
  | .inFlight _, m | .received _, m => m.isPersistent = true → m.cachedStorageBytes = none
  | _, m => m.isPersistent = true → ∃ content, m.cachedStorageBytes = some content

section Shown
variable {x m : Message} {p : Place}

theorem readable_waits {q : QueueId} (place : Waits q p)
    (bytes : m.isPersistent = true → ∃ content, m.cachedStorageBytes = some content) :
    Readable p m := by
  rcases place with rfl | rfl <;> exact bytes

theorem cached_bytes (cached : Cached m) (persistent : m.isPersistent = true) :
    ∃ content, m.cachedStorageBytes = some content := by
  obtain ⟨t, same⟩ := cached persistent
  exact ⟨_, same⟩

theorem retimed_bytes (retimed : Retimed x m)
    (bytes : x.isPersistent = true → ∃ content, x.cachedStorageBytes = some content)
    (persistent : m.isPersistent = true) : ∃ content, m.cachedStorageBytes = some content := by
  rw [retimed.persistent] at persistent
  obtain ⟨content, found⟩ := bytes persistent
  rcases retimed.cached with same | ⟨t, changed⟩
  · exact ⟨content, same.trans found⟩
  · exact ⟨content.withDeliveryTime t, by rw [changed, found, Option.map_some]⟩

theorem retimed_shown (retimed : Retimed x m) :
    ∃ t, shown m = (shown x).withDeliveryTime t := by
  obtain ⟨t, content⟩ := retimed.content
  unfold shown
  rw [retimed.persistent]
  split
  · rcases retimed.cached with same | ⟨t', changed⟩
    · rw [same]
      cases bytes : x.cachedStorageBytes with
      | none => exact ⟨t, content⟩
      | some b => exact ⟨_, rfl⟩
    · rw [changed]
      cases bytes : x.cachedStorageBytes with
      | none => exact ⟨t, content⟩
      | some b => exact ⟨t', rfl⟩
  · exact ⟨t, content⟩

theorem cached_shown (cached : Cached m) :
    ∃ t, shown m = m.content.withDeliveryTime t := by
  unfold shown
  split
  · rename_i persistent
    obtain ⟨t, bytes⟩ := cached persistent
    exact ⟨t, by rw [bytes]; rfl⟩
  · exact ⟨_, rfl⟩

theorem opened_shown {q : QueueId} (opened : Opened x m) (readable : Readable (.queued q) x) :
    m.content = shown x ∧ shown m = m.content ∧
      (m.isPersistent = true → m.cachedStorageBytes = none) := by
  unfold shown
  cases persistent : x.isPersistent with
  | false =>
    have same := opened.volatile persistent
    subst same
    simp [persistent]
  | true =>
    obtain ⟨content, bytes⟩ := readable persistent
    have read := opened.read persistent content bytes
    simp [read, bytes]

theorem shown_received {cid : Nat} (place : p = .inFlight cid ∨ p = .received cid)
    (readable : Readable p m) : shown m = m.content := by
  have none_ : m.isPersistent = true → m.cachedStorageBytes = none := by
    rcases place with rfl | rfl <;> exact readable
  unfold shown
  split
  · rename_i persistent
    rw [none_ persistent]
    rfl
  · rfl

end Shown

theorem origin_readable {d e : Destination} {call : Call} (readable : Tracked Readable d []) {p : Place}
    {m : Message} (origin : Origin d call e p m) : Readable p m := by
  cases origin with
  | kept here => exact readable.origin p m here
  | replayed asked record place shell new =>
    exact readable_waits place (retimed_bytes shell fun _ => ⟨_, rfl⟩)
  | pushed sends target object takes place copy located new =>
    exact readable_waits place (cached_bytes copy.cached)
  | staged sends transaction copy location new => exact cached_bytes copy.cached
  | delivered commit target object was place retimed oid =>
    exact readable_waits place (retimed_bytes retimed (readable.origin _ _ was))
  | received recv object was opened place =>
    have read := (opened_shown opened (readable.origin _ _ was)).2.2
    rcases place with rfl | rfl <;> exact read
  | redelivered gives object transacted was within again place =>
    exact readable_waits place (cached_bytes again.cached)
  | due fires was =>
    have bytes : Readable (.scheduled _) m := readable.origin _ _ was
    exact bytes
  | deadLettered accepts_ made place copy located new =>
    exact readable_waits place (cached_bytes copy.cached)

theorem step_readable {d : Destination} (readable : Tracked Readable d []) (call : Call) :
    Tracked Readable (next d call) [] := by
  have unique : HeldOnce d := readable.mono fun _ _ _ _ => trivial
  exact (step_origin unique call).mono fun _ _ _ origin => origin_readable readable origin

/-- Nothing in memory, whatever the storages hold. -/
def Idle (d : Destination) : Prop := ∀ p, messagesAt d p = []

theorem Idle.tracked {d : Destination} (idle : Idle d) (src : Place → Message → Prop) :
    Tracked src d [] where
  origin := by
    intro p m inside
    rw [idle p] at inside
    cases inside
  once := by
    intro p
    rw [idle p]
    exact List.nodup_nil
  apart := by
    intro p p' m m' inside
    rw [idle p] at inside
    cases inside
  single := List.nodup_nil
  free := by simp
  made := by
    intro p m inside
    rw [idle p] at inside
    cases inside
  known := by simp

def Joins (d : Destination) (cid : Nat) (c : Consumer) : Call → Prop
  | .createDefaultConsumer id mode => cid = id ∧ d.isQueueFamily = true ∧
      settings c = (mode, .shared, .shared, none)
  | .createConsumer _ id mode selector => cid = id ∧
      settings c = (mode, if d.isQueueFamily then .shared else .own id, .shared, selector)
  | .createDurableConsumer _ id mode clientID name selector => cid = id ∧ d.isTopicFamily = true ∧
      settings c = (mode, .own id,
        ((get d.durableSubs (durableKey clientID name)).map DurableSubState.storage).getD
          (.sub (durableDirectory clientID name)), selector)
  | _ => False

def Joined (d : Destination) (call : Call) (e : Destination) : Prop :=
  ∀ cid c', get e.objects cid = some c' →
    (∃ c, get d.objects cid = some c ∧ settings c = settings c') ∨ Joins d cid c' call

section Joined
variable {d e : Destination} {call : Call}

theorem Steady.joined (steady : Steady d e) : Joined d call e :=
  fun _ _ object => Or.inl (steady.found_before object)

theorem joined_same (objects : e.objects = d.objects) : Joined d call e := by
  intro cid c' object
  rw [objects] at object
  exact Or.inl ⟨c', object, rfl⟩

theorem joined_erase (joined : Joined d call e) (id : Nat) :
    Joined d call { e with objects := erase e.objects id } := by
  intro cid c' object
  by_cases here : cid = id
  · rw [here] at object
    simp at object
  · simp only [get_erase_other e.objects here] at object
    exact joined cid c' object

theorem joined_put (joined : Joined d call e) {id : Nat} {c : Consumer} (joins : Joins d id c call) :
    Joined d call (e.setObject id c) := by
  intro cid c' object
  by_cases here : cid = id
  · subst here
    simp only [Destination.setObject, get_put_same, Option.some.injEq] at object
    subst object
    exact Or.inr joins
  · simp only [Destination.setObject, get_put_other e.objects c here] at object
    exact joined cid c' object

theorem dropDefault_joined (d : Destination) : Joined d call d.dropDefault := by
  unfold Destination.dropDefault
  split
  · exact joined_same rfl
  · rename_i old _
    exact joined_erase (joined_same rfl) old

theorem createConsumer_joined (env : Env) (id : Nat) (mode : AcknowledgeMode)
    (selector : Option Selector) :
    Joined d (.createConsumer env id mode selector) (d.createConsumer env id mode selector) := by
  unfold Destination.createConsumer
  split
  · rename_i family
    have joined : Joined d (.createConsumer env id mode selector)
        (d.dropDefault.setObject id ⟨mode,.shared,.shared,selector,[],.empty,[]⟩) := by
      refine joined_put (dropDefault_joined d) ⟨rfl, ?_⟩
      simp [settings, family]
    dsimp only
    split
    · unfold Joined
      dsimp only
      rw [(replayFromStorage_same env _ _ _).objects]
      exact joined
    · exact joined
  · rename_i family
    refine joined_put (joined_same rfl) ⟨rfl, ?_⟩
    simp [settings, family]

theorem createDurableConsumer_joined (env : Env) (id : Nat) (mode : AcknowledgeMode)
    (clientID name : Text) (selector : Option Selector) :
    Joined d (.createDurableConsumer env id mode clientID name selector)
      (d.createDurableConsumer env id mode clientID name selector).1 := by
  have attached : ∀ sub : DurableSubState, d.isTopicFamily = true → sub.storage =
      ((get d.durableSubs (durableKey clientID name)).map DurableSubState.storage).getD
        (.sub (durableDirectory clientID name)) →
      Joined d (.createDurableConsumer env id mode clientID name selector)
        (d.attachDurable env id mode (durableKey clientID name) sub selector) := by
    intro sub topic storage
    have joined : Joined d (.createDurableConsumer env id mode clientID name selector)
        (d.setObject id ⟨mode,.own id,sub.storage,selector,[],.empty,[]⟩) := by
      refine joined_put (joined_same rfl) ⟨rfl, topic, ?_⟩
      simp [settings, storage]
    unfold Destination.attachDurable Joined
    dsimp only
    rw [(replayFromStorage_same env _ _ _).objects]
    exact joined
  unfold Destination.createDurableConsumer
  split
  · exact joined_same rfl
  · rename_i refused
    have topic : d.isTopicFamily = true := not_not.mp refused
    dsimp only
    split
    · rename_i missing
      exact attached _ topic (by rw [missing]; rfl)
    · rename_i sub found
      split
      · exact joined_same rfl
      · exact attached sub topic (by rw [found]; rfl)

end Joined

theorem step_joined (d : Destination) (call : Call) : Joined d call (next d call) := by
  cases call with
  | createDefaultConsumer id mode =>
    simp only [next, step, Destination.createDefaultConsumer]
    split
    · rename_i family
      exact joined_put (c := ⟨mode,.shared,.shared,none,[],.empty,[]⟩) (joined_same rfl)
        ⟨rfl, family, rfl⟩
    · exact joined_same rfl
  | createConsumer env id mode selector => exact createConsumer_joined env id mode selector
  | createDurableConsumer env id mode clientID name selector =>
    exact createDurableConsumer_joined env id mode clientID name selector
  | deleteConsumer id => exact joined_same (deleteConsumer_objects d id).1
  | destroyConsumer env id =>
    simp only [next, step, Destination.destroyConsumer]
    split
    · exact joined_same rfl
    · rename_i c object
      exact joined_erase (Steady.joined ((flushPendingAcks_steady d id object (c := c) rfl).trans
        (rollbackConsumer_steady env _ id false))) id
  | deleteSubscription clientID name => exact joined_same (deleteSubscription_objects d clientID name).1
  | rehash l => exact joined_same (rehash_objects d l).1
  | restart env =>
    intro cid c' object
    simp [next, step, Destination.restart] at object
  | _ => exact Steady.joined (step_steady d rfl)

abbrev Exchange := Nat → Destination

def nextOn (w : Exchange) (x : Nat × Call) : Exchange := Function.update w x.1 (next (w x.1) x.2)

theorem nextOn_same (w : Exchange) (x : Nat × Call) : nextOn w x x.1 = next (w x.1) x.2 :=
  Function.update_self ..

theorem nextOn_other (w : Exchange) (x : Nat × Call) {did : Nat} (apart : did ≠ x.1) :
    nextOn w x did = w did :=
  Function.update_of_ne apart ..

theorem nextOn_everywhere {P : Destination → Prop} (kept : ∀ d call, P d → P (next d call))
    (w : Exchange) (x : Nat × Call) (all : ∀ did, P (w did)) (did : Nat) : P (nextOn w x did) := by
  by_cases here : did = x.1
  · rw [here, nextOn_same]
    exact kept _ _ (all x.1)
  · rw [nextOn_other w x here]
    exact all did

theorem everywhere_reached {P : Destination → Prop} (kept : ∀ d call, P d → P (next d call))
    {start : Exchange} (all : ∀ did, P (start did)) (calls : List (Nat × Call)) :
    ∀ w ∈ states nextOn start calls, ∀ did, P (w did) := by
  refine invariant_reached ?_ all calls
  intro w x here
  exact nextOn_everywhere kept w x here

end TinyMqInversion
