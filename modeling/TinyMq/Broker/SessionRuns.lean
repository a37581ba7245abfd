import TinyMq.Lib.Machines
import TinyMq.Broker.Frames

/-!
Runs of any number of sessions on one exchange: sessions, destinations, producers
and consumers come and go, messages are sent, transactions end. Sessions,
producers and consumers get names from one counter, as the uuid generator never
gives one twice. A commit or a rollback may be left by an exception of one of the
session's producers or consumers.
-/
namespace TinyMqSessionRuns
open DelimitedText AssocLists TinyMqTom TinyMqMessage TinyMqStore TinyMqDestination TinyMqSession
open TinyMqFrames Machines

/-- A call is about messages and records: who is registered, and how each producer works, is as
    before. -/
structure Kin (d d' : Destination) : Prop where
  type : d'.type = d.type
  consumers : d'.consumers = d.consumers
  default : d'.defaultConsumer = d.defaultConsumer
  modes : ∀ pid, (get d'.producers pid).map Producer.mode = (get d.producers pid).map Producer.mode

theorem Kin.refl (d : Destination) : Kin d d := ⟨rfl, rfl, rfl, fun _ => rfl⟩

theorem Kin.trans {d d' d'' : Destination} (one : Kin d d') (two : Kin d' d'') : Kin d d'' where
  type := two.type.trans one.type
  consumers := two.consumers.trans one.consumers
  default := two.default.trans one.default
  modes pid := (two.modes pid).trans (one.modes pid)

theorem Kin.after {d e d' : Destination} (kin : Kin e d') (start : Kin d e) : Kin d d' :=
  start.trans kin

theorem Kin.queueFamily {d d' : Destination} (kin : Kin d d') :
    d'.isQueueFamily = d.isQueueFamily := by
  unfold Destination.isQueueFamily
  rw [kin.type]

theorem kin_fold {ι : Type} {g : Destination → ι → Destination} (one : ∀ d i, Kin d (g d i))
    (l : List ι) (d : Destination) : Kin d (l.foldl g d) := by
  induction l generalizing d with
  | nil => exact Kin.refl d
  | cons i l ih => exact (one d i).trans (ih (g d i))

section Calls
variable (env : Env) (d : Destination)

theorem enqueueOrSchedule_kin (q : QueueId) (m : Message) :
    Kin d (d.enqueueOrSchedule env q m) := by
  have stays := enqueueOrSchedule_stays env d q m
  refine ⟨stays.same.type, stays.same.consumers, stays.default, ?_⟩
  intro pid
  unfold Destination.enqueueOrSchedule
  dsimp only
  split
  · rfl
  · split
    · split <;> rfl
    · rfl

theorem dropRecord_kin (c : Consumer) (m : Message) : Kin d (d.dropRecord c m) := by
  have stays := dropRecord_stays d c m
  refine ⟨stays.same.type, stays.same.consumers, stays.default, ?_⟩
  intro pid
  unfold Destination.dropRecord Destination.removeLocated
  split
  · split <;> rfl
  · rfl

theorem preparePush_kin (cid : Nat) (c : Consumer) (number : Int) (t : Text) (m : Message) :
    Kin d (d.preparePush env cid c number t m).1 := by
  have stays := preparePush_stays env d cid c number t m
  refine ⟨stays.same.type, stays.same.consumers, stays.default, ?_⟩
  intro pid
  unfold Destination.preparePush
  dsimp only
  split
  · split <;> rfl
  · rfl

theorem put_producer_kin {d : Destination} {pid : Nat} {p q : Producer}
    (found : get d.producers pid = some p) (same : q.mode = p.mode) :
    Kin d { d with producers := put d.producers pid q } where
  type := rfl
  consumers := rfl
  default := rfl
  modes i := by
    by_cases here : i = pid
    · subst here
      simp [found, same]
    · simp [get_put_other d.producers q here]

theorem stage_kin (pid : Nat) (m : Message) : Kin d (d.stage pid m) := by
  unfold Destination.stage
  cases found : get d.producers pid with
  | none => exact Kin.refl d
  | some p => exact put_producer_kin found rfl

theorem push_kin (number : Int) (pid : Nat) (t : Text) (m : Message) (cid : Nat) :
    Kin d (Destination.push env number pid t m d cid) := by
  unfold Destination.push
  cases get d.objects cid with
  | none => exact Kin.refl d
  | some c =>
    dsimp only
    split
    · have prepared := preparePush_kin env d cid c number t m
      split
      · split
        · exact prepared.trans (enqueueOrSchedule_kin env _ _ _)
        · exact prepared.trans ⟨rfl, rfl, rfl, fun _ => rfl⟩
      · exact prepared.trans (stage_kin _ _ _)
    · exact Kin.refl d

theorem persistOffline_kin (m : Message) : Kin d (d.persistOffline env m) := by
  refine kin_fold ?_ d.durableSubs d
  intro e entry
  split
  · exact Kin.refl e
  · split
    · exact ⟨rfl, rfl, rfl, fun _ => rfl⟩
    · exact Kin.refl e

theorem save_kin (pid : Nat) (t : Text) (m : Message) : Kin d (d.save env pid t m) := by
  have counted : Kin d { d with messageCounter := d.messageCounter + 1 } :=
    ⟨rfl, rfl, rfl, fun _ => rfl⟩
  have pushed := kin_fold (fun e cid => push_kin env e d.messageCounter pid t m cid)
    (Destination.targets { d with messageCounter := d.messageCounter + 1 })
    { d with messageCounter := d.messageCounter + 1 }
  unfold Destination.save
  dsimp only
  split
  · exact (counted.trans pushed).trans (persistOffline_kin env _ m)
  · exact counted.trans pushed

theorem send_kin (pid : Nat) (t : Text) (m : Message) : Kin d (d.send env pid t m).1 := by
  unfold Destination.send
  cases get d.producers pid with
  | none => exact Kin.refl d
  | some p => exact save_kin env d pid t _

theorem sendWith_kin (pid : Nat) (t : Text) (m : Message) (opts : SendOptions) :
    Kin d (d.sendWith env pid t m opts).1 := by
  unfold Destination.sendWith
  cases get d.producers pid with
  | none => exact Kin.refl d
  | some p =>
    dsimp only
    split
    · exact Kin.refl d
    · exact save_kin env d pid t _

theorem deliverCommitted_kin (m : Message) : Kin d (d.deliverCommitted env m) := by
  unfold Destination.deliverCommitted
  split
  · split
    · exact Kin.refl d
    · split
      · exact Kin.refl d
      · exact enqueueOrSchedule_kin env d _ m
  · have given : Kin d (d.consumers.foldl (Destination.deliverTo env m) d) := by
      refine kin_fold ?_ d.consumers d
      intro e cid
      unfold Destination.deliverTo
      split
      · exact Kin.refl e
      · exact (enqueueOrSchedule_kin env _ _ _).after ⟨rfl, rfl, rfl, fun _ => rfl⟩
    dsimp only
    split
    · exact given.trans (persistOffline_kin env _ m)
    · exact given

theorem commitProducer_kin (pid : Nat) (t : Text) : Kin d (d.commitProducer env pid t) := by
  unfold Destination.commitProducer
  cases found : get d.producers pid with
  | none => exact Kin.refl d
  | some p =>
    dsimp only
    split
    · have cleared : Kin d (d.clearStaged pid p) := put_producer_kin found rfl
      have patched := kin_fold (g := Destination.patchPending env)
        (fun e m => by unfold Destination.patchPending; split <;> exact ⟨rfl, rfl, rfl, fun _ => rfl⟩)
        p.transactQueue.toList (d.clearStaged pid p)
      have flushed : ∀ e : Destination, Kin e (e.commitTransaction env t) := by
        intro e
        unfold Destination.commitTransaction
        split <;> exact ⟨rfl, rfl, rfl, fun _ => rfl⟩
      have delivered := kin_fold (g := Destination.deliverCommitted env)
        fun e m => deliverCommitted_kin env e m
      exact ((cleared.trans patched).trans (flushed _)).trans (delivered _ _)
    · exact Kin.refl d

theorem rollbackProducer_kin (pid : Nat) (t : Text) : Kin d (d.rollbackProducer env pid t) := by
  unfold Destination.rollbackProducer
  cases found : get d.producers pid with
  | none => exact Kin.refl d
  | some p =>
    dsimp only
    split
    · split
      · exact put_producer_kin found rfl
      · have forgotten : Kin d { d with buffer := d.buffer.rollbackTransaction env.stamp t } :=
          ⟨rfl, rfl, rfl, fun _ => rfl⟩
        exact forgotten.trans (put_producer_kin found rfl)
    · exact Kin.refl d

theorem commitConsumer_kin (cid : Nat) : Kin d (d.commitConsumer cid) := by
  unfold Destination.commitConsumer
  split
  · exact Kin.refl d
  · next c _ =>
    split
    · exact (kin_fold (fun e m => dropRecord_kin e c m) c.transactQueue.toList _).after
        ⟨rfl, rfl, rfl, fun _ => rfl⟩
    · exact Kin.refl d

theorem redeliverAll_kin (c : Consumer) (closing : Bool) (ms : List Message) :
    Kin d (d.redeliverAll env c closing ms).1 := by
  induction ms generalizing d with
  | nil => exact Kin.refl d
  | cons m ms ih =>
    have one : Kin d (d.redeliver env c closing m).1 := by
      unfold Destination.redeliver
      dsimp only
      split
      · exact dropRecord_kin d c _
      · dsimp only
        split
        · exact enqueueOrSchedule_kin env d _ _
        · exact ⟨rfl, rfl, rfl, fun _ => rfl⟩
    exact one.trans (ih (d.redeliver env c closing m).1)

theorem rollbackConsumer_kin (cid : Nat) (closing : Bool) :
    Kin d (d.rollbackConsumer env cid closing).1 := by
  unfold Destination.rollbackConsumer
  split
  · exact Kin.refl d
  · split
    · exact (redeliverAll_kin env _ _ _ _).after ⟨rfl, rfl, rfl, fun _ => rfl⟩
    · exact Kin.refl d

theorem recover_kin (cid : Nat) : Kin d (d.recover env cid).1 := by
  unfold Destination.recover
  split
  · exact Kin.refl d
  · exact (redeliverAll_kin env _ _ _ _).after ⟨rfl, rfl, rfl, fun _ => rfl⟩

theorem replayFromStorage_kin (q : QueueId) (sid : StorageId) :
    Kin d (d.replayFromStorage env q sid) := by
  refine kin_fold ?_ _ d
  intro e x
  exact (enqueueOrSchedule_kin env _ _ _).after ⟨rfl, rfl, rfl, fun _ => rfl⟩

theorem acceptDeadLetter_kin (m : Message) : Kin d (acceptDeadLetter env m d) := by
  unfold acceptDeadLetter
  dsimp only
  split
  all_goals
    split
    · exact (enqueueOrSchedule_kin env _ _ _).after ⟨rfl, rfl, rfl, fun _ => rfl⟩
    · exact ⟨rfl, rfl, rfl, fun _ => rfl⟩

end Calls

abbrev TransactionId := { t : Text // t ≠ [] }

def someId : TransactionId := ⟨['a'], List.cons_ne_nil _ _⟩

/-- What a call of a producer or a consumer has done when an exception leaves it. -/
structure Interrupted where
  effect : Destination → Destination
  kin : ∀ d, Kin d (effect d)

/-- The loops of `commit` and `rollback`: first the producers, then the consumers. -/
def participants (s : Session) : List ((Nat × Nat) ⊕ (Nat × Nat)) :=
  s.producers.map .inl ++ s.consumers.map .inr

def destinationOf : (Nat × Nat) ⊕ (Nat × Nat) → Nat
  | .inl p => p.2
  | .inr c => c.2

def commitPart (env : Env) (suffix : Text) (w : World) : (Nat × Nat) ⊕ (Nat × Nat) → World
  | .inl p => w.onDestination p.2 fun d => d.commitProducer env p.1 suffix
  | .inr c => w.onDestination c.2 fun d => d.commitConsumer c.1

def rollbackPart (env : Env) (closing : Bool) (suffix : Text) (w : World) :
    (Nat × Nat) ⊕ (Nat × Nat) → World
  | .inl p => w.onDestination p.2 fun d => d.rollbackProducer env p.1 suffix
  | .inr c => w.redelivering env c.2 fun d => d.rollbackConsumer env c.1 closing

/-- The loop ends with an exception of the participant after the first `done` ones: `_suffix`
    was cleared and is not set again. Without such a participant nothing throws. -/
def World.throws (w : World) (sid : Nat) (part : Text → World → (Nat × Nat) ⊕ (Nat × Nat) → World)
    (done : Nat) (left : Interrupted) : World :=
  match w.sessions sid with
  | none => w
  | some s =>
    match (participants s)[done]? with
    | none => w
    | some thrower =>
      ((((participants s).take done).foldl (part s.suffix) w).onDestination (destinationOf thrower)
        left.effect).setSession sid { s with suffix := [] }

theorem commit_participants (env : Env) (w : World) (sid : Nat) (t : Text) {s : Session}
    (found : w.sessions sid = some s) :
    w.commit env sid t =
      ((participants s).foldl (commitPart env s.suffix) w).setSession sid { s with suffix := t } := by
  simp [World.commit, found, participants, World.commitProducers, World.commitConsumers,
    List.foldl_map, commitPart]

theorem rollback_participants (env : Env) (w : World) (sid : Nat) (closing : Bool) (t : Text)
    {s : Session} (found : w.sessions sid = some s) :
    w.rollback env sid closing t = ((participants s).foldl (rollbackPart env closing s.suffix)
      w).setSession sid { s with suffix := t } := by
  simp [World.rollback, found, participants, World.rollbackProducers, World.rollbackConsumers,
    List.foldl_map, rollbackPart]

def World.sendWith (env : Env) (w : World) (sid pid : Nat) (m : Message) (opts : SendOptions) :
    World :=
  match w.sessions sid with
  | none => w
  | some s =>
    match get s.producers pid with
    | none => w
    | some did => w.onDestination did fun d => (d.sendWith env pid s.suffix m opts).1

/-- `createDurableConsumer`; on an exception nothing has been done. -/
def World.createDurableConsumer (env : Env) (w : World) (sid did cid : Nat)
    (clientID subscriptionName : Text) (selector : Option Selector) : World :=
  match w.sessions sid, w.destinations did with
  | some s, some d =>
    let create (d : Destination) :=
      d.createDurableConsumer env cid s.mode clientID subscriptionName selector
    match (create d).2 with
    | .error _ => w
    | .ok _ => (w.onDestination did fun d => (create d).1).setSession sid
        { s with consumers := put s.consumers cid did }
  | _, _ => w

def World.unsubscribe (w : World) (did : Nat) (clientID subscriptionName : Text) : World :=
  w.onDestination did fun d => d.deleteSubscription clientID subscriptionName

/-- By which session a consumer was created, and whether as the default one. -/
structure Owner where
  session : Nat
  default : Bool
  deriving DecidableEq

structure Run where
  world : World := {}
  nextId : Nat := 0
  owner : Nat → Option Owner := fun _ => none

inductive Act where
  | createSession (mode : AcknowledgeMode) (id : TransactionId)
  | createDestination (sid did : Nat) (type : DestinationType)
  | createConsumer (env : Env) (sid did : Nat) (selector : Option Selector)
  | createDurableConsumer (env : Env) (sid did : Nat) (clientID subscriptionName : Text)
      (selector : Option Selector)
  | deleteConsumer (sid cid : Nat)
  | unsubscribe (did : Nat) (clientID subscriptionName : Text)
  | createProducer (sid did : Nat)
  | deleteProducer (env : Env) (sid pid : Nat)
  | send (env : Env) (sid pid : Nat) (m : Message)
  | sendWith (env : Env) (sid pid : Nat) (m : Message) (opts : SendOptions)
  | commit (env : Env) (sid : Nat) (id : TransactionId)
  | commitThrows (env : Env) (sid done : Nat) (left : Interrupted)
  | rollback (env : Env) (sid : Nat) (id : TransactionId)
  | rollbackThrows (env : Env) (sid done : Nat) (left : Interrupted)
  | recover (env : Env) (sid : Nat)
  | closeSession (env : Env) (sid : Nat) (id : TransactionId)

def Run.to (r : Run) (w : World) : Run := { r with world := w }

def Run.owned (r : Run) (sid : Nat) (default : Bool) (w : World) : Run :=
  { world := w, nextId := r.nextId + 1,
    owner := Function.update r.owner r.nextId (some ⟨sid, default⟩) }

def Run.next (r : Run) : Act → Run
  | .createSession mode id =>
    { r with world := r.world.createSession r.nextId mode id.1, nextId := r.nextId + 1 }
  | .createDestination sid did type =>
    r.owned sid true (r.world.createDestination sid did type r.nextId)
  | .createConsumer env sid did selector =>
    r.owned sid false (r.world.createConsumer env sid did r.nextId selector)
  | .createDurableConsumer env sid did clientID name selector =>
    r.owned sid false
      (World.createDurableConsumer env r.world sid did r.nextId clientID name selector)
  | .deleteConsumer sid cid => r.to (r.world.deleteConsumer sid cid)
  | .unsubscribe did clientID name => r.to (World.unsubscribe r.world did clientID name)
  | .createProducer sid did =>
    { r with world := r.world.createProducer sid did r.nextId, nextId := r.nextId + 1 }
  | .deleteProducer env sid pid => r.to (r.world.deleteProducer env sid pid)
  | .send env sid pid m => r.to (r.world.send env sid pid m)
  | .sendWith env sid pid m opts => r.to (World.sendWith env r.world sid pid m opts)
  | .commit env sid id => r.to (r.world.commit env sid id.1)
  | .commitThrows env sid done left => r.to (World.throws r.world sid (commitPart env) done left)
  | .rollback env sid id => r.to (r.world.rollback env sid false id.1)
  | .rollbackThrows env sid done left => r.to (World.throws r.world sid (rollbackPart env false) done left)
  | .recover env sid => r.to (r.world.recover env sid)
  | .closeSession env sid id => r.to (r.world.closeSession env sid id.1)

/-- The sessions are as before, and the destinations have moved messages only. -/
structure Alike (w w' : World) : Prop where
  sessions : w'.sessions = w.sessions
  gone : ∀ did, w.destinations did = none → w'.destinations did = none
  kin : ∀ did d, w.destinations did = some d → ∃ d', w'.destinations did = some d' ∧ Kin d d'

theorem Alike.refl (w : World) : Alike w w := ⟨rfl, fun _ => id, fun _ d here => ⟨d, here, Kin.refl d⟩⟩

theorem Alike.trans {w w' w'' : World} (one : Alike w w') (two : Alike w' w'') : Alike w w'' where
  sessions := two.sessions.trans one.sessions
  gone did none := two.gone did (one.gone did none)
  kin did d here := by
    obtain ⟨d', there, kin⟩ := one.kin did d here
    obtain ⟨d'', after, more⟩ := two.kin did d' there
    exact ⟨d'', after, kin.trans more⟩

theorem Alike.before {w w' : World} (alike : Alike w w') {did : Nat} {d' : Destination}
    (there : w'.destinations did = some d') : ∃ d, w.destinations did = some d ∧ Kin d d' := by
  cases here : w.destinations did with
  | none =>
    rw [alike.gone did here] at there
    cases there
  | some d =>
    obtain ⟨e, same, kin⟩ := alike.kin did d here
    rw [there] at same
    cases same
    exact ⟨d, rfl, kin⟩

theorem onDestination_alike (w : World) (did : Nat) {f : Destination → Destination}
    (kin : ∀ d, Kin d (f d)) : Alike w (w.onDestination did f) := by
  unfold World.onDestination
  cases here : w.destinations did with
  | none => exact Alike.refl w
  | some d =>
    refine ⟨rfl, ?_, ?_⟩
    · intro i none
      have other : i ≠ did := by
        intro same
        rw [same, here] at none
        cases none
      simp only [Function.update_of_ne other]
      exact none
    · intro i e there
      by_cases same : i = did
      · subst same
        rw [here] at there
        cases there
        exact ⟨f d, by simp, kin d⟩
      · exact ⟨e, by simp only [Function.update_of_ne same]; exact there, Kin.refl e⟩

theorem alike_fold {ι : Type} {g : World → ι → World} (one : ∀ w i, Alike w (g w i)) (l : List ι)
    (w : World) : Alike w (l.foldl g w) := by
  induction l generalizing w with
  | nil => exact Alike.refl w
  | cons i l ih => exact (one w i).trans (ih (g w i))

theorem redelivering_alike (env : Env) (w : World) (did : Nat)
    {f : Destination → Destination × List Message} (kin : ∀ d, Kin d (f d).1) :
    Alike w (w.redelivering env did f) := by
  unfold World.redelivering
  cases here : w.destinations did with
  | none => exact Alike.refl w
  | some d =>
    have moved := onDestination_alike w did (f := fun d => (f d).1) kin
    simp only [World.onDestination, here] at moved
    refine moved.trans ?_
    unfold World.deadLetters
    dsimp only
    cases d.redeliveryPolicy.deadLetterQueue with
    | none => exact Alike.refl _
    | some dlq =>
      exact alike_fold (fun w m => onDestination_alike w dlq fun d => acceptDeadLetter_kin env d m) _ _

theorem commitPart_alike (env : Env) (suffix : Text) (w : World) (part : (Nat × Nat) ⊕ (Nat × Nat)) :
    Alike w (commitPart env suffix w part) := by
  cases part with
  | inl p => exact onDestination_alike w p.2 fun d => commitProducer_kin env d p.1 suffix
  | inr c => exact onDestination_alike w c.2 fun d => commitConsumer_kin d c.1

theorem rollbackPart_alike (env : Env) (closing : Bool) (suffix : Text) (w : World)
    (part : (Nat × Nat) ⊕ (Nat × Nat)) : Alike w (rollbackPart env closing suffix w part) := by
  cases part with
  | inl p => exact onDestination_alike w p.2 fun d => rollbackProducer_kin env d p.1 suffix
  | inr c => exact redelivering_alike env w c.2 fun d => rollbackConsumer_kin env d c.1 closing

theorem sessions_fold {ι : Type} {g : World → ι → World}
    (one : ∀ w i, (g w i).sessions = w.sessions) (l : List ι) (w : World) :
    (l.foldl g w).sessions = w.sessions := by
  induction l generalizing w with
  | nil => rfl
  | cons i l ih => exact (ih (g w i)).trans (one w i)

theorem send_alike (env : Env) (w : World) (sid pid : Nat) (m : Message) :
    Alike w (w.send env sid pid m) := by
  unfold World.send
  split
  · exact Alike.refl w
  · split
    · exact Alike.refl w
    · exact onDestination_alike w _ fun d => send_kin env d pid _ m

theorem sendWith_alike (env : Env) (w : World) (sid pid : Nat) (m : Message) (opts : SendOptions) :
    Alike w (World.sendWith env w sid pid m opts) := by
  unfold World.sendWith
  split
  · exact Alike.refl w
  · split
    · exact Alike.refl w
    · exact onDestination_alike w _ fun d => sendWith_kin env d pid _ m opts

theorem recover_alike (env : Env) (w : World) (sid : Nat) : Alike w (w.recover env sid) := by
  unfold World.recover
  split
  · exact Alike.refl w
  · split
    · exact Alike.refl w
    · exact alike_fold (fun w (c : Nat × Nat) =>
        redelivering_alike env w c.2 fun d => recover_kin env d c.1) _ _

end TinyMqSessionRuns
