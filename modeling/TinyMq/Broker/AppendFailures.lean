import TinyMq.Broker.Records

/-!
What a sender learns of a failed append: nothing. The worker logs the exception
and signals the caller all the same, so `send` and `commit` return normally; the
records they had to write are in the log exactly when no append of theirs failed.
-/
namespace TinyMqAppendFailures
open DelimitedText AssocLists TombstoneLog TinyMqTom TinyMqMessage TinyMqStore
open TinyMqDestination TinyMqSession TinyMqRecords

/-- Each record is live in the log of its storage, behind what was there before. -/
def AllStored (before after : Stores) (records : List Addressed) : Prop :=
  ∀ sid, (after sid).log = (before sid).log ++ stored (recordsFor sid records)

def NothingFails (env : Env) (stores : Stores) (records : List Addressed) : Prop :=
  ∀ sid, NoneFails (env.appendFails sid) (stores sid) (recordsFor sid records)

theorem appends_allStored {env : Env} {d d' : Destination} {records : List Addressed}
    (appended : Appends env d d' records) :
    AllStored d.stores d'.stores records ↔ NothingFails env d.stores records := by
  unfold AllStored NothingFails
  apply forall_congr'
  intro sid
  rw [appended.stores, appendAll_at]
  exact appends_stored_iff _ _ _

theorem sendWith_appends (env : Env) {d : Destination} {pid : Nat} {p : Producer}
    (found : get d.producers pid = some p) (m : Message) {opts : SendOptions}
    (valid : validateSendOptions opts = .ok ()) :
    (d.sendWith env pid [] m opts).2 =
        .ok (fillHeaders env p (applyOptions env m opts false)) ∧
      Appends env d (d.sendWith env pid [] m opts).1
        (sendRecords env d (fillHeaders env p (applyOptions env m opts false))) := by
  simp only [Destination.sendWith, found, valid]
  exact ⟨rfl, save_appends env d pid _⟩

/- The calls return in every case; only the log tells a failure. -/
theorem returned_stored_iff :
    (∀ (env : Env) (d : Destination) (pid : Nat) (p : Producer) (m : Message),
      get d.producers pid = some p →
        (d.send env pid [] m).2 = prepared env p [] m ∧
        (AllStored d.stores (d.send env pid [] m).1.stores
            (sendRecords env d (prepared env p [] m)) ↔
          NothingFails env d.stores (sendRecords env d (prepared env p [] m)))) ∧
    (∀ (env : Env) (d : Destination) (pid : Nat) (p : Producer) (m : Message) (opts : SendOptions),
      get d.producers pid = some p → validateSendOptions opts = .ok () →
        ∃ m', (d.sendWith env pid [] m opts).2 = .ok m' ∧
          (AllStored d.stores (d.sendWith env pid [] m opts).1.stores (sendRecords env d m') ↔
            NothingFails env d.stores (sendRecords env d m'))) ∧
    ∀ (env : Env) (w : World) (sid : Nat) (s : Session) (suffix : Text) (did : Nat)
      (d : Destination), w.sessions sid = some s → w.destinations did = some d →
        (w.commit env sid suffix).destinations =
          ((w.commitProducers env s.suffix s.producers).commitConsumers s.consumers).destinations ∧
        ∃ d', (w.commitProducers env s.suffix s.producers).destinations did = some d' ∧
          (AllStored d.stores d'.stores (sessionRecords env s.suffix did d s.producers) ↔
            NothingFails env d.stores (sessionRecords env s.suffix did d s.producers)) := by
  refine ⟨?_, ?_, ?_⟩
  · intro env d pid p m found
    constructor
    · simp only [Destination.send, found]
    · exact appends_allStored (send_appends env found m)
  · intro env d pid p m opts found valid
    obtain ⟨returned, appended⟩ := sendWith_appends env found m valid
    exact ⟨_, returned, appends_allStored appended⟩
  · intro env w sid s suffix did d session here
    constructor
    · simp only [World.commit, session]
      rfl
    · obtain ⟨d', there, appended⟩ := commitProducers_appends env s.suffix s.producers here
      exact ⟨d', there, appends_allStored appended⟩

def mailbox : Destination :=
  (({ type := .Queue } : Destination).createDefaultConsumer 0 .AUTO_ACKNOWLEDGE).createProducer 5
    .AUTO_ACKNOWLEDGE

def mailProducer : Producer := { mode := .AUTO_ACKNOWLEDGE }

theorem returned_stored_iff_mail :
    AllStored mailbox.stores (mailbox.send calm 5 [] (letter 0 7)).1.stores
        (sendRecords calm mailbox (prepared calm mailProducer [] (letter 0 7))) ∧
      recordsFor .shared (sendRecords calm mailbox (prepared calm mailProducer [] (letter 0 7))) ≠
        [] := by
  refine ⟨?_, by decide⟩
  apply (returned_stored_iff.1 calm mailbox 5 mailProducer (letter 0 7) rfl).2.mpr
  intro sid
  exact Or.inr ⟨rfl, fun _ _ => rfl⟩

def broken : Env := { calm with appendFails := fun _ _ => true }

/- The append throws in the worker: `send` returns, the queue holds the message, the log does not. -/
theorem failed_append_unseen :
    (mailbox.sendWith broken 5 [] (letter 0 7) { deliveryMode := .PERSISTENT }).2.isOk = true ∧
      ((mailbox.sendWith broken 5 [] (letter 0 7) { deliveryMode := .PERSISTENT }).1.queues
        .shared).toList.map Message.uuid = [7] ∧
      ((mailbox.sendWith broken 5 [] (letter 0 7) { deliveryMode := .PERSISTENT }).1.stores
        .shared).log = [] := by
  decide

end TinyMqAppendFailures
