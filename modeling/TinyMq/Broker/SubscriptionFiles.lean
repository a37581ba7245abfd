import TinyMq.Broker.QueueRuns

/-!
The directories of durable subscriptions. A directory name is read as a path under the
topic's directory, and the end of a subscription removes its directory with all that is
below it, be it the directory of another one.
-/
namespace TinyMqSubscriptionFiles
open DelimitedText AssocLists TinyMqTom TinyMqMessage TinyMqStore TinyMqDestination TinyMqFrames
open TinyMqQueueRuns

/-- The components of the path that a directory name leads to. -/
abbrev Paths := Text → List Text

/-- Neither directory is the other one or lies below it. -/
def Beside (opens : Paths) (a b : Text) : Prop := ¬ opens a <+: opens b ∧ ¬ opens b <+: opens a

theorem Beside.ne {opens : Paths} {a b : Text} (beside : Beside opens a b) : a ≠ b := by
  rintro rfl
  exact beside.1 (List.prefix_refl _)

/-- The files of the storage are in the directory or below it. -/
def Below (opens : Paths) (directory : Text) : StorageId → Prop
  | .shared => opens directory = []
  | .sub other => opens directory <+: opens other

instance (opens : Paths) (directory : Text) : ∀ sid, Decidable (Below opens directory sid)
  | .shared => inferInstanceAs (Decidable (_ = _))
  | .sub _ => inferInstanceAs (Decidable (_ <+: _))

/-- `dir.remove(true)`. -/
def removeFiles (opens : Paths) (d : Destination) (directory : Text) : Destination :=
  { d with stores := fun sid => if Below opens directory sid then {} else d.stores sid }

/-- `deleteSubscription` with the directories below that of the subscription. -/
def unsubscribe (opens : Paths) (d : Destination) (clientID subscriptionName : Text) : Destination :=
  match get d.durableSubs (durableKey clientID subscriptionName) with
  | none => d
  | some sub => removeFiles opens (d.deleteSubscription clientID subscriptionName) sub.directory

/-- What the topic does on a call, with all that the end of a subscription removes. -/
def nextWith (opens : Paths) (d : Destination) : Call → Destination
  | .deleteSubscription clientID name => unsubscribe opens d clientID name
  | call => next d call

section Files
variable {opens : Paths} {d : Destination} {clientID name : Text}

theorem deleteSubscription_absent (absent : get d.durableSubs (durableKey clientID name) = none) :
    d.deleteSubscription clientID name = d := by
  unfold Destination.deleteSubscription
  dsimp only
  rw [absent]

theorem deleteSubscription_kept (d : Destination) (clientID name : Text) :
    (d.deleteSubscription clientID name).objects = d.objects ∧
      (d.deleteSubscription clientID name).queues = d.queues ∧
      (d.deleteSubscription clientID name).pending = d.pending ∧
      ∀ sid, (∀ sub, get d.durableSubs (durableKey clientID name) = some sub → sid ≠ sub.storage) →
        (d.deleteSubscription clientID name).stores sid = d.stores sid := by
  have left : ∀ (d : Destination) (id : Nat), (d.deleteConsumer id).objects = d.objects ∧
      (d.deleteConsumer id).queues = d.queues ∧ (d.deleteConsumer id).pending = d.pending ∧
      (d.deleteConsumer id).stores = d.stores := by
    intro d id
    unfold Destination.deleteConsumer
    dsimp only
    split <;> exact ⟨rfl, rfl, rfl, rfl⟩
  unfold Destination.deleteSubscription
  dsimp only
  split
  · exact ⟨rfl, rfl, rfl, fun _ _ => rfl⟩
  · rename_i sub found
    cases sub.active with
    | none => exact ⟨rfl, rfl, rfl, fun sid other => Function.update_of_ne (other sub found) _ _⟩
    | some id =>
      obtain ⟨objects, queues, pending, same⟩ := left d id
      refine ⟨objects, queues, pending, ?_⟩
      intro sid other
      simp only [same]
      exact Function.update_of_ne (other sub found) _ _

theorem unsubscribe_eq (opens : Paths) (d : Destination) (clientID name : Text) :
    unsubscribe opens d clientID name =
      { d.deleteSubscription clientID name with
        stores := (unsubscribe opens d clientID name).stores } := by
  unfold unsubscribe
  split
  · rename_i absent
    rw [deleteSubscription_absent absent]
  · rfl

theorem unsubscribe_kept (opens : Paths) (d : Destination) (clientID name : Text) :
    (unsubscribe opens d clientID name).objects = d.objects ∧
      (unsubscribe opens d clientID name).queues = d.queues ∧
      (unsubscribe opens d clientID name).pending = d.pending := by
  obtain ⟨objects, queues, pending, _⟩ := deleteSubscription_kept d clientID name
  rw [unsubscribe_eq]
  exact ⟨objects, queues, pending⟩

theorem unsubscribe_beside {other : Text}
    (beside : ∀ sub, get d.durableSubs (durableKey clientID name) = some sub →
      Beside opens sub.directory other) :
    (unsubscribe opens d clientID name).stores (.sub other) = d.stores (.sub other) := by
  unfold unsubscribe
  split
  · rfl
  · rename_i sub found
    unfold removeFiles
    dsimp only
    rw [if_neg (show ¬ Below opens sub.directory (.sub other) from (beside sub found).1)]
    refine (deleteSubscription_kept d clientID name).2.2.2 _ ?_
    intro sub' found' same
    exact (beside sub' found').ne (StorageId.sub.inj same).symm

theorem unsubscribe_steady (opens : Paths) (d : Destination) (clientID name : Text) :
    Steady (d.deleteSubscription clientID name) (unsubscribe opens d clientID name) := by
  rw [unsubscribe_eq]
  exact ⟨rfl, rfl, fun _ => rfl, rfl, rfl⟩

theorem removeFiles_stores (opens : Paths) (d : Destination) (directory : Text) (sid : StorageId) :
    (removeFiles opens d directory).stores sid = d.stores sid ∨
      (removeFiles opens d directory).stores sid = {} := by
  unfold removeFiles
  dsimp only
  split
  · exact Or.inr rfl
  · exact Or.inl rfl

theorem nextWith_eq (opens : Paths) (d : Destination) (call : Call) :
    nextWith opens d call = { next d call with stores := (nextWith opens d call).stores } := by
  cases call with
  | deleteSubscription clientID name => exact unsubscribe_eq opens d clientID name
  | _ => rfl

theorem nextWith_stores (opens : Paths) (d : Destination) (call : Call) (sid : StorageId) :
    (nextWith opens d call).stores sid = (next d call).stores sid ∨
      (nextWith opens d call).stores sid = {} := by
  cases call with
  | deleteSubscription clientID name =>
    simp only [nextWith, next, step, unsubscribe]
    split
    · rename_i absent
      rw [deleteSubscription_absent absent]
      exact Or.inl rfl
    · exact removeFiles_stores opens _ _ sid
  | _ => exact Or.inl rfl

theorem nextWith_steady (opens : Paths) (d : Destination) (call : Call) :
    Steady (next d call) (nextWith opens d call) := by
  rw [nextWith_eq]
  exact ⟨rfl, rfl, fun _ => rfl, rfl, rfl⟩

end Files

/-- The components between the slashes. -/
def slashes : Paths := fun t => t.splitOn '/'

end TinyMqSubscriptionFiles
