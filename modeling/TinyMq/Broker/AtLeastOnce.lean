import TinyMq.Broker.RecordRemovals

/-!
A persistent message is delivered at least once. A record goes only when a call is done with
its message; every other one is there after a restart, and waits for the first consumer.
-/
namespace TinyMqAtLeastOnce
open DelimitedText AssocLists BandQueues Machines TombstoneLog TinyMqTom TinyMqMessage TinyMqStore
open TinyMqDestination TinyMqFrames TinyMqPlaces TinyMqQueueRuns TinyMqOrigins TinyMqInversion
open TinyMqCachedLocations
open TinyMqDurableRegistry TinyMqStoredBacklog TinyMqDurableDelivery TinyMqRecordRemovals

/-- A queue, and the messages that its receives have returned so far. -/
structure Watched where
  queue : Destination
  handed : List Message

def watch (w : Watched) (call : Call) : Watched :=
  ⟨next w.queue call, w.handed ++ (step w.queue call).2.toList⟩

/-- What is sent is none of the objects that the queue holds: `send` writes into its argument. -/
def SendsOther (d : Destination) : Call → Prop
  | .send _ _ _ m | .sendWith _ _ _ m _ => ∀ p, ∀ x ∈ messagesAt d p, x.oid ≠ m.oid
  | _ => True

/-- New consumers have new names, no transacted send brings a location along, what is
    acknowledged has been received, and nothing writes into the messages of the queue. -/
def Asked (w : Watched) (call : Call) : Prop :=
  Uncarried (w.queue, fun _ => none) call ∧
    (∀ cid m, call = .acknowledgeOn cid m → ∃ x ∈ w.handed,
      m.uuid = x.uuid ∧ m.location = x.location ∧ m.isPersistent = x.isPersistent) ∧
    SendsOther w.queue call

/-- Some call of the run is done with a message of this uuid. -/
def Ended : Watched → List Call → UUID → Prop
  | _, [], _ => False
  | w, call :: rest, u => Ends w.queue call u ∨ Ended (watch w call) rest u

/-- What every state of a run keeps; `ended` are the uuids that calls are done with. -/
structure Recorded (start : Destination) (ended : UUID → Prop) (w : Watched) : Prop where
  family : w.queue.isQueueFamily = true
  right : Right (w.queue, fun _ => none)
  named : BatchesNamed w.queue
  batched : ∀ r, Batched w.queue r → ended r.2
  handed : ∀ x ∈ w.handed, LocatedIn (w.queue.stores .shared) x
  fades : Fades ended (start.stores .shared) (w.queue.stores .shared)

section Runs
variable {start : Destination} {ended : UUID → Prop} {w : Watched}

theorem detach_queue {d : Destination} (right : Right (d, fun _ => none))
    (queue : d.isQueueFamily = true) (call : Call) :
    detach d (fun _ => none) call = fun _ => none := by
  have noSubs := right_noSubs right queue
  cases call with
  | deleteSubscription clientID name => simp [detach, noSubs]
  | createDefaultConsumer id mode => exact Function.update_eq_self id _
  | createConsumer env id mode selector => exact Function.update_eq_self id _
  | createDurableConsumer env id mode clientID name selector => exact Function.update_eq_self id _
  | _ => rfl

theorem recorded_step (recorded : Recorded start ended w) {call : Call} (asked : Asked w call) :
    Recorded start (fun u => ended u ∨ Ends w.queue call u) (watch w call) := by
  obtain ⟨family, right, named, batched, handed, fades⟩ := recorded
  obtain ⟨uncarried, received, _⟩ := asked
  have located : AckLocated w.queue call := by
    intro cid m same persistent n at_
    obtain ⟨x, member, uuid, location, kind⟩ := received cid m same
    rw [uuid]
    exact handed x member (kind ▸ persistent) n (location ▸ at_)
  obtain ⟨lost, entered⟩ := step_loses right family named located
  have after := step_right _ call right uncarried
  rw [nextHeld, detach_queue right family call] at after
  have returned : ∀ m, (step w.queue call).2 = some m → LocatedIn (w.queue.stores .shared) m := by
    cases call with
    | recv env cid patience => exact (receive_loses right family env cid patience).2
    | _ => simp [step]
  refine
    { family := (step_family w.queue call).trans family
      right := after
      named := ?named
      batched := ?batched
      handed := ?handed
      fades := ?fades }
  case named =>
    intro r here
    rcases entered r here with old | ⟨_, new⟩
    · obtain ⟨e, there, key⟩ := named r old
      obtain ⟨e', there', key', _⟩ := lost.extends_ r.1 e there
      exact ⟨e', there', key'.trans key⟩
    · exact new.extends lost.extends_ r (List.mem_singleton_self r)
  case batched =>
    intro r here
    rcases entered r here with old | ⟨new, _⟩
    · exact .inl (batched r old)
    · exact .inr new
  case handed =>
    intro x member
    rcases List.mem_append.mp member with old | new
    · exact located_extends (handed x old) lost.extends_
    · exact located_extends (returned x (Option.mem_toList.mp new)) lost.extends_
  case fades =>
    apply (fades.mono fun u => .inl).trans
    apply lost.mono
    rintro u (now | ⟨n, waited⟩)
    · exact .inr now
    · exact .inl (batched _ waited)

theorem recorded_run (recorded : Recorded start ended w) {calls : List Call}
    (asked : Meets watch Asked w calls) :
    Recorded start (fun u => ended u ∨ Ended w calls u) (calls.foldl watch w) := by
  induction calls generalizing w ended with
  | nil =>
    simp only [Ended, or_false]
    exact recorded
  | cons call calls ih =>
    have whole := ih (recorded_step recorded asked.1) asked.2
    simp only [or_assoc] at whole
    exact whole

theorem unused_recorded (unused : Unused start) (queue : start.isQueueFamily = true) :
    Recorded start (fun _ => False) ⟨start,[]⟩ where
  family := queue
  right := unused_right unused
  named := by
    rintro r ⟨cid, c, object, _⟩
    rw [unused.objects] at object
    cases object
  batched := by
    rintro r ⟨cid, c, object, _⟩
    rw [unused.objects] at object
    cases object
  handed := by simp
  fades := Fades.refl _

/-- What a new process does with a queue: it makes the queue and the first consumer. -/
def reopened (env env' : Env) (first id : Nat) (mode mode' : AcknowledgeMode)
    (selector : Option Selector) : List Call :=
  [.restart env, .createDefaultConsumer first mode, .createConsumer env' id mode' selector]

theorem reopened_awaits {d : Destination} (queue : d.isQueueFamily = true) {n : Nat}
    {e : Entry UUID Content} (here : (d.stores .shared).log[n]? = some e) (live : e.removed = false)
    (env env' : Env) (first id : Nat) (mode mode' : AcknowledgeMode) (selector : Option Selector) :
    Awaits env' .shared ((reopened env env' first id mode mode' selector).foldl next d) (e, n) := by
  have opened : (d.restart env).isQueueFamily = true := queue
  -- the queue of the new process, with its consumer in place of the default one
  let made : Destination := (d.restart env).createDefaultConsumer first mode
  let placed : Destination :=
    made.dropDefault.setObject id ⟨mode',.shared,.shared,selector,[],.empty,[]⟩
  have created : made = { d.restart env with
      queueMade := true,
      defaultConsumer := some first,
      objects := put (d.restart env).objects first ⟨mode,.shared,.shared,none,[],.empty,[]⟩,
      consumers := (d.restart env).consumers ++ [first] } := if_pos opened
  have stores : placed.stores .shared = (d.stores .shared).reopen := by
    simp only [placed, Destination.setObject, created, Destination.dropDefault]
    rfl
  have running : placed.schedulerStopped = false := by
    simp only [placed, Destination.setObject, created, Destination.dropDefault]
    rfl
  have record : (e, n) ∈ (placed.stores .shared).scan := by
    rw [stores]
    exact mem_liveRecords_iff.mpr ⟨here, live⟩
  have waits : Awaits env' .shared (placed.replayFromStorage env' .shared .shared) (e, n) :=
    replay_awaits running (e, n) (.inl record)
  have whole : (reopened env env' first id mode mode' selector).foldl next d =
      { placed.replayFromStorage env' .shared .shared with
        consumers := (placed.replayFromStorage env' .shared .shared).consumers ++ [id] } := by
    have family : made.isQueueFamily = true := by
      rw [created]
      exact queue
    simp only [reopened, List.foldl_cons, List.foldl_nil, next, step, Destination.createConsumer]
    rw [if_pos family]
    have kept : placed.queueMade = true := by
      simp only [placed, Destination.setObject, created, Destination.dropDefault]
    rw [if_pos kept]
  rw [whole]
  exact waits

def letterKept : List Call :=
  [.createDefaultConsumer 0 .CLIENT_ACKNOWLEDGE, .createConsumer calm 1 .CLIENT_ACKNOWLEDGE none,
    .createProducer 5 .CLIENT_ACKNOWLEDGE, .send calm 5 [] (letter 0 7), .recv calm 1 0]

theorem letterKept_asked : Meets watch Asked ⟨{ type := .Queue },[]⟩ letterKept := by
  have quiet : ∀ {w : Watched} {call : Call}, Possible w.queue call → NewName w.queue call →
      (∀ sent pid t, Sends w.queue sent pid t call → t = []) →
      (∀ cid m, call ≠ .acknowledgeOn cid m) → SendsOther w.queue call → Asked w call := by
    intro w call possible new outside other unheld
    refine ⟨⟨⟨possible, new⟩, ?_⟩, fun cid m same => absurd same (other cid m), unheld⟩
    intro sent pid t sends inside
    exact absurd (outside sent pid t sends) inside
  refine ⟨quiet (show (0 : Nat) ∉ [] by decide) ⟨rfl, ?_⟩ ?_ ?_ trivial,
    quiet (show (1 : Nat) ∉ [0] by decide) ⟨rfl, ?_⟩ ?_ ?_ trivial,
    quiet trivial trivial ?_ ?_ trivial, quiet trivial trivial ?_ ?_ ?_,
    quiet trivial trivial ?_ ?_ trivial, trivial⟩
  · rintro p (rfl | rfl) <;> rfl
  · exact fun _ _ _ sends => sends.elim
  · simp
  · rintro p (rfl | rfl) <;> rfl
  · exact fun _ _ _ sends => sends.elim
  · simp
  · exact fun _ _ _ sends => sends.elim
  · simp
  · exact fun _ _ _ sends => sends.2.1.symm
  · simp
  · -- nothing has been made yet that could be in the queue
    intro p x inside
    have stepped : ∀ {d : Destination} (call : Call), HeldOnce d → HeldOnce (next d call) :=
      fun call unique => (step_origin unique call).mono fun _ _ _ _ => trivial
    have unique := stepped (.createProducer 5 .CLIENT_ACKNOWLEDGE)
      (stepped (.createConsumer calm 1 .CLIENT_ACKNOWLEDGE none)
        (stepped (.createDefaultConsumer 0 .CLIENT_ACKNOWLEDGE)
          ((new_unused .Queue).idle.tracked fun _ _ => True)))
    exact absurd (unique.made p x inside) (Nat.not_lt_zero _)
  · exact fun _ _ _ sends => sends.elim
  · simp

end Runs

end TinyMqAtLeastOnce
