import TinyMq.Broker.Forwarding

/-!
Runs in which a client sends on an object that a consumer still holds, by a producer of the
same destination or of another one. `send` writes its options into the object, so that a
message with a location from elsewhere can become persistent where it is held. In a run in
which none does, and no transacted send brings a location along, every location is right.
-/
namespace TinyMqResentMessages
open DelimitedText AssocLists BandQueues Machines TombstoneLog TinyMqTom TinyMqMessage TinyMqStore
open TinyMqDestination TinyMqFrames TinyMqHolders TinyMqQueueRuns TinyMqPlaces TinyMqOrigins
open TinyMqInversion TinyMqDurableRegistry TinyMqLabelledRecords TinyMqCachedLocations
open TinyMqForwarding

/-- A call on the destination, or a send of an object that the destination holds: by one of its
    own producers, or by one of another destination. -/
inductive Act where
  | on (call : Call)
  | resend (env : Env) (pid : Nat) (transactionId : Text) (opts : Option SendOptions) (m : Message)
  | elsewhere (env : Env) (p : Producer) (transactionId : Text) (opts : Option SendOptions)
      (m : Message)

def validOpts (opts : Option SendOptions) : Bool :=
  match opts with
  | none => true
  | some opts => validateSendOptions opts = .ok ()

/-- The producer that sends the object, and how; options that are refused write nothing. -/
def Act.sender (d : Destination) : Act → Option (Nat × (Message → Message))
  | .on _ => none
  | .resend env pid transactionId opts m =>
    (get d.producers pid).bind fun p =>
      if validOpts opts then some (m.oid, sentAs env p transactionId opts) else none
  | .elsewhere env p transactionId opts m =>
    if validOpts opts then some (m.oid, sentAs env p transactionId opts) else none

/-- Something is written into the object at an address. -/
def writeAt (oid : Nat) (f : Message → Message) (m : Message) : Message :=
  if m.oid = oid then f m else m

/-- The object is one and the same wherever a queue, the scheduler or a consumer holds it.
    What producers have staged are copies that no client has. -/
def overwrite (d : Destination) (oid : Nat) (f : Message → Message) : Destination :=
  { d with
    queues := fun q => (d.queues q).map (writeAt oid f),
    pending := d.pending.map fun x => (x.1, x.2.1, writeAt oid f x.2.2),
    objects := d.objects.map fun e => (e.1, { e.2 with
      inFlight := e.2.inFlight.map (writeAt oid f),
      transactQueue := e.2.transactQueue.map (writeAt oid f) }) }

def writeBack (d : Destination) (act : Act) : Destination :=
  match act.sender d with
  | none => d
  | some (oid, f) => overwrite d oid f

def sendCall (env : Env) (pid : Nat) (transactionId : Text) (opts : Option SendOptions)
    (m : Message) : Call :=
  match opts with
  | none => .send env pid transactionId m
  | some opts => .sendWith env pid transactionId m opts

/-- The object is written first, then the destination saves it. -/
def nextAct (s : Destination × Detached) : Act → Destination × Detached
  | .on call => nextHeld s call
  | .resend env pid transactionId opts m =>
    nextHeld (writeBack s.1 (.resend env pid transactionId opts m), s.2)
      (sendCall env pid transactionId opts m)
  | .elsewhere env p transactionId opts m =>
    (writeBack s.1 (.elsewhere env p transactionId opts m), s.2)

/-- A volatile message that the send makes persistent is held by a consumer that received it,
    and brings no bytes and no location but that of its own record. -/
def NoStray (s : Destination × Detached) (act : Act) : Prop :=
  ∀ oid f, act.sender s.1 = some (oid, f) → ∀ p, ∀ m ∈ messagesAt s.1 p, m.oid = oid →
    m.isPersistent = false → (f m).isPersistent = true →
      (∃ cid, p = .inFlight cid ∨ p = .received cid) ∧ m.cachedStorageBytes = none ∧
        ∀ store, home s.1 s.2 p = some store → ∀ n, m.location = some n →
          (keys store.log)[n]? = some m.uuid

/-- Names are new, no transacted send brings a location along, and no send makes a message
    persistent that has the location of another one's record. -/
def Careful (s : Destination × Detached) (act : Act) : Prop :=
  NoStray s act ∧
    match act with
    | .on call => Uncarried s call
    | .resend env pid transactionId opts m =>
      NoneCarried s.1 (sendCall env pid transactionId opts m)
    | .elsewhere _ _ _ _ _ => True

section Write
variable {d : Destination} {kept : Detached} {oid : Nat} {f : Message → Message}

def writtenConsumer (oid : Nat) (f : Message → Message) (c : Consumer) : Consumer :=
  { c with
    inFlight := c.inFlight.map (writeAt oid f),
    transactQueue := c.transactQueue.map (writeAt oid f) }

theorem overwrite_object (d : Destination) (oid : Nat) (f : Message → Message) (cid : Nat) :
    get (overwrite d oid f).objects cid = (get d.objects cid).map (writtenConsumer oid f) :=
  get_mapped d.objects (writtenConsumer oid f) cid

theorem overwrite_messages (d : Destination) (oid : Nat) (f : Message → Message) (p : Place) :
    messagesAt (overwrite d oid f) p =
      match p with
      | .staged _ => messagesAt d p
      | _ => (messagesAt d p).map (writeAt oid f) := by
  cases p with
  | queued q => exact toList_map (writeAt oid f) (d.queues q)
  | scheduled q =>
    simp only [messagesAt, overwrite, List.filter_map, List.map_map]
    rfl
  | inFlight cid =>
    simp only [messagesAt, overwrite_object, chainOf]
    cases get d.objects cid <;> rfl
  | received cid =>
    simp only [messagesAt, overwrite_object, receivedBy]
    cases get d.objects cid with
    | none => rfl
    | some c => exact toList_map (writeAt oid f) c.transactQueue
  | staged pid => rfl

theorem overwrite_steady (d : Destination) (oid : Nat) (f : Message → Message) :
    Steady d (overwrite d oid f) where
  type := rfl
  consumers := rfl
  settled := by
    intro cid
    rw [overwrite_object, Option.map_map]
    rfl
  subs := rfl
  names := rfl

theorem overwrite_home (d : Destination) (kept : Detached) (oid : Nat) (f : Message → Message)
    (p : Place) : home (overwrite d oid f) kept p = home d kept p := by
  have own : ∀ cid, (get (overwrite d oid f).objects cid).map (ownStore (overwrite d oid f) kept cid) =
      (get d.objects cid).map (ownStore d kept cid) := by
    intro cid
    rw [overwrite_object, Option.map_map]
    rfl
  cases p with
  | queued q =>
    cases q with
    | shared => rfl
    | own cid => exact own cid
  | scheduled q =>
    cases q with
    | shared => rfl
    | own cid => exact own cid
  | inFlight cid => exact own cid
  | received cid => exact own cid
  | staged pid => rfl

/-- What a send leaves alone in the object. -/
structure Rewrites (f : Message → Message) : Prop where
  oid : ∀ m, (f m).oid = m.oid
  uuid : ∀ m, (f m).uuid = m.uuid
  location : ∀ m, (f m).location = m.location
  bytes : ∀ m, (f m).cachedStorageBytes = m.cachedStorageBytes

theorem sentAs_rewrites (env : Env) (p : Producer) (transactionId : Text)
    (opts : Option SendOptions) : Rewrites (sentAs env p transactionId opts) where
  oid := sentAs_oid env p transactionId opts
  uuid := sentAs_uuid env p transactionId opts
  location := sentAs_location env p transactionId opts
  bytes := by
    intro m
    rw [sentAs_applied]
    split <;> rfl

theorem sender_rewrites {act : Act} (sends : act.sender d = some (oid, f)) : Rewrites f := by
  cases act with
  | on call => cases sends
  | resend env pid transactionId opts m =>
    obtain ⟨p, _, chosen⟩ := Option.bind_eq_some_iff.mp sends
    split at chosen
    · cases chosen
      exact sentAs_rewrites env p transactionId opts
    · cases chosen
  | elsewhere env p transactionId opts m =>
    simp only [Act.sender] at sends
    split at sends
    · cases sends
      exact sentAs_rewrites env p transactionId opts
    · cases sends

variable (rewrites : Rewrites f)
include rewrites

theorem writeAt_oid (m : Message) : (writeAt oid f m).oid = m.oid := by
  unfold writeAt
  split
  · exact rewrites.oid m
  · rfl

theorem overwrite_held {p : Place} {m' : Message} (inside : m' ∈ messagesAt (overwrite d oid f) p) :
    ∃ m ∈ messagesAt d p, m'.oid = m.oid ∧ (m' = m ∨ m.oid = oid ∧ m' = f m) := by
  have written : m' ∈ (messagesAt d p).map (writeAt oid f) → ∃ m ∈ messagesAt d p,
      m'.oid = m.oid ∧ (m' = m ∨ m.oid = oid ∧ m' = f m) := by
    intro mapped
    obtain ⟨m, there, rfl⟩ := List.mem_map.mp mapped
    refine ⟨m, there, writeAt_oid rewrites m, ?_⟩
    unfold writeAt
    split
    · rename_i here
      exact Or.inr ⟨here, rfl⟩
    · exact Or.inl rfl
  rw [overwrite_messages] at inside
  cases p with
  | staged pid => exact ⟨m', inside, rfl, Or.inl rfl⟩
  | _ => exact written inside

theorem overwrite_oids (p : Place) :
    (messagesAt (overwrite d oid f) p).map Message.oid = (messagesAt d p).map Message.oid := by
  have written : ((messagesAt d p).map (writeAt oid f)).map Message.oid =
      (messagesAt d p).map Message.oid := by
    rw [List.map_map]
    exact List.map_congr_left fun m _ => writeAt_oid rewrites m
  rw [overwrite_messages]
  cases p with
  | staged pid => rfl
  | _ => exact written

/- A write keeps a message settled that was persistent before, or that comes along with nothing. -/
theorem settled_write {p : Place} {m : Message} (settled : Settled d kept p m)
    (stray : m.isPersistent = false → (f m).isPersistent = true →
      (∃ cid, p = .inFlight cid ∨ p = .received cid) ∧ m.cachedStorageBytes = none ∧
        ∀ store, home d kept p = some store → ∀ n, m.location = some n →
          (keys store.log)[n]? = some m.uuid) : Settled d kept p (f m) := by
  cases before : m.isPersistent with
  | true =>
    refine
      { readable := ?readable
        faithful := ?faithful
        located := ?located
        staged := ?staged }
    case readable =>
      have readable := settled.readable
      cases p <;> intro _ <;> rw [rewrites.bytes] <;> exact readable before
    case faithful =>
      intro _ content cached
      rw [rewrites.uuid]
      exact settled.faithful before content (rewrites.bytes m ▸ cached)
    case located =>
      intro s here _ n at_
      rw [rewrites.uuid]
      exact settled.located s here before n (rewrites.location m ▸ at_)
    case staged =>
      intro pid here _
      rw [rewrites.location]
      exact settled.staged pid here before
  | false =>
    have nothing := stray before
    refine
      { readable := ?readable'
        faithful := ?faithful'
        located := ?located'
        staged := ?staged' }
    case readable' =>
      cases p with
      | inFlight cid =>
        intro after
        rw [rewrites.bytes]
        exact (nothing after).2.1
      | received cid =>
        intro after
        rw [rewrites.bytes]
        exact (nothing after).2.1
      | _ =>
        intro after
        obtain ⟨cid, here | here⟩ := (nothing after).1 <;> cases here
    case faithful' =>
      intro after content cached
      rw [rewrites.bytes, (nothing after).2.1] at cached
      cases cached
    case located' =>
      intro s here after n at_
      rw [rewrites.uuid]
      exact (nothing after).2.2 s here n (rewrites.location m ▸ at_)
    case staged' =>
      intro pid here after
      subst here
      obtain ⟨cid, here | here⟩ := (nothing after).1 <;> cases here

end Write

section Runs

theorem overwrite_right {s : Destination × Detached} (right : Right s) {oid : Nat}
    {f : Message → Message} (rewrites : Rewrites f)
    (stray : ∀ p, ∀ m ∈ messagesAt s.1 p, m.oid = oid →
      m.isPersistent = false → (f m).isPersistent = true →
      (∃ cid, p = .inFlight cid ∨ p = .received cid) ∧ m.cachedStorageBytes = none ∧
        ∀ store, home s.1 s.2 p = some store → ∀ n, m.location = some n →
          (keys store.log)[n]? = some m.uuid) : Right (overwrite s.1 oid f, s.2) := by
  obtain ⟨d, kept⟩ := s
  have moved : ∀ {p m}, Settled d kept p m → Settled (overwrite d oid f) kept p m := by
    intro p m settled
    refine ⟨settled.readable, settled.faithful, ?_, settled.staged⟩
    intro s here
    rw [overwrite_home] at here
    exact settled.located s here
  have tracked := right.tracked
  refine
    { tracked := ?tracked
      labelled := right.labelled.same rfl rfl
      wired := ?wired
      ordered := ?ordered
      off := right.off }
  case tracked =>
    refine
      { origin := ?origin
        once := ?once
        apart := ?apart
        single := tracked.single
        free := ?free
        made := ?made
        known := tracked.known }
    case origin =>
      intro p m' inside
      obtain ⟨m, there, _, rfl | ⟨here, rfl⟩⟩ := overwrite_held rewrites inside
      · exact moved (tracked.origin p _ there)
      · exact moved (settled_write rewrites (tracked.origin p m there) (stray p m there here))
    case once =>
      intro p
      rw [overwrite_oids rewrites]
      exact tracked.once p
    case apart =>
      intro p p' m₁ m₂ first second same
      obtain ⟨m, there, address, _⟩ := overwrite_held rewrites first
      obtain ⟨m', there', address', _⟩ := overwrite_held rewrites second
      exact tracked.apart p p' m m' there there' (by rw [← address, ← address', same])
    case free => simp
    case made =>
      intro p m' inside
      obtain ⟨m, there, address, _⟩ := overwrite_held rewrites inside
      rw [address]
      exact tracked.made p m there
  case wired =>
    intro cid c' object
    obtain ⟨c, before, same⟩ := (overwrite_steady d oid f).found_before object
    simp only [settings, Prod.mk.injEq] at same
    obtain ⟨_, queue, storage, _⟩ := same
    rw [← queue, ← storage]
    exact right.wired cid c before
  case ordered =>
    rcases right.ordered with queue | registry
    · exact Or.inl queue
    · exact Or.inr (registry.steady (overwrite_steady d oid f))

theorem writeBack_right {s : Destination × Detached} (right : Right s) {act : Act}
    (stray : NoStray s act) : Right (writeBack s.1 act, s.2) := by
  unfold writeBack
  split
  · exact right
  · rename_i oid f sends
    exact overwrite_right right (sender_rewrites sends) (stray oid f sends)

theorem writeBack_producers (d : Destination) (act : Act) :
    (writeBack d act).producers = d.producers := by
  unfold writeBack
  split <;> rfl

theorem sendCall_uncarried {d e : Destination} {kept : Detached} (producers : e.producers = d.producers)
    {env : Env} {pid : Nat} {transactionId : Text} {opts : Option SendOptions} {m : Message}
    (carried : NoneCarried d (sendCall env pid transactionId opts m)) :
    Uncarried (e, kept) (sendCall env pid transactionId opts m) := by
  unfold sendCall at carried ⊢
  cases opts with
  | none =>
    refine ⟨⟨trivial, trivial⟩, ?_⟩
    intro sent pid' t sends
    simp only [Sends, producers] at sends
    exact carried sent pid' t sends
  | some opts =>
    refine ⟨⟨trivial, trivial⟩, ?_⟩
    intro sent pid' t sends
    simp only [Sends, producers] at sends
    exact carried sent pid' t sends

theorem act_right (s : Destination × Detached) (act : Act) (right : Right s)
    (careful : Careful s act) : Right (nextAct s act) := by
  obtain ⟨stray, more⟩ := careful
  cases act with
  | on call => exact step_right s call right more
  | resend env pid transactionId opts m =>
    exact step_right _ _ (writeBack_right right stray)
      (sendCall_uncarried (writeBack_producers s.1 _) more)
  | elsewhere env p transactionId opts m => exact writeBack_right right stray

def letterRun : List Call :=
  [.createDefaultConsumer 0 .CLIENT_ACKNOWLEDGE, .createConsumer calm 1 .CLIENT_ACKNOWLEDGE none,
    .createProducer 5 .CLIENT_ACKNOWLEDGE, .send calm 5 [] (letter 0 7), .recv calm 1 0]

def forwarded : Message :=
  ((step ((letterRun.take 4).foldl next { type := .Queue }) (.recv calm 1 0)).2).getD (letter 0 7)

def otherProducer : Producer := { mode := .CLIENT_ACKNOWLEDGE }

def sentOnRun : List Act :=
  letterRun.map .on ++ [.elsewhere calm otherProducer [] (some {}) forwarded, .on (.recover calm 1)]

/-- A queue whose first record is that of another letter. -/
def otherQueue : List Call :=
  [.createDefaultConsumer 0 .CLIENT_ACKNOWLEDGE, .createConsumer calm 1 .CLIENT_ACKNOWLEDGE none,
    .createProducer 5 .CLIENT_ACKNOWLEDGE, .send calm 5 [] (letter 0 8)]

/-- The letter is sent on to it in a transaction. -/
def forwardRun : List Act :=
  otherQueue.map .on ++ [.on (.createProducer 6 .SESSION_TRANSACTED),
    .on (.send calm 6 ['t'] forwarded), .on (.commitProducer calm 6 ['t'])]

/-- Or as a volatile one, then what was received of it is sent on again as a persistent one. -/
def hardenedRun : List Act :=
  otherQueue.map .on ++ [.on (.sendWith calm 5 [] forwarded {}), .on (.recv calm 1 0),
    .on (.recv calm 1 0),
    .elsewhere calm otherProducer [] (some { deliveryMode := .PERSISTENT }) (letter 1 7)]

end Runs

end TinyMqResentMessages
