import TinyMq.Broker.Destination

/-!
`Session.cpp` and `Exchange.cpp`: sessions over any number of destinations. A
session's loops over its producers and consumers run in the order of its maps.
Destinations, sessions, producers and consumers are named by numbers; a name
given to a new one is chosen by the caller, as the uuid generator would.
-/
namespace TinyMqSession
open DelimitedText AssocLists TinyMqTom TinyMqMessage TinyMqStore TinyMqDestination

/-- The maps hold the destination each producer and consumer works on. -/
structure Session where
  mode : AcknowledgeMode
  suffix : Text
  producers : Assoc Nat Nat := []
  consumers : Assoc Nat Nat := []

structure World where
  destinations : Nat → Option Destination := fun _ => none
  sessions : Nat → Option Session := fun _ => none

def World.onDestination (w : World) (did : Nat) (f : Destination → Destination) : World :=
  match w.destinations did with
  | none => w
  | some d => { w with destinations := Function.update w.destinations did (some (f d)) }

def World.setSession (w : World) (sid : Nat) (s : Session) : World :=
  { w with sessions := Function.update w.sessions sid (some s) }

/-- `connection().createSession`; only a transacted session starts a transaction. -/
def World.createSession (w : World) (sid : Nat) (mode : AcknowledgeMode) (suffix : Text) : World :=
  w.setSession sid { mode := mode, suffix := if mode = .SESSION_TRANSACTED then suffix else [] }

/-- `Exchange::create` makes the destination when it is new; every call registers
    a default consumer. -/
def World.createDestination (w : World) (sid did : Nat) (type : DestinationType) (cid : Nat) :
    World :=
  match w.sessions sid with
  | none => w
  | some s =>
    let d := (w.destinations did).getD { type := type }
    { w with destinations :=
              Function.update w.destinations did (some (d.createDefaultConsumer cid s.mode)) }

def World.createConsumer (env : Env) (w : World) (sid did cid : Nat) (selector : Option Selector) :
    World :=
  match w.sessions sid, w.destinations did with
  | some s, some _ =>
    (w.onDestination did fun d => d.createConsumer env cid s.mode selector).setSession sid
      { s with consumers := put s.consumers cid did }
  | _, _ => w

def World.deleteConsumer (w : World) (sid cid : Nat) : World :=
  match w.sessions sid with
  | none => w
  | some s =>
    match get s.consumers cid with
    | none => w
    | some did =>
      (w.onDestination did fun d => d.deleteConsumer cid).setSession sid
        { s with consumers := erase s.consumers cid }

def World.createProducer (w : World) (sid did pid : Nat) : World :=
  match w.sessions sid, w.destinations did with
  | some s, some _ =>
    (w.onDestination did fun d => d.createProducer pid s.mode).setSession sid
      { s with producers := put s.producers pid did }
  | _, _ => w

def World.deleteProducer (env : Env) (w : World) (sid pid : Nat) : World :=
  match w.sessions sid with
  | none => w
  | some s =>
    match get s.producers pid with
    | none => w
    | some did =>
      (w.onDestination did fun d => d.deleteProducer env pid s.suffix).setSession sid
        { s with producers := erase s.producers pid }

def World.send (env : Env) (w : World) (sid pid : Nat) (m : Message) : World :=
  match w.sessions sid with
  | none => w
  | some s =>
    match get s.producers pid with
    | none => w
    | some did => w.onDestination did fun d => (d.send env pid s.suffix m).1

/-- The dead-letter copy: the reason is set unless the message has one, the
    delivery time is reset, and a persistent copy gets a record of its own. -/
def deadLetterReason : Str := [74, 77, 83, 88, 68, 101, 97, 100, 76, 101, 116, 116, 101, 114, 82,
  101, 97, 115, 111, 110]

def maxRedeliveriesExceeded : Str := [109, 97, 120, 82, 101, 100, 101, 108, 105, 118, 101, 114, 105,
  101, 115, 32, 101, 120, 99, 101, 101, 100, 101, 100]

def deadLetterCopy (m : Message) (oid : Nat) : Message :=
  let copy := (m.copy oid).setDeliveryTime 0
  { copy with content := { copy.content with
      properties := setProperty copy.content.properties deadLetterReason
        (.value (.string maxRedeliveriesExceeded)) } }

def acceptDeadLetter (env : Env) (m : Message) (dlq : Destination) : Destination :=
  let copy := deadLetterCopy m dlq.nextOid
  let dlq := { dlq with nextOid := dlq.nextOid + 1 }
  let (dlq, copy) :=
    if copy.isPersistent then
      let (dlq, r) := dlq.appendRecord env .shared copy.uuid copy.content
      (dlq, { copy with cachedStorageBytes := some copy.content, location := r })
    else (dlq, copy)
  if dlq.queueMade then dlq.enqueueOrSchedule env .shared copy else dlq

/-- The messages a destination gave up go to its dead-letter queue, or nowhere. -/
def World.deadLetters (env : Env) (w : World) (policy : RedeliveryPolicy) (dead : List Message) :
    World :=
  match policy.deadLetterQueue with
  | none => w
  | some dlq => dead.foldl (fun w m => w.onDestination dlq (acceptDeadLetter env m)) w

/-- A call on a destination that may give messages up. -/
def World.redelivering (env : Env) (w : World) (did : Nat)
    (f : Destination → Destination × List Message) : World :=
  match w.destinations did with
  | none => w
  | some d =>
    World.deadLetters env
      { w with destinations := Function.update w.destinations did (some (f d).1) }
      d.redeliveryPolicy (f d).2

def World.commitProducers (env : Env) (suffix : Text) (w : World) (producers : Assoc Nat Nat) :
    World :=
  producers.foldl (fun w p => w.onDestination p.2 fun d => d.commitProducer env p.1 suffix) w

def World.commitConsumers (w : World) (consumers : Assoc Nat Nat) : World :=
  consumers.foldl (fun w c => w.onDestination c.2 fun d => d.commitConsumer c.1) w

/-- `commit` hands the old transaction to the producers first, then to the consumers. -/
def World.commit (env : Env) (w : World) (sid : Nat) (newSuffix : Text) : World :=
  match w.sessions sid with
  | none => w
  | some s =>
    let w := (w.commitProducers env s.suffix s.producers).commitConsumers s.consumers
    w.setSession sid { s with suffix := newSuffix }

def World.rollbackProducers (env : Env) (suffix : Text) (w : World) (producers : Assoc Nat Nat) :
    World :=
  producers.foldl (fun w p => w.onDestination p.2 fun d => d.rollbackProducer env p.1 suffix) w

def World.rollbackConsumers (env : Env) (sessionClosing : Bool) (w : World)
    (consumers : Assoc Nat Nat) : World :=
  consumers.foldl (fun w c =>
    w.redelivering env c.2 fun d => d.rollbackConsumer env c.1 sessionClosing) w

def World.rollback (env : Env) (w : World) (sid : Nat) (sessionClosing : Bool) (newSuffix : Text) :
    World :=
  match w.sessions sid with
  | none => w
  | some s =>
    let w := w.rollbackProducers env s.suffix s.producers
    let w := w.rollbackConsumers env sessionClosing s.consumers
    w.setSession sid { s with suffix := newSuffix }

/-- `recover`; a transacted session throws before anything is done. -/
def World.recover (env : Env) (w : World) (sid : Nat) : World :=
  match w.sessions sid with
  | none => w
  | some s =>
    if s.mode = .SESSION_TRANSACTED then w
    else s.consumers.foldl (fun w c => w.redelivering env c.2 fun d => d.recover env c.1) w

/-- `~Session()`: what it received in its transaction goes back, then its
    consumers and producers leave their destinations. -/
def World.closeSession (env : Env) (w : World) (sid : Nat) (newSuffix : Text) : World :=
  match w.sessions sid with
  | none => w
  | some s =>
    let w := w.rollback env sid true newSuffix
    let w := s.consumers.foldl (fun w c => w.onDestination c.2 fun d => d.deleteConsumer c.1) w
    let w := s.producers.foldl
      (fun w p => w.onDestination p.2 fun d => d.deleteProducer env p.1 newSuffix) w
    { w with sessions := Function.update w.sessions sid none }

@[simp] theorem onDestination_same {w : World} {did : Nat} {d : Destination}
    (found : w.destinations did = some d) (f : Destination → Destination) :
    (w.onDestination did f).destinations did = some (f d) := by
  simp [World.onDestination, found]

theorem onDestination_other (w : World) {did other : Nat} (apart : other ≠ did)
    (f : Destination → Destination) :
    (w.onDestination did f).destinations other = w.destinations other := by
  unfold World.onDestination
  split
  · rfl
  · simp [Function.update_of_ne apart]

theorem onDestination_cases {w : World} {did other : Nat} {f : Destination → Destination}
    {d' : Destination} (there : (w.onDestination did f).destinations other = some d') :
    (∃ d, other = did ∧ w.destinations other = some d ∧ d' = f d) ∨
      other ≠ did ∧ w.destinations other = some d' := by
  by_cases same : other = did
  · subst same
    cases here : w.destinations other with
    | none => simp [World.onDestination, here] at there
    | some d =>
      rw [onDestination_same here, Option.some.injEq] at there
      exact Or.inl ⟨d, rfl, rfl, there.symm⟩
  · rw [onDestination_other _ same] at there
    exact Or.inr ⟨same, there⟩

@[simp] theorem onDestination_sessions (w : World) (did : Nat) (f : Destination → Destination) :
    (w.onDestination did f).sessions = w.sessions := by
  unfold World.onDestination
  split <;> rfl

@[simp] theorem setSession_same (w : World) (sid : Nat) (s : Session) :
    (w.setSession sid s).sessions sid = some s := by
  simp [World.setSession]

theorem setSession_other (w : World) {sid i : Nat} (s : Session) (other : i ≠ sid) :
    (w.setSession sid s).sessions i = w.sessions i := by
  simp [World.setSession, Function.update_of_ne other]

theorem setSession_cases {w : World} {sid i : Nat} {s t : Session}
    (there : (w.setSession sid s).sessions i = some t) :
    i = sid ∧ t = s ∨ i ≠ sid ∧ w.sessions i = some t := by
  by_cases same : i = sid
  · subst same
    rw [setSession_same, Option.some.injEq] at there
    exact Or.inl ⟨rfl, there.symm⟩
  · rw [setSession_other _ _ same] at there
    exact Or.inr ⟨same, there⟩

end TinyMqSession
