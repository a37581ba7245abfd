import TinyMq.Broker.BufferRuns
import TinyMq.Broker.TransactedTopic
import TinyMq.Broker.SessionRuns

/-!
One transaction of a session with any number of producers on one destination. The
staged messages lie with their producers, the data of the persistent ones in the
buffer that all producers of the destination share. A producer that the session has
deleted lives on while its client holds it, and rolls back when it is destroyed. A book is
kept of what was sent, and of what was sent since a producer was destroyed last.
-/
namespace TinyMqTransactedProducers
open DelimitedText AssocLists BandQueues Machines TombstoneLog TinyMqTom TinyMqMessage TinyMqStore
open TinyMqDestination TinyMqTransactionBuffer TinyMqSession TinyMqFrames TinyMqSessionRuns
open TinyMqBufferRuns (addMessage_ids addMessage_data rollback_ids rollback_data)
open TinyMqTransactedTopic (staged staged_append)

def stagedCopy (env : Env) (oid : Nat) (number : Int) (cid : Nat) (m : Message) : Message :=
  (pushCopy env oid number cid m).refreshCachedStorageBytes

/-- What a transacted `save` stages: a copy for each consumer that accepts the message. -/
def copies (env : Env) (number : Int) (m : Message) (objects : Assoc Nat Consumer) :
    Nat → List Nat → List Message
  | _, [] => []
  | oid, cid :: rest =>
    match get objects cid with
    | none => copies env number m objects oid rest
    | some c =>
      if accepts c.selector m then
        stagedCopy env oid number cid m :: copies env number m objects (oid + 1) rest
      else copies env number m objects oid rest

/-- The data of the persistent ones goes to the buffer. -/
def addCopies (time : Stamp) (t : Text) (buffer : TransactionBuffer Content) (xs : List Message) :
    TransactionBuffer Content :=
  xs.foldl (fun b x => if x.isPersistent then b.addMessage time t x.uuid x.content else b) buffer

theorem stagedCopy_content (env : Env) (oid : Nat) (number : Int) (cid : Nat) (m : Message) :
    (stagedCopy env oid number cid m).content = (pushCopy env oid number cid m).content := by
  unfold stagedCopy Message.refreshCachedStorageBytes
  split <;> rfl

theorem preparePush_transacted (env : Env) (d : Destination) (cid : Nat) (c : Consumer)
    (number : Int) {t : Text} (open_ : t ≠ []) (m : Message) :
    d.preparePush env cid c number t m =
      ({ d with nextOid := d.nextOid + 1,
                buffer := addCopies env.stamp t d.buffer [stagedCopy env d.nextOid number cid m] },
        stagedCopy env d.nextOid number cid m) := by
  unfold Destination.preparePush addCopies stagedCopy Message.refreshCachedStorageBytes
  simp only [List.foldl_cons, List.foldl_nil]
  split
  · next persistent =>
    have written : ({ pushCopy env d.nextOid number cid m with
        cachedStorageBytes := some (pushCopy env d.nextOid number cid m).content } : Message).isPersistent
          = true := persistent
    rw [if_pos written]
  · next volatile => rfl

section Save
variable {env : Env} {number : Int} {pid : Nat} {p : Producer} {t : Text} {m : Message}

theorem push_transacted (open_ : t ≠ []) (d : Destination) (found : get d.producers pid = some p)
    (cid : Nat) :
    Destination.push env number pid t m d cid =
      { d with nextOid := d.nextOid + (copies env number m d.objects d.nextOid [cid]).length,
               buffer := addCopies env.stamp t d.buffer (copies env number m d.objects d.nextOid [cid]),
               producers := put d.producers pid
                 (staged p (copies env number m d.objects d.nextOid [cid])) } := by
  have idle : put d.producers pid (staged p []) = d.producers := put_get found
  unfold Destination.push copies
  cases object : get d.objects cid with
  | none => simp [copies, addCopies, idle]
  | some c =>
    by_cases open' : accepts c.selector m = true
    · simp only [open', if_true, preparePush_transacted env d cid c number open_ m, if_neg open_]
      simp [Destination.stage, found, copies, staged, BandQueue.enqueueAll]
    · simp [open', copies, addCopies, idle]

theorem copies_append (objects : Assoc Nat Consumer) (oid cid : Nat) (rest : List Nat) :
    copies env number m objects oid (cid :: rest) =
      copies env number m objects oid [cid] ++
        copies env number m objects (oid + (copies env number m objects oid [cid]).length) rest := by
  simp only [copies]
  cases get objects cid with
  | none => rfl
  | some c => by_cases open' : accepts c.selector m = true <;> simp [open']

theorem addCopies_append (time : Stamp) (b : TransactionBuffer Content) (xs ys : List Message) :
    addCopies time t b (xs ++ ys) = addCopies time t (addCopies time t b xs) ys := by
  simp [addCopies]

theorem pushes_transacted (open_ : t ≠ []) (l : List Nat) (d : Destination)
    (found : get d.producers pid = some p) :
    l.foldl (Destination.push env number pid t m) d =
      { d with nextOid := d.nextOid + (copies env number m d.objects d.nextOid l).length,
               buffer := addCopies env.stamp t d.buffer (copies env number m d.objects d.nextOid l),
               producers := put d.producers pid
                 (staged p (copies env number m d.objects d.nextOid l)) } := by
  induction l generalizing d p with
  | nil =>
    have idle : put d.producers pid (staged p []) = d.producers := put_get found
    simp [copies, addCopies, idle]
  | cons cid l ih =>
    rw [List.foldl_cons, push_transacted open_ d found cid, ih _ (get_put_same _ _ _),
      copies_append d.objects d.nextOid cid l]
    simp only [List.length_append, addCopies_append, staged_append, put_put, Nat.add_assoc]

theorem save_transacted (env : Env) (m : Message) (open_ : t ≠ []) (d : Destination)
    (found : get d.producers pid = some p) :
    d.save env pid t m =
      { d with messageCounter := d.messageCounter + 1,
               nextOid := d.nextOid +
                 (copies env d.messageCounter m d.objects d.nextOid d.targets).length,
               buffer := addCopies env.stamp t d.buffer
                 (copies env d.messageCounter m d.objects d.nextOid d.targets),
               producers := put d.producers pid
                 (staged p (copies env d.messageCounter m d.objects d.nextOid d.targets)) } := by
  unfold Destination.save
  dsimp only
  rw [if_neg (by simp [open_])]
  exact pushes_transacted open_ d.targets { d with messageCounter := d.messageCounter + 1 } found

theorem mem_copies {objects : Assoc Nat Consumer} {l : List Nat} {oid : Nat} {x : Message}
    (member : x ∈ copies env number m objects oid l) :
    x.content = { m.content with uuid := x.uuid, number := number } ∧
      x.pendingDeliveryDelay = m.pendingDeliveryDelay ∧
      ∃ cid ∈ l, ∃ c, get objects cid = some c := by
  induction l generalizing oid with
  | nil => cases member
  | cons cid l ih =>
    have later : ∀ {oid}, x ∈ copies env number m objects oid l →
        x.content = { m.content with uuid := x.uuid, number := number } ∧
          x.pendingDeliveryDelay = m.pendingDeliveryDelay ∧
          ∃ i ∈ cid :: l, ∃ c, get objects i = some c := by
      intro oid there
      obtain ⟨content, delay, i, inside, c, object⟩ := ih there
      exact ⟨content, delay, i, List.mem_cons_of_mem cid inside, c, object⟩
    unfold copies at member
    cases object : get objects cid with
    | none =>
      rw [object] at member
      exact later member
    | some c =>
      rw [object] at member
      dsimp only at member
      split at member
      · rcases List.mem_cons.mp member with here | there
        · subst here
          refine ⟨?_, ?_, cid, by simp, c, object⟩
          · unfold Message.uuid
            rw [stagedCopy_content]
            rfl
          · unfold stagedCopy Message.refreshCachedStorageBytes
            split <;> rfl
        · exact later there
      · exact later member

end Save

theorem addCopies_ids (time : Stamp) (t : Text) (b : TransactionBuffer Content) (xs : List Message) :
    (get (addCopies time t b xs).transactionMessages t).getD [] =
      (get b.transactionMessages t).getD [] ++ (xs.filter (·.isPersistent)).map Message.uuid := by
  induction xs generalizing b with
  | nil => simp [addCopies]
  | cons x xs ih =>
    have rest := ih (if x.isPersistent then b.addMessage time t x.uuid x.content else b)
    rw [show addCopies time t b (x :: xs) = addCopies time t
      (if x.isPersistent then b.addMessage time t x.uuid x.content else b) xs from rfl, rest]
    by_cases persistent : x.isPersistent = true
    · rw [if_pos persistent, addMessage_ids]
      simp [persistent]
    · simp [persistent]

/- Copies under one uuid have one content, so the buffer holds the content of each. -/
theorem addCopies_data (time : Stamp) (t : Text) (b : TransactionBuffer Content)
    {xs : List Message} (alike : ∀ x ∈ xs, ∀ y ∈ xs, x.uuid = y.uuid → x.content = y.content) :
    (∀ x ∈ xs, x.isPersistent = true → (addCopies time t b xs).bufferedData x.uuid = some x.content) ∧
      ∀ u, (∀ x ∈ xs, x.uuid ≠ u) → (addCopies time t b xs).bufferedData u = b.bufferedData u := by
  induction xs generalizing b with
  | nil => simp [addCopies]
  | cons x xs ih =>
    obtain ⟨held, other⟩ := ih
      (if x.isPersistent then b.addMessage time t x.uuid x.content else b)
      fun y iny z inz => alike y (List.mem_cons_of_mem x iny) z (List.mem_cons_of_mem x inz)
    constructor
    · intro y member persistent
      by_cases later : ∃ z ∈ xs, z.uuid = y.uuid
      · obtain ⟨z, inside, same⟩ := later
        have content := alike z (List.mem_cons_of_mem x inside) y member same
        have kept : z.isPersistent = true := by
          unfold Message.isPersistent at persistent ⊢
          rw [content]
          exact persistent
        have found := held z inside kept
        rw [same, content] at found
        exact found
      · have first : y = x := by
          rcases List.mem_cons.mp member with here | there
          · exact here
          · exact absurd ⟨y, there, rfl⟩ later
        subst first
        rw [show addCopies time t b (y :: xs) = addCopies time t
          (if y.isPersistent then b.addMessage time t y.uuid y.content else b) xs from rfl,
          other y.uuid fun z inside same => later ⟨z, inside, same⟩, if_pos persistent,
          addMessage_data, Function.update_self]
    · intro u apart
      rw [show addCopies time t b (x :: xs) = addCopies time t
        (if x.isPersistent then b.addMessage time t x.uuid x.content else b) xs from rfl,
        other u fun z inside => apart z (List.mem_cons_of_mem x inside)]
      split
      · rw [addMessage_data, Function.update_of_ne (Ne.symm (apart x (by simp)))]
      · rfl

/-- The calls on producers, and the end of a deleted one when its last `Ptr` goes. -/
inductive Step where
  | send (env : Env) (pid : Nat) (m : Message)
  | sendWith (env : Env) (pid : Nat) (m : Message) (opts : SendOptions)
  | deleteProducer (pid : Nat)
  | destroyProducer (env : Env) (pid : Nat)

def Step.producer : Step → Nat
  | .send _ pid _ | .sendWith _ pid _ _ | .deleteProducer pid | .destroyProducer _ pid => pid

/-- `transactionId`. -/
def suffixOf (w : World) (sid : Nat) : Text := ((w.sessions sid).map Session.suffix).getD []

/-- `Session::deleteProducer`: the maps forget the producer. -/
def forgetProducer (w : World) (sid pid : Nat) : World :=
  match w.sessions sid with
  | none => w
  | some s =>
    match get s.producers pid with
    | none => w
    | some _ => w.setSession sid { s with producers := erase s.producers pid }

/-- A deleted producer that its client still holds can send like the others; `~Producer` rolls
    back the transaction that its session has then. -/
def Step.run (w : World) (sid did : Nat) (deleted : List Nat) : Step → World
  | .send env pid m =>
    if pid ∈ deleted then w.onDestination did fun d => (d.send env pid (suffixOf w sid) m).1
    else w.send env sid pid m
  | .sendWith env pid m opts =>
    if pid ∈ deleted then
      w.onDestination did fun d => (d.sendWith env pid (suffixOf w sid) m opts).1
    else World.sendWith env w sid pid m opts
  | .deleteProducer pid => forgetProducer w sid pid
  | .destroyProducer env pid =>
    if pid ∈ deleted then w.onDestination did fun d => d.deleteProducer env pid (suffixOf w sid)
    else w

def posted (d : Destination) (t : Text) : Step → List Message
  | .send env pid m =>
    match get d.producers pid with
    | none => []
    | some p => copies env d.messageCounter (prepared env p t m) d.objects d.nextOid d.targets
  | .sendWith env pid m opts =>
    match get d.producers pid, validateSendOptions opts with
    | some p, .ok _ =>
      copies env d.messageCounter (fillHeaders env p (applyOptions env m opts (t ≠ [])))
        d.objects d.nextOid d.targets
    | _, _ => []
  | .deleteProducer _ | .destroyProducer _ _ => []

structure Book where
  world : World
  deleted : List Nat := []
  sent : List (Nat × Message) := []
  recent : List (Nat × Message) := []

/-- The session knows the producer, or has deleted it and its client holds it. -/
def Holds (s : Session) (deleted : List Nat) (pid : Nat) : Prop :=
  get s.producers pid ≠ none ∨ pid ∈ deleted

instance (s : Session) (deleted : List Nat) (pid : Nat) : Decidable (Holds s deleted pid) :=
  inferInstanceAs (Decidable (_ ∨ _))

/-- What a call adds to the book. -/
def entries (b : Book) (sid did : Nat) (step : Step) : List (Nat × Message) :=
  match b.world.sessions sid, b.world.destinations did with
  | some s, some d =>
    if Holds s b.deleted step.producer then
      (posted d s.suffix step).map fun m => (step.producer, m)
    else []
  | _, _ => []

def heldAfter (b : Book) (sid : Nat) : Step → List Nat
  | .deleteProducer pid =>
    if (b.world.sessions sid).any fun s => (get s.producers pid).isSome then pid :: b.deleted
    else b.deleted
  | .destroyProducer _ pid => b.deleted.filter (· ≠ pid)
  | _ => b.deleted

def destroys (b : Book) : Step → Bool
  | .destroyProducer _ pid => b.deleted.contains pid
  | _ => false

def Book.next (sid did : Nat) (b : Book) (step : Step) : Book where
  world := step.run b.world sid did b.deleted
  deleted := heldAfter b sid step
  sent := b.sent ++ entries b sid did step
  recent := if destroys b step then [] else b.recent ++ entries b sid did step

structure Unused (d : Destination) (u : UUID) : Prop where
  null : u ≠ 0
  records : ∀ sid, u ∉ keys (d.stores sid).log
  queues : ∀ q, ∀ m ∈ (d.queues q).toList, m.uuid ≠ u
  pending : ∀ x ∈ d.pending, x.2.2.uuid ≠ u
  received : ∀ cid c, get d.objects cid = some c → ∀ m ∈ c.transactQueue.toList, m.uuid ≠ u

/-- Messages have distinct uuids: the ones of a send are new. -/
def Fresh (sid did : Nat) (b : Book) (step : Step) : Prop :=
  ∀ x ∈ entries b sid did step, (∀ y ∈ b.sent, y.2.uuid ≠ x.2.uuid) ∧
    ∀ d, b.world.destinations did = some d → Unused d x.2.uuid

/-- A session at the start of a transaction, with all its producers on one destination, those
    that it deleted before among them. What its consumers have received in it lies in the log. -/
structure Started (w : World) (sid did : Nat) (deleted : List Nat) (s : Session)
    (d : Destination) : Prop where
  session : w.sessions sid = some s
  destination : w.destinations did = some d
  transaction : s.suffix ≠ []
  distinct : (s.producers.map Prod.fst).Nodup
  here : ∀ e ∈ s.producers, e.2 = did
  attached : ∀ pid, get s.producers pid ≠ none → ∃ p, get d.producers pid = some p ∧
    p.mode = .SESSION_TRANSACTED ∧ p.transactQueue = .empty
  left : ∀ pid ∈ deleted, get s.producers pid = none ∧
    ∃ p, get d.producers pid = some p ∧ p.mode = .SESSION_TRANSACTED
  unbegun : get d.buffer.transactionMessages s.suffix = none
  running : d.schedulerStopped = false
  received : ∀ cid c, get d.objects cid = some c → c.storage = .shared →
    ∀ m ∈ c.transactQueue.toList, ∀ n u, d.locate c m = some (n, u) →
      n < (d.stores .shared).log.length

def scene (d : Destination) : DestinationType × List Nat × Assoc Nat Consumer ×
    (QueueId → QueueT) × List (Int × QueueId × Message) × (StorageId → Store Content) × Bool :=
  (d.type, d.consumers, d.objects, d.queues, d.pending, d.stores, d.schedulerStopped)

/-- The book against the world. Copies that share a uuid come from one send. -/
structure Going (s₀ : Session) (d₀ : Destination) (sid did : Nat) (b : Book) (s : Session)
    (d : Destination) : Prop where
  session : b.world.sessions sid = some s
  destination : b.world.destinations did = some d
  suffix : s.suffix = s₀.suffix
  consumers : s.consumers = s₀.consumers
  distinct : (s.producers.map Prod.fst).Nodup
  here : ∀ e ∈ s.producers, e.2 = did
  setting : scene d = scene d₀
  attached : ∀ pid, get s.producers pid ≠ none → ∃ p, get d.producers pid = some p ∧
    p.mode = .SESSION_TRANSACTED ∧
    p.transactQueue.toList.Perm ((b.sent.filter (·.1 = pid)).map Prod.snd)
  left : ∀ pid ∈ b.deleted, get s.producers pid = none ∧
    ∃ p, get d.producers pid = some p ∧ p.mode = .SESSION_TRANSACTED
  ids : (get d.buffer.transactionMessages s₀.suffix).getD [] =
    (b.recent.filter (·.2.isPersistent)).map fun x => x.2.uuid
  data : ∀ x ∈ b.recent, x.2.isPersistent = true →
    d.buffer.bufferedData x.2.uuid = some x.2.content
  within : ∀ x ∈ b.recent, x ∈ b.sent
  unused : ∀ x ∈ b.sent, Unused d₀ x.2.uuid
  reach : ∀ x ∈ b.sent, ∃ cid ∈ d₀.targets, ∃ c, get d₀.objects cid = some c
  alike : ∀ x ∈ b.sent, ∀ y ∈ b.sent, x.2.uuid = y.2.uuid → x.1 = y.1 ∧
    x.2.content = y.2.content ∧ x.2.pendingDeliveryDelay = y.2.pendingDeliveryDelay
  together : ∀ x ∈ b.sent, ∀ y ∈ b.recent, x.2.uuid = y.2.uuid → x ∈ b.recent

theorem going_start {w : World} {sid did : Nat} {deleted : List Nat} {s : Session} {d : Destination}
    (started : Started w sid did deleted s d) :
    Going s d sid did { world := w, deleted := deleted } s d where
  session := started.session
  destination := started.destination
  suffix := rfl
  consumers := rfl
  distinct := started.distinct
  here := started.here
  setting := rfl
  attached pid known := by
    obtain ⟨p, found, mode, empty⟩ := started.attached pid known
    exact ⟨p, found, mode, by simp [empty]⟩
  left := started.left
  ids := by simp [started.unbegun]
  data := by simp
  within := by simp
  unused := by simp
  reach := by simp
  alike := by simp
  together := by simp

theorem Unused.moved {d d' : Destination} {u : UUID} (unused : Unused d u)
    (same : scene d' = scene d) : Unused d' u := by
  simp only [scene, Prod.mk.injEq] at same
  obtain ⟨-, -, objects, queues, pending, stores, -⟩ := same
  exact ⟨unused.null, by rw [stores]; exact unused.records, by rw [queues]; exact unused.queues,
    by rw [pending]; exact unused.pending, by rw [objects]; exact unused.received⟩

theorem targets_moved {d d' : Destination} (same : scene d' = scene d) :
    d'.targets = d.targets ∧ d'.objects = d.objects := by
  simp only [scene, Prod.mk.injEq] at same
  obtain ⟨type, consumers, objects, -⟩ := same
  refine ⟨?_, objects⟩
  unfold Destination.targets Destination.isQueueFamily
  rw [type, consumers]

theorem share_append (sent : List (Nat × Message)) (pid other : Nat) (l : List Message) :
    ((sent ++ l.map fun m => (pid, m)).filter (·.1 = other)).map Prod.snd =
      (sent.filter (·.1 = other)).map Prod.snd ++ if other = pid then l else [] := by
  rw [List.filter_append, List.map_append]
  congr 1
  by_cases same : other = pid
  · subst same
    simp [List.filter_eq_self.mpr, Function.comp_def]
  · simp [same, Ne.symm same]

theorem alike_append {l l' : List (Nat × Message)} {R : Nat × Message → Nat × Message → Prop}
    (first : ∀ x ∈ l, ∀ y ∈ l, x.2.uuid = y.2.uuid → R x y)
    (second : ∀ x ∈ l', ∀ y ∈ l', x.2.uuid = y.2.uuid → R x y)
    (apart : ∀ x ∈ l, ∀ y ∈ l', x.2.uuid ≠ y.2.uuid) :
    ∀ x ∈ l ++ l', ∀ y ∈ l ++ l', x.2.uuid = y.2.uuid → R x y := by
  intro x inx y iny equal
  rcases List.mem_append.mp inx with oldx | newx
  · rcases List.mem_append.mp iny with oldy | newy
    · exact first x oldx y oldy equal
    · exact absurd equal (apart x oldx y newy)
  · rcases List.mem_append.mp iny with oldy | newy
    · exact absurd equal.symm (apart y oldy x newx)
    · exact second x newx y newy equal

section Steps
variable {s₀ : Session} {d₀ : Destination} {sid did : Nat} {b : Book} {s : Session} {d : Destination}

theorem Going.object (going : Going s₀ d₀ sid did b s d) {pid : Nat} (held : Holds s b.deleted pid) :
    ∃ p, get d.producers pid = some p ∧ p.mode = .SESSION_TRANSACTED := by
  rcases held with known | gone
  · obtain ⟨p, found, mode, _⟩ := going.attached pid known
    exact ⟨p, found, mode⟩
  · exact (going.left pid gone).2

theorem Going.saved (going : Going s₀ d₀ sid did b s d) (open_ : s₀.suffix ≠ []) {step : Step}
    (env : Env) (m : Message) (held : Holds s b.deleted step.producer)
    (stays : destroys b step = false) (keeps : heldAfter b sid step = b.deleted)
    (sessions : (step.run b.world sid did b.deleted).sessions = b.world.sessions)
    (run : (step.run b.world sid did b.deleted).destinations did =
      some (d.save env step.producer s₀.suffix m))
    (post : posted d s.suffix step =
      copies env d.messageCounter m d.objects d.nextOid d.targets)
    (fresh : Fresh sid did b step) : ∃ d', Going s₀ d₀ sid did (b.next sid did step) s d' := by
  obtain ⟨p, found, mode⟩ := going.object held
  have noted : entries b sid did step =
      (posted d s.suffix step).map fun m => (step.producer, m) := by
    simp [entries, going.session, going.destination, held]
  have sent : (b.next sid did step).sent =
      b.sent ++ (posted d s.suffix step).map fun m => (step.producer, m) := by
    simp [Book.next, noted]
  have recent : (b.next sid did step).recent =
      b.recent ++ (posted d s.suffix step).map fun m => (step.producer, m) := by
    simp [Book.next, noted, stays]
  have saved := save_transacted env m open_ d found
  rw [← post] at saved
  have fresh := fresh
  unfold Fresh at fresh
  rw [noted] at fresh
  -- what `mem_copies` says of the new entries
  have copy : ∀ x ∈ posted d s.suffix step,
      x.content = { m.content with uuid := x.uuid, number := d.messageCounter } ∧
        x.pendingDeliveryDelay = m.pendingDeliveryDelay ∧
        ∃ cid ∈ d.targets, ∃ c, get d.objects cid = some c := by
    intro x member
    rw [post] at member
    exact mem_copies member
  have same : ∀ x ∈ posted d s.suffix step, ∀ y ∈ posted d s.suffix step, x.uuid = y.uuid →
      x.content = y.content := by
    intro x inx y iny equal
    rw [(copy x inx).1, (copy y iny).1, equal]
  have new : ∀ y ∈ b.sent, ∀ x ∈ posted d s.suffix step, y.2.uuid ≠ x.uuid := by
    intro y old x member
    exact (fresh (step.producer, x) (List.mem_map_of_mem member)).1 y old
  have data := addCopies_data env.stamp s₀.suffix d.buffer same
  have moved : scene (d.save env step.producer s₀.suffix m) = scene d₀ := by
    rw [saved]
    exact going.setting
  refine ⟨d.save env step.producer s₀.suffix m,
    { session := (congrFun sessions sid).trans going.session
      destination := run
      suffix := going.suffix
      consumers := going.consumers
      distinct := going.distinct
      here := going.here
      setting := moved
      attached := ?attached
      left := ?left
      ids := ?ids
      data := ?data
      within := ?within
      unused := ?unused
      reach := ?reach
      alike := ?alike
      together := ?together }⟩
  case attached =>
    intro pid other
    rw [saved, sent, share_append]
    by_cases mine : pid = step.producer
    · subst mine
      obtain ⟨_, same, _, perm⟩ := going.attached step.producer other
      rw [found, Option.some.injEq] at same
      rw [← same] at perm
      refine ⟨staged p (posted d s.suffix step), by simp, mode, ?_⟩
      rw [if_pos rfl]
      exact (enqueueAll_perm _ _ _).trans (perm.append_right _)
    · obtain ⟨q, attached, transacted, queue⟩ := going.attached pid other
      refine ⟨q, by simp [get_put_other _ _ mine, attached], transacted, ?_⟩
      rw [if_neg mine, List.append_nil]
      exact queue
  case left =>
    intro pid gone
    rw [show (b.next sid did step).deleted = b.deleted from keeps] at gone
    obtain ⟨unknown, q, there, transacted⟩ := going.left pid gone
    refine ⟨unknown, ?_⟩
    rw [saved]
    by_cases mine : pid = step.producer
    · subst mine
      exact ⟨staged p (posted d s.suffix step), by simp, mode⟩
    · exact ⟨q, by simp [get_put_other _ _ mine, there], transacted⟩
  case ids =>
    rw [saved, recent]
    simp only
    rw [addCopies_ids, going.ids]
    simp [List.filter_map, Function.comp_def]
  case data =>
    intro x member persistent
    rw [recent] at member
    rw [saved]
    rcases List.mem_append.mp member with old | added
    · refine (data.2 x.2.uuid ?_).trans (going.data x old persistent)
      intro y inside equal
      exact new x (going.within x old) y inside equal.symm
    · obtain ⟨y, inside, equal⟩ := List.mem_map.mp added
      rw [← equal] at persistent ⊢
      exact data.1 y inside persistent
  case within =>
    intro x member
    rw [sent]
    rw [recent] at member
    rcases List.mem_append.mp member with old | added
    · exact List.mem_append_left _ (going.within x old)
    · exact List.mem_append_right _ added
  case unused =>
    intro x member
    rw [sent] at member
    rcases List.mem_append.mp member with old | added
    · exact going.unused x old
    · exact ((fresh x added).2 d going.destination).moved going.setting.symm
  case reach =>
    intro x member
    rw [sent] at member
    rcases List.mem_append.mp member with old | added
    · exact going.reach x old
    · obtain ⟨y, inside, -⟩ := List.mem_map.mp added
      obtain ⟨targets, objects⟩ := targets_moved going.setting
      rw [← targets, ← objects]
      exact (copy y inside).2.2
  case alike =>
    rw [sent]
    refine alike_append going.alike ?_ ?_
    · intro x inx y iny equal
      obtain ⟨z, inside, rfl⟩ := List.mem_map.mp inx
      obtain ⟨z', inside', rfl⟩ := List.mem_map.mp iny
      exact ⟨rfl, same z inside z' inside' equal,
        (copy z inside).2.1.trans (copy z' inside').2.1.symm⟩
    · intro x old y added
      obtain ⟨z, inside, rfl⟩ := List.mem_map.mp added
      exact new x old z inside
  case together =>
    intro x inx y iny equal
    rw [sent] at inx
    rw [recent] at iny ⊢
    rcases List.mem_append.mp inx with oldx | newx
    · rcases List.mem_append.mp iny with oldy | newy
      · exact List.mem_append_left _ (going.together x oldx y oldy equal)
      · obtain ⟨z, inside, rfl⟩ := List.mem_map.mp newy
        exact absurd equal (new x oldx z inside)
    · exact List.mem_append_right _ newx

theorem Going.place (going : Going s₀ d₀ sid did b s d) {pid i : Nat}
    (known : get s.producers pid = some i) : i = did :=
  going.here (pid, i) (get_mem known)

theorem deleteProducer_transacted (env : Env) {pid : Nat} {p : Producer} {t : Text}
    (open_ : t ≠ []) (found : get d.producers pid = some p) (mode : p.mode = .SESSION_TRANSACTED) :
    d.deleteProducer env pid t =
      { d with buffer := d.buffer.rollbackTransaction env.stamp t,
               producers := erase (put d.producers pid { p with transactQueue := .empty }) pid } := by
  unfold Destination.deleteProducer Destination.rollbackProducer
  rw [found]
  dsimp only
  rw [if_pos mode, if_neg open_]
  rfl

/- The session forgets the producer, nothing else happens. -/
theorem Going.deleted (going : Going s₀ d₀ sid did b s d) {pid : Nat}
    (known : get s.producers pid ≠ none) :
    ∃ s', Going s₀ d₀ sid did (b.next sid did (.deleteProducer pid)) s' d := by
  obtain ⟨p, found, mode, -⟩ := going.attached pid known
  have noted : entries b sid did (.deleteProducer pid) = [] := by
    simp [entries, going.session, going.destination, posted]
  have sent : (b.next sid did (.deleteProducer pid)).sent = b.sent := by
    simp [Book.next, noted]
  have recent : (b.next sid did (.deleteProducer pid)).recent = b.recent := by
    simp [Book.next, destroys, noted]
  have world : (b.next sid did (.deleteProducer pid)).world =
      b.world.setSession sid { s with producers := erase s.producers pid } := by
    obtain ⟨i, mine⟩ := Option.ne_none_iff_exists'.mp known
    simp [Book.next, Step.run, forgetProducer, going.session, mine]
  have gone : (b.next sid did (.deleteProducer pid)).deleted = pid :: b.deleted := by
    simp [Book.next, heldAfter, going.session, Option.isSome_iff_ne_none, known]
  have others : ∀ {other}, get (erase s.producers pid) other ≠ none →
      other ≠ pid ∧ get s.producers other ≠ none := by
    intro other still
    have apart : other ≠ pid := by
      intro same
      rw [same, get_erase_same] at still
      exact still rfl
    rw [get_erase_other _ apart] at still
    exact ⟨apart, still⟩
  refine ⟨{ s with producers := erase s.producers pid },
    { session := by rw [world, setSession_same]
      destination := by rw [world]; exact going.destination
      suffix := going.suffix
      consumers := going.consumers
      distinct := nodup_erase going.distinct pid
      here := fun e member => going.here e (List.mem_filter.mp member).1
      setting := going.setting
      attached := ?attached
      left := ?left
      ids := by rw [recent]; exact going.ids
      data := by rw [recent]; exact going.data
      within := by rw [recent, sent]; exact going.within
      unused := by rw [sent]; exact going.unused
      reach := by rw [sent]; exact going.reach
      alike := by rw [sent]; exact going.alike
      together := by rw [recent, sent]; exact going.together }⟩
  case attached =>
    intro other still
    rw [sent]
    exact going.attached other (others still).2
  case left =>
    intro other member
    rw [gone] at member
    rcases List.mem_cons.mp member with same | old
    · rw [same]
      exact ⟨get_erase_same _ _, p, found, mode⟩
    · obtain ⟨unknown, rest⟩ := going.left other old
      refine ⟨?_, rest⟩
      by_contra still
      exact (others still).2 unknown

theorem Going.destroyed (going : Going s₀ d₀ sid did b s d) (open_ : s₀.suffix ≠ []) (env : Env)
    {pid : Nat} (gone : pid ∈ b.deleted) :
    ∃ d', Going s₀ d₀ sid did (b.next sid did (.destroyProducer env pid)) s d' := by
  obtain ⟨unknown, p, found, mode⟩ := going.left pid gone
  have noted : entries b sid did (.destroyProducer env pid) = [] := by
    simp [entries, going.session, going.destination, posted]
  have sent : (b.next sid did (.destroyProducer env pid)).sent = b.sent := by
    simp [Book.next, noted]
  have recent : (b.next sid did (.destroyProducer env pid)).recent = [] := by
    simp [Book.next, destroys, gone]
  have world : (b.next sid did (.destroyProducer env pid)).world =
      b.world.onDestination did fun d => d.deleteProducer env pid s₀.suffix := by
    simp [Book.next, Step.run, gone, suffixOf, going.session, going.suffix]
  have rolled := deleteProducer_transacted env open_ found mode
  refine ⟨d.deleteProducer env pid s₀.suffix,
    { session := by rw [world, onDestination_sessions]; exact going.session
      destination := by rw [world]; exact onDestination_same going.destination _
      suffix := going.suffix
      consumers := going.consumers
      distinct := going.distinct
      here := going.here
      setting := by rw [rolled]; exact going.setting
      attached := ?attached
      left := ?left
      ids := ?ids
      data := by simp [recent]
      within := by simp [recent]
      unused := by rw [sent]; exact going.unused
      reach := by rw [sent]; exact going.reach
      alike := by rw [sent]; exact going.alike
      together := by simp [recent] }⟩
  case attached =>
    intro other known
    have apart : other ≠ pid := by
      rintro rfl
      exact known unknown
    obtain ⟨q, attached, transacted, queue⟩ := going.attached other known
    refine ⟨q, ?_, transacted, by rw [sent]; exact queue⟩
    rw [rolled]
    simp [get_erase_other _ apart, get_put_other _ _ apart, attached]
  case left =>
    intro other member
    obtain ⟨old, apart⟩ := List.mem_filter.mp (show other ∈ b.deleted.filter (· ≠ pid) from member)
    have apart : other ≠ pid := by simpa using apart
    obtain ⟨unknown', q, there, transacted⟩ := going.left other old
    refine ⟨unknown', q, ?_, transacted⟩
    rw [rolled]
    simp [get_erase_other _ apart, get_put_other _ _ apart, there]
  case ids =>
    rw [rolled, recent]
    simp [rollback_ids]

theorem Going.idle (going : Going s₀ d₀ sid did b s d) {step : Step}
    (world : step.run b.world sid did b.deleted = b.world) (none : entries b sid did step = [])
    (stays : destroys b step = false) (keeps : heldAfter b sid step = b.deleted) :
    Going s₀ d₀ sid did (b.next sid did step) s d := by
  have same : b.next sid did step = b := by
    simp [Book.next, world, none, stays, keeps]
  rw [same]
  exact going

theorem Going.send_run (going : Going s₀ d₀ sid did b s d) (env : Env) {pid : Nat} (m : Message)
    (held : Holds s b.deleted pid) : (Step.send env pid m).run b.world sid did b.deleted =
      b.world.onDestination did fun d => (d.send env pid s.suffix m).1 := by
  by_cases gone : pid ∈ b.deleted
  · simp [Step.run, gone, suffixOf, going.session]
  · obtain ⟨i, mine⟩ := Option.ne_none_iff_exists'.mp (held.resolve_right gone)
    simp [Step.run, gone, World.send, going.session, mine, going.place mine]

theorem Going.sendWith_run (going : Going s₀ d₀ sid did b s d) (env : Env) {pid : Nat} (m : Message)
    (opts : SendOptions) (held : Holds s b.deleted pid) :
    (Step.sendWith env pid m opts).run b.world sid did b.deleted =
      b.world.onDestination did fun d => (d.sendWith env pid s.suffix m opts).1 := by
  by_cases gone : pid ∈ b.deleted
  · simp [Step.run, gone, suffixOf, going.session]
  · obtain ⟨i, mine⟩ := Option.ne_none_iff_exists'.mp (held.resolve_right gone)
    simp [Step.run, gone, World.sendWith, going.session, mine, going.place mine]

theorem Going.next (going : Going s₀ d₀ sid did b s d) (open_ : s₀.suffix ≠ []) (step : Step)
    (fresh : Fresh sid did b step) :
    ∃ s' d', Going s₀ d₀ sid did (b.next sid did step) s' d' := by
  have unheld : ∀ {pid}, ¬ Holds s b.deleted pid → get s.producers pid = none ∧ pid ∉ b.deleted := by
    intro pid absent
    rw [Holds, not_or, not_not] at absent
    exact absent
  cases step with
  | send env pid m =>
    by_cases held : Holds s b.deleted pid
    · obtain ⟨p, found, -⟩ := going.object held
      refine ⟨s, going.saved open_ env (prepared env p s₀.suffix m) held rfl rfl ?_ ?_ ?_ fresh⟩
      · rw [going.send_run env m held, onDestination_sessions]
      · rw [going.send_run env m held, onDestination_same going.destination]
        simp [Destination.send, found, going.suffix, Step.producer]
      · simp [posted, found, going.suffix]
    · obtain ⟨unknown, present⟩ := unheld held
      refine ⟨s, d, going.idle ?_ ?_ rfl rfl⟩
      · simp [Step.run, World.send, going.session, unknown, present]
      · simp [entries, going.session, going.destination, Step.producer, held]
  | sendWith env pid m opts =>
    by_cases held : Holds s b.deleted pid
    · obtain ⟨p, found, -⟩ := going.object held
      cases valid : validateSendOptions opts with
      | error e =>
        refine ⟨s, d, going.idle ?_ ?_ rfl rfl⟩
        · have same : (d.sendWith env pid s.suffix m opts).1 = d := by
            simp [Destination.sendWith, found, valid]
          rw [going.sendWith_run env m opts held]
          simp only [World.onDestination, going.destination, same]
          rw [← going.destination, Function.update_eq_self]
        · simp [entries, going.session, going.destination, Step.producer, posted, found, valid]
      | ok _ =>
        refine ⟨s, going.saved open_ env
          (fillHeaders env p (applyOptions env m opts (s₀.suffix ≠ []))) held rfl rfl ?_ ?_ ?_ fresh⟩
        · rw [going.sendWith_run env m opts held, onDestination_sessions]
        · rw [going.sendWith_run env m opts held, onDestination_same going.destination]
          simp [Destination.sendWith, found, valid, going.suffix, Step.producer]
        · simp [posted, found, valid, going.suffix]
    · obtain ⟨unknown, present⟩ := unheld held
      refine ⟨s, d, going.idle ?_ ?_ rfl rfl⟩
      · simp [Step.run, World.sendWith, going.session, unknown, present]
      · simp [entries, going.session, going.destination, Step.producer, held]
  | deleteProducer pid =>
    by_cases known : get s.producers pid = none
    · refine ⟨s, d, going.idle ?_ ?_ rfl ?_⟩
      · simp [Step.run, forgetProducer, going.session, known]
      · simp [entries, going.session, going.destination, posted]
      · simp [heldAfter, going.session, known]
    · obtain ⟨s', after⟩ := going.deleted known
      exact ⟨s', d, after⟩
  | destroyProducer env pid =>
    by_cases gone : pid ∈ b.deleted
    · obtain ⟨d', after⟩ := going.destroyed open_ env gone
      exact ⟨s, d', after⟩
    · refine ⟨s, d, going.idle ?_ ?_ ?_ ?_⟩
      · simp [Step.run, gone]
      · simp [entries, going.session, going.destination, posted]
      · simp [destroys, gone]
      · refine List.filter_eq_self.mpr ?_
        intro other member
        have apart : other ≠ pid := fun same => gone (same ▸ member)
        simpa using apart

theorem going_run {steps : List Step} (going : Going s₀ d₀ sid did b s d) (open_ : s₀.suffix ≠ [])
    (fresh : Meets (Book.next sid did) (Fresh sid did) b steps) :
    ∃ s' d', Going s₀ d₀ sid did (steps.foldl (Book.next sid did) b) s' d' := by
  induction steps generalizing b s d with
  | nil => exact ⟨s, d, going⟩
  | cons step steps ih =>
    obtain ⟨s', d', after⟩ := going.next open_ step fresh.1
    exact ih after fresh.2

end Steps

end TinyMqTransactedProducers
