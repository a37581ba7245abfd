import TinyMq.Broker.Inversion

/-!
Selectors. Only `push` asks the selector of a consumer, but a message also comes into
its queue with the commit of a transaction, the replay of a storage, a redelivery, a
dead letter, or through another consumer of the same queue. In a run in which every
consumer of a queue takes what is put there, `recv` returns nothing else.
-/
namespace TinyMqSelectorSafety
open DelimitedText AssocLists BandQueues Machines TombstoneLog TinyMqTom TinyMqMessage TinyMqStore
open TinyMqDestination TinyMqSession TinyMqFrames TinyMqQueueRuns TinyMqPlaces TinyMqOrigins
open TinyMqInversion

/-- A selector on what the application will see of the message. -/
def accepted (selector : Option Selector) (content : Content) : Bool :=
  match selector with
  | none => true
  | some matching => matching content.properties

def Enters (d : Destination) (q : QueueId) (content : Content) : Call → Prop
  | .send _ _ t m | .sendWith _ _ t m _ => t = [] ∧ content.properties = m.content.properties ∧
      ∃ cid ∈ d.targets, ∃ c, get d.objects cid = some c ∧ c.queue = q ∧ accepts c.selector m = true
  | .commitProducer _ pid _ => (∃ x ∈ messagesAt d (.staged pid), content = shown x) ∧
      ∃ cid ∈ d.targets, ∃ c, get d.objects cid = some c ∧ c.queue = q
  | .acceptDeadLetter _ m => d.queueMade = true ∧ q = .shared ∧
      content.properties = (deadLetterCopy m 0).content.properties
  | call =>
      (∃ sid, Replays d q sid call ∧ ∃ x ∈ (d.stores sid).scan, content = x.1.data) ∨
      ∃ cid c p, GivesBack cid p call ∧ get d.objects cid = some c ∧ c.queue = q ∧
        ∃ x ∈ messagesAt d p, content = x.content

/-- Every consumer of a queue, the one that the call creates included, takes what the
    call puts there, and a new one takes what is waiting there. -/
structure Agreed (d : Destination) (call : Call) : Prop where
  old : ∀ q content, Enters d q content call → ∀ cid c, get d.objects cid = some c → c.queue = q →
    accepted c.selector content = true
  new : ∀ q content, Enters d q content call → ∀ cid c, Joins d cid c call → c.queue = q →
    accepted c.selector content = true
  waiting : ∀ cid c, Joins d cid c call → ∀ p, Waits c.queue p → ∀ m ∈ messagesAt d p,
    accepted c.selector (shown m) = true

/-- Whatever waits for the consumers of a queue suits all of them. -/
structure Suited (d : Destination) : Prop where
  readable : Tracked Readable d []
  suits : ∀ cid c, get d.objects cid = some c → ∀ p, Waits c.queue p → ∀ m ∈ messagesAt d p,
    accepted c.selector (shown m) = true

/-- A receive returns only what the selector of its consumer takes. -/
def ReturnsSelected (d : Destination) (call : Call) : Prop :=
  ∀ env cid patience c m, call = .recv env cid patience → get d.objects cid = some c →
    (step d call).2 = some m → accepts c.selector m = true

theorem accepted_properties {selector : Option Selector} {content content' : Content}
    (same : content.properties = content'.properties) :
    accepted selector content = accepted selector content' := by
  unfold accepted
  rw [same]

theorem accepts_accepted (selector : Option Selector) (m : Message) :
    accepts selector m = accepted selector m.content := rfl

section Entering
variable {d e : Destination} {call : Call} {q : QueueId} {p : Place} {m : Message}

theorem sends_enters {sent : Message} {pid : Nat} (sends : Sends d sent pid [] call) {cid : Nat}
    (target : cid ∈ d.targets) {c : Consumer} (object : get d.objects cid = some c)
    (takes : accepts c.selector sent = true) : Enters d c.queue sent.content call := by
  have same : ∀ m : Message, sent.content.properties = m.content.properties →
      accepts c.selector m = true := by
    intro m equal
    rw [accepts_accepted, ← accepted_properties equal]
    exact takes
  cases call with
  | send env id t m =>
    obtain ⟨_, outside, producer, _, rfl⟩ := sends
    have equal : (prepared env producer [] m).content.properties = m.content.properties := by
      unfold prepared
      split <;> rfl
    exact ⟨outside, equal, cid, target, c, object, rfl, same m equal⟩
  | sendWith env id t m opts =>
    obtain ⟨_, outside, producer, _, _, rfl⟩ := sends
    exact ⟨outside, rfl, cid, target, c, object, rfl, same m rfl⟩
  | _ => exact sends.elim

theorem replays_enters {sid : StorageId} (asked : Replays d q sid call)
    {x : Entry UUID Content × Nat} (record : x ∈ (d.stores sid).scan) :
    Enters d q x.1.data call := by
  cases call with
  | createConsumer env id mode selector => exact Or.inl ⟨sid, asked, x, record, rfl⟩
  | createDurableConsumer env id mode clientID name selector =>
    exact Or.inl ⟨sid, asked, x, record, rfl⟩
  | _ => exact asked.elim

theorem givesBack_enters {cid : Nat} {c : Consumer} {p₀ : Place} (gives : GivesBack cid p₀ call)
    (object : get d.objects cid = some c) {x : Message} (was : x ∈ messagesAt d p₀) :
    Enters d c.queue x.content call := by
  cases call with
  | recover env id => exact Or.inr ⟨cid, c, p₀, gives, object, rfl, x, was, rfl⟩
  | rollbackConsumer env id closing => exact Or.inr ⟨cid, c, p₀, gives, object, rfl, x, was, rfl⟩
  | destroyConsumer env id => exact Or.inr ⟨cid, c, p₀, gives, object, rfl, x, was, rfl⟩
  | _ => exact gives.elim

theorem origin_enters (origin : Origin d call e p m) (place : Waits q p) : (∃ p', Waits q p' ∧ m ∈ messagesAt d p') ∨
      ∃ content, Enters d q content call ∧ (shown m).properties = content.properties := by
  have queue : ∀ {q'}, Waits q' p → q' = q := by
    intro q' place'
    rcases place with rfl | rfl <;> rcases place' with same | same <;> cases same <;> rfl
  have timed : ∀ {x}, Retimed x m → (shown m).properties = (shown x).properties := by
    intro x retimed
    obtain ⟨t, same⟩ := retimed_shown retimed
    rw [same]
    rfl
  have cached : Cached m → (shown m).properties = m.content.properties := by
    intro here
    obtain ⟨t, same⟩ := cached_shown here
    rw [same]
    rfl
  cases origin with
  | kept here => exact Or.inl ⟨p, place, here⟩
  | replayed asked record place' shell new =>
    obtain rfl := queue place'
    exact Or.inr ⟨_, replays_enters asked record, timed shell⟩
  | pushed sends target object takes place' copy located new =>
    obtain rfl := queue place'
    exact Or.inr ⟨_, sends_enters sends target object takes,
      (cached copy.cached).trans copy.properties⟩
  | staged sends transaction copy location new => rcases place with same | same <;> cases same
  | @delivered env pid t cid c x _ _ commit target object was place' retimed oid =>
    obtain rfl := queue place'
    subst commit
    exact Or.inr ⟨_, ⟨⟨x, was, rfl⟩, cid, target, c, object, rfl⟩, timed retimed⟩
  | received recv object was opened place' =>
    rcases place with rfl | rfl <;> rcases place' with same | same <;> cases same
  | redelivered gives object transacted was within again place' =>
    obtain rfl := queue place'
    obtain ⟨t, content⟩ := again.content
    refine Or.inr ⟨_, givesBack_enters gives object was, (cached again.cached).trans ?_⟩
    rw [content]
    rfl
  | @due env q' _ fires was =>
    obtain rfl := queue (Or.inl rfl)
    exact Or.inl ⟨_, Or.inr rfl, was⟩
  | @deadLettered env dead _ _ accepts_ made place' copy located new =>
    obtain rfl := queue place'
    subst accepts_
    exact Or.inr ⟨_, ⟨made, rfl, rfl⟩, (cached copy.cached).trans copy.properties⟩

end Entering

theorem step_suited (d : Destination) (call : Call) (suited : Suited d) (agreed : Agreed d call) :
    Suited (next d call) := by
  have unique : HeldOnce d := suited.readable.mono fun _ _ _ _ => trivial
  refine ⟨step_readable suited.readable call, ?_⟩
  intro cid c' object p place m inside
  have origin := (step_origin unique call).origin p m inside
  rcases step_joined d call cid c' object with ⟨c, before, same⟩ | joins
  · simp only [settings, Prod.mk.injEq] at same
    obtain ⟨_, queue, _, selector⟩ := same
    rw [← queue] at place
    rw [← selector]
    rcases origin_enters origin place with ⟨p', place', was⟩ | ⟨content, enters, shows⟩
    · exact suited.suits cid c before p' place' m was
    · rw [accepted_properties shows]
      exact agreed.old _ content enters cid c before rfl
  · rcases origin_enters origin place with ⟨p', place', was⟩ | ⟨content, enters, shows⟩
    · exact agreed.waiting cid c' joins p' place' m was
    · rw [accepted_properties shows]
      exact agreed.new _ content enters cid c' joins rfl

theorem recv_waited (env : Env) (cid patience : Nat) (d : Destination) {c : Consumer}
    (object : get d.objects cid = some c) {m : Message}
    (returned : (d.recv env cid patience).2 = some m) :
    ∃ x ∈ messagesAt d (.queued c.queue), Opened x m := by
  refine recv_rule (P := fun e r => get e.objects cid = some c → r.2 = some m →
      ∃ x ∈ messagesAt e (.queued c.queue), Opened x m) ?_ ?_ ?_ patience d object returned
  · intro e _ nothing
    cases nothing
  · intro e c' x q here next object given
    rw [object, Option.some.injEq] at here
    subst here
    rw [← Option.some.inj given]
    refine ⟨x, ?_, rehydrate_opened _ c x⟩
    exact (dequeue_takes next).1.mem_iff.mpr (by simp)
  · intro e c' x q r here next rest object given
    rw [object, Option.some.injEq] at here
    subst here
    have same := (setQueue_same e c.queue q).trans (dropRecord_same (e.setQueue c.queue q) c
      ((e.setQueue c.queue q).rehydrate c x))
    obtain ⟨y, inside, opened⟩ := rest (by rw [same.objects]; exact object) given
    refine ⟨y, ?_, opened⟩
    obtain ⟨stores, only⟩ := dropRecords_stores (e.setQueue c.queue q) c
      [(e.setQueue c.queue q).rehydrate c x]
    have one : (e.setQueue c.queue q).dropRecord c ((e.setQueue c.queue q).rehydrate c x) =
        { e.setQueue c.queue q with stores := stores } := only
    rw [one] at inside
    exact (dequeue_takes next).1.mem_iff.mpr (List.mem_append_right _ inside)

theorem suited_returns (d : Destination) (call : Call) (suited : Suited d) :
    ReturnsSelected d call := by
  intro env cid patience c m recv object returned
  subst recv
  obtain ⟨x, was, opened⟩ := recv_waited env cid patience d object returned
  have content := (opened_shown opened (suited.readable.origin _ x was)).1
  rw [accepts_accepted, content]
  exact suited.suits cid c object _ (Or.inl rfl) x was

/- In every run in which the consumers of a queue take what is put there, a receive
   returns only what the selector of its consumer takes. -/
theorem selector_safe {start : Destination} (idle : Idle start) {calls : List Call}
    (agreed : Meets next Agreed start calls) : Meets next ReturnsSelected start calls := by
  have first : Suited start := by
    refine ⟨idle.tracked _, ?_⟩
    intro cid c _ p _ m inside
    rw [idle p] at inside
    cases inside
  exact meets_along step_suited (fun d call suited _ => suited_returns d call suited) first agreed

def marked : Selector := fun ps => (get ps [97]).isSome

def markedLetter : Message :=
  { letter 0 7 with content := { (letter 0 7).content with
      properties := [([97], .value (.boolean true))] } }

def selectedRun : List Call :=
  [.createDefaultConsumer 0 .AUTO_ACKNOWLEDGE,
    .createConsumer calm 1 .AUTO_ACKNOWLEDGE (some marked), .createProducer 5 .AUTO_ACKNOWLEDGE,
    .send calm 5 [] markedLetter, .recv calm 1 0]

theorem agreed_quiet {d : Destination} {call : Call} (nothing : ∀ q content, ¬ Enters d q content call)
    (nobody : ∀ cid c, ¬ Joins d cid c call) : Agreed d call :=
  ⟨fun q content enters => (nothing q content enters).elim,
    fun q content enters => (nothing q content enters).elim,
    fun cid c joins => (nobody cid c joins).elim⟩

theorem selector_safe_selected : Meets next ReturnsSelected { type := .Queue } selectedRun := by
  refine selector_safe ?_ ⟨⟨?_, ?_, ?_⟩, ⟨?_, ?_, ?_⟩, agreed_quiet ?_ (fun _ _ => id),
    ⟨?_, fun _ _ _ _ _ joins => joins.elim, fun _ _ joins => joins.elim⟩,
    agreed_quiet ?_ (fun _ _ => id), trivial⟩
  · intro p
    cases p <;> simp [messagesAt, chainOf, receivedBy, stagedBy]
  · rintro q content (⟨_, asked, _⟩ | ⟨_, _, _, gives, _⟩)
    · exact asked.elim
    · exact gives.elim
  · rintro q content (⟨_, asked, _⟩ | ⟨_, _, _, gives, _⟩)
    · exact asked.elim
    · exact gives.elim
  · rintro cid c ⟨_, _, same⟩ p _ m _
    simp only [settings, Prod.mk.injEq] at same
    rw [same.2.2.2]
    rfl
  · rintro q content (⟨_, ⟨_, _, _, rfl⟩, x, record, _⟩ | ⟨_, _, _, gives, _⟩)
    · cases record
    · exact gives.elim
  · rintro q content (⟨_, ⟨_, _, _, rfl⟩, x, record, _⟩ | ⟨_, _, _, gives, _⟩)
    · cases record
    · exact gives.elim
  · rintro cid c _ p (rfl | rfl) m inside
    · simp [next, step, Destination.createDefaultConsumer, Destination.isQueueFamily, messagesAt] at inside
    · simp [next, step, Destination.createDefaultConsumer, Destination.isQueueFamily, messagesAt] at inside
  · rintro q content (⟨_, asked, _⟩ | ⟨_, _, _, gives, _⟩)
    · exact asked.elim
    · exact gives.elim
  · rintro q content ⟨_, same, _⟩ cid c object _
    have member := get_mem object
    have only : c.selector = some marked := by
      have here : (cid, c) ∈ [(1, (⟨.AUTO_ACKNOWLEDGE,.shared,.shared,some marked,[],.empty,[]⟩ :
        Consumer))] := member
      rw [(Prod.mk.inj (List.mem_singleton.mp here)).2]
    rw [only, accepted_properties same]
    rfl
  · rintro q content (⟨_, asked, _⟩ | ⟨_, _, _, gives, _⟩)
    · exact asked.elim
    · exact gives.elim

/- A letter that the first consumer takes is returned by the second one, which declines it. -/
theorem declined_returned : ¬ Meets next ReturnsSelected { type := .Queue }
    [.createDefaultConsumer 0 .AUTO_ACKNOWLEDGE, .createConsumer calm 1 .AUTO_ACKNOWLEDGE none,
      .createConsumer calm 2 .AUTO_ACKNOWLEDGE (some marked), .createProducer 5 .AUTO_ACKNOWLEDGE,
      .send calm 5 [] (letter 0 7), .recv calm 2 0] := by
  rintro ⟨_, _, _, _, _, received, _⟩
  have taken := received calm 2 0 _ _ rfl rfl rfl
  exact absurd taken (by decide)

end TinyMqSelectorSafety
