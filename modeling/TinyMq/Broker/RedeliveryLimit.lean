import TinyMq.Broker.Inversion

/-!
What the redelivery limit counts. The count is a header of the message: it rises by
one with every redelivery and comes along with every copy, so a dead-letter queue
starts with the count that exceeded the limit of the origin.
-/
namespace TinyMqRedeliveryLimit
open AssocLists BandQueues Machines TinyMqTom TinyMqMessage TinyMqStore TinyMqDestination
open TinyMqSession TinyMqFrames TinyMqQueueRuns TinyMqPlaces TinyMqOrigins TinyMqInversion

/-- The count with which the message is delivered next. -/
def deliveryCount (m : Message) : Int := (shown m).headers.deliveryCount

def transacted (c : Option Consumer) : List Message :=
  match c with
  | none => []
  | some c => if c.mode = .SESSION_TRANSACTED then c.transactQueue.toList else []

def handed (d : Destination) : Call → List Message
  | .recover _ cid => chainOf (get d.objects cid)
  | .rollbackConsumer _ cid _ => transacted (get d.objects cid)
  | .destroyConsumer _ cid => transacted (get d.objects cid)
  | _ => []

/-- The messages that `redeliver` gives up in a call: they go to the dead-letter queue,
    or nowhere when there is none. -/
def givenUp (d : Destination) : Call → List Message
  | .recover env cid => (d.recover env cid).2
  | .rollbackConsumer env cid closing => (d.rollbackConsumer env cid closing).2
  | .destroyConsumer env cid => (d.destroyConsumer env cid).2
  | _ => []

def times (d : Destination) (call : Call) (oid : Nat) : Nat :=
  (handed d call).countP (·.oid = oid)

/-- How often an object of a destination is redelivered there in a run. -/
def redeliveries : Exchange → List (Nat × Call) → Nat → Nat → Nat
  | _, [], _, _ => 0
  | w, x :: rest, did, oid =>
    (if x.1 = did then times (w did) x.2 oid else 0) + redeliveries (nextOn w x) rest did oid

section GivenUp
variable {d : Destination}

theorem redeliver_givesUp {env : Env} {c : Consumer} {closing : Bool} {x m : Message}
    (gone : (d.redeliver env c closing x).2 = some m) : m = countRedelivery x ∧ Limited d x := by
  unfold Destination.redeliver at gone
  dsimp only at gone
  split at gone
  · rename_i limited
    exact ⟨(Option.some.inj gone).symm, limited⟩
  · cases gone

theorem redeliverAll_givesUp {env : Env} {c : Consumer} {closing : Bool} (ms : List Message)
    {m : Message} (gone : m ∈ (d.redeliverAll env c closing ms).2) :
    ∃ x ∈ ms, m = countRedelivery x ∧ Limited d x := by
  induction ms generalizing d with
  | nil => cases gone
  | cons x ms ih =>
    rw [Destination.redeliverAll] at gone
    rcases List.mem_append.mp gone with first | later
    · exact ⟨x, by simp, redeliver_givesUp (Option.mem_toList.mp first)⟩
    · obtain ⟨y, inside, same, limited⟩ := ih later
      refine ⟨y, List.mem_cons_of_mem x inside, same, ?_⟩
      unfold Limited at limited ⊢
      rw [(redeliver_stays env d c closing x).policy] at limited
      exact limited

theorem rollback_givesUp {env : Env} {cid : Nat} {closing : Bool} {m : Message}
    (gone : m ∈ (d.rollbackConsumer env cid closing).2) :
    ∃ x ∈ transacted (get d.objects cid), m = countRedelivery x ∧ Limited d x := by
  unfold Destination.rollbackConsumer at gone
  split at gone
  · cases gone
  · rename_i c object
    split at gone
    · rename_i mode
      obtain ⟨x, inside, same, limited⟩ := redeliverAll_givesUp _ gone
      exact ⟨x, by simpa [transacted, object, mode] using inside, same, limited⟩
    · cases gone

theorem flushPendingAcks_policy (d : Destination) (cid : Nat) (c : Consumer) :
    (d.flushPendingAcks cid c).redeliveryPolicy = d.redeliveryPolicy :=
  (stays_fold (l := c.pendingAcks) (fun e rec _ => removeRecord_stays e c.storage rec) d).policy

theorem givenUp_limited {call : Call} {m : Message} (gone : m ∈ givenUp d call) :
    ∃ x ∈ handed d call, m = countRedelivery x ∧ Limited d x := by
  cases call with
  | recover env cid =>
    simp only [givenUp, Destination.recover] at gone
    split at gone
    · cases gone
    · rename_i c object
      obtain ⟨x, inside, same, limited⟩ := redeliverAll_givesUp _ gone
      exact ⟨x, by simpa [handed, chainOf, object] using inside, same, limited⟩
  | rollbackConsumer env cid closing => exact rollback_givesUp gone
  | destroyConsumer env cid =>
    simp only [givenUp, Destination.destroyConsumer] at gone
    split at gone
    · cases gone
    · rename_i c object
      obtain ⟨x, inside, same, limited⟩ := rollback_givesUp gone
      refine ⟨x, ?_, same, ?_⟩
      · have now : get (d.flushPendingAcks cid c).objects cid = some { c with pendingAcks := [] } := by
          simp [Destination.flushPendingAcks, Destination.setObject]
        rw [now] at inside
        simpa [handed, transacted, object] using inside
      · unfold Limited at limited ⊢
        rw [flushPendingAcks_policy] at limited
        exact limited
  | _ => cases gone

end GivenUp

section Counts
variable {d : Destination} {call : Call}

theorem handed_received (readable : Tracked Readable d []) {x : Message} (inside : x ∈ handed d call) :
    ∃ p, x ∈ messagesAt d p ∧ deliveryCount x = x.content.headers.deliveryCount := by
  have seen : ∀ cid p, p = .inFlight cid ∨ p = .received cid → x ∈ messagesAt d p →
      ∃ p, x ∈ messagesAt d p ∧ deliveryCount x = x.content.headers.deliveryCount := by
    intro cid p place here
    refine ⟨p, here, ?_⟩
    unfold deliveryCount
    rw [shown_received place (readable.origin p x here)]
  have rolled : ∀ cid, x ∈ transacted (get d.objects cid) → x ∈ messagesAt d (.received cid) := by
    intro cid inside
    unfold transacted at inside
    split at inside
    · cases inside
    · rename_i c object
      split at inside
      · simpa [messagesAt, receivedBy, object] using inside
      · cases inside
  cases call with
  | recover env cid => exact seen cid (.inFlight cid) (Or.inl rfl) inside
  | rollbackConsumer env cid closing => exact seen cid _ (Or.inr rfl) (rolled cid inside)
  | destroyConsumer env cid => exact seen cid _ (Or.inr rfl) (rolled cid inside)
  | _ => cases inside

theorem givesBack_handed {cid : Nat} {c : Consumer} {p₀ : Place} {x : Message}
    (gives : GivesBack cid p₀ call) (object : get d.objects cid = some c)
    (mode : p₀ = .received cid → c.mode = .SESSION_TRANSACTED) (was : x ∈ messagesAt d p₀) :
    x ∈ handed d call := by
  have rolled : p₀ = .received cid → x ∈ transacted (get d.objects cid) := by
    intro place
    have here := mode place
    subst place
    simpa [messagesAt, receivedBy, transacted, object, here] using was
  cases call with
  | recover env id =>
    obtain ⟨rfl, rfl⟩ := gives
    exact was
  | rollbackConsumer env id closing =>
    obtain ⟨rfl, place⟩ := gives
    exact rolled place
  | destroyConsumer env id =>
    obtain ⟨rfl, place⟩ := gives
    exact rolled place
  | _ => exact gives.elim

theorem times_handed {x : Message} (inside : x ∈ handed d call) : 1 ≤ times d call x.oid :=
  List.countP_pos_iff.mpr ⟨x, inside, by simp⟩

theorem step_count (readable : Tracked Readable d []) {p : Place} {m : Message}
    (inside : m ∈ messagesAt (next d call) p) (old : m.oid < d.nextOid) :
    ∃ p' x, x ∈ messagesAt d p' ∧ x.oid = m.oid ∧
      deliveryCount m ≤ deliveryCount x + times d call m.oid := by
  have unique : HeldOnce d := readable.mono fun _ _ _ _ => trivial
  have alike : ∀ {x}, Retimed x m → deliveryCount m = deliveryCount x := by
    intro x retimed
    obtain ⟨t, same⟩ := retimed_shown retimed
    simp [deliveryCount, same, Content.withDeliveryTime]
  cases (step_origin unique call).origin p m inside with
  | kept here => exact ⟨p, m, here, rfl, by omega⟩
  | replayed asked record place shell new => omega
  | pushed sends target object takes place copy located new => omega
  | staged sends transaction copy location new => omega
  | @delivered env pid t cid c x _ _ commit target object was place retimed oid =>
    rcases oid with same | new
    · refine ⟨_, x, was, same.symm, ?_⟩
      rw [alike retimed]
      omega
    · omega
  | @received env cid patience c x _ _ recv object was opened place =>
    refine ⟨_, x, was, opened.oid.symm, ?_⟩
    obtain ⟨content, stays, _⟩ := opened_shown opened (readable.origin _ _ was)
    have same : deliveryCount m = deliveryCount x := by
      unfold deliveryCount
      rw [stays, content]
    omega
  | @redelivered cid c p₀ x _ _ gives object mode was within again place =>
    refine ⟨p₀, x, was, again.oid.symm, ?_⟩
    have inside := givesBack_handed gives object mode was
    have one := times_handed inside
    obtain ⟨_, _, before⟩ := handed_received readable inside
    obtain ⟨t, now⟩ := cached_shown again.cached
    obtain ⟨t', content⟩ := again.content
    have after : deliveryCount m = x.content.headers.deliveryCount + 1 := by
      simp [deliveryCount, now, content, Content.withDeliveryTime, countRedelivery]
    rw [again.oid]
    omega
  | @due env q _ fires was => exact ⟨_, m, was, rfl, by omega⟩
  | deadLettered accepts_ made place copy located new => omega

end Counts

theorem count_along (calls : List (Nat × Call)) {w : Exchange} {did : Nat}
    (readable : ∀ i, Tracked Readable (w i) []) {oid : Nat} {n : Int} (old : oid < (w did).nextOid)
    (bound : ∀ p, ∀ x ∈ messagesAt (w did) p, x.oid = oid → deliveryCount x ≤ n) :
    ∀ p, ∀ m ∈ messagesAt ((calls.foldl nextOn w) did) p, m.oid = oid →
      deliveryCount m ≤ n + redeliveries w calls did oid := by
  induction calls generalizing w n with
  | nil => simpa [redeliveries] using bound
  | cons x rest ih =>
    have after : ∀ i, Tracked Readable (nextOn w x i) [] :=
      nextOn_everywhere (P := fun d => Tracked Readable d [])
        (fun _ call here => step_readable here call) w x readable
    rw [List.foldl_cons, redeliveries]
    by_cases here : x.1 = did
    · subst here
      have unique : HeldOnce (w x.1) := (readable x.1).mono fun _ _ _ _ => trivial
      have later := ih (n := n + times (w x.1) x.2 oid) after
        (by rw [nextOn_same]; exact lt_of_lt_of_le old (step_traced unique x.2).next) ?_
      · intro p m inside same
        have total := later p m inside same
        rw [if_pos rfl]
        push_cast
        omega
      · intro p m inside same
        rw [nextOn_same] at inside
        obtain ⟨p', y, was, equal, less⟩ := step_count (readable x.1) inside (same ▸ old)
        have before := bound p' y was (equal.trans same)
        rw [same] at less
        omega
    · have elsewhere : nextOn w x did = w did := nextOn_other w x (Ne.symm here)
      rw [if_neg here, zero_add]
      exact ih after (by rw [elsewhere]; exact old) (by rw [elsewhere]; exact bound)

/- A message is given up only when the count it has brought along and its redeliveries
   on the destination, the present one included, exceed the limit there. -/
theorem limit_counts_entry {start : Exchange} (idle : ∀ did, Idle (start did))
    {before : List (Nat × Call)} {w : Exchange} (reached : w ∈ states nextOn start before)
    {did : Nat} {p : Place} {x : Message} (enqueued : x ∈ messagesAt (w did) p)
    (calls : List (Nat × Call)) {call : Call} {m : Message}
    (gone : m ∈ givenUp ((calls.foldl nextOn w) did) call) (same : m.oid = x.oid) :
    0 ≤ ((calls.foldl nextOn w) did).redeliveryPolicy.maxRedeliveries ∧
      ((calls.foldl nextOn w) did).redeliveryPolicy.maxRedeliveries <
        deliveryCount x + (redeliveries w calls did x.oid + 1) := by
  have kept : ∀ w : Exchange, (∀ i, Tracked Readable (w i) []) → ∀ calls,
      ∀ w' ∈ states nextOn w calls, ∀ i, Tracked Readable (w' i) [] :=
    fun w here calls => everywhere_reached (P := fun d => Tracked Readable d [])
      (fun _ call here => step_readable here call) here calls
  have readable := kept start (fun i => (idle i).tracked _) before w reached
  have later := kept w readable calls _ (last_state_mem nextOn w calls)
  have single : ∀ p', ∀ y ∈ messagesAt (w did) p', y.oid = x.oid → deliveryCount y ≤ deliveryCount x := by
    intro p' y inside equal
    have place := (readable did).apart p' p y x inside enqueued equal
    subst place
    rw [List.inj_on_of_nodup_map ((readable did).once p') inside enqueued equal]
  obtain ⟨y, taken, counted, least, limited⟩ := givenUp_limited gone
  obtain ⟨p', inside, count⟩ := handed_received (later did) taken
  have equal : y.oid = x.oid := by
    rw [← same, counted]
    rfl
  have bound := count_along calls readable ((readable did).made p x enqueued) single p' y inside equal
  refine ⟨least, ?_⟩
  rw [count] at bound
  omega

def limited : Exchange := fun did =>
  { type := .Queue,
    redeliveryPolicy := if did = 0 then { maxRedeliveries := 0, deadLetterQueue := some 1 }
      else { maxRedeliveries := 1 } }

theorem limited_idle (did : Nat) : Idle (limited did) := by
  intro p
  cases p <;> simp [limited, messagesAt, chainOf, receivedBy, stagedBy]

def poisoned : Exchange :=
  ([(0, .createDefaultConsumer 0 .CLIENT_ACKNOWLEDGE),
    (0, .createConsumer calm 1 .CLIENT_ACKNOWLEDGE none), (0, .createProducer 5 .CLIENT_ACKNOWLEDGE),
    (0, .send calm 5 [] (letter 0 7)), (0, .recv calm 1 0)] : List (Nat × Call)).foldl nextOn limited

theorem limit_counts_entry_poisoned : ∃ x ∈ messagesAt (poisoned 0) (.inFlight 1),
    (∃ m ∈ givenUp (poisoned 0) (.recover calm 1), m.oid = x.oid) ∧
      (0 : Int) < deliveryCount x + (redeliveries poisoned [] 0 x.oid + 1) := by
  obtain ⟨x, enqueued, m, gone, same⟩ : ∃ x ∈ messagesAt (poisoned 0) (.inFlight 1),
      ∃ m ∈ givenUp (poisoned 0) (.recover calm 1), m.oid = x.oid :=
    ⟨_, List.Mem.head _, _, List.Mem.head _, rfl⟩
  exact ⟨x, enqueued, ⟨m, gone, same⟩,
    (limit_counts_entry limited_idle (last_state_mem nextOn limited _) enqueued [] gone same).2⟩

def buried : List (Nat × Call) :=
  (1, .createDefaultConsumer 2 .CLIENT_ACKNOWLEDGE) ::
    (1, .createConsumer calm 3 .CLIENT_ACKNOWLEDGE none) ::
    (givenUp (poisoned 0) (.recover calm 1)).map (fun m => (1, .acceptDeadLetter calm m)) ++
    [(1, .recv calm 3 0)]

/- The dead-letter queue allows one redelivery and gives the copy up at the first one. -/
theorem dead_letter_limited : ∃ m ∈ givenUp ((buried.foldl nextOn poisoned) 1) (.recover calm 3),
    ¬ ((buried.foldl nextOn poisoned) 1).redeliveryPolicy.maxRedeliveries <
      (redeliveries poisoned buried 1 m.oid + 1 : Nat) := by
  refine ⟨_, List.Mem.head _, ?_⟩
  decide

end TinyMqRedeliveryLimit
