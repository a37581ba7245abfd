import TinyMq.Lib.LinkedChains
import TinyMq.Broker.Inversion

/-!
The in-flight chains as the code has them: `Message::InFlightLink` in the message
object, `_inFlightHead` and `_inFlightTail` in the consumer. A message and a
consumer are each named by their destination and a number there. No step here reads
the `inFlight` list of a consumer: `recover` goes from link to link. The list is
shown to be what the links represent.
-/
namespace TinyMqInFlightChain
open DelimitedText AssocLists LinkedChains Machines TinyMqMessage TinyMqStore TinyMqDestination TinyMqFrames
open TinyMqQueueRuns TinyMqPlaces TinyMqInversion

abbrev Address := Nat × Nat

/-- The destinations, the links, and the message objects that were received. -/
structure Linked where
  broker : Exchange
  chains : Chains Address Address := {}
  held : Address → Option Message := fun _ => none

def Linked.onDestination (s : Linked) (did : Nat) (d : Destination) : Linked :=
  { s with broker := Function.update s.broker did d }

/-- `CLIENT_`, `DUPS_OK_` and `INDIVIDUAL_ACKNOWLEDGE`. -/
def tracks : AcknowledgeMode → Bool
  | .SESSION_TRANSACTED | .AUTO_ACKNOWLEDGE => false
  | _ => true

def Linked.recv (s : Linked) (env : Env) (o : Address) (patience : Nat) : Linked × Option Message :=
  match get (s.broker o.1).objects o.2 with
  | none => (s, none)
  | some c =>
    let (d, received) := (s.broker o.1).recv env o.2 patience
    let s := s.onDestination o.1 d
    match received with
    | none => (s, none)
    | some m =>
      if tracks c.mode then
        ({ s with
          chains := s.chains.append o (o.1, m.oid),
          held := Function.update s.held (o.1, m.oid) (some m) }, some m)
      else (s, some m)

/-- The message behind a reference, for the destination of the consumer: an object
    that another destination made is none of its own. -/
def Linked.found (s : Linked) (did : Nat) (object : Address) (m : Message) : Message :=
  { m with oid := if object.1 = did then object.2 else (s.broker did).nextOid }

/-- `acknowledgeOn` of the message object `object`, whatever consumer tracks it. -/
def Linked.acknowledgeOn (s : Linked) (o object : Address) (m : Message) : Linked :=
  match get (s.broker o.1).objects o.2 with
  | none => s
  | some c =>
    let s' := s.onDestination o.1 ((s.broker o.1).acknowledgeOn o.2 (s.found o.1 object m))
    if c.mode = .SESSION_TRANSACTED then s'
    else { s' with chains := s.chains.unlink o object }

/-- How far `recover` has come: the messages it handed to `redeliver`, and those that
    were given up. -/
structure Recovery where
  destination : Destination
  handed : List Message := []
  dead : List Message := []

/-- One round of the loop of `recover`, the node being detached already. -/
def redeliverNode (env : Env) (c : Consumer) (held : Address → Option Message) (r : Recovery)
    (a : Address) : Option Recovery :=
  match held a with
  | none => none
  | some m =>
    let (d, gone) := r.destination.redeliver env c false m
    some ⟨d, r.handed ++ [m], r.dead ++ gone.toList⟩

/-- A bound for the loops over a chain: the objects the destination has made. -/
def Linked.rounds (s : Linked) (o : Address) : Nat := (s.broker o.1).nextOid

/-- `recover`, from link to link. -/
def Linked.recover (s : Linked) (env : Env) (o : Address) : Option (Linked × Recovery) :=
  match get (s.broker o.1).objects o.2 with
  | none => some (s, { destination := s.broker o.1 })
  | some c =>
    let d := (s.broker o.1).setObject o.2 { c with inFlight := [] }
    match s.chains.release (redeliverNode env c s.held) (s.rounds o) o { destination := d } with
    | none => none
    | some (chains, r) => some ({ s.onDestination o.1 r.destination with chains := chains }, r)

/-- `clearInFlight`: the links only. -/
def Linked.clearInFlight (s : Linked) (o : Address) : Linked :=
  match s.chains.release (fun _ _ => some ()) (s.rounds o) o () with
  | none => s
  | some (chains, _) => { s with chains := chains }

/-- The consumers that a call destroys, or makes anew. -/
def destroyed (d : Destination) : Call → List Nat
  | .destroyConsumer _ id => [id]
  | .createDefaultConsumer id _ => if d.isQueueFamily then [id] else []
  | .createConsumer _ id _ _ => if d.isQueueFamily then d.defaultConsumer.toList ++ [id] else [id]
  | .createDurableConsumer env id mode clientID name selector =>
    match (d.createDurableConsumer env id mode clientID name selector).2 with
    | .ok _ => [id]
    | .error _ => []
  | _ => []

def forget (did : Nat) (c : Chains Address Address) : Chains Address Address where
  link a := if a.1 = did then {} else c.link a
  head o := if o.1 = did then none else c.head o
  tail o := if o.1 = did then none else c.tail o

inductive Act where
  | on (did : Nat) (call : Call)
  | acknowledge (o object : Address) (m : Message)

def Linked.next (s : Linked) : Act → Linked
  | .acknowledge o object m => s.acknowledgeOn o object m
  | .on did call =>
    match call with
    | .recv env cid patience => (s.recv env (did, cid) patience).1
    | .acknowledgeOn cid m => s.acknowledgeOn (did, cid) (did, m.oid) m
    | .recover env cid => ((s.recover env (did, cid)).map Prod.fst).getD s
    | .restart env =>
      { s.onDestination did ((s.broker did).restart env) with chains := forget did s.chains }
    | call =>
      ((destroyed (s.broker did) call).foldl (fun s cid => s.clearInFlight (did, cid)) s).onDestination
        did (TinyMqQueueRuns.next (s.broker did) call)

def Linked.mode (s : Linked) (o : Address) : Option AcknowledgeMode :=
  (get (s.broker o.1).objects o.2).map Consumer.mode

/-- What consumer `o` has received and not given back, by the history of the calls: an
    acknowledgement on `i` is for the messages of `i` only. -/
def acknowledged (s : Linked) (o i object : Address) (owed : List Message) : List Message :=
  if o = i ∧ s.mode o ≠ some .SESSION_TRANSACTED then
    owed.filter fun m => (o.1, m.oid) ≠ object
  else owed

def owes (s : Linked) (o : Address) (owed : List Message) : Act → List Message
  | .acknowledge i object _ => acknowledged s o i object owed
  | .on did call =>
    match call with
    | .recv env cid patience =>
      if o = (did, cid) ∧ (s.mode o).any tracks then owed ++ (s.recv env o patience).2.toList
      else owed
    | .acknowledgeOn cid m => acknowledged s o (did, cid) (did, m.oid) owed
    | .recover _ cid => if o = (did, cid) then [] else owed
    | .restart _ => if o.1 = did then [] else owed
    | call => if o.1 = did ∧ o.2 ∈ destroyed (s.broker did) call then [] else owed

def nextOwed (x : Linked × (Address → List Message)) (act : Act) :
    Linked × (Address → List Message) :=
  (x.1.next act, fun o => owes x.1 o (x.2 o) act)

def addressOf (o : Address) (m : Message) : Address := (o.1, m.oid)

/-- The chain of consumer `o` holds the messages `owed`, in this order, and `recover` gives
    back these. -/
structure InFlight (s : Linked) (o : Address) (owed : List Message) : Prop where
  walk : ∀ n, owed.length ≤ n → s.chains.walk n (s.chains.head o) = owed.map (addressOf o)
  first : ∀ a, s.chains.head o = some a → (s.chains.link a).prev = none
  last : s.chains.tail o = (owed.map (addressOf o)).getLast?
  inverse : ∀ a ∈ owed.map (addressOf o), ∀ b, (s.chains.link a).next = some b ↔
    b ∈ owed.map (addressOf o) ∧ (s.chains.link b).prev = some a
  once : (owed.map (addressOf o)).Nodup
  owner : ∀ a, (s.chains.link a).owner = some o ↔ a ∈ owed.map (addressOf o)
  recovered : ∀ env, ∃ s' r, s.recover env o = some (s', r) ∧ r.handed = owed ∧
    s'.chains.head o = none ∧ s'.chains.tail o = none ∧
    ∀ m ∈ owed, s'.chains.link (addressOf o m) = {}

def chainAt (w : Exchange) (o : Address) : List Message := chainOf (get (w o.1).objects o.2)

section Lists
variable (env : Env) (d : Destination) (cid : Nat)

theorem put_chain (objects : Assoc Nat Consumer) (c : Consumer) (i : Nat) :
    chainOf (get (put objects cid c) i) = if i = cid then c.inFlight else chainOf (get objects i) := by
  by_cases here : i = cid
  · simp [here, chainOf]
  · simp [here, get_put_other _ _ here]

theorem setObject_chain (c : Consumer) (i : Nat) :
    chainOf (get (d.setObject cid c).objects i) =
      if i = cid then c.inFlight else chainOf (get d.objects i) :=
  put_chain cid d.objects c i

theorem track_chain (c : Consumer) (m : Message) :
    (track c m).inFlight = if tracks c.mode then c.inFlight ++ [m] else c.inFlight := by
  cases mode : c.mode <;> simp [track, tracks, mode]

theorem recv_chain {c : Consumer} (object : get d.objects cid = some c) (patience i : Nat) :
    chainOf (get (d.recv env cid patience).1.objects i) =
      if i = cid ∧ tracks c.mode then
        chainOf (get d.objects i) ++ (d.recv env cid patience).2.toList
      else chainOf (get d.objects i) := by
  refine recv_rule (P := fun e r => ∀ c, get e.objects cid = some c → chainOf (get r.1.objects i) =
    if i = cid ∧ tracks c.mode then chainOf (get e.objects i) ++ r.2.toList
    else chainOf (get e.objects i)) ?_ ?_ ?_ patience d c object
  · intro e c _
    simp
  · intro e c' m q object' _ c object
    obtain rfl := Option.some.inj (object'.symm.trans object)
    rw [setObject_chain, track_chain]
    by_cases here : i = cid
    · subst here
      simp [chainOf, object]
    · simp [here, Destination.setQueue]
  · intro e c' m q r object' _ rest c object
    obtain rfl := Option.some.inj (object'.symm.trans object)
    have same := (dropRecord_same (e.setQueue c'.queue q) c'
      ((e.setQueue c'.queue q).rehydrate c' m)).objects
    have whole := rest c' (by rw [same]; exact object)
    rw [same] at whole
    exact whole

theorem acknowledgeOn_chain {c : Consumer} (object : get d.objects cid = some c) (m : Message)
    (i : Nat) :
    chainOf (get (d.acknowledgeOn cid m).objects i) =
      if i = cid ∧ c.mode ≠ .SESSION_TRANSACTED then
        (chainOf (get d.objects i)).filter (·.oid ≠ m.oid)
      else chainOf (get d.objects i) := by
  unfold Destination.acknowledgeOn
  simp only [object]
  split
  · rename_i transacted
    simp [transacted]
  · rename_i plain
    let c' : Consumer := { c with inFlight := c.inFlight.filter (·.oid ≠ m.oid) }
    have unlinked : chainOf (get (d.setObject cid c').objects i) =
        if i = cid ∧ c.mode ≠ .SESSION_TRANSACTED then
          (chainOf (get d.objects i)).filter (·.oid ≠ m.oid)
        else chainOf (get d.objects i) := by
      rw [setObject_chain]
      by_cases here : i = cid
      · simp [here, plain, object, chainOf, c']
      · simp [here]
    have again : ∀ e : Destination, e.objects = (d.setObject cid c').objects → ∀ c'' : Consumer,
        c''.inFlight = c'.inFlight →
        chainOf (get (e.setObject cid c'').objects i) =
          chainOf (get (d.setObject cid c').objects i) := by
      intro e same c'' chain
      rw [setObject_chain, chain, same]
      split
      · rename_i here
        rw [setObject_chain, if_pos here]
      · rfl
    split
    · split
      · exact unlinked
      · rename_i rec _
        split
        · split
          · refine (again _ ?_ _ (by rfl)).trans unlinked
            exact (same_fold (fun e x _ => removeRecord_same e c.storage x) _).objects
          · exact (again _ rfl _ (by rfl)).trans unlinked
        · exact unlinked
    · exact unlinked

theorem recover_chain {c : Consumer} (object : get d.objects cid = some c) (i : Nat) :
    chainOf (get (d.recover env cid).1.objects i) =
      if i = cid then [] else chainOf (get d.objects i) := by
  unfold Destination.recover
  simp only [object]
  rw [(redeliverAll_same env _ c false c.inFlight).objects, setObject_chain]

theorem rollbackConsumer_chain (closing : Bool) (i : Nat) :
    chainOf (get (d.rollbackConsumer env cid closing).1.objects i) = chainOf (get d.objects i) := by
  unfold Destination.rollbackConsumer
  split
  · rfl
  · rename_i c object
    split
    · rw [(redeliverAll_same env _ c closing _).objects, setObject_chain]
      split
      · rename_i here
        rw [here, object]
        rfl
      · rfl
    · rfl

theorem commitConsumer_chain (i : Nat) :
    chainOf (get (d.commitConsumer cid).objects i) = chainOf (get d.objects i) := by
  unfold Destination.commitConsumer
  split
  · rfl
  · rename_i c object
    split
    · rw [(same_fold (fun e m _ => dropRecord_same e c m) _).objects, setObject_chain]
      split
      · rename_i here
        rw [here, object]
        rfl
      · rfl
    · rfl

theorem destroyConsumer_chain (i : Nat) :
    chainOf (get (d.destroyConsumer env cid).1.objects i) =
      if i = cid then [] else chainOf (get d.objects i) := by
  unfold Destination.destroyConsumer
  split
  · rename_i absent
    by_cases here : i = cid
    · simp [here, absent, chainOf]
    · simp [here]
  · rename_i c object
    dsimp only
    by_cases here : i = cid
    · simp [here, chainOf]
    · rw [get_erase_other _ here, rollbackConsumer_chain, Destination.flushPendingAcks,
        setObject_chain, (same_fold (fun e x _ => removeRecord_same e c.storage x) d).objects,
        if_neg here, if_neg here]

theorem dropDefault_chain (i : Nat) :
    chainOf (get d.dropDefault.objects i) =
      if i ∈ d.defaultConsumer.toList then [] else chainOf (get d.objects i) := by
  unfold Destination.dropDefault
  split
  · rename_i absent
    simp [absent]
  · rename_i old default_
    by_cases here : i = old
    · simp [here, default_, chainOf]
    · simp [here, default_, get_erase_other _ here]

theorem createConsumer_chain (id : Nat) (mode : AcknowledgeMode) (selector : Option Selector)
    (i : Nat) :
    chainOf (get (d.createConsumer env id mode selector).objects i) =
      if i ∈ destroyed d (.createConsumer env id mode selector) then []
      else chainOf (get d.objects i) := by
  have made : ∀ e : Destination, e.objects =
      (d.dropDefault.setObject id ⟨mode,.shared,.shared,selector,[],.empty,[]⟩).objects →
      chainOf (get e.objects i) =
        if i ∈ d.defaultConsumer.toList ++ [id] then [] else chainOf (get d.objects i) := by
    intro e same
    rw [same, setObject_chain, dropDefault_chain]
    by_cases new : i = id <;> simp [new]
  unfold Destination.createConsumer destroyed
  split
  · dsimp only
    split
    · exact made _ (replayFromStorage_same env _ .shared .shared).objects
    · exact made _ rfl
  · refine (setObject_chain d id _ i).trans ?_
    simp

theorem createDurableConsumer_chain (id : Nat) (mode : AcknowledgeMode) (clientID name : Text)
    (selector : Option Selector) (i : Nat) :
    chainOf (get (d.createDurableConsumer env id mode clientID name selector).1.objects i) =
      if i ∈ destroyed d (.createDurableConsumer env id mode clientID name selector) then []
      else chainOf (get d.objects i) := by
  have attached : ∀ key sub,
      chainOf (get (d.attachDurable env id mode key sub selector).objects i) =
        if i = id then [] else chainOf (get d.objects i) := by
    intro key sub
    unfold Destination.attachDurable
    dsimp only
    rw [(replayFromStorage_same env _ (.own id) sub.storage).objects, setObject_chain]
  unfold destroyed Destination.createDurableConsumer
  split
  · simp
  · cases registered : get d.durableSubs (durableKey clientID name) with
    | none =>
      simp only [registered]
      rw [attached]
      simp
    | some sub =>
      simp only [registered]
      cases active : sub.active.isSome with
      | true => simp
      | false =>
        simp only [Bool.false_eq_true, if_false]
        rw [attached]
        simp

def links : Call → Bool
  | .recv _ _ _ | .acknowledgeOn _ _ | .recover _ _ | .restart _ => true
  | _ => false

theorem next_chain {call : Call} (plain : links call = false) (i : Nat) :
    chainOf (get (next d call).objects i) =
      if i ∈ destroyed d call then [] else chainOf (get d.objects i) := by
  have same : ∀ e : Destination, destroyed d call = [] → e.objects = d.objects →
      chainOf (get e.objects i) = if i ∈ destroyed d call then [] else chainOf (get d.objects i) := by
    intro e none_ objects
    rw [none_, objects]
    simp
  cases call with
  | recv env cid patience => cases plain
  | acknowledgeOn cid m => cases plain
  | recover env cid => cases plain
  | restart env => cases plain
  | createDefaultConsumer id mode =>
    show chainOf (get (d.createDefaultConsumer id mode).objects i) = _
    unfold Destination.createDefaultConsumer destroyed
    split
    · refine (put_chain id d.objects _ i).trans ?_
      simp
    · simp
  | createConsumer env id mode selector => exact createConsumer_chain env d id mode selector i
  | createDurableConsumer env id mode clientID name selector =>
    exact createDurableConsumer_chain env d id mode clientID name selector i
  | destroyConsumer env id =>
    refine (destroyConsumer_chain env d id i).trans ?_
    simp [destroyed]
  | deleteConsumer id => exact same _ rfl (deleteConsumer_objects d id).1
  | deleteSubscription clientID name =>
    exact same _ rfl (deleteSubscription_objects d clientID name).1
  | rehash l => exact same _ rfl (rehash_objects d l).1
  | createProducer id mode => exact same _ rfl rfl
  | deleteProducer env id t => exact same _ rfl (deleteProducer_same env d id t).objects
  | send env pid t m => exact same _ rfl (send_same env d pid t m).objects
  | sendWith env pid t m opts => exact same _ rfl (sendWith_same env d pid t m opts).objects
  | commitProducer env pid t => exact same _ rfl (commitProducer_same env d pid t).objects
  | rollbackProducer env pid t => exact same _ rfl (rollbackProducer_same env d pid t).objects
  | deliverDue env => exact same _ rfl (deliverDue_same env d).objects
  | acceptDeadLetter env m => exact same _ rfl (acceptDeadLetter_same env d m).objects
  | rollbackConsumer env cid closing => exact rollbackConsumer_chain env d cid closing i
  | commitConsumer cid => exact commitConsumer_chain d cid i

end Lists

theorem onDestination_chain (w : Exchange) (did : Nat) (d : Destination) (o : Address) :
    chainAt (Function.update w did d) o =
      if o.1 = did then chainOf (get d.objects o.2) else chainAt w o := by
  unfold chainAt
  by_cases here : o.1 = did
  · rw [here, Function.update_self, if_pos rfl]
  · rw [Function.update_of_ne here, if_neg here]

theorem forget_represents {c : Chains Address Address} {lists : Address → List Address}
    (represents : Represents c lists) (did : Nat) (own : ∀ o, ∀ a ∈ lists o, a.1 = o.1) :
    Represents (forget did c) (fun o => if o.1 = did then [] else lists o) where
  head := by
    intro o
    by_cases here : o.1 = did <;> simp [forget, here, represents.head]
  tail := by
    intro o
    by_cases here : o.1 = did <;> simp [forget, here, represents.tail]
  linked := by
    intro o front a back split
    split_ifs at split with here
    · cases front <;> cases split
    · have other : a.1 ≠ did := by
        rw [own o a (by simp [split])]
        exact here
      rw [← represents.linked o front a back split]
      simp [forget, other]
  free := by
    intro a nowhere
    by_cases here : a.1 = did
    · simp [forget, here]
    · simp only [forget, here, if_false]
      apply represents.free
      intro o inside
      have other : o.1 ≠ did := by
        rw [← own o a inside]
        exact here
      have outside := nowhere o
      rw [if_neg other] at outside
      exact outside inside
  once := by
    intro o
    split
    · exact List.nodup_nil
    · exact represents.once o

theorem onDestination_unique {w : Exchange} (unique : ∀ did, HeldOnce (w did)) {did : Nat}
    {d : Destination} (here : HeldOnce d) (did' : Nat) : HeldOnce (Function.update w did d did') := by
  by_cases same : did' = did
  · rw [same, Function.update_self]
    exact here
  · rw [Function.update_of_ne same]
    exact unique did'

/-- The links represent the lists, which are what the calls left in flight. -/
structure Right (x : Linked × (Address → List Message)) : Prop where
  represents : Represents x.1.chains fun o => (chainAt x.1.broker o).map (addressOf o)
  held : ∀ o, ∀ m ∈ chainAt x.1.broker o, x.1.held (addressOf o m) = some m
  unique : ∀ did, HeldOnce (x.1.broker did)
  noted : ∀ o, x.2 o = chainAt x.1.broker o

section Step
variable {s : Linked} {owed : Address → List Message}

/- A chain is no longer than the objects that were made. -/
theorem chain_bounded {d : Destination} (unique : HeldOnce d) (cid : Nat) :
    (chainOf (get d.objects cid)).length ≤ d.nextOid := by
  have inside : (chainOf (get d.objects cid)).map Message.oid ⊆ List.range d.nextOid := by
    intro oid member
    obtain ⟨m, here, rfl⟩ := List.mem_map.mp member
    exact List.mem_range.mpr (unique.made (.inFlight cid) m here)
  have short := (List.subperm_of_subset (unique.once (.inFlight cid)) inside).length_le
  simpa [messagesAt] using short

theorem Right.bounded (right : Right (s, owed)) (o : Address) :
    ((chainAt s.broker o).map (addressOf o)).length ≤ s.rounds o := by
  rw [List.length_map]
  exact chain_bounded (right.unique o.1) o.2

theorem clearInFlight_represents {lists : Address → List Address}
    (represents : Represents s.chains lists) {o : Address} (enough : (lists o).length ≤ s.rounds o) :
    Represents (s.clearInFlight o).chains (Function.update lists o []) ∧
      (s.clearInFlight o).broker = s.broker ∧ (s.clearInFlight o).held = s.held := by
  obtain ⟨c', cleared, _, done⟩ :=
    represents.release (fun (_ : Unit) (_ : Address) => some ()) enough ()
  have visited : ∀ l : List Address, l.foldlM (fun (_ : Unit) _ => some ()) () = some () := by
    intro l
    induction l with
    | nil => rfl
    | cons a rest ih => exact ih
  rw [visited] at done
  unfold Linked.clearInFlight
  rw [done]
  exact ⟨cleared, rfl, rfl⟩

theorem clearAll_represents {lists : Address → List Address} (represents : Represents s.chains lists)
    (enough : ∀ o, (lists o).length ≤ s.rounds o) (did : Nat) (ids : List Nat) :
    let s' := ids.foldl (fun s cid => s.clearInFlight (did, cid)) s
    Represents s'.chains (fun o => if o.1 = did ∧ o.2 ∈ ids then [] else lists o) ∧
      s'.broker = s.broker ∧ s'.held = s.held := by
  induction ids generalizing s lists with
  | nil => simpa using represents
  | cons id ids ih =>
    obtain ⟨cleared, broker, held⟩ := clearInFlight_represents represents (enough (did, id))
    have shorter : ∀ o, (Function.update lists (did, id) [] o).length ≤
        (s.clearInFlight (did, id)).rounds o := by
      intro o
      unfold Linked.rounds
      rw [broker]
      by_cases here : o = (did, id)
      · simp [here]
      · rw [Function.update_of_ne here]
        exact enough o
    obtain ⟨rest, broker', held'⟩ := ih cleared shorter
    refine ⟨rest.congr ?_, broker'.trans broker, held'.trans held⟩
    intro o
    by_cases here : o = (did, id)
    · simp [here]
    · rw [Function.update_of_ne here]
      have other : ¬ (o.1 = did ∧ o.2 = id) := fun same => here (Prod.ext same.1 same.2)
      by_cases which : o.1 = did
      · have apart : o.2 ≠ id := fun same => other ⟨which, same⟩
        simp [which, apart]
      · simp [which]

theorem routine_step (right : Right (s, owed)) (did : Nat) {call : Call} (plain : links call = false)
    {s' : Linked}
    (after : s' = ((destroyed (s.broker did) call).foldl
      (fun s cid => s.clearInFlight (did, cid)) s).onDestination did (next (s.broker did) call)) :
    Right (s', fun o =>
      if o.1 = did ∧ o.2 ∈ destroyed (s.broker did) call then [] else owed o) := by
  obtain ⟨cleared, broker, held⟩ :=
    clearAll_represents right.represents right.bounded did (destroyed (s.broker did) call)
  have lists : ∀ o, chainAt s'.broker o =
      if o.1 = did ∧ o.2 ∈ destroyed (s.broker did) call then [] else chainAt s.broker o := by
    intro o
    rw [after, Linked.onDestination, broker, onDestination_chain]
    by_cases here : o.1 = did
    · rw [if_pos here, next_chain _ plain]
      simp [here, chainAt]
    · simp [here]
  subst after
  refine ⟨cleared.congr ?_, ?_, ?_, ?_⟩
  · intro o
    rw [lists]
    split <;> rfl
  · intro o m inside
    rw [lists] at inside
    split at inside
    · cases inside
    · show (List.foldl _ s _).held _ = _
      rw [held]
      exact right.held o m inside
  · show ∀ did', HeldOnce (Function.update (List.foldl _ s _).broker did _ did')
    rw [broker]
    exact onDestination_unique right.unique (step_unique (right.unique did) call)
  · intro o
    have noted : owed o = chainAt s.broker o := right.noted o
    simp only [lists, noted]

theorem Right.same (right : Right (s, owed)) {owed' : Address → List Message}
    (same : ∀ o, owed' o = owed o) : Right (s, owed') :=
  { right with noted := fun o => (same o).trans (right.noted o) }

theorem Right.moved (right : Right (s, owed)) {did : Nat} {d : Destination}
    (lists : ∀ o, chainAt (Function.update s.broker did d) o = chainAt s.broker o)
    (unique : HeldOnce d) : Right (s.onDestination did d, owed) where
  represents := by
    refine right.represents.congr ?_
    intro o
    rw [Linked.onDestination, lists]
  held := by
    intro o m inside
    rw [Linked.onDestination, lists] at inside
    exact right.held o m inside
  unique := onDestination_unique right.unique unique
  noted := fun o => (right.noted o).trans (lists o).symm

theorem append_new {w : Exchange} {did cid : Nat} {d : Destination} {m : Message}
    (unique : HeldOnce d)
    (longer : ∀ o, chainAt (Function.update w did d) o =
      if o = (did, cid) then chainAt w o ++ [m] else chainAt w o) (o : Address) :
    (did, m.oid) ∉ (chainAt w o).map (addressOf o) := by
  intro inside
  obtain ⟨x, there, same⟩ := List.mem_map.mp inside
  obtain ⟨here, oid⟩ := Prod.mk.inj same
  have now : ∀ j, messagesAt d (.inFlight j) =
      if j = cid then chainAt w (did, j) ++ [m] else chainAt w (did, j) := by
    intro j
    have whole := longer (did, j)
    rw [onDestination_chain, if_pos rfl] at whole
    simpa [messagesAt] using whole
  obtain ⟨i, j⟩ := o
  subst here
  by_cases self : j = cid
  · have once := unique.once (.inFlight j)
    rw [now, if_pos self, List.map_append] at once
    exact (List.nodup_append.mp once).2.2 x.oid (List.mem_map_of_mem there) m.oid (by simp) oid
  · have apart := unique.apart (.inFlight j) (.inFlight cid) x m
      (by rw [now, if_neg self]; exact there) (by rw [now, if_pos rfl]; simp) oid
    exact self (Place.inFlight.inj apart)

theorem Right.appended (right : Right (s, owed)) {did cid : Nat} {d : Destination} {m : Message}
    (unique : HeldOnce d)
    (longer : ∀ o, chainAt (Function.update s.broker did d) o =
      if o = (did, cid) then chainAt s.broker o ++ [m] else chainAt s.broker o) :
    Right ({ s.onDestination did d with
      chains := s.chains.append (did, cid) (did, m.oid),
      held := Function.update s.held (did, m.oid) (some m) },
      fun o => if o = (did, cid) then owed o ++ [m] else owed o) := by
  have new := append_new unique longer
  refine ⟨(right.represents.append new (did, cid)).congr ?_, ?_,
    onDestination_unique right.unique unique, ?_⟩
  · intro o
    simp only [Linked.onDestination]
    rw [longer]
    by_cases here : o = (did, cid)
    · simp [here, addressOf]
    · simp [here]
  · intro o x inside
    simp only [Linked.onDestination] at inside
    rw [longer] at inside
    have old : x ∈ chainAt s.broker o →
        Function.update s.held (did, m.oid) (some m) (addressOf o x) = some x := by
      intro there
      have other : addressOf o x ≠ (did, m.oid) := by
        intro same
        exact new o (List.mem_map.mpr ⟨x, there, same⟩)
      rw [Function.update_of_ne other]
      exact right.held o x there
    split at inside
    · rename_i here
      rcases List.mem_append.mp inside with there | last
      · exact old there
      · rw [List.mem_singleton.mp last, here]
        exact Function.update_self ..
    · exact old inside
  · intro o
    have noted : owed o = chainAt s.broker o := right.noted o
    simp only [Linked.onDestination]
    rw [longer, noted]

theorem recv_lists {did cid : Nat} {c : Consumer} (object : get (s.broker did).objects cid = some c)
    (env : Env) (patience : Nat) (o : Address) :
    chainAt (Function.update s.broker did ((s.broker did).recv env cid patience).1) o =
      if o = (did, cid) ∧ tracks c.mode then
        chainAt s.broker o ++ ((s.broker did).recv env cid patience).2.toList
      else chainAt s.broker o := by
  obtain ⟨i, j⟩ := o
  rw [onDestination_chain]
  by_cases here : i = did
  · subst here
    rw [if_pos rfl, recv_chain env (s.broker i) cid object patience j]
    simp [chainAt]
  · simp [here]

theorem recv_step (right : Right (s, owed)) (env : Env) (did cid patience : Nat) :
    Right ((s.recv env (did, cid) patience).1, fun o =>
      if o = (did, cid) ∧ (s.mode o).any tracks then
        owed o ++ (s.recv env o patience).2.toList
      else owed o) := by
  have unique : HeldOnce ((s.broker did).recv env cid patience).1 :=
    step_unique (right.unique did) (.recv env cid patience)
  cases object : get (s.broker did).objects cid with
  | none =>
    unfold Linked.recv
    simp only [object]
    refine right.same ?_
    intro o
    by_cases here : o = (did, cid)
    · simp [here, Linked.mode, object]
    · simp [here]
  | some c =>
    have lists := recv_lists object env patience
    have mode : (s.mode (did, cid)).any tracks = tracks c.mode := by
      simp [Linked.mode, object]
    cases received : ((s.broker did).recv env cid patience).2 with
    | none =>
      have result : s.recv env (did, cid) patience =
          (s.onDestination did ((s.broker did).recv env cid patience).1, none) := by
        unfold Linked.recv
        simp only [object, received]
      rw [result]
      refine (right.moved ?_ unique).same ?_
      · intro o
        rw [lists, received]
        simp
      · intro o
        by_cases here : o = (did, cid)
        · simp [here, result]
        · simp [here]
    | some m =>
      cases tracking : tracks c.mode with
      | false =>
        have result : s.recv env (did, cid) patience =
            (s.onDestination did ((s.broker did).recv env cid patience).1, some m) := by
          unfold Linked.recv
          simp [object, received, tracking]
        rw [result]
        refine (right.moved ?_ unique).same ?_
        · intro o
          rw [lists, tracking]
          simp
        · intro o
          by_cases here : o = (did, cid)
          · simp [here, mode, tracking]
          · simp [here]
      | true =>
        have result : s.recv env (did, cid) patience =
            ({ s.onDestination did ((s.broker did).recv env cid patience).1 with
              chains := s.chains.append (did, cid) (did, m.oid),
              held := Function.update s.held (did, m.oid) (some m) }, some m) := by
          unfold Linked.recv
          simp [object, received, tracking, Linked.onDestination]
        rw [result]
        refine (right.appended unique ?_).same ?_
        · intro o
          rw [lists, received, tracking]
          simp
        · intro o
          by_cases here : o = (did, cid)
          · rw [here]
            simp [mode, tracking, result]
          · simp [here]

theorem filter_found (right : Right (s, owed)) (o object : Address) (m : Message) :
    (chainAt s.broker o).filter (·.oid ≠ (s.found o.1 object m).oid) =
      (chainAt s.broker o).filter fun x => (o.1, x.oid) ≠ object := by
  apply List.filter_congr
  intro x inside
  have old : x.oid < (s.broker o.1).nextOid := (right.unique o.1).made (.inFlight o.2) x inside
  obtain ⟨i, oid⟩ := object
  simp only [Linked.found, ne_eq, Prod.mk.injEq, decide_eq_decide]
  by_cases here : i = o.1
  · simp [here]
  · have other : o.1 ≠ i := fun same => here same.symm
    simp only [here, other, if_false, false_and, not_false_eq_true, iff_true]
    omega

theorem acknowledgeOn_lists (right : Right (s, owed)) {i : Address} {c : Consumer}
    (found : get (s.broker i.1).objects i.2 = some c) (object : Address) (m : Message) (o : Address) :
    chainAt (Function.update s.broker i.1
        ((s.broker i.1).acknowledgeOn i.2 (s.found i.1 object m))) o =
      acknowledged s o i object (chainAt s.broker o) := by
  have mode : s.mode i = some c.mode := by simp [Linked.mode, found]
  rw [onDestination_chain]
  by_cases here : o.1 = i.1
  · rw [if_pos here, acknowledgeOn_chain _ _ found]
    unfold acknowledged
    by_cases self : o = i
    · subst self
      simp only [true_and, mode, ne_eq, Option.some.injEq]
      split
      · exact filter_found right o object m
      · rfl
    · have apart : ¬ o.2 = i.2 := fun same => self (Prod.ext here same)
      simp [apart, self, chainAt, here]
  · have apart : o ≠ i := fun same => here (congrArg Prod.fst same)
    simp [acknowledged, here, apart]

theorem acknowledge_step (right : Right (s, owed)) (i object : Address) (m : Message) :
    Right (s.acknowledgeOn i object m, fun o => acknowledged s o i object (owed o)) := by
  cases found : get (s.broker i.1).objects i.2 with
  | none =>
    unfold Linked.acknowledgeOn
    simp only [found]
    have empty : owed i = [] := by
      rw [show owed i = chainAt s.broker i from right.noted i, chainAt, found]
      rfl
    refine right.same ?_
    intro o
    unfold acknowledged
    split
    · rename_i here
      rw [here.1, empty]
      rfl
    · rfl
  | some c =>
    have mode : s.mode i = some c.mode := by simp [Linked.mode, found]
    have unique : HeldOnce ((s.broker i.1).acknowledgeOn i.2 (s.found i.1 object m)) :=
      step_unique (right.unique i.1) (.acknowledgeOn i.2 (s.found i.1 object m))
    have lists := acknowledgeOn_lists right found object m
    have noted : ∀ o, acknowledged s o i object (owed o) =
        acknowledged s o i object (chainAt s.broker o) := by
      intro o
      rw [show owed o = chainAt s.broker o from right.noted o]
    unfold Linked.acknowledgeOn
    simp only [found]
    split
    · rename_i transacted
      have still : ∀ o l, acknowledged s o i object l = l := by
        intro o l
        unfold acknowledged
        rw [if_neg]
        rintro ⟨rfl, plain⟩
        exact plain (by rw [mode, transacted])
      refine (right.moved ?_ unique).same (fun o => still o _)
      intro o
      rw [lists, still]
    · rename_i plain
      refine ⟨(right.represents.unlink i object).congr ?_, ?_,
        onDestination_unique right.unique unique, ?_⟩
      · intro o
        simp only [Linked.onDestination]
        rw [lists]
        unfold acknowledged
        by_cases self : o = i
        · subst self
          simp only [mode, ne_eq, Option.some.injEq, plain, not_false_eq_true, and_self, if_true,
            Function.update_self, List.filter_map]
          rfl
        · simp [self]
      · intro o x inside
        simp only [Linked.onDestination] at inside
        rw [lists] at inside
        refine right.held o x ?_
        unfold acknowledged at inside
        split at inside
        · exact List.mem_of_mem_filter inside
        · exact inside
      · intro o
        exact (noted o).trans (lists o).symm

theorem redeliverNodes {env : Env} {c : Consumer} {held : Address → Option Message} {o : Address}
    {ms : List Message} (all : ∀ m ∈ ms, held (addressOf o m) = some m) (r : Recovery) :
    (ms.map (addressOf o)).foldlM (redeliverNode env c held) r =
      some ⟨(r.destination.redeliverAll env c false ms).1, r.handed ++ ms,
        r.dead ++ (r.destination.redeliverAll env c false ms).2⟩ := by
  induction ms generalizing r with
  | nil => simp [Destination.redeliverAll]
  | cons m ms ih =>
    have first : redeliverNode env c held r (addressOf o m) =
        some ⟨(r.destination.redeliver env c false m).1, r.handed ++ [m],
          r.dead ++ (r.destination.redeliver env c false m).2.toList⟩ := by
      unfold redeliverNode
      rw [all m (by simp)]
    rw [List.map_cons, List.foldlM_cons, first]
    refine (ih (fun x inside => all x (List.mem_cons_of_mem m inside)) _).trans ?_
    simp [Destination.redeliverAll]

theorem recover_links (right : Right (s, owed)) (env : Env) (o : Address) :
    ∃ chains, s.recover env o =
        some ({ s.onDestination o.1 ((s.broker o.1).recover env o.2).1 with chains := chains },
          ⟨((s.broker o.1).recover env o.2).1, chainAt s.broker o,
            ((s.broker o.1).recover env o.2).2⟩) ∧
      Represents chains (Function.update
        (fun i => (chainAt s.broker i).map (addressOf i)) o []) ∧
      ∀ m ∈ chainAt s.broker o, chains.link (addressOf o m) = {} := by
  cases object : get (s.broker o.1).objects o.2 with
  | none =>
    have empty : chainAt s.broker o = [] := by
      rw [chainAt, object]
      rfl
    refine ⟨s.chains, ?_, right.represents.congr ?_, ?_⟩
    · unfold Linked.recover Destination.recover
      simp only [object, empty, Linked.onDestination, Function.update_eq_self]
    · intro i
      by_cases here : i = o
      · simp [here, empty]
      · simp [here]
    · intro m inside
      rw [empty] at inside
      cases inside
  | some c =>
    have chain : chainAt s.broker o = c.inFlight := by
      rw [chainAt, object]
      rfl
    obtain ⟨chains, represents, cleared, done⟩ :=
      right.represents.release (redeliverNode env c s.held) (right.bounded o)
        { destination := (s.broker o.1).setObject o.2 { c with inFlight := [] } }
    rw [redeliverNodes (right.held o)] at done
    refine ⟨chains, ?_, represents, ?_⟩
    · unfold Linked.recover Destination.recover
      simp only [object]
      rw [done, ← chain]
      simp
    · intro m inside
      exact cleared _ (List.mem_map_of_mem inside)

theorem recover_step (right : Right (s, owed)) (env : Env) (did cid : Nat) :
    Right (((s.recover env (did, cid)).map Prod.fst).getD s, fun o =>
      if o = (did, cid) then [] else owed o) := by
  obtain ⟨chains, done, represents, _⟩ := recover_links right env (did, cid)
  have lists : ∀ o, chainAt
      (Function.update s.broker did ((s.broker did).recover env cid).1) o =
        if o = (did, cid) then [] else chainAt s.broker o := by
    rintro ⟨i, j⟩
    rw [onDestination_chain]
    by_cases here : i = did
    · subst here
      cases object : get (s.broker i).objects cid with
      | none =>
        have still : ((s.broker i).recover env cid).1 = s.broker i := by
          unfold Destination.recover
          simp only [object]
        rw [if_pos rfl, still]
        by_cases self : j = cid
        · simp [self, object, chainOf]
        · simp [self, chainAt]
      | some c =>
        rw [if_pos rfl, recover_chain env _ _ object]
        simp [chainAt]
    · simp [here]
  rw [done]
  refine ⟨represents.congr ?_, ?_, onDestination_unique right.unique
    (step_unique (right.unique did) (.recover env cid)), ?_⟩
  · intro o
    simp only [Option.map_some, Option.getD_some, Linked.onDestination]
    rw [lists]
    by_cases here : o = (did, cid)
    · simp [here]
    · simp [here]
  · intro o m inside
    simp only [Option.map_some, Option.getD_some, Linked.onDestination] at inside
    rw [lists] at inside
    split at inside
    · cases inside
    · exact right.held o m inside
  · intro o
    have noted : owed o = chainAt s.broker o := right.noted o
    simp only [Option.map_some, Option.getD_some, Linked.onDestination, lists, noted]

theorem restart_step (right : Right (s, owed)) (env : Env) (did : Nat) :
    Right ({ s.onDestination did ((s.broker did).restart env) with chains := forget did s.chains },
      fun o => if o.1 = did then [] else owed o) := by
  have lists : ∀ o, chainAt (Function.update s.broker did ((s.broker did).restart env)) o =
      if o.1 = did then [] else chainAt s.broker o := by
    intro o
    rw [onDestination_chain]
    rfl
  refine ⟨?_, ?_, onDestination_unique right.unique
    (step_unique (right.unique did) (.restart env)), ?_⟩
  · refine (forget_represents right.represents did ?_).congr ?_
    · intro o a inside
      obtain ⟨m, _, rfl⟩ := List.mem_map.mp inside
      rfl
    · intro o
      simp only [Linked.onDestination]
      rw [lists]
      split <;> rfl
  · intro o m inside
    simp only [Linked.onDestination] at inside
    rw [lists] at inside
    split at inside
    · cases inside
    · exact right.held o m inside
  · intro o
    have noted : owed o = chainAt s.broker o := right.noted o
    simp only [Linked.onDestination, lists, noted]

theorem next_right (x : Linked × (Address → List Message)) (act : Act) (right : Right x) :
    Right (nextOwed x act) := by
  obtain ⟨s, owed⟩ := x
  cases act with
  | acknowledge o object m => exact acknowledge_step right o object m
  | on did call =>
    cases call with
    | recv env cid patience => exact recv_step right env did cid patience
    | acknowledgeOn cid m => exact acknowledge_step right (did, cid) (did, m.oid) m
    | recover env cid => exact recover_step right env did cid
    | restart env => exact restart_step right env did
    | _ => exact routine_step right did rfl rfl

/- With their links the destinations go through the states they have without them. -/
theorem next_refines (right : Right (s, owed)) (did : Nat) (call : Call) :
    (s.next (.on did call)).broker = nextOn s.broker (did, call) := by
  have routine : ∀ call, ((((destroyed (s.broker did) call).foldl
      (fun s cid => s.clearInFlight (did, cid)) s).onDestination did
        (next (s.broker did) call)).broker) = nextOn s.broker (did, call) := by
    intro call
    have still := (clearAll_represents right.represents right.bounded did
      (destroyed (s.broker did) call)).2.1
    simp only [Linked.onDestination]
    rw [still]
    rfl
  have same : ∀ d, d = s.broker did → s.broker = Function.update s.broker did d := by
    rintro d rfl
    exact (Function.update_eq_self ..).symm
  cases call with
  | recv env cid patience =>
    show (s.recv env (did, cid) patience).1.broker = Function.update s.broker did _
    unfold Linked.recv
    cases object : get (s.broker did).objects cid with
    | none =>
      refine same _ ?_
      show ((s.broker did).recv env cid patience).1 = s.broker did
      unfold Destination.recv
      simp only [object]
    | some c =>
      dsimp only
      split
      · rfl
      · split <;> rfl
  | acknowledgeOn cid m =>
    show (s.acknowledgeOn (did, cid) (did, m.oid) m).broker = Function.update s.broker did _
    have own : s.found did (did, m.oid) m = m := by simp [Linked.found]
    unfold Linked.acknowledgeOn
    cases object : get (s.broker did).objects cid with
    | none =>
      refine same _ ?_
      show (s.broker did).acknowledgeOn cid m = s.broker did
      unfold Destination.acknowledgeOn
      simp only [object]
    | some c =>
      dsimp only
      rw [own]
      split <;> rfl
  | recover env cid =>
    obtain ⟨chains, done, _⟩ := recover_links right env (did, cid)
    show ((s.recover env (did, cid)).map Prod.fst |>.getD s).broker = _
    rw [done]
    rfl
  | restart env => rfl
  | _ => exact routine _

theorem Right.inFlight (right : Right (s, owed)) (o : Address) : InFlight s o (owed o) := by
  have noted : owed o = chainAt s.broker o := right.noted o
  rw [noted]
  refine ⟨?_, fun a => right.represents.head_prev, right.represents.tail o, ?_,
    right.represents.once o, fun a => right.represents.owner_iff, ?_⟩
  · intro n enough
    exact right.represents.walk (by rw [List.length_map]; exact enough)
  · intro a inside b
    exact right.represents.inverse inside b
  · intro env
    obtain ⟨chains, done, represents, cleared⟩ := recover_links right env o
    refine ⟨_, _, done, rfl, ?_, ?_, cleared⟩
    · rw [represents.head o, Function.update_self]
      rfl
    · rw [represents.tail o, Function.update_self]
      rfl

end Step

theorem idle_right {start : Exchange} (idle : ∀ did, Idle (start did)) :
    Right (⟨start, {}, fun _ => none⟩, fun _ => []) := by
  have empty : ∀ o, chainAt start o = [] := fun o => idle o.1 (.inFlight o.2)
  refine ⟨represents_empty.congr ?_, ?_, fun did => (idle did).tracked _, fun o => (empty o).symm⟩
  · intro o
    rw [empty]
    rfl
  · intro o m inside
    rw [empty] at inside
    cases inside

/- In every run over any destinations, with any consumers and any acknowledgements, each
   consumer's chain is the list of what it has received and not given back. -/
theorem in_flight_chains {start : Exchange} (idle : ∀ did, Idle (start did)) (acts : List Act) :
    ∀ x ∈ states nextOwed (⟨start, {}, fun _ => none⟩, fun _ => []) acts,
      (∀ o, InFlight x.1 o (x.2 o)) ∧
        ∀ o o' a, a ∈ (x.2 o).map (addressOf o) → a ∈ (x.2 o').map (addressOf o') → o = o' := by
  intro x reached
  have right := invariant_reached next_right (idle_right idle) acts x reached
  refine ⟨right.inFlight, ?_⟩
  intro o o' a one other
  rw [right.noted] at one other
  exact right.represents.apart one other

def sharedRun : List Act :=
  [.on 0 (.createDefaultConsumer 0 .CLIENT_ACKNOWLEDGE),
    .on 0 (.createConsumer calm 1 .CLIENT_ACKNOWLEDGE none),
    .on 0 (.createConsumer calm 2 .INDIVIDUAL_ACKNOWLEDGE none),
    .on 0 (.createProducer 5 .CLIENT_ACKNOWLEDGE),
    .on 0 (.send calm 5 [] (letter 0 7)), .on 0 (.send calm 5 [] (letter 0 8)),
    .on 0 (.send calm 5 [] (letter 0 9)), .on 0 (.recv calm 1 0), .on 0 (.recv calm 1 0),
    .on 0 (.recv calm 2 0), .acknowledge (0, 2) (0, 0) (letter 0 7),
    .acknowledge (0, 1) (0, 0) (letter 0 7)]

def unusedQueues : Linked × (Address → List Message) :=
  (⟨fun _ => { type := .Queue }, {}, fun _ => none⟩, fun _ => [])

def sharedState : Linked × (Address → List Message) := sharedRun.foldl nextOwed unusedQueues

theorem in_flight_chains_shared :
    InFlight sharedState.1 (0, 1) (sharedState.2 (0, 1)) ∧
      (sharedState.2 (0, 1)).map Message.oid = [1] ∧
      (sharedState.2 (0, 2)).map Message.oid = [2] := by
  have idle : ∀ did : Nat, Idle { type := .Queue } := by
    intro _ p
    cases p <;> simp [messagesAt, chainOf, receivedBy, stagedBy]
  have reached : sharedState ∈ states nextOwed unusedQueues sharedRun := last_state_mem ..
  refine ⟨(in_flight_chains idle sharedRun _ reached).1 (0, 1), ?_, ?_⟩
  · decide +kernel
  · decide +kernel

end TinyMqInFlightChain
