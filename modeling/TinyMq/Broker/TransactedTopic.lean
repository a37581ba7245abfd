import TinyMq.Broker.Fanout
import TinyMq.Broker.Frames

/-!
Publishing a list of messages on a topic, once in a transaction and once without
one. `save` stages a copy for every subscriber in the producer's one queue, and
the commit hands every staged copy to every subscriber.
-/
namespace TinyMqTransactedTopic
open DelimitedText AssocLists BandQueues TinyMqTom TinyMqMessage TinyMqStore TinyMqDestination
open TinyMqTransactionBuffer TinyMqSession TinyMqFrames TinyMqFanout

structure Topic (d : Destination) : Prop where
  family : d.isTopicFamily = true
  subscribed : ∀ cid ∈ d.consumers, Subscribed d cid
  distinct : d.consumers.Nodup

abbrev Sends := List (Env × Message)

/-- What one subscriber should receive, in the order of the sends. -/
def copies (cid : Nat) (p : Producer) (t : Text) : Int → Sends → List Message
  | _, [] => []
  | n, x :: rest => sentCopy x.1 n cid (prepared x.1 p t x.2) :: copies cid p t (n + 1) rest

/-- What the sends of a transaction stage in the producer's queue. -/
def fanOut (cids : List Nat) (p : Producer) (t : Text) : Int → Sends → List Message
  | _, [] => []
  | n, x :: rest =>
    (cids.map fun cid => sentCopy x.1 n cid (prepared x.1 p t x.2)) ++ fanOut cids p t (n + 1) rest

theorem fanOut_single (cid : Nat) (p : Producer) (t : Text) (n : Int) (sends : Sends) :
    fanOut [cid] p t n sends = copies cid p t n sends := by
  induction sends generalizing n with
  | nil => rfl
  | cons x rest ih => simp [fanOut, copies, ih]

theorem fanOut_length (cids : List Nat) (p : Producer) (t : Text) (n : Int) (sends : Sends) :
    (fanOut cids p t n sends).length = cids.length * sends.length := by
  induction sends generalizing n with
  | nil => rfl
  | cons x rest ih =>
    simp only [fanOut, List.length_append, List.length_map, ih, List.length_cons]
    rw [Nat.mul_succ, Nat.add_comm]

theorem copies_length (cid : Nat) (p : Producer) (t : Text) (n : Int) (sends : Sends) :
    (copies cid p t n sends).length = sends.length := by
  induction sends generalizing n with
  | nil => rfl
  | cons x rest ih => simp [copies, ih]

/-- No message and no default of the producer asks for a delay. -/
structure NoDelay (p : Producer) (sends : Sends) : Prop where
  default : ∀ opts, p.default = some opts → opts.deliveryDelay = 0
  messages : ∀ x ∈ sends, Immediate x.2

theorem prepared_immediate {p : Producer} {x : Env × Message} (now : Immediate x.2)
    (nodelay : ∀ opts, p.default = some opts → opts.deliveryDelay = 0) (t : Text) :
    Immediate (prepared x.1 p t x.2) := by
  unfold prepared
  cases opts : p.default with
  | none => exact now
  | some o =>
    have zero := nodelay o opts
    simp [Immediate, fillHeaders, applyOptions, zero]

theorem prepared_transaction {p q : Producer} {x : Env × Message} (sameDefault : q.default = p.default)
    (sameId : q.disableMessageID = p.disableMessageID)
    (sameTime : q.disableMessageTimestamp = p.disableMessageTimestamp)
    (nodelay : ∀ opts, p.default = some opts → opts.deliveryDelay = 0) (t u : Text) :
    prepared x.1 q u x.2 = prepared x.1 p t x.2 := by
  unfold prepared
  rw [sameDefault]
  cases opts : p.default with
  | none => simp [fillHeaders, sameId, sameTime]
  | some o =>
    have zero := nodelay o opts
    simp [fillHeaders, applyOptions, zero, sameId, sameTime]

theorem copies_transaction {p q : Producer} (sameDefault : q.default = p.default)
    (sameId : q.disableMessageID = p.disableMessageID)
    (sameTime : q.disableMessageTimestamp = p.disableMessageTimestamp)
    (nodelay : ∀ opts, p.default = some opts → opts.deliveryDelay = 0) (t u : Text) (cid : Nat)
    (n : Int) (sends : Sends) : copies cid q u n sends = copies cid p t n sends := by
  induction sends generalizing n with
  | nil => rfl
  | cons x rest ih =>
    simp only [copies, ih, prepared_transaction sameDefault sameId sameTime nodelay t u]

section Publish
variable {d : Destination}

theorem Topic.moved (topic : Topic d) {d' : Destination} (type : d'.type = d.type)
    (objects : d'.objects = d.objects) (consumers : d'.consumers = d.consumers) : Topic d' where
  family := by
    rw [← topic.family]
    simp [Destination.isTopicFamily, type]
  subscribed := by
    intro cid member
    rw [consumers] at member
    unfold Subscribed
    rw [objects]
    exact topic.subscribed cid member
  distinct := by
    rw [consumers]
    exact topic.distinct

theorem Topic.targets (topic : Topic d) : d.targets = d.consumers := by
  simp [Destination.targets, topic_notQueue topic.family]

theorem save_plain (topic : Topic d) (env : Env) (qid : Nat) {m : Message} (now : Immediate m) :
    Delivered { d with messageCounter := d.messageCounter + 1 } (d.save env qid [] m) d.consumers
      fun cid => sentCopy env d.messageCounter cid m := by
  let counted : Destination := { d with messageCounter := d.messageCounter + 1 }
  have moved : Topic counted := topic.moved rfl rfl rfl
  have pushed := delivered_fold (g := Destination.push env d.messageCounter qid [] m)
    (f := fun cid => sentCopy env d.messageCounter cid m) topic.distinct
    (fun d cid _ here => push_delivers env _ qid now d cid here) moved.subscribed
  have targets : counted.targets = d.consumers := moved.targets
  obtain ⟨n, stores, queues, shape⟩ := pushed.frame
  unfold Destination.save
  simp only
  rw [show Destination.targets { d with messageCounter := d.messageCounter + 1 } = d.consumers
    from targets]
  split
  · obtain ⟨stores', offline⟩ := persistOffline_frame env
      (d.consumers.foldl (Destination.push env d.messageCounter qid [] m) counted) m
    rw [offline]
    refine ⟨⟨n, stores', queues, by rw [shape]⟩, ?_, ?_⟩
    · exact pushed.got
    · exact pushed.rest
  · exact pushed

def plainSends (qid : Nat) (d : Destination) (sends : Sends) : Destination :=
  sends.foldl (fun d x => (d.send x.1 qid [] x.2).1) d

theorem plainSends_view (topic : Topic d) {qid : Nat} {q : Producer}
    (found : get d.producers qid = some q) (sends : Sends) (nodelay : NoDelay q sends) {cid : Nat}
    (member : cid ∈ d.consumers) :
    view (plainSends qid d sends) cid =
      (view d cid).enqueueAll Message.band (copies cid q [] d.messageCounter sends) := by
  induction sends generalizing d with
  | nil => rfl
  | cons x rest ih =>
    have now := prepared_immediate (nodelay.messages x (by simp)) nodelay.default []
    have saved := save_plain topic x.1 qid now
    obtain ⟨n, stores, queues, shape⟩ := saved.frame
    have sent : (d.send x.1 qid [] x.2).1 = d.save x.1 qid [] (prepared x.1 q [] x.2) := by
      simp [Destination.send, found]
    have later := ih (d := d.save x.1 qid [] (prepared x.1 q [] x.2))
      (topic.moved (by rw [shape]) (by rw [shape]) (by rw [shape])) (by rw [shape]; exact found)
      ⟨nodelay.default, fun y inside => nodelay.messages y (List.mem_cons_of_mem x inside)⟩
      (by rw [shape]; exact member)
    have counter : (d.save x.1 qid [] (prepared x.1 q [] x.2)).messageCounter =
        d.messageCounter + 1 := by rw [shape]
    unfold plainSends at later ⊢
    rw [List.foldl_cons, sent, later, saved.got cid member, counter]
    rfl

def staged (p : Producer) (xs : List Message) : Producer :=
  { p with transactQueue := p.transactQueue.enqueueAll Message.band xs }

theorem staged_append (p : Producer) (xs ys : List Message) :
    staged (staged p xs) ys = staged p (xs ++ ys) := by
  simp [staged, enqueueAll_append]

theorem push_staged (env : Env) (number : Int) {pid : Nat} {p : Producer} {t : Text}
    (transacted : t ≠ []) (m : Message) (found : get d.producers pid = some p) {cid : Nat}
    (subscribed : Subscribed d cid) :
    ∃ n buffer x, Destination.push env number pid t m d cid =
        { d with nextOid := n, buffer := buffer, producers := put d.producers pid (staged p [x]) } ∧
      strip x = sentCopy env number cid m := by
  obtain ⟨c, object, open_, _⟩ := subscribed
  obtain ⟨buffer, x, prepared, same⟩ := preparePush_staged env d cid c number transacted m
  refine ⟨d.nextOid + 1, buffer, x, ?_, same⟩
  simp [Destination.push, object, accepts, open_, prepared, transacted, Destination.stage, found,
    staged, BandQueue.enqueueAll]

theorem pushes_staged (env : Env) (number : Int) {pid : Nat} {p : Producer} {t : Text}
    (transacted : t ≠ []) (m : Message) (found : get d.producers pid = some p) {l : List Nat}
    (subscribed : ∀ cid ∈ l, Subscribed d cid) :
    ∃ n buffer xs, l.foldl (Destination.push env number pid t m) d =
        { d with nextOid := n, buffer := buffer, producers := put d.producers pid (staged p xs) } ∧
      xs.map strip = l.map fun cid => sentCopy env number cid m := by
  induction l generalizing d p with
  | nil => exact ⟨d.nextOid, d.buffer, [], by simp [staged, BandQueue.enqueueAll, put_get found], rfl⟩
  | cons cid l ih =>
    obtain ⟨n, buffer, x, first, same⟩ :=
      push_staged env number transacted m found (subscribed cid (by simp))
    obtain ⟨n', buffer', xs, rest, others⟩ := ih
      (d := Destination.push env number pid t m d cid) (p := staged p [x])
      (by rw [first]; simp)
      (by
        intro i member
        rw [first]
        exact subscribed i (List.mem_cons_of_mem cid member))
    refine ⟨n', buffer', x :: xs, ?_, by simp [same, others]⟩
    rw [List.foldl_cons, rest, first, staged_append]
    simp

theorem save_staged (topic : Topic d) (env : Env) {pid : Nat} {p : Producer} {t : Text}
    (transacted : t ≠ []) (m : Message) (found : get d.producers pid = some p) :
    ∃ n buffer xs, d.save env pid t m =
        { d with messageCounter := d.messageCounter + 1, nextOid := n, buffer := buffer,
                 producers := put d.producers pid (staged p xs) } ∧
      xs.map strip = d.consumers.map fun cid => sentCopy env d.messageCounter cid m := by
  have moved : Topic { d with messageCounter := d.messageCounter + 1 } := topic.moved rfl rfl rfl
  obtain ⟨n, buffer, xs, pushed, same⟩ := pushes_staged env d.messageCounter transacted m
    (d := { d with messageCounter := d.messageCounter + 1 }) found moved.subscribed
  refine ⟨n, buffer, xs, ?_, same⟩
  unfold Destination.save
  simp only [moved.targets, transacted, and_false, if_false]
  exact pushed

def transactedSends (pid : Nat) (t : Text) (d : Destination) (sends : Sends) : Destination :=
  sends.foldl (fun d x => (d.send x.1 pid t x.2).1) d

theorem transactedSends_staged (topic : Topic d) {pid : Nat} {p : Producer} {t : Text}
    (transacted : t ≠ []) (found : get d.producers pid = some p) (sends : Sends) :
    ∃ k n buffer xs, transactedSends pid t d sends =
        { d with messageCounter := k, nextOid := n, buffer := buffer,
                 producers := put d.producers pid (staged p xs) } ∧
      xs.map strip = fanOut d.consumers p t d.messageCounter sends := by
  induction sends generalizing d p with
  | nil =>
    exact ⟨d.messageCounter, d.nextOid, d.buffer, [],
      by simp [transactedSends, staged, BandQueue.enqueueAll, put_get found], rfl⟩
  | cons x rest ih =>
    obtain ⟨n, buffer, xs, saved, same⟩ :=
      save_staged topic x.1 transacted (prepared x.1 p t x.2) found
    have sent : (d.send x.1 pid t x.2).1 = d.save x.1 pid t (prepared x.1 p t x.2) := by
      simp [Destination.send, found]
    obtain ⟨k', n', buffer', ys, later, others⟩ := ih
      (d := d.save x.1 pid t (prepared x.1 p t x.2)) (p := staged p xs)
      (topic.moved (by rw [saved]) (by rw [saved]) (by rw [saved])) (by rw [saved]; simp)
    have again : ∀ n sends, fanOut d.consumers (staged p xs) t n sends =
        fanOut d.consumers p t n sends := by
      intro n sends
      induction sends generalizing n with
      | nil => rfl
      | cons y sends ih => simp only [fanOut, ih]; rfl
    refine ⟨k', n', buffer', xs ++ ys, ?_, ?_⟩
    · unfold transactedSends at later ⊢
      rw [List.foldl_cons, sent, later, saved, staged_append]
      simp
    · rw [List.map_append, same, others, saved]
      simp only [again]
      rfl

theorem deliverCommitted_delivers (topic : Topic d) (env : Env) {m : Message} (now : Immediate m) :
    Delivered d (d.deliverCommitted env m) d.consumers fun _ => strip m := by
  have reached := delivered_fold (g := Destination.deliverTo env m) (f := fun _ => strip m)
    topic.distinct (fun d cid _ here => deliverTo_delivers env now d cid here) topic.subscribed
  obtain ⟨n, stores, queues, shape⟩ := reached.frame
  unfold Destination.deliverCommitted
  simp only [topic_notQueue topic.family, Bool.false_eq_true, if_false]
  split
  · obtain ⟨stores', offline⟩ := persistOffline_frame env
      (d.consumers.foldl (Destination.deliverTo env m) d) m
    rw [offline]
    exact ⟨⟨n, stores', queues, by rw [shape]⟩, reached.got, reached.rest⟩
  · exact reached

theorem deliverAll_view (topic : Topic d) (env : Env) {xs : List Message}
    (now : ∀ x ∈ xs, Immediate x) {cid : Nat} (member : cid ∈ d.consumers) :
    view (xs.foldl (Destination.deliverCommitted env) d) cid =
        (view d cid).enqueueAll Message.band (xs.map strip) ∧
      (xs.foldl (Destination.deliverCommitted env) d).producers = d.producers := by
  induction xs generalizing d with
  | nil => exact ⟨rfl, rfl⟩
  | cons x xs ih =>
    have first := deliverCommitted_delivers topic env (now x (by simp))
    obtain ⟨n, stores, queues, shape⟩ := first.frame
    obtain ⟨later, producers⟩ := ih (d := d.deliverCommitted env x)
      (topic.moved (by rw [shape]) (by rw [shape]) (by rw [shape]))
      (fun y inside => now y (List.mem_cons_of_mem x inside)) (by rw [shape]; exact member)
    constructor
    · rw [List.foldl_cons, later, first.got cid member]
      rfl
    · rw [List.foldl_cons, producers, shape]

theorem patchPending_immediate (env : Env) {xs : List Message} (now : ∀ x ∈ xs, Immediate x) :
    xs.foldl (Destination.patchPending env) d = d := by
  induction xs with
  | nil => rfl
  | cons x xs ih =>
    have here : Destination.patchPending env d x = d := by
      simp [Destination.patchPending, (now x (by simp)).2]
    rw [List.foldl_cons, here]
    exact ih fun y inside => now y (List.mem_cons_of_mem x inside)

theorem resolveDelay_immediate (env : Env) {xs : List Message} (now : ∀ x ∈ xs, Immediate x) :
    xs.map (resolveDelay env) = xs := by
  induction xs with
  | nil => rfl
  | cons x xs ih =>
    have here : resolveDelay env x = x := by simp [resolveDelay, (now x (by simp)).2]
    rw [List.map_cons, here, ih fun y inside => now y (List.mem_cons_of_mem x inside)]

theorem mem_drained {xs : List Message} {x : Message}
    (member : x ∈ (BandQueue.empty.enqueueAll Message.band xs : QueueT).toList) : x ∈ xs := by
  obtain ⟨b, inside⟩ := mem_toList.mp member
  rw [enqueueAll_bands] at inside
  simp only [BandQueue.empty, List.nil_append, List.mem_filter] at inside
  exact inside.1

theorem map_empty : (BandQueue.empty : QueueT).map strip = BandQueue.empty := rfl

theorem commitProducer_view (topic : Topic d) (env : Env) {pid : Nat} {p : Producer} (t : Text)
    (mode : p.mode = .SESSION_TRANSACTED) (idle : p.transactQueue = .empty) {xs : List Message}
    (now : ∀ x ∈ xs, Immediate x) (found : get d.producers pid = some (staged p xs)) {cid : Nat}
    (member : cid ∈ d.consumers) :
    view (d.commitProducer env pid t) cid =
        (view d cid).enqueueAll Message.band (xs.map strip) ∧
      ∀ i, i ≠ pid → get (d.commitProducer env pid t).producers i = get d.producers i := by
  have queue : (staged p xs).transactQueue = BandQueue.empty.enqueueAll Message.band xs := by
    simp [staged, idle]
  have soon : ∀ x ∈ (staged p xs).transactQueue.toList, Immediate x := by
    intro x inside
    rw [queue] at inside
    exact now x (mem_drained inside)
  have transacted : (staged p xs).mode = .SESSION_TRANSACTED := mode
  obtain ⟨buffer, stores, shape⟩ :
      ∃ buffer stores, (d.clearStaged pid (staged p xs)).commitTransaction env t =
        { d.clearStaged pid (staged p xs) with buffer := buffer, stores := stores } := by
    unfold Destination.commitTransaction
    split
    · exact ⟨_, _, rfl⟩
    · exact ⟨_, _, rfl⟩
  unfold Destination.commitProducer
  simp only [found, transacted, if_true, patchPending_immediate env soon,
    resolveDelay_immediate env soon, shape]
  obtain ⟨delivered, producers⟩ := deliverAll_view
    (d := { d.clearStaged pid (staged p xs) with buffer := buffer, stores := stores })
    (topic.moved rfl rfl rfl) env soon member
  constructor
  · rw [delivered, queue, ← toList_map, enqueueAll_map strip_band, map_empty, enqueueAll_drained]
    rfl
  · intro i other
    rw [producers]
    exact get_put_other _ _ other

end Publish

theorem commitProducer_quiet (env : Env) (d : Destination) (pid : Nat) (t : Text)
    (idle : ∀ p, get d.producers pid = some p → p.transactQueue = .empty) :
    ∃ buffer stores, d.commitProducer env pid t = { d with buffer := buffer, stores := stores } := by
  unfold Destination.commitProducer
  cases found : get d.producers pid with
  | none => exact ⟨d.buffer, d.stores, rfl⟩
  | some p =>
    have empty := idle p found
    have cleared : d.clearStaged pid p = d := by
      have same : { p with transactQueue := .empty } = p := by rw [← empty]
      simp [Destination.clearStaged, same, put_get found]
    dsimp only
    split
    · simp only [empty, toList_empty, List.foldl_nil, List.map_nil, cleared]
      unfold Destination.commitTransaction
      split
      · exact ⟨d.buffer, d.stores, rfl⟩
      · exact ⟨_, _, rfl⟩
    · exact ⟨d.buffer, d.stores, rfl⟩

theorem commitProducers_quiet (env : Env) (t : Text) {did : Nat} {l : Assoc Nat Nat} {w : World}
    {d : Destination} (here : w.destinations did = some d)
    (idle : ∀ e ∈ l, e.2 = did → ∀ p, get d.producers e.1 = some p → p.transactQueue = .empty) :
    ∃ buffer stores, (w.commitProducers env t l).destinations did =
      some { d with buffer := buffer, stores := stores } := by
  unfold World.commitProducers
  induction l generalizing w d with
  | nil => exact ⟨d.buffer, d.stores, here⟩
  | cons e l ih =>
    rw [List.foldl_cons]
    by_cases mine : e.2 = did
    · obtain ⟨buffer, stores, quiet⟩ :=
        commitProducer_quiet env d e.1 t (idle e (by simp) mine)
      rw [mine]
      refine ih (d := { d with buffer := buffer, stores := stores }) ?_ ?_
      · rw [onDestination_same here, quiet]
      · intro f member
        exact idle f (List.mem_cons_of_mem e member)
    · refine ih ?_ ?_
      · rw [onDestination_other w (fun same => mine same.symm)]
        exact here
      · intro f member
        exact idle f (List.mem_cons_of_mem e member)

theorem commitConsumer_queues (d : Destination) (cid : Nat) :
    (d.commitConsumer cid).queues = d.queues := by
  unfold Destination.commitConsumer
  cases get d.objects cid with
  | none => rfl
  | some c =>
    dsimp only
    split
    · obtain ⟨stores, dropped⟩ := dropRecords_stores
        (d.setObject cid { c with transactQueue := .empty }) c c.transactQueue.toList
      rw [dropped]
      rfl
    · rfl

theorem commitConsumers_queues {did : Nat} (l : Assoc Nat Nat) {w : World} {d : Destination}
    (here : w.destinations did = some d) :
    ∃ d', (w.commitConsumers l).destinations did = some d' ∧ d'.queues = d.queues := by
  unfold World.commitConsumers
  induction l generalizing w d with
  | nil => exact ⟨d, here, rfl⟩
  | cons e l ih =>
    rw [List.foldl_cons]
    by_cases mine : e.2 = did
    · rw [mine]
      obtain ⟨d', there, same⟩ := ih (onDestination_same here fun d => d.commitConsumer e.1)
      exact ⟨d', there, by rw [same, commitConsumer_queues]⟩
    · exact ih (by rw [onDestination_other w (fun same => mine same.symm)]; exact here)

theorem rollbackProducer_frame (env : Env) (d : Destination) (pid : Nat) (t : Text) :
    ∃ buffer producers, d.rollbackProducer env pid t =
      { d with buffer := buffer, producers := producers } := by
  unfold Destination.rollbackProducer
  cases get d.producers pid with
  | none => exact ⟨d.buffer, d.producers, rfl⟩
  | some p =>
    dsimp only
    split
    · split
      · exact ⟨d.buffer, _, rfl⟩
      · exact ⟨_, _, rfl⟩
    · exact ⟨d.buffer, d.producers, rfl⟩

theorem rollbackProducers_frame (env : Env) (t : Text) (l : Assoc Nat Nat) (w : World) (i : Nat) :
    ((w.rollbackProducers env t l).destinations i).map (fun d => (d.queues, d.objects)) =
      (w.destinations i).map fun d => (d.queues, d.objects) := by
  unfold World.rollbackProducers
  induction l generalizing w with
  | nil => rfl
  | cons e l ih =>
    rw [List.foldl_cons, ih]
    by_cases mine : i = e.2
    · subst mine
      cases here : w.destinations e.2 with
      | none => simp [World.onDestination, here]
      | some d =>
        obtain ⟨buffer, producers, shape⟩ := rollbackProducer_frame env d e.1 t
        rw [onDestination_same here, shape]
        rfl
    · rw [onDestination_other w mine]

/-- The consumers of a session hold nothing received in the current transaction. -/
def NothingReceived (w : World) (consumers : Assoc Nat Nat) : Prop :=
  ∀ e ∈ consumers, ∀ d c, w.destinations e.2 = some d → get d.objects e.1 = some c →
    c.transactQueue = .empty

theorem rollbackConsumer_idle (env : Env) (d : Destination) (cid : Nat) (closing : Bool)
    (idle : ∀ c, get d.objects cid = some c → c.transactQueue = .empty) :
    d.rollbackConsumer env cid closing = (d, []) := by
  unfold Destination.rollbackConsumer
  cases object : get d.objects cid with
  | none => rfl
  | some c =>
    have empty := idle c object
    have same : { c with transactQueue := .empty } = c := by rw [← empty]
    have kept : d.setObject cid c = d := by
      simp only [Destination.setObject, put_get object]
    simp only [same, kept, empty, toList_empty, Destination.redeliverAll, ite_self]

theorem rollbackConsumers_idle (env : Env) (closing : Bool) {w : World} {l : Assoc Nat Nat}
    (idle : NothingReceived w l) : w.rollbackConsumers env closing l = w := by
  unfold World.rollbackConsumers
  induction l with
  | nil => rfl
  | cons e l ih =>
    have here : w.redelivering env e.2 (fun d => d.rollbackConsumer env e.1 closing) = w := by
      unfold World.redelivering
      cases found : w.destinations e.2 with
      | none => rfl
      | some d =>
        have quiet := rollbackConsumer_idle env d e.1 closing fun c object =>
          idle e (by simp) d c found object
        have kept : Function.update w.destinations e.2 (some d) = w.destinations := by
          rw [← found, Function.update_eq_self]
        simp only [quiet, World.deadLetters, List.foldl_nil, kept]
        split <;> rfl
    rw [List.foldl_cons, here]
    exact ih fun f member => idle f (List.mem_cons_of_mem e member)

theorem nothingReceived_moved {w w' : World} {consumers : Assoc Nat Nat}
    (frame : ∀ i, (w'.destinations i).map (fun d => (d.queues, d.objects)) =
      (w.destinations i).map fun d => (d.queues, d.objects))
    (idle : NothingReceived w consumers) : NothingReceived w' consumers := by
  intro e member d' c here object
  have same := frame e.2
  rw [here] at same
  cases before : w.destinations e.2 with
  | none => simp [before] at same
  | some d =>
    simp only [before, Option.map_some, Option.some.injEq, Prod.mk.injEq] at same
    exact idle e member d c before (by rw [← same.2]; exact object)

def publish (w : World) (sid pid : Nat) (sends : Sends) : World :=
  sends.foldl (fun w x => w.send x.1 sid pid x.2) w

theorem publish_destination {w : World} {sid pid did : Nat} {s : Session} {d : Destination}
    (session : w.sessions sid = some s) (producer : get s.producers pid = some did)
    (here : w.destinations did = some d) (sends : Sends) :
    publish w sid pid sends = { w with
      destinations := Function.update w.destinations did
        (some (sends.foldl (fun d x => (d.send x.1 pid s.suffix x.2).1) d)) } := by
  unfold publish
  induction sends generalizing w d with
  | nil =>
    have kept : Function.update w.destinations did (some d) = w.destinations := by
      rw [← here, Function.update_eq_self]
    simp [kept]
  | cons x rest ih =>
    have sent : w.send x.1 sid pid x.2 = { w with
        destinations := Function.update w.destinations did
          (some (d.send x.1 pid s.suffix x.2).1) } := by
      simp [World.send, session, producer, World.onDestination, here]
    have later := ih (d := (d.send x.1 pid s.suffix x.2).1) (w := { w with
      destinations := Function.update w.destinations did
        (some (d.send x.1 pid s.suffix x.2).1) }) session (by simp)
    rw [List.foldl_cons, sent, later]
    simp

def queueOf (w : World) (did cid : Nat) : List Message :=
  ((w.destinations did).map fun d => (view d cid).toList).getD []

theorem queueOf_moved {w w' : World} {did : Nat}
    (frame : (w'.destinations did).map (fun d => (d.queues, d.objects)) =
      (w.destinations did).map fun d => (d.queues, d.objects)) (cid : Nat) :
    queueOf w' did cid = queueOf w did cid := by
  unfold queueOf view
  cases before : w.destinations did with
  | none =>
    rw [before, Option.map_none, Option.map_eq_none_iff] at frame
    rw [frame]
  | some d =>
    rw [before, Option.map_some, Option.map_eq_some_iff] at frame
    obtain ⟨d', after, same⟩ := frame
    rw [Prod.mk.injEq] at same
    rw [after, Option.map_some, Option.map_some, same.1]

/-- A transacted session at the start of a transaction, with a producer on a topic. -/
structure Begun (w : World) (did : Nat) (d : Destination) (sid : Nat) (s : Session) (pid : Nat)
    (p : Producer) : Prop where
  destination : w.destinations did = some d
  topic : Topic d
  session : w.sessions sid = some s
  transaction : s.suffix ≠ []
  distinct : (s.producers.map (·.1)).Nodup
  producer : get s.producers pid = some did
  attached : get d.producers pid = some p
  mode : p.mode = .SESSION_TRANSACTED
  unsent : ∀ e ∈ s.producers, ∀ d p, w.destinations e.2 = some d → get d.producers e.1 = some p →
    p.transactQueue = .empty
  received : NothingReceived w s.consumers

/-- A non-transacted session with a producer of the same settings on the topic. -/
structure Plain (w : World) (did : Nat) (d : Destination) (sid : Nat) (s : Session) (qid : Nat)
    (q p : Producer) : Prop where
  session : w.sessions sid = some s
  transaction : s.suffix = []
  producer : get s.producers qid = some did
  attached : get d.producers qid = some q
  default : q.default = p.default
  messageIds : q.disableMessageID = p.disableMessageID
  timestamps : q.disableMessageTimestamp = p.disableMessageTimestamp

/-- After the commit every subscriber holds each message once, in the order of a plain
    publish; after a rollback instead no queue has changed. -/
def ExactlyOnce (w : World) (did : Nat) (d : Destination) (sid pid : Nat) (p : Producer)
    (plainSid qid : Nat) (sends : Sends) (env : Env) (suffix : Text) : Prop :=
  ∀ cid ∈ d.consumers,
    queueOf ((publish w sid pid sends).commit env sid suffix) did cid =
      queueOf (publish w plainSid qid sends) did cid ∧
    (queueOf ((publish w sid pid sends).commit env sid suffix) did cid).Perm
      (queueOf w did cid ++ copies cid p [] d.messageCounter sends) ∧
    queueOf ((publish w sid pid sends).rollback env sid false suffix) did cid = queueOf w did cid

section Sessions
variable {w : World} {did sid pid : Nat} {d : Destination} {s : Session} {p : Producer}

theorem fanOut_immediate {cids : List Nat} {t : Text} {n : Int} {sends : Sends}
    (nodelay : NoDelay p sends) {x : Message} (inside : x ∈ fanOut cids p t n sends) :
    Immediate x := by
  induction sends generalizing n with
  | nil => simp [fanOut] at inside
  | cons y rest ih =>
    simp only [fanOut, List.mem_append, List.mem_map] at inside
    rcases inside with ⟨i, _, here⟩ | later
    · rw [← here, immediate_sentCopy]
      exact prepared_immediate (nodelay.messages y (by simp)) nodelay.default t
    · exact ih ⟨nodelay.default,
        fun z there => nodelay.messages z (List.mem_cons_of_mem y there)⟩ later

theorem Begun.others (begun : Begun w did d sid s pid p) :
    ∃ before after, s.producers = before ++ (pid, did) :: after ∧ ∀ e ∈ before ++ after,
      e.1 ≠ pid ∧ (e.2 = did → ∀ p', get d.producers e.1 = some p' →
        p'.transactQueue = .empty) := by
  obtain ⟨before, after, split⟩ := List.append_of_mem (get_mem begun.producer)
  have distinct := begun.distinct
  rw [split, List.map_append, List.map_cons, List.nodup_append, List.nodup_cons] at distinct
  refine ⟨before, after, split, ?_⟩
  intro e inside
  constructor
  · intro equal
    rcases List.mem_append.mp inside with left | right
    · exact distinct.2.2 e.1 (List.mem_map_of_mem left) pid (by simp) equal
    · exact distinct.2.1.1 (List.mem_map.mpr ⟨e, right, equal⟩)
  · intro mine p' found
    have listed : e ∈ s.producers := by
      rw [split]
      rcases List.mem_append.mp inside with left | right
      · exact List.mem_append_left _ left
      · exact List.mem_append_right _ (List.mem_cons_of_mem _ right)
    exact begun.unsent e listed d p' (by rw [mine]; exact begun.destination) found

theorem commitProducers_alone {w : World} {d : Destination} (here : w.destinations did = some d)
    (topic : Topic d) (env : Env) (t : Text) (mode : p.mode = .SESSION_TRANSACTED)
    (idle : p.transactQueue = .empty) {xs : List Message} (now : ∀ x ∈ xs, Immediate x)
    (found : get d.producers pid = some (staged p xs)) (before after : Assoc Nat Nat)
    (others : ∀ e ∈ before ++ after, e.1 ≠ pid ∧
      (e.2 = did → ∀ p', get d.producers e.1 = some p' → p'.transactQueue = .empty))
    {cid : Nat} (member : cid ∈ d.consumers) :
    ∃ d', (w.commitProducers env t (before ++ (pid, did) :: after)).destinations did = some d' ∧
      view d' cid = (view d cid).enqueueAll Message.band (xs.map strip) := by
  obtain ⟨buffer₁, stores₁, first⟩ := commitProducers_quiet env t (l := before) here
    fun e inside => (others e (List.mem_append_left after inside)).2
  obtain ⟨delivered, producers⟩ := commitProducer_view
    (d := { d with buffer := buffer₁, stores := stores₁ }) (topic.moved rfl rfl rfl) env t mode
    idle now found member
  obtain ⟨buffer₂, stores₂, second⟩ := commitProducers_quiet env t (l := after)
    (onDestination_same first fun d => d.commitProducer env pid t)
    (by
      intro e inside mine p' attached
      have apart := others e (List.mem_append_right before inside)
      rw [producers e.1 apart.1] at attached
      exact apart.2 mine p' attached)
  have committed : w.commitProducers env t (before ++ (pid, did) :: after) =
      ((w.commitProducers env t before).onDestination did
        fun d => d.commitProducer env pid t).commitProducers env t after := by
    simp [World.commitProducers]
  rw [committed]
  exact ⟨_, second, delivered⟩

theorem committed_queue (begun : Begun w did d sid s pid p) {sends : Sends}
    (nodelay : NoDelay p sends) (env : Env) (suffix : Text) {cid : Nat}
    (member : cid ∈ d.consumers) :
    queueOf ((publish w sid pid sends).commit env sid suffix) did cid =
      ((view d cid).enqueueAll Message.band
        (fanOut d.consumers p s.suffix d.messageCounter sends)).toList := by
  have idle : p.transactQueue = .empty :=
    begun.unsent _ (get_mem begun.producer) d p begun.destination begun.attached
  obtain ⟨k, n, buffer, xs, sent, same⟩ :=
    transactedSends_staged begun.topic begun.transaction begun.attached sends
  have now : ∀ x ∈ xs, Immediate x := by
    intro x inside
    rw [← immediate_strip]
    apply fanOut_immediate nodelay
    rw [← same]
    exact List.mem_map_of_mem inside
  obtain ⟨before, after, producers, others⟩ := begun.others
  have published := publish_destination begun.session begun.producer begun.destination sends
  have session : (publish w sid pid sends).sessions sid = some s := by
    rw [published]
    exact begun.session
  have here : (publish w sid pid sends).destinations did =
      some { d with messageCounter := k, nextOid := n, buffer := buffer,
                    producers := put d.producers pid (staged p xs) } := by
    rw [published, ← sent]
    exact Function.update_self did _ w.destinations
  obtain ⟨d₁, committed, delivered⟩ := commitProducers_alone here
    (begun.topic.moved rfl rfl rfl) env s.suffix begun.mode idle now (get_put_same _ _ _)
    before after
    (by
      intro e inside
      obtain ⟨apart, unsent⟩ := others e inside
      refine ⟨apart, ?_⟩
      rw [get_put_other d.producers (staged p xs) apart]
      exact unsent)
    member
  obtain ⟨d₂, there, queues⟩ := commitConsumers_queues s.consumers committed
  have final : ((publish w sid pid sends).commit env sid suffix).destinations did = some d₂ := by
    simp only [World.commit, session, producers]
    exact there
  have last : view d₂ cid = view d₁ cid := by
    unfold view
    rw [queues]
  unfold queueOf
  rw [final, Option.map_some, Option.getD_some, last, delivered, same]
  rfl

theorem plain_queue (here : w.destinations did = some d) (topic : Topic d) {plainSid qid : Nat}
    {plain : Session} {q : Producer} (other : Plain w did d plainSid plain qid q p) {sends : Sends}
    (nodelay : NoDelay p sends) {cid : Nat} (member : cid ∈ d.consumers) :
    queueOf (publish w plainSid qid sends) did cid =
      ((view d cid).enqueueAll Message.band (copies cid p [] d.messageCounter sends)).toList := by
  have published := publish_destination other.session other.producer here sends
  rw [other.transaction] at published
  have sent := plainSends_view topic other.attached sends
    ⟨by rw [other.default]; exact nodelay.default, nodelay.messages⟩ member
  rw [copies_transaction other.default other.messageIds other.timestamps nodelay.default []] at sent
  unfold queueOf
  rw [published, ← sent]
  simp only [Function.update_self, Option.map_some, Option.getD_some]
  rfl

theorem publish_frame (begun : Begun w did d sid s pid p) (sends : Sends) (i : Nat) :
    ((publish w sid pid sends).destinations i).map (fun d => (d.queues, d.objects)) =
      (w.destinations i).map fun d => (d.queues, d.objects) := by
  obtain ⟨k, n, buffer, xs, sent, _⟩ :=
    transactedSends_staged begun.topic begun.transaction begun.attached sends
  have published := publish_destination begun.session begun.producer begun.destination sends
  unfold transactedSends at sent
  rw [published, sent]
  by_cases mine : i = did
  · rw [mine, begun.destination]
    simp
  · simp only [Function.update_of_ne mine]

theorem rolledBack_queue (begun : Begun w did d sid s pid p) (sends : Sends) (env : Env)
    (suffix : Text) (cid : Nat) :
    queueOf ((publish w sid pid sends).rollback env sid false suffix) did cid =
      queueOf w did cid := by
  have published := publish_destination begun.session begun.producer begun.destination sends
  have session : (publish w sid pid sends).sessions sid = some s := by
    rw [published]
    exact begun.session
  have frame : ∀ i, ((World.rollbackProducers env s.suffix (publish w sid pid sends)
      s.producers).destinations i).map (fun d => (d.queues, d.objects)) =
        (w.destinations i).map fun d => (d.queues, d.objects) := by
    intro i
    rw [rollbackProducers_frame]
    exact publish_frame begun sends i
  have received := nothingReceived_moved (fun i => frame i) begun.received
  have quiet := rollbackConsumers_idle env false received
  have final : ((publish w sid pid sends).rollback env sid false suffix).destinations did =
      (World.rollbackProducers env s.suffix (publish w sid pid sends) s.producers).destinations
        did := by
    simp only [World.rollback, session, quiet, World.setSession]
  exact queueOf_moved (by rw [final]; exact frame did) cid

theorem start_queue (begun : Begun w did d sid s pid p) (cid : Nat) :
    queueOf w did cid = (view d cid).toList := by
  simp [queueOf, begun.destination]

theorem many_not_once (begun : Begun w did d sid s pid p) {sends : Sends}
    (nodelay : NoDelay p sends) (plainSid qid : Nat) (env : Env) (suffix : Text)
    (many : 1 < d.consumers.length) (sent : sends ≠ []) :
    ¬ ExactlyOnce w did d sid pid p plainSid qid sends env suffix := by
  intro once
  obtain ⟨cid, member⟩ : ∃ cid, cid ∈ d.consumers :=
    List.exists_mem_of_length_pos (Nat.lt_of_succ_lt many)
  have counted := (once cid member).2.1.length_eq
  rw [committed_queue begun nodelay env suffix member, start_queue begun, enqueueAll_length,
    fanOut_length, List.length_append, copies_length, Nat.add_left_cancel_iff] at counted
  have positive : 0 < sends.length := List.length_pos_of_ne_nil sent
  have twice : 2 * sends.length ≤ d.consumers.length * sends.length :=
    Nat.mul_le_mul_right _ many
  omega

/- The two loops agree exactly when each send stages one copy. -/
theorem transacted_publish_iff (begun : Begun w did d sid s pid p) {plainSid qid : Nat}
    {plain : Session} {q : Producer} (other : Plain w did d plainSid plain qid q p) {sends : Sends}
    (nodelay : NoDelay p sends) (env : Env) (suffix : Text) :
    ExactlyOnce w did d sid pid p plainSid qid sends env suffix ↔
      d.consumers.length ≤ 1 ∨ sends = [] := by
  constructor
  · intro once
    by_contra many
    rw [not_or, not_le] at many
    exact many_not_once begun nodelay plainSid qid env suffix many.1 many.2 once
  · intro few cid member
    have single : fanOut d.consumers p s.suffix d.messageCounter sends =
        copies cid p [] d.messageCounter sends := by
      rcases few with one | none_
      · have alone : d.consumers = [cid] := by
          match all : d.consumers with
          | [] => simp [all] at member
          | [i] =>
            rw [all, List.mem_singleton] at member
            rw [member]
          | i :: j :: l =>
            rw [all] at one
            simp at one
        rw [alone, fanOut_single]
        exact copies_transaction rfl rfl rfl nodelay.default [] s.suffix cid _ sends
      · rw [none_]
        rfl
    refine ⟨?_, ?_, rolledBack_queue begun sends env suffix cid⟩
    · rw [committed_queue begun nodelay env suffix member, single,
        plain_queue begun.destination begun.topic other nodelay member]
    · rw [committed_queue begun nodelay env suffix member, single, start_queue begun]
      exact enqueueAll_perm _ _ _

end Sessions

def topicWith (subscribers : List Nat) : World :=
  let w : World := ((({} : World).createSession 0 .SESSION_TRANSACTED ['t']).createSession 1
    .AUTO_ACKNOWLEDGE []).createDestination 1 0 .Topic 0
  let w := subscribers.foldl (fun w cid => w.createConsumer calm 1 0 cid none) w
  (w.createProducer 0 0 20).createProducer 1 0 21

def topicOf (w : World) : Destination := (w.destinations 0).getD { type := .Topic }

def transactedSession : Session := ⟨.SESSION_TRANSACTED,['t'],[(20, 0)],[]⟩

def transactedProducer : Producer := { mode := .SESSION_TRANSACTED }

theorem topicWith_begun {w : World} (topic : Topic (topicOf w))
    (destination : w.destinations 0 = some (topicOf w))
    (session : w.sessions 0 = some transactedSession)
    (attached : get (topicOf w).producers 20 = some transactedProducer) :
    Begun w 0 (topicOf w) 0 transactedSession 20 transactedProducer where
  destination := destination
  topic := topic
  session := session
  transaction := by decide
  distinct := by decide
  producer := rfl
  attached := attached
  mode := rfl
  unsent := by
    intro e member d p here found
    rw [List.mem_singleton.mp member] at here found
    rw [destination, Option.some.injEq] at here
    rw [← here, attached, Option.some.injEq] at found
    rw [← found]
    rfl
  received := by
    intro e member
    simp [transactedSession] at member

theorem oneSubscriber_begun :
    Begun (topicWith [10]) 0 (topicOf (topicWith [10])) 0 transactedSession 20
      transactedProducer := by
  refine topicWith_begun ⟨rfl, ?_, by decide⟩ rfl rfl rfl
  intro cid member
  rw [List.mem_singleton.mp member]
  exact ⟨_, rfl, rfl, rfl⟩

theorem twoSubscribers_begun :
    Begun (topicWith [10, 11]) 0 (topicOf (topicWith [10, 11])) 0 transactedSession 20
      transactedProducer := by
  refine topicWith_begun ⟨rfl, ?_, by decide⟩ rfl rfl rfl
  intro cid member
  rcases List.mem_cons.mp member with first | second
  · rw [first]
    exact ⟨_, rfl, rfl, rfl⟩
  · rw [List.mem_singleton.mp second]
    exact ⟨_, rfl, rfl, rfl⟩

def oneLetter : Sends := [(calm, letter 0 7)]

theorem oneLetter_noDelay : NoDelay transactedProducer oneLetter where
  default := by
    intro opts some_
    cases some_
  messages := by
    intro x member
    rw [List.mem_singleton.mp member]
    exact ⟨rfl, rfl⟩

def plainSession (subscribers : Assoc Nat Nat) : Session :=
  ⟨.AUTO_ACKNOWLEDGE,[],[(21, 0)],subscribers⟩

def plainProducer : Producer := { mode := .AUTO_ACKNOWLEDGE }

theorem oneSubscriber_plain :
    Plain (topicWith [10]) 0 (topicOf (topicWith [10])) 1 (plainSession [(10, 0)]) 21 plainProducer
      transactedProducer := ⟨rfl, rfl, rfl, rfl, rfl, rfl, rfl⟩

theorem twoSubscribers_plain :
    Plain (topicWith [10, 11]) 0 (topicOf (topicWith [10, 11])) 1
      (plainSession [(10, 0), (11, 0)]) 21 plainProducer transactedProducer :=
  ⟨rfl, rfl, rfl, rfl, rfl, rfl, rfl⟩

theorem transacted_publish_iff_letter :
    ExactlyOnce (topicWith [10]) 0 (topicOf (topicWith [10])) 0 20 transactedProducer 1 21 oneLetter
        calm ['u'] ∧
      queueOf ((publish (topicWith [10]) 0 20 oneLetter).commit calm 0 ['u']) 0 10 ≠ [] := by
  have iff := transacted_publish_iff oneSubscriber_begun oneSubscriber_plain oneLetter_noDelay calm
    ['u']
  exact ⟨iff.mpr (Or.inl (by decide)), by decide⟩

/- One message, two subscribers: the commit leaves two copies in either queue. -/
theorem transacted_publish_twice :
    Begun (topicWith [10, 11]) 0 (topicOf (topicWith [10, 11])) 0 transactedSession 20
        transactedProducer ∧
      Plain (topicWith [10, 11]) 0 (topicOf (topicWith [10, 11])) 1
        (plainSession [(10, 0), (11, 0)]) 21 plainProducer transactedProducer ∧
      NoDelay transactedProducer oneLetter ∧
      (queueOf ((publish (topicWith [10, 11]) 0 20 oneLetter).commit calm 0 ['u']) 0 10).map
        Message.uuid = [7, 7] ∧
      ¬ ExactlyOnce (topicWith [10, 11]) 0 (topicOf (topicWith [10, 11])) 0 20 transactedProducer 1
        21 oneLetter calm ['u'] := by
  refine ⟨twoSubscribers_begun, twoSubscribers_plain, oneLetter_noDelay, by decide, ?_⟩
  exact many_not_once twoSubscribers_begun oneLetter_noDelay 1 21 calm ['u'] (by decide) (by decide)

end TinyMqTransactedTopic
