import TinyMq.Broker.ConcurrentQueueBlocks

/-!
What every step of the queue keeps, and that the steps of the threads that dequeue do. A thread
that passed its check finds the entry and the block of its index, and the element in it, however
the other threads and the producer are interleaved with it.
-/
namespace TinyMqConcurrentQueue
open CircularBuffers OptimisticTickets

def ticketOf : ConsumerPc → Ticket
  | .optimistic _ overcommit | .fetch overcommit => .reading overcommit
  | .check myDequeueCount overcommit => .undecided myDequeueCount overcommit
  | .giveBack myDequeueCount => .failed myDequeueCount
  | .claim => .passed
  | _ => .out

/-- The index whose element the thread looks for. -/
def seeks : ConsumerPc → Option Nat
  | .header index | .tail index _ | .key index _ _ | .value index _ | .take index _ _ => some index
  | _ => none

/-- The index whose element the thread has taken and not counted out. -/
def empties : ConsumerPc → Option Nat
  | .empty index _ _ => some index
  | _ => none

/-- The block that the thread takes from the index. -/
def clears : ConsumerPc → Option Nat
  | .clear index _ _ => some (index / BLOCK_SIZE)
  | _ => none

/-- The block that the thread gives back to the pool. -/
def releases : ConsumerPc → Option Nat
  | .release index _ => some (index / BLOCK_SIZE)
  | _ => none

def deals (pc : ConsumerPc) : Option Nat × Option Nat × Option Nat × Option Nat :=
  (seeks pc,empties pc,clears pc,releases pc)

/-- What a thread has found out about the block of its index. -/
def Knows (g : Ghost) (capacity : Nat → Nat) (cur : Nat) : ConsumerPc → Prop
  | .header index => index / BLOCK_SIZE < g.valued
  | .tail index h => index / BLOCK_SIZE < g.valued ∧ h ≤ cur ∧ g.low h ≤ index / BLOCK_SIZE ∧
      index / BLOCK_SIZE < g.fin h
  | .key index h tail => index / BLOCK_SIZE < g.valued ∧ h ≤ cur ∧ g.low h ≤ index / BLOCK_SIZE ∧
      ∃ b, index / BLOCK_SIZE ≤ b ∧ b < g.fin h ∧ tail = slot (capacity h) (g.low h) b
  | .value index entry => index / BLOCK_SIZE < g.valued ∧ entry = g.entryOf (index / BLOCK_SIZE)
  | .take index entry block | .empty index entry block | .clear index entry block =>
    index / BLOCK_SIZE < g.valued ∧ entry = g.entryOf (index / BLOCK_SIZE) ∧
      block = g.blockOf (index / BLOCK_SIZE)
  | .release index block => index / BLOCK_SIZE < g.valued ∧ block = g.blockOf (index / BLOCK_SIZE)
  | _ => True

/-- What the producer changes while others read: old headers and old blocks keep their places. -/
structure Later (g g' : Ghost) (capacity capacity' : Nat → Nat) (cur cur' : Nat) : Prop where
  valued : g.valued ≤ g'.valued
  onward : cur ≤ cur'
  headers : ∀ h ≤ cur, capacity' h = capacity h ∧ g'.low h = g.low h ∧ g.fin h ≤ g'.fin h
  places : ∀ b < g.valued, g'.entryOf b = g.entryOf b ∧ g'.blockOf b = g.blockOf b

theorem Knows.later {g g' : Ghost} {capacity capacity' : Nat → Nat} {cur cur' : Nat}
    (later : Later g g' capacity capacity' cur cur') {pc : ConsumerPc}
    (knows : Knows g capacity cur pc) : Knows g' capacity' cur' pc := by
  cases pc with
  | header index => exact knows.trans_le later.valued
  | tail index h =>
    obtain ⟨valued,known,above,inside⟩ := knows
    obtain ⟨_,low,fin⟩ := later.headers h known
    refine ⟨valued.trans_le later.valued, known.trans later.onward, ?_, inside.trans_le fin⟩
    rw [low]
    exact above
  | key index h tail =>
    obtain ⟨valued,known,above,b,order,inside,at_⟩ := knows
    obtain ⟨same,low,fin⟩ := later.headers h known
    refine ⟨valued.trans_le later.valued, known.trans later.onward, ?_, b, order,
      inside.trans_le fin, ?_⟩
    · rw [low]
      exact above
    · rw [low, same]
      exact at_
  | value index entry =>
    obtain ⟨valued,entry_eq⟩ := knows
    refine ⟨valued.trans_le later.valued, ?_⟩
    rw [(later.places _ valued).1]
    exact entry_eq
  | take index entry block | empty index entry block | clear index entry block =>
    obtain ⟨valued,entry_eq,block_eq⟩ := knows
    refine ⟨valued.trans_le later.valued, ?_, ?_⟩
    · rw [(later.places _ valued).1]
      exact entry_eq
    · rw [(later.places _ valued).2]
      exact block_eq
  | release index block =>
    obtain ⟨valued,block_eq⟩ := knows
    refine ⟨valued.trans_le later.valued, ?_⟩
    rw [(later.places _ valued).2]
    exact block_eq
  | idle | overcommit tail | optimistic tail overcommit | fetch overcommit
  | check myDequeueCount overcommit | giveBack myDequeueCount | claim => exact trivial

theorem later_closing {g : Ghost} {capacity : Nat → Nat} {cur : Nat}
    (finished cleared released : Finset Nat) :
    Later g { g with finished := finished, cleared := cleared, released := released } capacity
      capacity cur cur :=
  ⟨le_rfl,le_rfl,fun _ _ => ⟨rfl,rfl,le_rfl⟩,fun _ _ => ⟨rfl,rfl⟩⟩

/-- What the producer relies on where it stands. -/
def Stands {α : Type} (g : Ghost) (tail : Nat) (h : BlockIndexHeader) (low fin : Nat)
    (entries : Nat → BlockIndexEntry) (blocks : Nat → Block α) : ProducerPc α → Prop
  | .idle => BLOCK_SIZE * g.valued < tail + BLOCK_SIZE
  | .leeway _ | .insert _ => tail = BLOCK_SIZE * g.valued
  | .grow _ => tail = BLOCK_SIZE * g.valued ∧ fin = g.valued ∧ low + h.capacity ≤ g.valued
  | .key _ newTail => tail = BLOCK_SIZE * g.valued ∧
      newTail = slot h.capacity low g.valued ∧ (entries (h.index newTail)).value = none
  | .list _ newTail => tail = BLOCK_SIZE * g.valued ∧ fin = g.valued + 1 ∧
      newTail = slot h.capacity low g.valued
  | .requisition _ entry | .rewind entry | .revoke entry =>
    tail = BLOCK_SIZE * g.valued ∧ fin = g.valued + 1 ∧ entry = g.entryOf g.valued
  | .reset _ entry block => tail = BLOCK_SIZE * g.valued ∧ fin = g.valued + 1 ∧
      entry = g.entryOf g.valued ∧ block = g.blockOf g.valued
  | .value _ entry block => tail = BLOCK_SIZE * g.valued ∧ fin = g.valued + 1 ∧
      entry = g.entryOf g.valued ∧ block = g.blockOf g.valued ∧
      (blocks block).elementsCompletelyDequeued = 0
  | .construct _ => tail < BLOCK_SIZE * g.valued
  | .publish x => tail < BLOCK_SIZE * g.valued ∧
      (blocks (g.blockOf (tail / BLOCK_SIZE))).elements (tail % BLOCK_SIZE) = some x

def listedAhead {α : Type} : ProducerPc α → Nat
  | .requisition _ _ | .rewind _ | .reset _ _ _ | .value _ _ _ => 1
  | _ => 0

def ownedAhead {α : Type} : ProducerPc α → Nat
  | .reset _ _ _ | .value _ _ _ => 1
  | _ => 0

structure Inv {α : Type} {n : Nat} (g : Ghost) (s : State α n) : Prop where
  tickets : ∃ passed counted, Tickets s.tailIndex s.headIndex s.dequeueOptimisticCount
    s.dequeueOvercommit (ticketOf ∘ s.consumers) passed counted
  claims : Claims g.finished s.headIndex s.enqueued s.taken (seeks ∘ s.consumers)
    (empties ∘ s.consumers)
  index : Index g s.headers s.entries s.entryCount s.blockIndex (g.valued + listedAhead s.producer)
  doubles : s.nextBlockIndexCapacity = 2 * s.localBlockIndex.capacity
  own : Blocks g s.tailIndex s.tailBlock s.blocks s.inUse s.enqueued s.taken
    (g.valued + ownedAhead s.producer)
  closings : Closings g (clears ∘ s.consumers) (releases ∘ s.consumers)
  knows : ∀ c, Knows g (BlockIndexHeader.capacity ∘ s.headers) s.blockIndex (s.consumers c)
  stands : Stands g s.tailIndex s.localBlockIndex (g.low s.blockIndex) (g.fin s.blockIndex)
    s.entries s.blocks s.producer
  sound : s.broken = false

variable {α : Type} {n : Nat} {g : Ghost} {s : State α n} {c : Fin n}

theorem Stands.kept {tail low fin : Nat} {h : BlockIndexHeader}
    {entries entries' : Nat → BlockIndexEntry} {blocks blocks' : Nat → Block α}
    {pc : ProducerPc α} (stands : Stands g tail h low fin entries blocks pc)
    (values : ∀ e, (entries e).value = none → (entries' e).value = none)
    (counter : ownedAhead pc = 1 →
      (blocks' (g.blockOf g.valued)).elementsCompletelyDequeued =
        (blocks (g.blockOf g.valued)).elementsCompletelyDequeued)
    (element : tail < BLOCK_SIZE * g.valued →
      (blocks' (g.blockOf (tail / BLOCK_SIZE))).elements (tail % BLOCK_SIZE) =
        (blocks (g.blockOf (tail / BLOCK_SIZE))).elements (tail % BLOCK_SIZE)) :
    Stands g tail h low fin entries' blocks' pc := by
  cases pc with
  | key x newTail =>
    obtain ⟨full,place,free⟩ := stands
    exact ⟨full,place,values _ free⟩
  | value x entry block =>
    obtain ⟨full,ahead,entry_eq,rfl,zero⟩ := stands
    exact ⟨full,ahead,entry_eq,rfl,(counter rfl).trans zero⟩
  | publish x =>
    obtain ⟨room,here⟩ := stands
    exact ⟨room,(element room).trans here⟩
  | idle | leeway x | insert x | grow x | list x newTail | requisition x entry | rewind entry
  | revoke entry | reset x entry block | construct x => exact stands

theorem Inv.head_le (inv : Inv g s) : s.headIndex ≤ s.tailIndex := by
  obtain ⟨_,_,tickets⟩ := inv.tickets
  exact tickets.claimed_le

theorem Inv.finished_lt (inv : Inv g s) {i : Nat} (member : i ∈ g.finished) : i < s.tailIndex :=
  (inv.claims.finished_lt member).trans_le inv.head_le

theorem Inv.sought_lt (inv : Inv g s) {i : Nat} (here : seeks (s.consumers c) = some i) :
    i < s.tailIndex :=
  (inv.claims.sought c i here).1.trans_le inv.head_le

theorem Inv.sought_kept (inv : Inv g s) {i : Nat} (here : seeks (s.consumers c) = some i) :
    i / BLOCK_SIZE < g.valued ∧ i / BLOCK_SIZE ∉ g.cleared :=
  ⟨inv.own.valued (inv.sought_lt here),inv.own.kept (inv.claims.unfinished (c := c) here)⟩

theorem Inv.ahead_apart (inv : Inv g s) (ahead : ownedAhead s.producer = 1) {b : Nat}
    (below : b < g.valued) (kept : b ∉ g.cleared) : g.blockOf g.valued ≠ g.blockOf b := by
  have fresh : g.valued ∉ g.cleared := by
    intro member
    exact absurd (inv.own.cleared _ member).1 (Nat.lt_irrefl _)
  exact inv.own.apart (by omega) (by omega) fresh kept (by omega)

theorem view_at {β : Type*} (f : ConsumerPc → β) {pc : ConsumerPc} (at_ : s.consumers c = pc) :
    (f ∘ s.consumers) c = f pc := congrArg f at_

theorem view_kept {β : Type*} (f : ConsumerPc → β) {pc old : ConsumerPc}
    (at_ : s.consumers c = old) (same : f pc = f old) :
    f ∘ Function.update s.consumers c pc = f ∘ s.consumers := by
  rw [Function.comp_update, same, ← view_at f at_]
  exact Function.update_eq_self c _

theorem view_moved {β : Type*} (f : ConsumerPc → β) {pc : ConsumerPc} {v : β} (new : f pc = v) :
    f ∘ Function.update s.consumers c pc = Function.update (f ∘ s.consumers) c v := by
  rw [Function.comp_update, new]

theorem knows_moved {pc : ConsumerPc} {capacity : Nat → Nat} {cur : Nat}
    (others : ∀ d, Knows g capacity cur (s.consumers d)) (own : Knows g capacity cur pc) (d : Fin n) :
    Knows g capacity cur (Function.update s.consumers c pc d) := by
  by_cases same : d = c
  · rw [same, Function.update_self]
    exact own
  · rw [Function.update_of_ne same]
    exact others d

theorem Inv.went (inv : Inv g s) {pc old : ConsumerPc} {issued returned : Nat}
    (at_ : s.consumers c = old)
    (tickets : ∃ passed counted, Tickets s.tailIndex s.headIndex issued returned
      (Function.update (ticketOf ∘ s.consumers) c (ticketOf pc)) passed counted)
    (same : deals pc = deals old)
    (knows : Knows g (BlockIndexHeader.capacity ∘ s.headers) s.blockIndex pc) :
    Inv g { s.goto c pc with dequeueOptimisticCount := issued, dequeueOvercommit := returned } := by
  simp only [deals, Prod.mk.injEq] at same
  obtain ⟨seeking,emptying,clearing,releasing⟩ := same
  exact
    { tickets := by
        simp only [State.goto, Function.comp_update]
        exact tickets
      claims := by
        simp only [State.goto]
        rw [view_kept seeks at_ seeking, view_kept empties at_ emptying]
        exact inv.claims
      index := inv.index
      doubles := inv.doubles
      own := inv.own
      closings := by
        simp only [State.goto]
        rw [view_kept clears at_ clearing, view_kept releases at_ releasing]
        exact inv.closings
      knows := knows_moved inv.knows knows
      stands := inv.stands
      sound := inv.sound }

theorem Inv.found (inv : Inv g s) {pc old : ConsumerPc} (at_ : s.consumers c = old)
    (ticket : ticketOf pc = ticketOf old) (same : deals pc = deals old)
    (knows : Knows g (BlockIndexHeader.capacity ∘ s.headers) s.blockIndex pc) :
    Inv g (s.goto c pc) := by
  have tickets := inv.tickets
  rw [← view_kept ticketOf at_ ticket, view_moved ticketOf rfl] at tickets
  exact inv.went at_ tickets same knows

theorem Inv.header (inv : Inv g s) {index : Nat} (at_ : s.consumers c = .header index) :
    Inv g (s.goto c (.tail index s.blockIndex)) := by
  have here : seeks (s.consumers c) = some index := view_at seeks at_
  obtain ⟨valued,kept⟩ := inv.sought_kept here
  obtain ⟨above,_⟩ := inv.index.occupied _ valued kept
  have knows : Knows g (BlockIndexHeader.capacity ∘ s.headers) s.blockIndex
      (.tail index s.blockIndex) :=
    ⟨valued,le_rfl,above,valued.trans_le inv.index.fin_cur.1⟩
  exact inv.found at_ rfl rfl knows

theorem Inv.tail (inv : Inv g s) {index h : Nat} (at_ : s.consumers c = .tail index h) :
    Inv g (s.goto c (.key index h (s.headers h).tail)) := by
  have old := inv.knows c
  rw [at_] at old
  obtain ⟨valued,known,above,inside⟩ := old
  have knows : Knows g (BlockIndexHeader.capacity ∘ s.headers) s.blockIndex
      (.key index h (s.headers h).tail) :=
    ⟨valued,known,above,inv.index.tail_listed known above inside valued⟩
  exact inv.found at_ rfl rfl knows

theorem blockIndexIndex_slot {h : BlockIndexHeader} {low index b : Nat}
    (above : low ≤ index / BLOCK_SIZE) (order : index / BLOCK_SIZE ≤ b) :
    blockIndexIndex h index (slot h.capacity low b) (BLOCK_SIZE * b) =
      slot h.capacity low (index / BLOCK_SIZE) := by
  have base : blockBase index = BLOCK_SIZE * (index / BLOCK_SIZE) := by
    simp only [blockBase, BLOCK_SIZE]
    omega
  have offset : ((blockBase index : Int) - (BLOCK_SIZE * b : Nat)).tdiv BLOCK_SIZE =
      ((index / BLOCK_SIZE : Nat) : Int) - b := by
    have product : (blockBase index : Int) - (BLOCK_SIZE * b : Nat) =
        BLOCK_SIZE * (((index / BLOCK_SIZE : Nat) : Int) - b) := by
      rw [base, Int.natCast_mul, Int.natCast_mul, Int.mul_sub]
    rw [product]
    exact Int.mul_tdiv_cancel_left _ (by decide)
  unfold blockIndexIndex
  simp only [offset]
  exact slot_distance above (above.trans order)

theorem Inv.key (inv : Inv g s) {index h tail : Nat} (at_ : s.consumers c = .key index h tail) :
    Inv g (consumerStep s c) := by
  have here : seeks (s.consumers c) = some index := view_at seeks at_
  obtain ⟨_,kept⟩ := inv.sought_kept here
  have old := inv.knows c
  rw [at_] at old
  obtain ⟨valued,known,above,b,order,inside,tail_eq⟩ := old
  obtain ⟨low,window,_⟩ := inv.index.occupied _ valued kept
  have fin_le : g.fin h ≤ g.fin s.blockIndex := by
    rcases Nat.lt_or_eq_of_le known with older | current
    · exact (inv.index.fin_old h older).2.trans inv.index.fin_cur.1
    · rw [current]
  have key : (s.entries ((s.headers h).index tail)).key = BLOCK_SIZE * b := by
    rw [tail_eq]
    simp only [Function.comp_apply]
    rw [inv.index.lists h known b (above.trans order) inside]
    exact inv.index.keys b (low.trans order) (inside.trans_le fin_le) (by omega)
  have valid : BLOCK_SIZE * b ≠ INVALID_BLOCK_BASE := by
    simp only [BLOCK_SIZE, INVALID_BLOCK_BASE]
    omega
  have place : (s.headers h).index (blockIndexIndex (s.headers h) index tail (BLOCK_SIZE * b)) =
      g.entryOf (index / BLOCK_SIZE) := by
    rw [tail_eq]
    simp only [Function.comp_apply]
    rw [blockIndexIndex_slot above order]
    exact inv.index.lists h known _ above (order.trans_lt inside)
  simp only [consumerStep, at_, key]
  rw [if_neg valid, place]
  exact inv.found at_ rfl rfl ⟨valued,rfl⟩

theorem Inv.value (inv : Inv g s) {index entry : Nat} (at_ : s.consumers c = .value index entry) :
    Inv g (consumerStep s c) := by
  have here : seeks (s.consumers c) = some index := view_at seeks at_
  obtain ⟨_,kept⟩ := inv.sought_kept here
  have old := inv.knows c
  rw [at_] at old
  obtain ⟨valued,rfl⟩ := old
  obtain ⟨low,window,block⟩ := inv.index.occupied _ valued kept
  have key := inv.index.keys _ low (valued.trans_le inv.index.fin_cur.1) window
  have base : BLOCK_SIZE * (index / BLOCK_SIZE) = blockBase index := by
    simp only [blockBase, BLOCK_SIZE]
    omega
  simp only [consumerStep, at_, block, key]
  rw [if_pos base]
  exact inv.found at_ rfl rfl ⟨valued,rfl,rfl⟩

theorem Inv.claim (inv : Inv g s) (at_ : s.consumers c = .claim) :
    Inv g { s.goto c (.header s.headIndex) with headIndex := s.headIndex + 1 } := by
  obtain ⟨passed,counted,tickets⟩ := inv.tickets
  have ticket : (ticketOf ∘ s.consumers) c = .passed := view_at ticketOf at_
  have below := tickets.claimed_lt ticket
  have free : (seeks ∘ s.consumers) c = none := view_at seeks at_
  exact
    { inv with
      tickets := by
        refine ⟨passed, counted, ?_⟩
        simp only [State.goto]
        rw [view_moved ticketOf rfl]
        exact tickets.claim ticket
      claims := by
        simp only [State.goto]
        rw [view_moved seeks rfl, view_kept empties at_ (by rfl)]
        exact inv.claims.claim free
      closings := by
        simp only [State.goto]
        rw [view_kept clears at_ (by rfl), view_kept releases at_ (by rfl)]
        exact inv.closings
      knows := knows_moved inv.knows (inv.own.valued below) }

theorem Inv.unticketed (inv : Inv g s) {pc old : ConsumerPc} (at_ : s.consumers c = old)
    (same : ticketOf pc = ticketOf old) :
    ∃ passed counted, Tickets s.tailIndex s.headIndex s.dequeueOptimisticCount
      s.dequeueOvercommit (ticketOf ∘ Function.update s.consumers c pc) passed counted := by
  rw [view_kept ticketOf at_ same]
  exact inv.tickets

theorem Inv.take (inv : Inv g s) {index entry block : Nat}
    (at_ : s.consumers c = .take index entry block) : Inv g (consumerStep s c) := by
  have here : seeks (s.consumers c) = some index := view_at seeks at_
  have below := inv.sought_lt here
  obtain ⟨valued,kept⟩ := inv.sought_kept here
  have old := inv.knows c
  rw [at_] at old
  obtain ⟨_,rfl,rfl⟩ := old
  have inside : index < s.enqueued.length := by
    rw [inv.own.length]
    exact below
  have element : s.enqueued[index]? = some s.enqueued[index] := List.getElem?_eq_getElem inside
  have content := inv.own.contents index _ element kept (inv.claims.sought c index here).2
  simp only [consumerStep, at_, content]
  exact
    { inv with
      tickets := inv.unticketed at_ rfl
      claims := by
        simp only [State.goto]
        rw [view_moved seeks rfl, view_moved empties rfl]
        exact inv.claims.take here element
      own := inv.own.take below kept c _
      closings := by
        simp only [State.goto, State.setBlock]
        rw [view_kept clears at_ (by rfl), view_kept releases at_ (by rfl)]
        exact inv.closings
      knows := knows_moved inv.knows ⟨valued,rfl,rfl⟩
      stands := by
        apply inv.stands.kept
        · exact fun _ none => none
        · intro ahead
          simp only [State.goto, State.setBlock]
          rw [Function.update_of_ne (inv.ahead_apart ahead valued kept)]
        · intro room
          obtain ⟨tail_valued,tail_kept,_⟩ :=
            inv.own.tail_block (fun _ member => inv.finished_lt member) room
          exact inv.own.put_contents none (tail_valued.trans_le inv.own.owned_le)
            (valued.trans_le inv.own.owned_le) tail_kept kept below.ne' }

theorem Inv.counted (inv : Inv g s) {index entry block : Nat} {pc : ConsumerPc}
    (at_ : s.consumers c = .empty index entry block) (ticket : ticketOf pc = .out)
    (seeking : seeks pc = none) (emptied : empties pc = none) (releasing : releases pc = none)
    (closings : Closings { g with finished := insert index g.finished }
      (Function.update (clears ∘ s.consumers) c (clears pc)) (releases ∘ s.consumers))
    (knows : Knows g (BlockIndexHeader.capacity ∘ s.headers) s.blockIndex pc) :
    Inv { g with finished := insert index g.finished }
      ((s.setBlock (g.blockOf (index / BLOCK_SIZE))
        { s.blocks (g.blockOf (index / BLOCK_SIZE)) with
          elementsCompletelyDequeued := done g.finished (index / BLOCK_SIZE) + 1 }).goto c pc) := by
  have here : empties (s.consumers c) = some index := view_at empties at_
  obtain ⟨left,r,member,same⟩ := inv.claims.emptied c index here
  have below : index < s.tailIndex := by
    rw [← same]
    exact (inv.claims.taken_lt r member).trans_le inv.head_le
  have kept := inv.own.kept left
  have valued := inv.own.valued below
  exact
    { inv with
      tickets := inv.unticketed at_ ticket
      claims := by
        simp only [State.goto, State.setBlock]
        rw [view_kept seeks at_ seeking, view_moved empties emptied]
        exact inv.claims.count here
      index := { inv.index with }
      own := inv.own.count below left
      closings := by
        simp only [State.goto, State.setBlock]
        rw [view_moved clears rfl, view_kept releases at_ releasing]
        exact closings
      knows := by
        apply knows_moved
        · exact fun d => (inv.knows d).later (later_closing _ _ _)
        · exact knows.later (later_closing _ _ _)
      stands := by
        apply Stands.kept (inv.stands : Stands { g with finished := insert index g.finished } ..)
        · exact fun _ none => none
        · intro ahead
          simp only [State.goto, State.setBlock]
          rw [Function.update_of_ne (inv.ahead_apart ahead valued kept)]
        · intro _
          simp only [State.goto, State.setBlock]
          by_cases same : g.blockOf (s.tailIndex / BLOCK_SIZE) = g.blockOf (index / BLOCK_SIZE)
          · rw [same, Function.update_self]
          · rw [Function.update_of_ne same] }

theorem Inv.empty (inv : Inv g s) {index entry block : Nat}
    (at_ : s.consumers c = .empty index entry block) :
    Inv { g with finished := insert index g.finished } (consumerStep s c) := by
  have here : empties (s.consumers c) = some index := view_at empties at_
  have left := (inv.claims.emptied c index here).1
  have kept := inv.own.kept left
  have old := inv.knows c
  rw [at_] at old
  obtain ⟨valued,rfl,rfl⟩ := old
  have count := inv.own.counts _ valued kept
  simp only [consumerStep, at_, count]
  rw [if_pos (done_lt left)]
  by_cases last : done g.finished (index / BLOCK_SIZE) = BLOCK_SIZE - 1
  · rw [if_pos last]
    exact inv.counted at_ rfl rfl rfl rfl (inv.closings.last left valued kept last)
      ⟨valued,rfl,rfl⟩
  · rw [if_neg last]
    have same : Function.update (clears ∘ s.consumers) c (clears .idle) = clears ∘ s.consumers := by
      rw [← view_moved clears rfl]
      exact view_kept clears at_ (by rfl)
    have closings := inv.closings.count left
    rw [← same] at closings
    exact inv.counted at_ rfl rfl rfl rfl closings trivial

theorem Inv.clear (inv : Inv g s) {index entry block : Nat}
    (at_ : s.consumers c = .clear index entry block) :
    Inv { g with cleared := insert (index / BLOCK_SIZE) g.cleared } (consumerStep s c) := by
  have here : clears (s.consumers c) = some (index / BLOCK_SIZE) := view_at clears at_
  obtain ⟨valued,kept,full⟩ := inv.closings.uncleared c _ here
  have old := inv.knows c
  rw [at_] at old
  obtain ⟨_,rfl,rfl⟩ := old
  simp only [consumerStep, at_]
  exact
    { inv with
      tickets := inv.unticketed at_ rfl
      claims := by
        simp only [State.goto, State.setValue]
        rw [view_kept seeks at_ (by rfl), view_kept empties at_ (by rfl)]
        exact inv.claims
      index := inv.index.clear valued kept
      own := inv.own.clear valued full
      closings := by
        simp only [State.goto, State.setValue]
        rw [view_moved clears rfl, view_moved releases rfl]
        exact inv.closings.clear inv.own.released here
      knows := by
        apply knows_moved
        · exact fun d => (inv.knows d).later (later_closing _ _ _)
        · exact ⟨valued,rfl⟩
      stands := by
        apply Stands.kept (inv.stands :
          Stands { g with cleared := insert (index / BLOCK_SIZE) g.cleared } ..)
        · intro e none
          simp only [State.goto, State.setValue]
          by_cases same : e = g.entryOf (index / BLOCK_SIZE)
          · rw [same, Function.update_self]
          · rw [Function.update_of_ne same]
            exact none
        · exact fun _ => rfl
        · exact fun _ => rfl }

theorem Inv.release (inv : Inv g s) {index block : Nat}
    (at_ : s.consumers c = .release index block) :
    Inv { g with released := insert (index / BLOCK_SIZE) g.released } (consumerStep s c) := by
  have here : releases (s.consumers c) = some (index / BLOCK_SIZE) := view_at releases at_
  obtain ⟨cleared,left⟩ := inv.closings.unreleased c _ here
  have old := inv.knows c
  rw [at_] at old
  obtain ⟨_,rfl⟩ := old
  simp only [consumerStep, at_]
  exact
    { inv with
      tickets := inv.unticketed at_ rfl
      claims := by
        simp only [State.goto]
        rw [view_kept seeks at_ (by rfl), view_kept empties at_ (by rfl)]
        exact inv.claims
      index := { inv.index with }
      own := inv.own.release cleared left
      closings := by
        simp only [State.goto]
        rw [view_kept clears at_ (by rfl), view_moved releases rfl]
        exact inv.closings.release here
      knows := by
        apply knows_moved
        · exact fun d => (inv.knows d).later (later_closing _ _ _)
        · exact trivial }

theorem Inv.consumer (inv : Inv g s) (c : Fin n) : ∃ g', Inv g' (consumerStep s c) := by
  cases at_ : s.consumers c with
  | idle =>
    refine ⟨g, ?_⟩
    simp only [consumerStep, at_]
    exact inv
  | overcommit tail =>
    obtain ⟨passed,counted,tickets⟩ := inv.tickets
    have out : (ticketOf ∘ s.consumers) c = .out := view_at ticketOf at_
    refine ⟨g, ?_⟩
    simp only [consumerStep, at_]
    have reads := tickets.read c (by rw [out]; exact ⟨rfl,rfl⟩) (.inr rfl)
    exact inv.went at_ ⟨passed,counted,reads⟩ rfl trivial
  | optimistic tail overcommit =>
    refine ⟨g, ?_⟩
    simp only [consumerStep, at_]
    by_cases seen : (s.dequeueOptimisticCount : Int) - overcommit < tail
    · rw [if_pos seen]
      exact inv.found at_ rfl rfl trivial
    · rw [if_neg seen]
      obtain ⟨passed,counted,tickets⟩ := inv.tickets
      have reading : (ticketOf ∘ s.consumers) c = .reading overcommit := view_at ticketOf at_
      have leaves := tickets.read c (by rw [reading]; exact ⟨rfl,rfl⟩) (.inl rfl)
      exact inv.went at_ ⟨passed,counted,leaves⟩ rfl trivial
  | fetch overcommit =>
    obtain ⟨passed,counted,tickets⟩ := inv.tickets
    have reading : (ticketOf ∘ s.consumers) c = .reading overcommit := view_at ticketOf at_
    refine ⟨g, ?_⟩
    simp only [consumerStep, at_]
    exact inv.went at_ ⟨passed,counted,tickets.issue reading⟩ rfl trivial
  | check myDequeueCount overcommit =>
    obtain ⟨passed,counted,tickets⟩ := inv.tickets
    have undecided : (ticketOf ∘ s.consumers) c = .undecided myDequeueCount overcommit := view_at ticketOf at_
    refine ⟨g, ?_⟩
    simp only [consumerStep, at_]
    by_cases supplied : (myDequeueCount : Int) - overcommit < s.tailIndex
    · rw [if_pos supplied]
      exact inv.went at_ ⟨_,counted,tickets.pass undecided supplied⟩ rfl trivial
    · rw [if_neg supplied]
      exact inv.went at_ ⟨passed,counted,tickets.refuse undecided⟩ rfl trivial
  | giveBack myDequeueCount =>
    obtain ⟨passed,counted,tickets⟩ := inv.tickets
    have failed : (ticketOf ∘ s.consumers) c = .failed myDequeueCount := view_at ticketOf at_
    refine ⟨g, ?_⟩
    simp only [consumerStep, at_]
    exact inv.went at_ ⟨passed,_,tickets.giveBack failed⟩ rfl trivial
  | claim =>
    refine ⟨g, ?_⟩
    simp only [consumerStep, at_]
    exact inv.claim at_
  | header index =>
    refine ⟨g, ?_⟩
    simp only [consumerStep, at_]
    exact inv.header at_
  | tail index h =>
    refine ⟨g, ?_⟩
    simp only [consumerStep, at_]
    exact inv.tail at_
  | key index h tail => exact ⟨g,inv.key at_⟩
  | value index entry => exact ⟨g,inv.value at_⟩
  | take index entry block => exact ⟨g,inv.take at_⟩
  | empty index entry block => exact ⟨_,inv.empty at_⟩
  | clear index entry block => exact ⟨_,inv.clear at_⟩
  | release index block => exact ⟨_,inv.release at_⟩

end TinyMqConcurrentQueue
