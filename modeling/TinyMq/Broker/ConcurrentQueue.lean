import Mathlib.Data.Int.Basic
import Mathlib.Logic.Function.Basic
import TinyMq.Lib.Machines

/-!
The queue of one implicit producer of `moodycamel::ConcurrentQueue`, of which the bands of
`PriorityQueueT` and the operation queue of the storage are made. Its own thread enqueues and
any number of threads dequeue; every access to what they share is a step of its own, in one
order for all threads. Blocks come from a pool that other producers use too. Neither the
indices nor the counts wrap round, and a capacity is a power of two, so that
`& (capacity - 1)` is `% capacity`.
-/
namespace TinyMqConcurrentQueue

def BLOCK_SIZE : Nat := 32

/-- Odd, so that no block begins there. -/
def INVALID_BLOCK_BASE : Nat := 1

def IMPLICIT_INITIAL_INDEX_SIZE : Nat := 32

/-- `none` is memory without an element in it. -/
structure Block (α : Type) where
  elements : Nat → Option α
  elementsCompletelyDequeued : Nat

structure BlockIndexEntry where
  key : Nat
  value : Option Nat
  deriving DecidableEq

/-- The pointers of `index` are numbers of entries. -/
structure BlockIndexHeader where
  capacity : Nat
  tail : Nat
  index : Nat → Nat

inductive ProducerPc (α : Type) where
  | idle
  | leeway (x : α)
  | insert (x : α)
  | grow (x : α)
  | key (x : α) (newTail : Nat)
  | list (x : α) (newTail : Nat)
  | requisition (x : α) (idxEntry : Nat)
  | rewind (idxEntry : Nat)
  | revoke (idxEntry : Nat)
  | reset (x : α) (idxEntry newBlock : Nat)
  | value (x : α) (idxEntry newBlock : Nat)
  | construct (x : α)
  | publish (x : α)

/-- Where a `dequeue` stands, with its local variables. -/
inductive ConsumerPc where
  | idle
  | overcommit (tail : Nat)
  | optimistic (tail overcommit : Nat)
  | fetch (overcommit : Nat)
  | check (myDequeueCount overcommit : Nat)
  | giveBack (myDequeueCount : Nat)
  | claim
  | header (index : Nat)
  | tail (index localBlockIndex : Nat)
  | key (index localBlockIndex tail : Nat)
  | value (index entry : Nat)
  | take (index entry block : Nat)
  | empty (index entry block : Nat)
  | clear (index entry block : Nat)
  | release (index block : Nat)
  deriving DecidableEq

structure Taken (α : Type) (n : Nat) where
  thread : Fin n
  index : Nat
  element : α

/-- The last three fields say what happened: what was enqueued, what was taken, and whether an
    assertion failed or raw memory was read. -/
structure State (α : Type) (n : Nat) where
  tailIndex : Nat := 0
  headIndex : Nat := 0
  dequeueOptimisticCount : Nat := 0
  dequeueOvercommit : Nat := 0
  tailBlock : Nat := 0
  nextBlockIndexCapacity : Nat
  blockIndex : Nat := 0
  headers : Nat → BlockIndexHeader
  entries : Nat → BlockIndexEntry
  entryCount : Nat
  blocks : Nat → Block α
  inUse : Nat → Bool := fun _ => false
  producer : ProducerPc α := .idle
  consumers : Fin n → ConsumerPc := fun _ => .idle
  enqueued : List α := []
  taken : List (Taken α n) := []
  broken : Bool := false

variable {α : Type} {n : Nat}

def State.localBlockIndex (s : State α n) : BlockIndexHeader := s.headers s.blockIndex

def fresh (n : Nat) (blocks : Nat → Block α) : State α n where
  nextBlockIndexCapacity := 2 * IMPLICIT_INITIAL_INDEX_SIZE
  headers _ := ⟨IMPLICIT_INITIAL_INDEX_SIZE,IMPLICIT_INITIAL_INDEX_SIZE - 1,id⟩
  entries _ := ⟨INVALID_BLOCK_BASE,none⟩
  entryCount := IMPLICIT_INITIAL_INDEX_SIZE
  blocks := blocks

def State.at (s : State α n) (pc : ProducerPc α) : State α n := { s with producer := pc }

def State.goto (s : State α n) (c : Fin n) (pc : ConsumerPc) : State α n :=
  { s with consumers := Function.update s.consumers c pc }

def State.fail (s : State α n) (c : Fin n) : State α n := { s.goto c .idle with broken := true }

def State.setKey (s : State α n) (idxEntry key : Nat) : State α n :=
  { s with entries := Function.update s.entries idxEntry { s.entries idxEntry with key := key } }

def State.setValue (s : State α n) (idxEntry : Nat) (value : Option Nat) : State α n :=
  { s with
      entries := Function.update s.entries idxEntry { s.entries idxEntry with value := value } }

def State.setTail (s : State α n) (tail : Nat) : State α n :=
  { s with
      headers := Function.update s.headers s.blockIndex { s.localBlockIndex with tail := tail } }

def State.setBlock (s : State α n) (block : Nat) (content : Block α) : State α n :=
  { s with blocks := Function.update s.blocks block content }

def Block.put (b : Block α) (index : Nat) (x : Option α) : Block α :=
  { b with elements := Function.update b.elements (index % BLOCK_SIZE) x }

/-- `new_block_index` with its loop over the entries there are, oldest first. -/
def State.newBlockIndex (s : State α n) : State α n :=
  let prev := s.localBlockIndex
  let header : BlockIndexHeader :=
    { capacity := s.nextBlockIndexCapacity
      tail := (prev.capacity - 1) % s.nextBlockIndexCapacity
      index := fun i =>
        if i < prev.capacity then prev.index ((prev.tail + 1 + i) % prev.capacity)
        else s.entryCount + (i - prev.capacity) }
  { s with
      nextBlockIndexCapacity := 2 * s.nextBlockIndexCapacity
      blockIndex := s.blockIndex + 1
      headers := Function.update s.headers (s.blockIndex + 1) header
      entries := fun e =>
        if s.entryCount ≤ e ∧ e < s.entryCount + prev.capacity then ⟨INVALID_BLOCK_BASE,none⟩
        else s.entries e
      entryCount := s.entryCount + prev.capacity }

def BlockIndexHeader.newTail (h : BlockIndexHeader) : Nat := (h.tail + 1) % h.capacity

/-- `enqueue` is entered: a block may be full. -/
def enqueueStep (s : State α n) (x : α) : State α n :=
  match s.producer with
  | .idle => s.at (if s.tailIndex % BLOCK_SIZE = 0 then .leeway x else .construct x)
  | _ => s

def producerStep (s : State α n) : State α n :=
  match s.producer with
  | .idle | .requisition _ _ => s
  | .leeway x =>
    { s.at (if s.headIndex < s.tailIndex + BLOCK_SIZE then .insert x else .idle) with
        broken := s.broken || s.tailIndex < s.headIndex }
  | .insert x =>
    let h := s.localBlockIndex
    let e := s.entries (h.index h.newTail)
    s.at (if e.key = INVALID_BLOCK_BASE ∨ e.value = none then .key x h.newTail else .grow x)
  | .grow x =>
    let grown := s.newBlockIndex
    let h := grown.localBlockIndex
    { grown.at (.key x h.newTail) with
        broken := grown.broken || (grown.entries (h.index h.newTail)).key ≠ INVALID_BLOCK_BASE }
  | .key x newTail =>
    (s.setKey (s.localBlockIndex.index newTail) s.tailIndex).at (.list x newTail)
  | .list x newTail =>
    (s.setTail newTail).at (.requisition x (s.localBlockIndex.index newTail))
  | .rewind idxEntry =>
    let h := s.localBlockIndex
    (s.setTail ((h.tail + h.capacity - 1) % h.capacity)).at (.revoke idxEntry)
  | .revoke idxEntry => (s.setValue idxEntry none).at .idle
  | .reset x idxEntry newBlock =>
    (s.setBlock newBlock { s.blocks newBlock with elementsCompletelyDequeued := 0 }).at
      (.value x idxEntry newBlock)
  | .value x idxEntry newBlock =>
    { (s.setValue idxEntry (some newBlock)).at (.construct x) with tailBlock := newBlock }
  | .construct x =>
    (s.setBlock s.tailBlock ((s.blocks s.tailBlock).put s.tailIndex (some x))).at (.publish x)
  | .publish x =>
    { s.at .idle with tailIndex := s.tailIndex + 1, enqueued := s.enqueued ++ [x] }

def giveStep (s : State α n) (block : Nat) : State α n :=
  match s.producer with
  | .requisition x idxEntry =>
    if s.inUse block then s
    else { s.at (.reset x idxEntry block) with inUse := Function.update s.inUse block true }
  | _ => s

/-- An allocation fails, and `enqueue` returns false. -/
def refuseStep (s : State α n) : State α n :=
  match s.producer with
  | .grow _ => s.at .idle
  | .requisition _ idxEntry => s.at (.rewind idxEntry)
  | _ => s

def blockBase (index : Nat) : Nat := index - index % BLOCK_SIZE

/-- `get_block_index_index_for_index` after its loads, with a signed offset. -/
def blockIndexIndex (h : BlockIndexHeader) (index tail tailBase : Nat) : Nat :=
  let offset := ((blockBase index : Int) - tailBase).tdiv BLOCK_SIZE
  ((tail + offset) % h.capacity).toNat

def consumerStep (s : State α n) (c : Fin n) : State α n :=
  match s.consumers c with
  | .idle => s
  | .overcommit tail => s.goto c (.optimistic tail s.dequeueOvercommit)
  | .optimistic tail overcommit =>
    s.goto c (if (s.dequeueOptimisticCount : Int) - overcommit < tail then .fetch overcommit else .idle)
  | .fetch overcommit =>
    { s.goto c (.check s.dequeueOptimisticCount overcommit) with
        dequeueOptimisticCount := s.dequeueOptimisticCount + 1 }
  | .check myDequeueCount overcommit =>
    s.goto c (if (myDequeueCount : Int) - overcommit < s.tailIndex then .claim
      else .giveBack myDequeueCount)
  | .giveBack _ => { s.goto c .idle with dequeueOvercommit := s.dequeueOvercommit + 1 }
  | .claim => { s.goto c (.header s.headIndex) with headIndex := s.headIndex + 1 }
  | .header index => s.goto c (.tail index s.blockIndex)
  | .tail index localBlockIndex =>
    s.goto c (.key index localBlockIndex (s.headers localBlockIndex).tail)
  | .key index localBlockIndex tail =>
    let h := s.headers localBlockIndex
    let tailBase := (s.entries (h.index tail)).key
    if tailBase = INVALID_BLOCK_BASE then s.fail c
    else s.goto c (.value index (h.index (blockIndexIndex h index tail tailBase)))
  | .value index entry =>
    match (s.entries entry).value with
    | some block =>
      if (s.entries entry).key = blockBase index then s.goto c (.take index entry block)
      else s.fail c
    | none => s.fail c
  | .take index entry block =>
    match (s.blocks block).elements (index % BLOCK_SIZE) with
    | some x =>
      { (s.setBlock block ((s.blocks block).put index none)).goto c (.empty index entry block) with
          taken := s.taken ++ [⟨c,index,x⟩] }
    | none => s.fail c
  | .empty index entry block =>
    let prevVal := (s.blocks block).elementsCompletelyDequeued
    let counted := s.setBlock block
      { s.blocks block with elementsCompletelyDequeued := prevVal + 1 }
    if prevVal < BLOCK_SIZE then
      counted.goto c (if prevVal = BLOCK_SIZE - 1 then .clear index entry block else .idle)
    else counted.fail c
  | .clear index entry block => (s.setValue entry none).goto c (.release index block)
  | .release _ block => { s.goto c .idle with inUse := Function.update s.inUse block false }

inductive Act (α : Type) (n : Nat) where
  | enqueue (x : α)
  | producer
  | give (block : Nat)
  | refuse
  | dequeue (c : Fin n)
  | consumer (c : Fin n)
  /-- Another producer writes to a block that this one does not use. -/
  | others (block : Nat) (content : Block α)

def next (s : State α n) : Act α n → State α n
  | .enqueue x => enqueueStep s x
  | .producer => producerStep s
  | .give block => giveStep s block
  | .refuse => refuseStep s
  | .dequeue c => if s.consumers c = .idle then s.goto c (.overcommit s.tailIndex) else s
  | .consumer c => consumerStep s c
  | .others block content => if s.inUse block then s else s.setBlock block content

end TinyMqConcurrentQueue
