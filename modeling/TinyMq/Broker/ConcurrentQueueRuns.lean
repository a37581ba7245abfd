import TinyMq.Broker.ConcurrentQueueThreads

/-!
The steps of the producer, and whole runs of the queue.
-/
namespace TinyMqConcurrentQueue
open CircularBuffers OptimisticTickets
variable {α : Type} {n : Nat} {g : Ghost} {s : State α n}

theorem Inv.stood (inv : Inv g s) {pc old : ProducerPc α} (at_ : s.producer = old)
    (listed : listedAhead pc = listedAhead old) (owned : ownedAhead pc = ownedAhead old)
    (stands : Stands g s.tailIndex s.localBlockIndex (g.low s.blockIndex) (g.fin s.blockIndex)
      s.entries s.blocks pc) : Inv g (s.at pc) :=
  { inv with
    index := by
      simp only [State.at]
      rw [listed, ← at_]
      exact inv.index
    own := by
      simp only [State.at]
      rw [owned, ← at_]
      exact inv.own
    stands := stands }

theorem Inv.stands_at (inv : Inv g s) {pc : ProducerPc α} (at_ : s.producer = pc) :
    Stands g s.tailIndex s.localBlockIndex (g.low s.blockIndex) (g.fin s.blockIndex) s.entries
      s.blocks pc := by
  rw [← at_]
  exact inv.stands

theorem Inv.index_at (inv : Inv g s) {pc : ProducerPc α} (at_ : s.producer = pc) :
    Index g s.headers s.entries s.entryCount s.blockIndex (g.valued + listedAhead pc) := by
  rw [← at_]
  exact inv.index

theorem Inv.own_at (inv : Inv g s) {pc : ProducerPc α} (at_ : s.producer = pc) :
    Blocks g s.tailIndex s.tailBlock s.blocks s.inUse s.enqueued s.taken
      (g.valued + ownedAhead pc) := by
  rw [← at_]
  exact inv.own

theorem Inv.enqueue (inv : Inv g s) (x : α) : Inv g (enqueueStep s x) := by
  unfold enqueueStep
  split
  · next at_ =>
    have span := inv.own.span
    have stands := inv.stands_at at_
    simp only [Stands, BLOCK_SIZE] at span stands
    by_cases full : s.tailIndex % BLOCK_SIZE = 0
    · rw [if_pos full]
      apply inv.stood at_ (by rfl) (by rfl)
      simp only [Stands, BLOCK_SIZE] at full ⊢
      omega
    · rw [if_neg full]
      apply inv.stood at_ (by rfl) (by rfl)
      simp only [Stands, BLOCK_SIZE] at full ⊢
      omega
  · exact inv

theorem Inv.leeway (inv : Inv g s) {x : α} (at_ : s.producer = .leeway x) :
    Inv g (producerStep s) := by
  have head := inv.head_le
  have room : s.headIndex < s.tailIndex + BLOCK_SIZE := by
    simp only [BLOCK_SIZE]
    omega
  have sound : decide (s.tailIndex < s.headIndex) = false := decide_eq_false (by omega)
  have full : s.tailIndex = BLOCK_SIZE * g.valued := inv.stands_at at_
  have moved : Inv g (s.at (.insert x)) := inv.stood at_ rfl rfl full
  simp only [producerStep, at_]
  rw [if_pos room, inv.sound, sound]
  exact { moved with sound := rfl }

theorem Inv.insert (inv : Inv g s) {x : α} (at_ : s.producer = .insert x) :
    Inv g (producerStep s) := by
  have full : s.tailIndex = BLOCK_SIZE * g.valued := inv.stands_at at_
  have index : Index g s.headers s.entries s.entryCount s.blockIndex g.valued := inv.index_at at_
  have place : s.localBlockIndex.newTail =
      slot s.localBlockIndex.capacity (g.low s.blockIndex) g.valued :=
    BlockIndexHeader.newTail_slot index.tail_cur (index.capacity _ le_rfl)
  simp only [producerStep, at_]
  rw [place]
  split
  · next free =>
    exact inv.stood at_ rfl rfl ⟨full,rfl,index.next_free free⟩
  · next held =>
    rw [not_or] at held
    obtain ⟨even,grown⟩ := index.next_full held.2
    exact inv.stood at_ rfl rfl ⟨full,even,grown⟩

theorem newBlockIndex_headers (doubles : s.nextBlockIndexCapacity = 2 * s.localBlockIndex.capacity) :
    s.newBlockIndex.headers =
      Function.update s.headers (s.blockIndex + 1) (grownHeader s.localBlockIndex s.entryCount) := by
  simp only [State.newBlockIndex, grownHeader, doubles]

theorem Inv.grow (inv : Inv g s) {x : α} (at_ : s.producer = .grow x) :
    Inv (g.grown s.blockIndex s.localBlockIndex.capacity) (producerStep s) := by
  obtain ⟨full,even,grown⟩ := inv.stands_at at_
  have old : Index g s.headers s.entries s.entryCount s.blockIndex g.valued := inv.index_at at_
  have room : 0 < s.localBlockIndex.capacity := old.capacity _ le_rfl
  have headers := newBlockIndex_headers inv.doubles
  have current : s.newBlockIndex.localBlockIndex = grownHeader s.localBlockIndex s.entryCount := by
    unfold State.localBlockIndex
    rw [headers]
    exact Function.update_self ..
  have low : (g.grown s.blockIndex s.localBlockIndex.capacity).low s.newBlockIndex.blockIndex =
      g.valued - s.localBlockIndex.capacity := Function.update_self ..
  have fin : (g.grown s.blockIndex s.localBlockIndex.capacity).fin s.newBlockIndex.blockIndex =
      g.valued := Function.update_self ..
  have index : Index (g.grown s.blockIndex s.localBlockIndex.capacity) s.newBlockIndex.headers
      s.newBlockIndex.entries s.newBlockIndex.entryCount s.newBlockIndex.blockIndex g.valued := by
    rw [headers]
    exact old.grown even grown
  have newest : s.newBlockIndex.headers s.newBlockIndex.blockIndex =
      grownHeader s.localBlockIndex s.entryCount := current
  have place : (grownHeader s.localBlockIndex s.entryCount).newTail =
      slot (2 * s.localBlockIndex.capacity) (g.valued - s.localBlockIndex.capacity) g.valued := by
    have tail := index.tail_cur
    rw [newest, low] at tail
    apply BlockIndexHeader.newTail_slot tail
    simp only [grownHeader]
    omega
  -- behind the tail of the new header there is a new entry
  have free : s.newBlockIndex.entries ((grownHeader s.localBlockIndex s.entryCount).index
      (grownHeader s.localBlockIndex s.entryCount).newTail) = ⟨INVALID_BLOCK_BASE,none⟩ := by
    rcases index.next_entry fin with ⟨_,unused⟩ | ⟨filled,_⟩
    · rw [newest, low] at unused
      rw [place]
      exact unused
    · rw [newest, low] at filled
      simp only [grownHeader, Ghost.grown] at filled
      omega
  have later : Later g (g.grown s.blockIndex s.localBlockIndex.capacity)
      (BlockIndexHeader.capacity ∘ s.headers) (BlockIndexHeader.capacity ∘ s.newBlockIndex.headers)
      s.blockIndex s.newBlockIndex.blockIndex := by
    refine ⟨le_rfl, Nat.le_succ _, ?_, fun _ _ => ⟨rfl,rfl⟩⟩
    intro h known
    have other : h ≠ s.blockIndex + 1 := by omega
    simp [Ghost.grown, headers, Function.update_of_ne other]
  have sound : s.newBlockIndex.broken = false := inv.sound
  simp only [producerStep, at_, current, free, sound]
  exact
    { tickets := inv.tickets
      claims := inv.claims
      index := index
      doubles := by
        show 2 * s.nextBlockIndexCapacity = 2 * s.newBlockIndex.localBlockIndex.capacity
        rw [current, inv.doubles]
        rfl
      own := { inv.own_at at_ with }
      closings := { inv.closings with }
      knows := fun c => (inv.knows c).later later
      stands := by
        refine ⟨full, ?_, ?_⟩
        · show _ = slot s.newBlockIndex.localBlockIndex.capacity _ _
          rw [current, place]
          simp only [State.at]
          rw [low]
          rfl
        · show (s.newBlockIndex.entries (s.newBlockIndex.localBlockIndex.index _)).value = none
          rw [current, free]
      sound := by simp }

theorem Inv.key_written (inv : Inv g s) {x : α} {newTail : Nat}
    (at_ : s.producer = .key x newTail) :
    Inv (g.keyed s.blockIndex (s.localBlockIndex.index newTail)) (producerStep s) := by
  obtain ⟨full,rfl,free⟩ := inv.stands_at at_
  have index : Index g s.headers s.entries s.entryCount s.blockIndex g.valued := inv.index_at at_
  have written : ({ s.entries (s.localBlockIndex.index
      (slot s.localBlockIndex.capacity (g.low s.blockIndex) g.valued)) with
        key := s.tailIndex } : BlockIndexEntry) = ⟨BLOCK_SIZE * g.valued,none⟩ := by
    rw [full, ← free]
  have keyed := index.keyed free
  have later : Later g (g.keyed s.blockIndex (s.localBlockIndex.index
      (slot s.localBlockIndex.capacity (g.low s.blockIndex) g.valued)))
      (BlockIndexHeader.capacity ∘ s.headers) (BlockIndexHeader.capacity ∘ s.headers)
      s.blockIndex s.blockIndex := by
    refine ⟨le_rfl, le_rfl, ?_, ?_⟩
    · intro h _
      refine ⟨rfl, rfl, ?_⟩
      simp only [Ghost.keyed]
      by_cases current : h = s.blockIndex
      · rw [current, Function.update_self]
        exact index.fin_cur.2
      · rw [Function.update_of_ne current]
    · intro b below
      exact ⟨Function.update_of_ne below.ne _ _,rfl⟩
  simp only [producerStep, at_]
  exact
    { inv with
      index := by
        simp only [State.at, State.setKey, written]
        exact keyed
      own := { inv.own_at at_ with }
      closings := { inv.closings with }
      knows := fun c => (inv.knows c).later later
      stands := ⟨full,Function.update_self ..,rfl⟩ }

theorem Inv.tail_written (inv : Inv g s) {tail : Nat} {pc : ProducerPc α}
    (at_ : tail = slotBefore s.localBlockIndex.capacity (g.low s.blockIndex)
      (g.valued + listedAhead pc))
    (order : g.valued + listedAhead pc ≤ g.fin s.blockIndex)
    (owned : ownedAhead pc = ownedAhead s.producer)
    (stands : Stands g s.tailIndex { s.localBlockIndex with tail := tail } (g.low s.blockIndex)
      (g.fin s.blockIndex) s.entries s.blocks pc) : Inv g ((s.setTail tail).at pc) := by
  have current : (s.setTail tail).localBlockIndex = { s.localBlockIndex with tail := tail } :=
    Function.update_self ..
  have capacity : BlockIndexHeader.capacity ∘ (s.setTail tail).headers =
      BlockIndexHeader.capacity ∘ s.headers := by
    simp only [State.setTail, Function.comp_update]
    exact Function.update_eq_self s.blockIndex (BlockIndexHeader.capacity ∘ s.headers)
  exact
    { inv with
      index := inv.index.tail_moved at_ ⟨Nat.le_add_right _ _,order⟩
      doubles := by
        show s.nextBlockIndexCapacity = 2 * (s.setTail tail).localBlockIndex.capacity
        rw [current]
        exact inv.doubles
      own := by
        simp only [State.at, State.setTail]
        rw [owned]
        exact inv.own
      knows := by
        simp only [State.at]
        rw [capacity]
        exact inv.knows
      stands := by
        show Stands g s.tailIndex (s.setTail tail).localBlockIndex (g.low s.blockIndex)
          (g.fin s.blockIndex) s.entries s.blocks pc
        rw [current]
        exact stands }

theorem Inv.list (inv : Inv g s) {x : α} {newTail : Nat} (at_ : s.producer = .list x newTail) :
    Inv g (producerStep s) := by
  obtain ⟨full,ahead,rfl⟩ := inv.stands_at at_
  have low := inv.index.low_le
  have room : 0 < s.localBlockIndex.capacity := inv.index.capacity _ le_rfl
  simp only [producerStep, at_]
  apply inv.tail_written
  · exact (slotBefore_succ low room).symm
  · exact ahead.ge
  · rw [at_]
    rfl
  · refine ⟨full, ahead, ?_⟩
    exact inv.index.lists s.blockIndex le_rfl g.valued low (by omega)

theorem Inv.rewind (inv : Inv g s) {idxEntry : Nat} (at_ : s.producer = .rewind idxEntry) :
    Inv g (producerStep s) := by
  have stands := inv.stands_at at_
  have index : Index g s.headers s.entries s.entryCount s.blockIndex (g.valued + 1) :=
    inv.index_at at_
  have tail : s.localBlockIndex.tail = _ := index.tail_cur
  simp only [producerStep, at_]
  apply inv.tail_written
  · rw [tail]
    exact slotBefore_back index.low_le (index.capacity _ le_rfl)
  · exact index.fin_cur.1
  · rw [at_]
    rfl
  · exact stands

theorem Inv.revoke (inv : Inv g s) {idxEntry : Nat} (at_ : s.producer = .revoke idxEntry) :
    Inv g (producerStep s) := by
  obtain ⟨full,ahead,rfl⟩ := inv.stands_at at_
  have index := inv.index_at at_
  have own := inv.own_at at_
  simp only [producerStep, at_]
  exact
    { inv with
      index := index.revoked ahead
      own := own
      stands := by
        simp only [State.at, Stands, State.setValue, BLOCK_SIZE] at full ⊢
        omega }

theorem Inv.given (inv : Inv g s) {x : α} {idxEntry block : Nat}
    (at_ : s.producer = .requisition x idxEntry) (unused : s.inUse block = false) :
    Inv { g with blockOf := Function.update g.blockOf g.valued block }
      { s.at (.reset x idxEntry block) with inUse := Function.update s.inUse block true } := by
  obtain ⟨full,ahead,rfl⟩ := inv.stands_at at_
  have own : Blocks g s.tailIndex s.tailBlock s.blocks s.inUse s.enqueued s.taken g.valued :=
    inv.own_at at_
  have later : Later g { g with blockOf := Function.update g.blockOf g.valued block }
      (BlockIndexHeader.capacity ∘ s.headers) (BlockIndexHeader.capacity ∘ s.headers)
      s.blockIndex s.blockIndex := by
    refine ⟨le_rfl, le_rfl, fun _ _ => ⟨rfl,rfl,le_rfl⟩, ?_⟩
    intro b below
    exact ⟨rfl,Function.update_of_ne below.ne _ _⟩
  exact
    { inv with
      index := (inv.index_at at_).requisitioned block
      own := own.requisitioned unused
      closings := { inv.closings with }
      knows := fun c => (inv.knows c).later later
      stands := by
        refine ⟨full, ahead, rfl, ?_⟩
        simp only [Function.update_self] }

theorem Inv.give (inv : Inv g s) (block : Nat) : ∃ g', Inv g' (giveStep s block) := by
  unfold giveStep
  split
  · next x idxEntry at_ =>
    split
    · exact ⟨g,inv⟩
    · next unused => exact ⟨_,inv.given at_ (by simpa using unused)⟩
  · exact ⟨g,inv⟩

theorem Inv.reset (inv : Inv g s) {x : α} {idxEntry newBlock : Nat}
    (at_ : s.producer = .reset x idxEntry newBlock) : Inv g (producerStep s) := by
  obtain ⟨full,ahead,rfl,rfl⟩ := inv.stands_at at_
  have apart : ∀ b < g.valued, b ∉ g.cleared → g.blockOf b ≠ g.blockOf g.valued := by
    intro b below kept
    exact (inv.ahead_apart (by rw [at_]; rfl) below kept).symm
  have index := inv.index_at at_
  have own := inv.own_at at_
  simp only [producerStep, at_]
  exact
    { inv with
      index := index
      own := own.elsewhere apart _
      stands := by
        refine ⟨full, ahead, rfl, rfl, ?_⟩
        simp only [State.at, State.setBlock, Function.update_self] }

theorem Inv.stored (inv : Inv g s) {x : α} {idxEntry newBlock : Nat}
    (at_ : s.producer = .value x idxEntry newBlock) :
    Inv { g with valued := g.valued + 1 } (producerStep s) := by
  obtain ⟨full,ahead,rfl,rfl,empty⟩ := inv.stands_at at_
  have index : Index g s.headers s.entries s.entryCount s.blockIndex (g.valued + 1) :=
    inv.index_at at_
  have own : Blocks g s.tailIndex s.tailBlock s.blocks s.inUse s.enqueued s.taken (g.valued + 1) :=
    inv.own_at at_
  have later : Later g { g with valued := g.valued + 1 } (BlockIndexHeader.capacity ∘ s.headers)
      (BlockIndexHeader.capacity ∘ s.headers) s.blockIndex s.blockIndex :=
    ⟨Nat.le_succ _,le_rfl,fun _ _ => ⟨rfl,rfl,le_rfl⟩,fun _ _ => ⟨rfl,rfl⟩⟩
  simp only [producerStep, at_]
  exact
    { inv with
      index := index.stored
      own := own.stored (fun _ member => inv.finished_lt member) full empty
      closings :=
        { inv.closings with
          uncleared := by
            intro c b here
            obtain ⟨below,kept⟩ := inv.closings.uncleared c b here
            exact ⟨below.trans (Nat.lt_succ_self _),kept⟩ }
      knows := fun c => (inv.knows c).later later
      stands := by
        simp only [State.at, Stands, State.setValue, BLOCK_SIZE] at full ⊢
        omega }

theorem Inv.construct (inv : Inv g s) {x : α} (at_ : s.producer = .construct x) :
    Inv g (producerStep s) := by
  have room : s.tailIndex < BLOCK_SIZE * g.valued := inv.stands_at at_
  have finished : ∀ i ∈ g.finished, i < s.tailIndex := fun _ member => inv.finished_lt member
  obtain ⟨_,_,newest⟩ := inv.own.tail_block finished room
  have index := inv.index_at at_
  have own := inv.own_at at_
  simp only [producerStep, at_]
  exact
    { inv with
      index := index
      own := own.construct finished room x
      stands := by
        refine ⟨room, ?_⟩
        simp only [State.at, State.setBlock]
        rw [← newest, Function.update_self]
        exact Block.put_self _ _ _ }

theorem Inv.publish (inv : Inv g s) {x : α} (at_ : s.producer = .publish x) :
    Inv g (producerStep s) := by
  obtain ⟨room,here⟩ := inv.stands_at at_
  obtain ⟨passed,counted,tickets⟩ := inv.tickets
  have span := inv.own.span
  have index := inv.index_at at_
  have own := inv.own_at at_
  simp only [producerStep, at_]
  exact
    { inv with
      tickets := ⟨passed,counted,tickets.supplied⟩
      claims := inv.claims.publish x
      index := index
      own := own.publish room here
      stands := by
        simp only [State.at, Stands]
        omega }

theorem Inv.producer (inv : Inv g s) : ∃ g', Inv g' (producerStep s) := by
  cases at_ : s.producer with
  | idle | requisition x idxEntry =>
    refine ⟨g, ?_⟩
    simp only [producerStep, at_]
    exact inv
  | leeway x => exact ⟨g,inv.leeway at_⟩
  | insert x => exact ⟨g,inv.insert at_⟩
  | grow x => exact ⟨_,inv.grow at_⟩
  | key x newTail => exact ⟨_,inv.key_written at_⟩
  | list x newTail => exact ⟨g,inv.list at_⟩
  | rewind idxEntry => exact ⟨g,inv.rewind at_⟩
  | revoke idxEntry => exact ⟨g,inv.revoke at_⟩
  | reset x idxEntry newBlock => exact ⟨g,inv.reset at_⟩
  | value x idxEntry newBlock => exact ⟨_,inv.stored at_⟩
  | construct x => exact ⟨g,inv.construct at_⟩
  | publish x => exact ⟨g,inv.publish at_⟩

theorem Inv.refuse (inv : Inv g s) : Inv g (refuseStep s) := by
  unfold refuseStep
  split
  · next x at_ =>
    have full := (inv.stands_at at_).1
    apply inv.stood at_ (by rfl) (by rfl)
    simp only [Stands, BLOCK_SIZE] at full ⊢
    omega
  · next x idxEntry at_ =>
    have stands := inv.stands_at at_
    exact inv.stood at_ rfl rfl stands
  · exact inv

/- Other producers write to the blocks that this one does not use. -/
theorem Inv.others (inv : Inv g s) {block : Nat} (unused : s.inUse block = false)
    (content : Block α) : Inv g (s.setBlock block content) := by
  have kept : ∀ b < g.valued + ownedAhead s.producer, b ∉ g.released → g.blockOf b ≠ block :=
    fun b below => inv.own.unused unused below
  exact
    { inv with
      own := by
        apply inv.own.elsewhere
        intro b below uncleared
        apply kept b (below.trans_le inv.own.owned_le)
        exact fun member => uncleared (inv.own.released member)
      stands := by
        apply inv.stands.kept
        · exact fun _ none => none
        · intro ahead
          have fresh : g.valued ∉ g.released := by
            intro member
            exact absurd (inv.own.cleared _ (inv.own.released member)).1 (Nat.lt_irrefl _)
          simp only [State.setBlock]
          rw [Function.update_of_ne (kept _ (by omega) fresh)]
        · intro room
          obtain ⟨below,uncleared,_⟩ :=
            inv.own.tail_block (fun _ member => inv.finished_lt member) room
          simp only [State.setBlock]
          rw [Function.update_of_ne (kept _ (below.trans_le inv.own.owned_le)
            fun member => uncleared (inv.own.released member))] }

theorem inv_fresh (n : Nat) (blocks : Nat → Block α) : Inv {} (fresh n blocks) where
  tickets := ⟨_,_,tickets_fresh n⟩
  claims := claims_fresh n
  index :=
    { capacity := fun _ _ => by simp [fresh, IMPLICIT_INITIAL_INDEX_SIZE]
      low_le := le_rfl
      fin_cur := by simp
      fin_old := fun _ old => absurd old (Nat.not_lt_zero _)
      inj := fun _ _ _ _ same => same
      bound := fun _ inside => inside
      lists := fun _ _ _ _ inside => absurd inside (Nat.not_lt_zero _)
      keys := fun _ _ inside => absurd inside (Nat.not_lt_zero _)
      unused := fun _ _ _ => rfl
      tail_old := fun _ old => absurd old (Nat.not_lt_zero _)
      tail_cur := rfl
      listed := by simp [fresh, listedAhead]
      occupied := fun _ below => absurd below (Nat.not_lt_zero _)
      prepared := fun ahead => by simp at ahead }
  doubles := rfl
  own := blocks_fresh blocks
  closings := closings_fresh n
  knows _ := trivial
  stands := by simp [fresh, Stands, BLOCK_SIZE]
  sound := rfl

theorem inv_next (s : State α n) (a : Act α n) (inv : ∃ g, Inv g s) : ∃ g, Inv g (next s a) := by
  obtain ⟨g,inv⟩ := inv
  cases a with
  | enqueue x => exact ⟨g,inv.enqueue x⟩
  | producer => exact inv.producer
  | give block => exact inv.give block
  | refuse => exact ⟨g,inv.refuse⟩
  | dequeue c =>
    simp only [next]
    split
    · next idle => exact ⟨g,inv.found idle rfl rfl trivial⟩
    · exact ⟨g,inv⟩
  | consumer c => exact inv.consumer c
  | others block content =>
    simp only [next]
    split
    · exact ⟨g,inv⟩
    · next unused => exact ⟨g,inv.others (by simpa using unused) content⟩

end TinyMqConcurrentQueue
