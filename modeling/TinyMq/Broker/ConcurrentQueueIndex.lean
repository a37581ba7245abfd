import Mathlib.Data.Finset.Card
import TinyMq.Lib.CircularBuffers
import TinyMq.Broker.ConcurrentQueue

/-!
The block index of the queue, which one thread writes and all threads read. Blocks are numbered
in the order in which they are put into the index. A block that still has an element to be
taken keeps its entry, in the current header and in every older one.
-/
namespace TinyMqConcurrentQueue
open CircularBuffers

/-- How far the queue is, beyond its own fields: how many blocks have been put into the index,
    the numbers of the blocks that a header lists, the entry and the memory of each block, which
    elements were counted out, and which blocks were taken from the index and given back to the
    pool. -/
structure Ghost where
  valued : Nat := 0
  low : Nat → Nat := fun _ => 0
  fin : Nat → Nat := fun _ => 0
  entryOf : Nat → Nat := id
  blockOf : Nat → Nat := id
  finished : Finset Nat := ∅
  cleared : Finset Nat := ∅
  released : Finset Nat := ∅

/-- `listed` blocks have their place up to the tail of the current header `cur`. -/
structure Index (g : Ghost) (headers : Nat → BlockIndexHeader) (entries : Nat → BlockIndexEntry)
    (entryCount cur listed : Nat) : Prop where
  capacity : ∀ h ≤ cur, 0 < (headers h).capacity
  low_le : g.low cur ≤ g.valued
  fin_cur : g.valued ≤ g.fin cur ∧ g.fin cur ≤ g.valued + 1
  fin_old : ∀ h < cur, g.low h < g.fin h ∧ g.fin h ≤ g.valued
  inj : ∀ p q, p < (headers cur).capacity → q < (headers cur).capacity →
    (headers cur).index p = (headers cur).index q → p = q
  bound : ∀ p < (headers cur).capacity, (headers cur).index p < entryCount
  lists : ∀ h ≤ cur, ∀ b, g.low h ≤ b → b < g.fin h →
    (headers h).index (slot (headers h).capacity (g.low h) b) = g.entryOf b
  keys : ∀ b, g.low cur ≤ b → b < g.fin cur → g.fin cur ≤ b + (headers cur).capacity →
    (entries (g.entryOf b)).key = BLOCK_SIZE * b
  unused : ∀ p < (headers cur).capacity, g.fin cur ≤ g.low cur + p →
    entries ((headers cur).index p) = ⟨INVALID_BLOCK_BASE,none⟩
  tail_old : ∀ h < cur, (headers h).tail = slotBefore (headers h).capacity (g.low h) (g.fin h)
  tail_cur : (headers cur).tail = slotBefore (headers cur).capacity (g.low cur) listed
  listed : g.valued ≤ listed ∧ listed ≤ g.fin cur
  occupied : ∀ b < g.valued, b ∉ g.cleared → g.low cur ≤ b ∧
    g.fin cur ≤ b + (headers cur).capacity ∧ (entries (g.entryOf b)).value = some (g.blockOf b)
  prepared : g.fin cur = g.valued + 1 → (entries (g.entryOf g.valued)).value = none

variable {g : Ghost} {headers : Nat → BlockIndexHeader} {entries : Nat → BlockIndexEntry}
  {entryCount cur listed : Nat}

theorem BlockIndexHeader.newTail_slot {h : BlockIndexHeader} {low b : Nat}
    (at_ : h.tail = slotBefore h.capacity low b) (room : 0 < h.capacity) :
    h.newTail = slot h.capacity low b := by
  unfold newTail
  rw [at_]
  exact slotBefore_next room

theorem Index.apart (index : Index g headers entries entryCount cur listed) {a b : Nat}
    (above : g.low cur ≤ a) (order : a < b) (near : b < a + (headers cur).capacity)
    (inside : b < g.fin cur) : g.entryOf a ≠ g.entryOf b := by
  intro same
  have room := index.capacity cur le_rfl
  rw [← index.lists cur le_rfl a above (by omega),
    ← index.lists cur le_rfl b (by omega) inside] at same
  have slots := index.inj _ _ (slot_lt room) (slot_lt room) same
  have := slot_window above order.le near slots
  omega

theorem Index.occupied_apart (index : Index g headers entries entryCount cur listed) {a b : Nat}
    (first : a < g.valued) (uncleared : a ∉ g.cleared) (second : b < g.valued)
    (kept : b ∉ g.cleared) (other : a ≠ b) : g.entryOf a ≠ g.entryOf b := by
  obtain ⟨aboveA,nearA,_⟩ := index.occupied a first uncleared
  obtain ⟨aboveB,nearB,_⟩ := index.occupied b second kept
  have past := index.fin_cur.1
  rcases Nat.lt_or_ge a b with order | order
  · exact index.apart aboveA order (by omega) (by omega)
  · exact (index.apart aboveB (by omega) (by omega) (by omega)).symm

theorem Index.entry_bound (index : Index g headers entries entryCount cur listed) {b : Nat}
    (above : g.low cur ≤ b) (inside : b < g.fin cur) : g.entryOf b < entryCount := by
  rw [← index.lists cur le_rfl b above inside]
  exact index.bound _ (slot_lt (index.capacity cur le_rfl))

theorem Index.tail_listed (index : Index g headers entries entryCount cur listed) {h b : Nat}
    (known : h ≤ cur) (above : g.low h ≤ b) (inside : b < g.fin h) (valued : b < g.valued) :
    ∃ last, b ≤ last ∧ last < g.fin h ∧
      (headers h).tail = slot (headers h).capacity (g.low h) last := by
  have room := index.capacity h known
  rcases Nat.lt_or_eq_of_le known with old | current
  · have order := index.fin_old h old
    have succ : g.fin h - 1 + 1 = g.fin h := by omega
    refine ⟨g.fin h - 1, by omega, by omega, ?_⟩
    rw [index.tail_old h old, ← succ]
    exact slotBefore_succ (by omega) room
  · subst current
    have order := index.listed
    have succ : listed - 1 + 1 = listed := by omega
    refine ⟨listed - 1, by omega, by omega, ?_⟩
    rw [index.tail_cur, ← succ]
    exact slotBefore_succ (by omega) room

theorem Index.next_entry (index : Index g headers entries entryCount cur listed)
    (free : g.fin cur = g.valued) :
    (g.valued < g.low cur + (headers cur).capacity ∧
      entries ((headers cur).index (slot (headers cur).capacity (g.low cur) g.valued)) =
        ⟨INVALID_BLOCK_BASE,none⟩) ∨
    (g.low cur + (headers cur).capacity ≤ g.valued ∧
      (headers cur).index (slot (headers cur).capacity (g.low cur) g.valued) =
        g.entryOf (g.valued - (headers cur).capacity) ∧
      (entries (g.entryOf (g.valued - (headers cur).capacity))).key =
        BLOCK_SIZE * (g.valued - (headers cur).capacity)) := by
  have low := index.low_le
  have room := index.capacity cur le_rfl
  rcases Nat.lt_or_ge g.valued (g.low cur + (headers cur).capacity) with early | full
  · refine .inl ⟨early, ?_⟩
    rw [slot_early (by omega)]
    exact index.unused _ (by omega) (by omega)
  · have around : g.valued - (headers cur).capacity + (headers cur).capacity = g.valued := by omega
    have oldest := index.lists cur le_rfl (g.valued - (headers cur).capacity) (by omega) (by omega)
    refine .inr ⟨full, ?_, index.keys _ (by omega) (by omega) (by omega)⟩
    rw [← slot_wrap (by omega), around] at oldest
    exact oldest

theorem Index.next_prepared (index : Index g headers entries entryCount cur listed)
    (ahead : g.fin cur = g.valued + 1) :
    (headers cur).index (slot (headers cur).capacity (g.low cur) g.valued) = g.entryOf g.valued ∧
      (entries (g.entryOf g.valued)).value = none :=
  ⟨index.lists cur le_rfl g.valued index.low_le (by omega), index.prepared ahead⟩

theorem Index.next_free (index : Index g headers entries entryCount cur listed)
    (free : (entries ((headers cur).index
        (slot (headers cur).capacity (g.low cur) g.valued))).key = INVALID_BLOCK_BASE ∨
      (entries ((headers cur).index
        (slot (headers cur).capacity (g.low cur) g.valued))).value = none) :
    (entries ((headers cur).index
      (slot (headers cur).capacity (g.low cur) g.valued))).value = none := by
  have bounds := index.fin_cur
  rcases Nat.lt_or_eq_of_le bounds.1 with ahead | even
  · obtain ⟨own,none⟩ := index.next_prepared (by omega)
    rw [own]
    exact none
  · rcases index.next_entry even.symm with ⟨_,unused⟩ | ⟨_,oldest,key⟩
    · rw [unused]
    · rcases free with invalid | none
      · rw [oldest, key] at invalid
        simp only [BLOCK_SIZE, INVALID_BLOCK_BASE] at invalid
        omega
      · exact none

theorem Index.next_full (index : Index g headers entries entryCount cur listed)
    (held : (entries ((headers cur).index
      (slot (headers cur).capacity (g.low cur) g.valued))).value ≠ none) :
    g.fin cur = g.valued ∧ g.low cur + (headers cur).capacity ≤ g.valued := by
  have bounds := index.fin_cur
  rcases Nat.lt_or_eq_of_le bounds.1 with ahead | even
  · obtain ⟨own,none⟩ := index.next_prepared (by omega)
    rw [own] at held
    exact absurd none held
  · rcases index.next_entry even.symm with ⟨_,unused⟩ | ⟨full,_⟩
    · rw [unused] at held
      exact absurd rfl held
    · exact ⟨even.symm,full⟩

theorem Index.next_other (index : Index g headers entries entryCount cur listed) {b : Nat}
    (above : g.low cur ≤ b) (below : b < g.valued) (near : g.valued < b + (headers cur).capacity) :
    g.entryOf b ≠ (headers cur).index (slot (headers cur).capacity (g.low cur) g.valued) := by
  intro same
  have room := index.capacity cur le_rfl
  have bounds := index.fin_cur
  rw [← index.lists cur le_rfl b above (by omega)] at same
  have slots := index.inj _ _ (slot_lt room) (slot_lt room) same
  have := slot_window above below.le near slots
  omega

theorem Index.next_near (index : Index g headers entries entryCount cur listed)
    (free : (entries ((headers cur).index
      (slot (headers cur).capacity (g.low cur) g.valued))).value = none)
    {b : Nat} (below : b < g.valued) (kept : b ∉ g.cleared) :
    g.valued < b + (headers cur).capacity := by
  have bounds := index.fin_cur
  obtain ⟨above,window,value⟩ := index.occupied b below kept
  rcases Nat.lt_or_eq_of_le (bounds.1.trans window) with inside | edge
  · exact inside
  · have wrapped : slot (headers cur).capacity (g.low cur) b =
        slot (headers cur).capacity (g.low cur) g.valued := by
      rw [edge, slot_wrap above]
    rw [← index.lists cur le_rfl b above (by omega), wrapped, free] at value
    cases value

def Ghost.keyed (g : Ghost) (cur entry : Nat) : Ghost :=
  { g with
      fin := Function.update g.fin cur (g.valued + 1)
      entryOf := Function.update g.entryOf g.valued entry }

theorem Index.keyed (index : Index g headers entries entryCount cur g.valued)
    (free : (entries ((headers cur).index
      (slot (headers cur).capacity (g.low cur) g.valued))).value = none) :
    Index (g.keyed cur ((headers cur).index (slot (headers cur).capacity (g.low cur) g.valued)))
      headers
      (Function.update entries
        ((headers cur).index (slot (headers cur).capacity (g.low cur) g.valued))
        ⟨BLOCK_SIZE * g.valued,none⟩)
      entryCount cur g.valued := by
  set place := slot (headers cur).capacity (g.low cur) g.valued
  have room := index.capacity cur le_rfl
  have low := index.low_le
  have bounds := index.fin_cur
  have place_lt : place < (headers cur).capacity := slot_lt room
  have newest : Function.update g.fin cur (g.valued + 1) cur = g.valued + 1 :=
    Function.update_self ..
  have other : ∀ b, g.low cur ≤ b → b < g.valued → g.valued < b + (headers cur).capacity →
      g.entryOf b ≠ (headers cur).index place := fun _ => index.next_other
  have near : ∀ b < g.valued, b ∉ g.cleared → g.valued < b + (headers cur).capacity :=
    fun _ => index.next_near free
  exact
    { capacity := index.capacity
      low_le := low
      fin_cur := by
        simp only [Ghost.keyed, newest]
        omega
      fin_old := by
        intro h old
        simp only [Ghost.keyed, Function.update_of_ne old.ne]
        exact index.fin_old h old
      inj := index.inj
      bound := index.bound
      lists := by
        intro h known b above inside
        simp only [Ghost.keyed] at above inside ⊢
        by_cases latest : b = g.valued
        · have current : h = cur := by
            by_contra older
            rw [Function.update_of_ne older] at inside
            have := index.fin_old h (by omega)
            omega
          rw [latest, Function.update_self, current]
        · rw [Function.update_of_ne latest]
          apply index.lists h known b above
          by_cases current : h = cur
          · rw [current, newest] at inside
            rw [current]
            omega
          · rwa [Function.update_of_ne current] at inside
      keys := by
        intro b above inside window
        simp only [Ghost.keyed, newest] at above inside window ⊢
        by_cases latest : b = g.valued
        · rw [latest, Function.update_self, Function.update_self]
        · have entry := other b above (by omega) (by omega)
          rw [Function.update_of_ne latest, Function.update_of_ne entry]
          exact index.keys b above (by omega) (by omega)
      unused := by
        intro p inside beyond
        simp only [Ghost.keyed, newest] at beyond
        have different : (headers cur).index p ≠ (headers cur).index place := by
          intro same
          have placed := index.inj _ _ inside place_lt same
          have early : slot (headers cur).capacity (g.low cur) g.valued = g.valued - g.low cur :=
            slot_early (by omega)
          omega
        rw [Function.update_of_ne different]
        exact index.unused p inside (by omega)
      tail_old := by
        intro h old
        simp only [Ghost.keyed, Function.update_of_ne old.ne]
        exact index.tail_old h old
      tail_cur := index.tail_cur
      listed := by
        simp only [Ghost.keyed, newest]
        omega
      occupied := by
        intro b below kept
        simp only [Ghost.keyed, newest] at below kept ⊢
        obtain ⟨above,_,value⟩ := index.occupied b below kept
        have window := near b below kept
        refine ⟨above, by omega, ?_⟩
        rw [Function.update_of_ne below.ne, Function.update_of_ne (other b above below window)]
        exact value
      prepared := by
        intro _
        simp only [Ghost.keyed]
        rw [Function.update_self, Function.update_self] }

def Ghost.grown (g : Ghost) (cur capacity : Nat) : Ghost :=
  { g with
      low := Function.update g.low (cur + 1) (g.valued - capacity)
      fin := Function.update g.fin (cur + 1) g.valued }

def grownHeader (prev : BlockIndexHeader) (entryCount : Nat) : BlockIndexHeader where
  capacity := 2 * prev.capacity
  tail := (prev.capacity - 1) % (2 * prev.capacity)
  index i :=
    if i < prev.capacity then prev.index ((prev.tail + 1 + i) % prev.capacity)
    else entryCount + (i - prev.capacity)

def grownEntries (entries : Nat → BlockIndexEntry) (entryCount capacity e : Nat) : BlockIndexEntry :=
  if entryCount ≤ e ∧ e < entryCount + capacity then ⟨INVALID_BLOCK_BASE,none⟩ else entries e

theorem grownEntries_old {entries : Nat → BlockIndexEntry} {entryCount capacity e : Nat}
    (old : e < entryCount) : grownEntries entries entryCount capacity e = entries e := by
  unfold grownEntries
  rw [if_neg (by omega)]

theorem grownHeader_added {prev : BlockIndexHeader} {p : Nat} (beyond : prev.capacity ≤ p) :
    (grownHeader prev entryCount).index p = entryCount + (p - prev.capacity) := by
  simp only [grownHeader]
  rw [if_neg (by omega)]

theorem Index.grown_kept (index : Index g headers entries entryCount cur g.valued)
    (full : g.low cur + (headers cur).capacity ≤ g.valued) {p : Nat}
    (inside : p < (headers cur).capacity) :
    (grownHeader (headers cur) entryCount).index p =
      (headers cur).index (slot (headers cur).capacity (g.low cur)
        (g.valued - (headers cur).capacity + p)) := by
  simp only [grownHeader, if_pos inside]
  rw [index.tail_cur, slot_rotate full (index.capacity cur le_rfl)]

theorem Index.grown_bound (index : Index g headers entries entryCount cur g.valued)
    (full : g.low cur + (headers cur).capacity ≤ g.valued) {p : Nat}
    (inside : p < (headers cur).capacity) :
    (grownHeader (headers cur) entryCount).index p < entryCount := by
  rw [index.grown_kept full inside]
  exact index.bound _ (slot_lt (index.capacity cur le_rfl))

theorem Index.grown_inj (index : Index g headers entries entryCount cur g.valued)
    (full : g.low cur + (headers cur).capacity ≤ g.valued) {p q : Nat}
    (same : (grownHeader (headers cur) entryCount).index p =
      (grownHeader (headers cur) entryCount).index q) : p = q := by
  have room := index.capacity cur le_rfl
  rcases Nat.lt_or_ge p (headers cur).capacity with early | late
  · rcases Nat.lt_or_ge q (headers cur).capacity with soon | after
    · rw [index.grown_kept full early, index.grown_kept full soon] at same
      have slots := index.inj _ _ (slot_lt room) (slot_lt room) same
      rw [← slot_rotate full room, ← slot_rotate full room] at slots
      exact rotate_inj early soon slots
    · have below := index.grown_bound full early
      rw [same, grownHeader_added after] at below
      omega
  · rcases Nat.lt_or_ge q (headers cur).capacity with soon | after
    · have below := index.grown_bound full soon
      rw [← same, grownHeader_added late] at below
      omega
    · rw [grownHeader_added late, grownHeader_added after] at same
      omega

theorem Index.grown (index : Index g headers entries entryCount cur g.valued)
    (even : g.fin cur = g.valued) (full : g.low cur + (headers cur).capacity ≤ g.valued) :
    Index (g.grown cur (headers cur).capacity)
      (Function.update headers (cur + 1) (grownHeader (headers cur) entryCount))
      (grownEntries entries entryCount (headers cur).capacity)
      (entryCount + (headers cur).capacity) (cur + 1) g.valued := by
  have room := index.capacity cur le_rfl
  have old : ∀ h ≤ cur, h ≠ cur + 1 := by
    intro h known
    omega
  have kept : ∀ p < (headers cur).capacity, (grownHeader (headers cur) entryCount).index p =
      (headers cur).index (slot (headers cur).capacity (g.low cur)
        (g.valued - (headers cur).capacity + p)) := fun _ => index.grown_kept full
  have place : ∀ b, g.valued - (headers cur).capacity ≤ b → b < g.valued →
      slot (2 * (headers cur).capacity) (g.valued - (headers cur).capacity) b =
        b - (g.valued - (headers cur).capacity) := by
    intro b above below
    exact slot_early (by omega)
  exact
    { capacity := by
        intro h known
        by_cases new : h = cur + 1
        · rw [new, Function.update_self]
          simp only [grownHeader]
          omega
        · rw [Function.update_of_ne new]
          exact index.capacity h (by omega)
      low_le := by
        simp only [Ghost.grown, Function.update_self]
        omega
      fin_cur := by
        simp only [Ghost.grown, Function.update_self]
        omega
      fin_old := by
        intro h known
        simp only [Ghost.grown, Function.update_of_ne (old h (by omega))]
        by_cases last : h = cur
        · rw [last]
          omega
        · exact index.fin_old h (by omega)
      inj := by
        intro p q _ _ same
        rw [Function.update_self] at same
        exact index.grown_inj full same
      bound := by
        intro p inside
        rw [Function.update_self] at inside ⊢
        simp only [grownHeader] at inside
        rcases Nat.lt_or_ge p (headers cur).capacity with early | late
        · exact (index.grown_bound full early).trans_le (Nat.le_add_right _ _)
        · rw [grownHeader_added late]
          omega
      lists := by
        intro h known b above inside
        by_cases new : h = cur + 1
        · simp only [new, Ghost.grown, Function.update_self] at above inside ⊢
          have around : g.valued - (headers cur).capacity +
              (b - (g.valued - (headers cur).capacity)) = b := by omega
          show (grownHeader (headers cur) entryCount).index
            (slot (2 * (headers cur).capacity) (g.valued - (headers cur).capacity) b) = g.entryOf b
          rw [place b above inside, kept _ (by omega), around]
          exact index.lists cur le_rfl b (by omega) (by omega)
        · simp only [Ghost.grown, Function.update_of_ne new] at above inside ⊢
          exact index.lists h (by omega) b above inside
      keys := by
        intro b above inside _
        simp only [Ghost.grown, Function.update_self] at above inside ⊢
        rw [grownEntries_old (index.entry_bound (by omega) (by omega))]
        exact index.keys b (by omega) (by omega) (by omega)
      unused := by
        intro p inside beyond
        rw [Function.update_self] at inside ⊢
        simp only [Ghost.grown, Function.update_self, grownHeader] at inside beyond
        rw [grownHeader_added (by omega)]
        unfold grownEntries
        rw [if_pos (by omega)]
      tail_old := by
        intro h known
        simp only [Ghost.grown, Function.update_of_ne (old h (by omega))]
        by_cases last : h = cur
        · rw [last, even]
          exact index.tail_cur
        · exact index.tail_old h (by omega)
      tail_cur := by
        simp only [Ghost.grown, Function.update_self, grownHeader, slotBefore]
        have sum : g.valued - (g.valued - (headers cur).capacity) + (2 * (headers cur).capacity - 1) =
            (headers cur).capacity - 1 + 2 * (headers cur).capacity := by omega
        rw [sum, Nat.add_mod_right]
      listed := by
        simp only [Ghost.grown, Function.update_self]
        omega
      occupied := by
        intro b below uncleared
        simp only [Ghost.grown, Function.update_self, grownHeader] at below uncleared ⊢
        obtain ⟨above,window,value⟩ := index.occupied b below uncleared
        refine ⟨by omega, by omega, ?_⟩
        rw [grownEntries_old (index.entry_bound above (by omega))]
        exact value
      prepared := by
        intro ahead
        simp only [Ghost.grown, Function.update_self] at ahead
        omega }

theorem Index.tail_moved (index : Index g headers entries entryCount cur listed) {tail other : Nat}
    (at_ : tail = slotBefore (headers cur).capacity (g.low cur) other)
    (order : g.valued ≤ other ∧ other ≤ g.fin cur) :
    Index g (Function.update headers cur { headers cur with tail := tail }) entries entryCount cur
      other := by
  have capacity : ∀ h, (Function.update headers cur { headers cur with tail := tail } h).capacity =
      (headers h).capacity := by
    intro h
    by_cases current : h = cur
    · rw [current, Function.update_self]
    · rw [Function.update_of_ne current]
  have places : ∀ h, (Function.update headers cur { headers cur with tail := tail } h).index =
      (headers h).index := by
    intro h
    by_cases current : h = cur
    · rw [current, Function.update_self]
    · rw [Function.update_of_ne current]
  exact
    { index with
      capacity := by
        intro h known
        rw [capacity]
        exact index.capacity h known
      inj := by
        rw [capacity, places]
        exact index.inj
      bound := by
        rw [capacity, places]
        exact index.bound
      lists := by
        intro h known b above inside
        rw [capacity, places]
        exact index.lists h known b above inside
      keys := by
        rw [capacity]
        exact index.keys
      unused := by
        rw [capacity, places]
        exact index.unused
      tail_old := by
        intro h old
        rw [Function.update_of_ne old.ne]
        exact index.tail_old h old
      tail_cur := by
        rw [capacity, Function.update_self]
        exact at_
      listed := order
      occupied := by
        rw [capacity]
        exact index.occupied }

theorem Index.requisitioned (index : Index g headers entries entryCount cur listed) (block : Nat) :
    Index { g with blockOf := Function.update g.blockOf g.valued block } headers entries entryCount
      cur listed :=
  { index with
    occupied := by
      intro b below kept
      simp only [Function.update_of_ne (Nat.ne_of_lt below)]
      exact index.occupied b below kept }

theorem Index.stored (index : Index g headers entries entryCount cur (g.valued + 1)) :
    Index { g with valued := g.valued + 1 } headers
      (Function.update entries (g.entryOf g.valued)
        { entries (g.entryOf g.valued) with value := some (g.blockOf g.valued) })
      entryCount cur (g.valued + 1) := by
  have low := index.low_le
  have bounds := index.fin_cur
  have listed := index.listed
  have room := index.capacity cur le_rfl
  have keys : ∀ e, (Function.update entries (g.entryOf g.valued)
      { entries (g.entryOf g.valued) with value := some (g.blockOf g.valued) } e).key =
        (entries e).key := by
    intro e
    by_cases same : e = g.entryOf g.valued
    · rw [same, Function.update_self]
    · rw [Function.update_of_ne same]
  exact
    { index with
      low_le := by
        simp only
        omega
      fin_cur := by
        simp only
        omega
      fin_old := by
        intro h old
        obtain ⟨first,last⟩ := index.fin_old h old
        exact ⟨first,last.trans (Nat.le_succ _)⟩
      keys := by
        intro b above inside window
        rw [keys]
        exact index.keys b above inside window
      unused := by
        intro p inside beyond
        simp only at beyond
        have different : (headers cur).index p ≠ g.entryOf g.valued := by
          intro same
          rw [← index.lists cur le_rfl g.valued low (by omega)] at same
          have placed := index.inj _ _ inside (slot_lt room) same
          have early : slot (headers cur).capacity (g.low cur) g.valued = g.valued - g.low cur :=
            slot_early (by omega)
          omega
        rw [Function.update_of_ne different]
        exact index.unused p inside beyond
      listed := by
        simp only
        omega
      occupied := by
        intro b below kept
        simp only at below kept ⊢
        by_cases latest : b = g.valued
        · rw [latest, Function.update_self]
          exact ⟨low,by omega,rfl⟩
        · obtain ⟨above,window,value⟩ := index.occupied b (by omega) kept
          refine ⟨above, window, ?_⟩
          rw [Function.update_of_ne (index.apart above (by omega) (by omega) (by omega))]
          exact value
      prepared := by
        intro ahead
        simp only at ahead
        omega }

theorem Index.clear (index : Index g headers entries entryCount cur listed) {b : Nat}
    (below : b < g.valued) (kept : b ∉ g.cleared) :
    Index { g with cleared := insert b g.cleared } headers
      (Function.update entries (g.entryOf b) { entries (g.entryOf b) with value := none })
      entryCount cur listed := by
  have keys : ∀ e, (Function.update entries (g.entryOf b)
      { entries (g.entryOf b) with value := none } e).key = (entries e).key := by
    intro e
    by_cases same : e = g.entryOf b
    · rw [same, Function.update_self]
    · rw [Function.update_of_ne same]
  exact
    { index with
      keys := by
        intro a above inside window
        rw [keys]
        exact index.keys a above inside window
      unused := by
        intro p inside beyond
        have plain := index.unused p inside beyond
        by_cases same : (headers cur).index p = g.entryOf b
        · rw [same] at plain ⊢
          rw [Function.update_self, plain]
        · rw [Function.update_of_ne same]
          exact plain
      occupied := by
        intro a first uncleared
        simp only [Finset.mem_insert, not_or] at first uncleared ⊢
        have apart := index.occupied_apart first uncleared.2 below kept uncleared.1
        rw [Function.update_of_ne apart]
        exact index.occupied a first uncleared.2
      prepared := by
        intro ahead
        simp only
        by_cases same : g.entryOf g.valued = g.entryOf b
        · rw [same, Function.update_self]
        · rw [Function.update_of_ne same]
          exact index.prepared ahead }

theorem Index.revoked (index : Index g headers entries entryCount cur listed)
    (ahead : g.fin cur = g.valued + 1) :
    Index g headers
      (Function.update entries (g.entryOf g.valued)
        { entries (g.entryOf g.valued) with value := none }) entryCount cur listed := by
  have plain : Function.update entries (g.entryOf g.valued)
      { entries (g.entryOf g.valued) with value := none } = entries := by
    rw [← index.prepared ahead]
    exact Function.update_eq_self _ _
  rw [plain]
  exact index

end TinyMqConcurrentQueue
