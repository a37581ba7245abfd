import Mathlib.Algebra.Order.BigOperators.Group.Finset
import Mathlib.Order.Interval.Finset.Nat
import TinyMq.Lib.OptimisticTickets
import TinyMq.Broker.ConcurrentQueueIndex

/-!
What the threads that dequeue have to do with the elements and with the memory of the blocks.
Every index up to the head belongs to one thread, and the memory of a block is not given back
before its last element was counted out.
-/
namespace TinyMqConcurrentQueue
open OptimisticTickets

def done (finished : Finset Nat) (b : Nat) : Nat := (finished.filter (· / BLOCK_SIZE = b)).card

theorem done_subset (finished : Finset Nat) (b : Nat) :
    finished.filter (· / BLOCK_SIZE = b) ⊆ Finset.Ico (BLOCK_SIZE * b) (BLOCK_SIZE * b + BLOCK_SIZE) := by
  intro i member
  have inside := (Finset.mem_filter.mp member).2
  rw [Finset.mem_Ico]
  simp only [BLOCK_SIZE] at inside ⊢
  omega

theorem done_lt {finished : Finset Nat} {i : Nat} (left : i ∉ finished) :
    done finished (i / BLOCK_SIZE) < BLOCK_SIZE := by
  have proper : finished.filter (· / BLOCK_SIZE = i / BLOCK_SIZE) ⊂
      Finset.Ico (BLOCK_SIZE * (i / BLOCK_SIZE)) (BLOCK_SIZE * (i / BLOCK_SIZE) + BLOCK_SIZE) := by
    refine Finset.ssubset_iff_subset_ne.mpr ⟨done_subset finished _, ?_⟩
    intro same
    have member : i ∈ Finset.Ico (BLOCK_SIZE * (i / BLOCK_SIZE))
        (BLOCK_SIZE * (i / BLOCK_SIZE) + BLOCK_SIZE) := by
      rw [Finset.mem_Ico]
      simp only [BLOCK_SIZE]
      omega
    rw [← same] at member
    exact left (Finset.mem_filter.mp member).1
  have less := Finset.card_lt_card proper
  rw [Nat.card_Ico, Nat.add_sub_cancel_left] at less
  exact less

theorem done_insert {finished : Finset Nat} {i : Nat} (new : i ∉ finished) (b : Nat) :
    done (insert i finished) b = done finished b + if i / BLOCK_SIZE = b then 1 else 0 := by
  unfold done
  rw [Finset.filter_insert]
  split
  · rw [Finset.card_insert_of_notMem]
    exact fun member => new (Finset.mem_filter.mp member).1
  · rfl

/-- Every index up to the head was taken, or one thread looks for its element. -/
structure Claims {α : Type} {n : Nat} (finished : Finset Nat) (head : Nat) (enqueued : List α)
    (taken : List (Taken α n)) (seeking emptying : Fin n → Option Nat) : Prop where
  once : (taken.map (·.index)).Nodup
  ordered : taken.Pairwise fun r r' => r.thread = r'.thread → r.index < r'.index
  taken_lt : ∀ r ∈ taken, r.index < head
  elements : ∀ r ∈ taken, enqueued[r.index]? = some r.element
  placed : ∀ i < head, (∃ r ∈ taken, r.index = i) ∨ ∃ c, seeking c = some i
  sought : ∀ c i, seeking c = some i → i < head ∧ ∀ r ∈ taken, r.index ≠ i
  behind : ∀ r ∈ taken, ∀ i, seeking r.thread = some i → r.index < i
  emptied : ∀ c i, emptying c = some i → i ∉ finished ∧ ∃ r ∈ taken, r.index = i
  finished : ∀ i ∈ finished, ∃ r ∈ taken, r.index = i
  seekers : Sole seeking
  emptiers : Sole emptying

section
variable {α : Type} {n : Nat} {finished : Finset Nat} {head : Nat} {enqueued : List α}
  {taken : List (Taken α n)} {seeking emptying : Fin n → Option Nat} {c : Fin n} {i : Nat}

theorem claims_fresh (n : Nat) :
    Claims ∅ 0 ([] : List α) [] (fun _ : Fin n => none) (fun _ => none) where
  once := List.nodup_nil
  ordered := List.Pairwise.nil
  taken_lt _ member := by cases member
  elements _ member := by cases member
  placed _ below := absurd below (Nat.not_lt_zero _)
  sought _ _ here := by cases here
  behind _ member := by cases member
  emptied _ _ here := by cases here
  finished _ member := by simp at member
  seekers _ _ _ here := by cases here
  emptiers _ _ _ here := by cases here

theorem Claims.finished_lt (claims : Claims finished head enqueued taken seeking emptying)
    (member : i ∈ finished) : i < head := by
  obtain ⟨r,inside,same⟩ := claims.finished i member
  rw [← same]
  exact claims.taken_lt r inside

theorem Claims.unfinished (claims : Claims finished head enqueued taken seeking emptying)
    (here : seeking c = some i) : i ∉ finished := by
  intro member
  obtain ⟨r,inside,same⟩ := claims.finished i member
  exact (claims.sought c i here).2 r inside same

theorem Claims.claim (claims : Claims finished head enqueued taken seeking emptying)
    (free : seeking c = none) :
    Claims finished (head + 1) enqueued taken (Function.update seeking c (some head)) emptying :=
  { claims with
    taken_lt := by
      intro r member
      exact (claims.taken_lt r member).trans (Nat.lt_succ_self _)
    placed := by
      intro i below
      by_cases latest : i = head
      · refine .inr ⟨c, ?_⟩
        rw [Function.update_self, latest]
      · rcases claims.placed i (by omega) with got | ⟨d,here⟩
        · exact .inl got
        · refine .inr ⟨d, ?_⟩
          have other : d ≠ c := by
            intro same
            rw [same, free] at here
            cases here
          rw [Function.update_of_ne other]
          exact here
    sought := by
      intro d i here
      rcases held_update here with ⟨_,own⟩ | ⟨_,here⟩
      · cases own
        refine ⟨Nat.lt_succ_self _, ?_⟩
        intro r member same
        have := claims.taken_lt r member
        omega
      · obtain ⟨below,others⟩ := claims.sought d i here
        exact ⟨below.trans (Nat.lt_succ_self _),others⟩
    behind := by
      intro r member i here
      rcases held_update here with ⟨_,own⟩ | ⟨_,here⟩
      · cases own
        exact claims.taken_lt r member
      · exact claims.behind r member i here
    seekers := by
      apply claims.seekers.take c
      intro d _ here
      exact absurd (claims.sought d head here).1 (Nat.lt_irrefl _) }

theorem Claims.take (claims : Claims finished head enqueued taken seeking emptying)
    (here : seeking c = some i) {x : α} (element : enqueued[i]? = some x) :
    Claims finished head enqueued (taken ++ [⟨c,i,x⟩]) (Function.update seeking c none)
      (Function.update emptying c (some i)) := by
  obtain ⟨below,untaken⟩ := claims.sought c i here
  have unfinished := claims.unfinished here
  exact
    { once := by
        rw [List.map_append, List.nodup_append]
        refine ⟨claims.once, by simp, ?_⟩
        intro j before k last
        obtain ⟨r,member,rfl⟩ := List.mem_map.mp before
        rw [List.mem_singleton.mp last]
        exact untaken r member
      ordered := by
        rw [List.pairwise_append]
        refine ⟨claims.ordered, List.pairwise_singleton _ _, ?_⟩
        intro r member r' last thread
        rw [List.mem_singleton.mp last] at thread ⊢
        apply claims.behind r member i
        rw [thread]
        exact here
      taken_lt := by
        intro r member
        rcases List.mem_append.mp member with old | new
        · exact claims.taken_lt r old
        · rw [List.mem_singleton.mp new]
          exact below
      elements := by
        intro r member
        rcases List.mem_append.mp member with old | new
        · exact claims.elements r old
        · rw [List.mem_singleton.mp new]
          exact element
      placed := by
        intro j inside
        rcases claims.placed j inside with ⟨r,member,same⟩ | ⟨d,seeks⟩
        · exact .inl ⟨r,List.mem_append_left _ member,same⟩
        · by_cases own : d = c
          · rw [own, here] at seeks
            cases seeks
            exact .inl ⟨_,List.mem_append_right _ (List.mem_singleton_self _),rfl⟩
          · refine .inr ⟨d, ?_⟩
            rw [Function.update_of_ne own]
            exact seeks
      sought := by
        intro d j seeks
        rcases held_update seeks with ⟨_,none⟩ | ⟨other,seeks⟩
        · cases none
        · obtain ⟨inside,others⟩ := claims.sought d j seeks
          refine ⟨inside, ?_⟩
          intro r member same
          rcases List.mem_append.mp member with old | new
          · exact others r old same
          · rw [List.mem_singleton.mp new] at same
            rw [← same] at seeks
            exact other (claims.seekers d c i seeks here)
      behind := by
        intro r member j seeks
        rcases held_update seeks with ⟨_,none⟩ | ⟨other,seeks⟩
        · cases none
        · rcases List.mem_append.mp member with old | new
          · exact claims.behind r old j seeks
          · rw [List.mem_singleton.mp new] at other
            exact absurd rfl other
      emptied := by
        intro d j empties
        rcases held_update empties with ⟨_,own⟩ | ⟨_,empties⟩
        · cases own
          exact ⟨unfinished,_,List.mem_append_right _ (List.mem_singleton_self _),rfl⟩
        · obtain ⟨outside,r,member,same⟩ := claims.emptied d j empties
          exact ⟨outside,r,List.mem_append_left _ member,same⟩
      finished := by
        intro j member
        obtain ⟨r,inside,same⟩ := claims.finished j member
        exact ⟨r,List.mem_append_left _ inside,same⟩
      seekers := claims.seekers.drop c
      emptiers := by
        apply claims.emptiers.take c
        intro d _ empties
        obtain ⟨_,r,member,same⟩ := claims.emptied d i empties
        exact untaken r member same }

theorem Claims.count (claims : Claims finished head enqueued taken seeking emptying)
    (here : emptying c = some i) :
    Claims (insert i finished) head enqueued taken seeking (Function.update emptying c none) :=
  { claims with
    emptied := by
      intro d j empties
      rcases held_update empties with ⟨_,none⟩ | ⟨other,empties⟩
      · cases none
      · obtain ⟨outside,got⟩ := claims.emptied d j empties
        refine ⟨?_, got⟩
        rw [Finset.mem_insert, not_or]
        refine ⟨?_, outside⟩
        intro same
        rw [same] at empties
        exact other (claims.emptiers d c i empties here)
    finished := by
      intro j member
      rcases Finset.mem_insert.mp member with new | old
      · rw [new]
        exact (claims.emptied c i here).2
      · exact claims.finished j old
    emptiers := claims.emptiers.drop c }

theorem Claims.publish (claims : Claims finished head enqueued taken seeking emptying) (x : α) :
    Claims finished head (enqueued ++ [x]) taken seeking emptying :=
  { claims with
    elements := by
      intro r member
      have element := claims.elements r member
      obtain ⟨inside,_⟩ := List.getElem?_eq_some_iff.mp element
      rw [List.getElem?_append_left inside]
      exact element }

end

/-- The memory of the blocks: `owned` of them are or were this queue's. -/
structure Blocks {α : Type} {n : Nat} (g : Ghost) (tail tailBlock : Nat) (blocks : Nat → Block α)
    (inUse : Nat → Bool) (enqueued : List α) (taken : List (Taken α n)) (owned : Nat) : Prop where
  length : enqueued.length = tail
  span : tail ≤ BLOCK_SIZE * g.valued ∧ BLOCK_SIZE * g.valued ≤ tail + BLOCK_SIZE
  owned_le : g.valued ≤ owned
  held : ∀ b < owned, b ∉ g.released → inUse (g.blockOf b) = true
  distinct : ∀ a b, a < owned → b < owned → a ∉ g.released → b ∉ g.released →
    g.blockOf a = g.blockOf b → a = b
  counts : ∀ b < g.valued, b ∉ g.cleared →
    (blocks (g.blockOf b)).elementsCompletelyDequeued = done g.finished b
  contents : ∀ i x, enqueued[i]? = some x → i / BLOCK_SIZE ∉ g.cleared →
    (∀ r ∈ taken, r.index ≠ i) →
    (blocks (g.blockOf (i / BLOCK_SIZE))).elements (i % BLOCK_SIZE) = some x
  cleared : ∀ b ∈ g.cleared, b < g.valued ∧ done g.finished b = BLOCK_SIZE
  released : g.released ⊆ g.cleared
  newest : 0 < g.valued → tailBlock = g.blockOf (g.valued - 1)

/-- A block is closed by the thread that counted its last element out: it takes the block from
    the index and gives its memory back. -/
structure Closings {n : Nat} (g : Ghost) (clearing releasing : Fin n → Option Nat) : Prop where
  uncleared : ∀ c b, clearing c = some b → b < g.valued ∧ b ∉ g.cleared ∧
    done g.finished b = BLOCK_SIZE
  unreleased : ∀ c b, releasing c = some b → b ∈ g.cleared ∧ b ∉ g.released
  clearers : Sole clearing
  releasers : Sole releasing

section
variable {α : Type} {n : Nat} {g : Ghost} {tail tailBlock owned : Nat} {blocks : Nat → Block α}
  {inUse : Nat → Bool} {enqueued : List α} {taken : List (Taken α n)} {i b : Nat}

theorem blocks_fresh (blocks : Nat → Block α) :
    Blocks {} 0 0 blocks (fun _ => false) [] ([] : List (Taken α n)) 0 where
  length := rfl
  span := by simp
  owned_le := le_rfl
  held _ below := absurd below (Nat.not_lt_zero _)
  distinct _ _ below := absurd below (Nat.not_lt_zero _)
  counts _ below := absurd below (Nat.not_lt_zero _)
  contents _ _ element := by simp at element
  cleared _ member := by simp at member
  released := Finset.Subset.refl _
  newest some := absurd some (Nat.lt_irrefl _)

theorem Blocks.kept (own : Blocks g tail tailBlock blocks inUse enqueued taken owned)
    (left : i ∉ g.finished) : i / BLOCK_SIZE ∉ g.cleared := by
  intro member
  have full := (own.cleared _ member).2
  have := done_lt left
  omega

theorem Blocks.valued (own : Blocks g tail tailBlock blocks inUse enqueued taken owned)
    (below : i < tail) : i / BLOCK_SIZE < g.valued := by
  have span := own.span
  simp only [BLOCK_SIZE] at span ⊢
  omega

theorem Blocks.tail_block (own : Blocks g tail tailBlock blocks inUse enqueued taken owned)
    (finished : ∀ i ∈ g.finished, i < tail) (room : tail < BLOCK_SIZE * g.valued) :
    tail / BLOCK_SIZE < g.valued ∧ tail / BLOCK_SIZE ∉ g.cleared ∧
      tailBlock = g.blockOf (tail / BLOCK_SIZE) := by
  have span := own.span
  have last : tail / BLOCK_SIZE = g.valued - 1 ∧ 0 < g.valued := by
    simp only [BLOCK_SIZE] at span room ⊢
    omega
  refine ⟨by omega, ?_, ?_⟩
  · apply own.kept
    intro member
    exact absurd (finished tail member) (Nat.lt_irrefl _)
  · rw [last.1]
    exact own.newest last.2

theorem Blocks.apart (own : Blocks g tail tailBlock blocks inUse enqueued taken owned) {a : Nat}
    (first : a < owned) (second : b < owned) (unreleased : a ∉ g.cleared) (kept : b ∉ g.cleared)
    (other : a ≠ b) : g.blockOf a ≠ g.blockOf b := by
  intro same
  exact other (own.distinct a b first second (fun member => unreleased (own.released member))
    (fun member => kept (own.released member)) same)

theorem Blocks.elsewhere (own : Blocks g tail tailBlock blocks inUse enqueued taken owned)
    {block : Nat} (other : ∀ b < g.valued, b ∉ g.cleared → g.blockOf b ≠ block)
    (content : Block α) :
    Blocks g tail tailBlock (Function.update blocks block content) inUse enqueued taken owned :=
  { own with
    counts := by
      intro b below kept
      rw [Function.update_of_ne (other b below kept)]
      exact own.counts b below kept
    contents := by
      intro i x element kept untaken
      have inside : i < tail := by
        rw [← own.length]
        exact (List.getElem?_eq_some_iff.mp element).1
      rw [Function.update_of_ne (other _ (own.valued inside) kept)]
      exact own.contents i x element kept untaken }

theorem Blocks.unused (own : Blocks g tail tailBlock blocks inUse enqueued taken owned)
    {block : Nat} (unused : inUse block = false) (below : b < owned) (kept : b ∉ g.released) :
    g.blockOf b ≠ block := by
  intro same
  have := own.held b below kept
  rw [same, unused] at this
  cases this

theorem Blocks.requisitioned
    (own : Blocks g tail tailBlock blocks inUse enqueued taken g.valued) {block : Nat}
    (unused : inUse block = false) :
    Blocks { g with blockOf := Function.update g.blockOf g.valued block } tail tailBlock blocks
      (Function.update inUse block true) enqueued taken (g.valued + 1) := by
  have other : ∀ b < g.valued, b ∉ g.released → g.blockOf b ≠ block := by
    intro b below kept
    exact own.unused unused below kept
  have old : ∀ b < g.valued, Function.update g.blockOf g.valued block b = g.blockOf b := by
    intro b below
    exact Function.update_of_ne below.ne _ _
  exact
    { own with
      owned_le := Nat.le_succ _
      held := by
        intro b below kept
        simp only
        by_cases latest : b = g.valued
        · rw [latest, Function.update_self, Function.update_self]
        · have inside : b < g.valued := by omega
          rw [old b inside, Function.update_of_ne (other b inside kept)]
          exact own.held b inside kept
      distinct := by
        intro a b first second unreleased kept same
        simp only at same
        by_cases newA : a = g.valued
        · by_cases newB : b = g.valued
          · rw [newA, newB]
          · rw [newA, Function.update_self, old b (by omega)] at same
            exact absurd same.symm (other b (by omega) kept)
        · by_cases newB : b = g.valued
          · rw [newB, Function.update_self, old a (by omega)] at same
            exact absurd same (other a (by omega) unreleased)
          · rw [old a (by omega), old b (by omega)] at same
            exact own.distinct a b (by omega) (by omega) unreleased kept same
      counts := by
        intro b below kept
        simp only at below ⊢
        rw [old b below]
        exact own.counts b below kept
      contents := by
        intro i x element kept untaken
        have inside : i < tail := by
          rw [← own.length]
          exact (List.getElem?_eq_some_iff.mp element).1
        simp only
        rw [old _ (own.valued inside)]
        exact own.contents i x element kept untaken
      newest := by
        intro some
        simp only at some ⊢
        rw [old _ (by omega)]
        exact own.newest some }

theorem Blocks.stored (own : Blocks g tail tailBlock blocks inUse enqueued taken (g.valued + 1))
    (finished : ∀ i ∈ g.finished, i < tail) (full : tail = BLOCK_SIZE * g.valued)
    (empty : (blocks (g.blockOf g.valued)).elementsCompletelyDequeued = 0) :
    Blocks { g with valued := g.valued + 1 } tail (g.blockOf g.valued) blocks inUse enqueued taken
      (g.valued + 1) := by
  have none : done g.finished g.valued = 0 := by
    unfold done
    rw [Finset.card_eq_zero, Finset.filter_eq_empty_iff]
    intro i member inside
    have := finished i member
    simp only [BLOCK_SIZE] at full inside
    omega
  exact
    { own with
      span := by
        simp only [BLOCK_SIZE] at full ⊢
        omega
      owned_le := le_rfl
      counts := by
        intro b below kept
        by_cases latest : b = g.valued
        · rw [latest, none]
          exact empty
        · simp only at below
          exact own.counts b (by omega) kept
      cleared := by
        intro b member
        obtain ⟨below,all⟩ := own.cleared b member
        exact ⟨below.trans (Nat.lt_succ_self _),all⟩
      newest := by
        intro _
        rfl }

theorem Block.put_self (content : Block α) (i : Nat) (x : Option α) :
    (content.put i x).elements (i % BLOCK_SIZE) = x :=
  Function.update_self ..

theorem Block.put_other (content : Block α) {i j : Nat} (x : Option α)
    (same : j / BLOCK_SIZE = i / BLOCK_SIZE) (other : j ≠ i) :
    (content.put i x).elements (j % BLOCK_SIZE) = content.elements (j % BLOCK_SIZE) := by
  apply Function.update_of_ne
  intro place
  simp only [BLOCK_SIZE] at same place
  omega

theorem Blocks.put_counts (own : Blocks g tail tailBlock blocks inUse enqueued taken owned)
    (place : Nat) (x : Option α) (below : b < g.valued) (kept : b ∉ g.cleared) (block : Nat) :
    (Function.update blocks block ((blocks block).put place x)
      (g.blockOf b)).elementsCompletelyDequeued = done g.finished b := by
  rw [← own.counts b below kept]
  by_cases same : g.blockOf b = block
  · rw [same, Function.update_self]
    rfl
  · rw [Function.update_of_ne same]

theorem Blocks.put_contents (own : Blocks g tail tailBlock blocks inUse enqueued taken owned)
    {place : Nat} (x : Option α) (below : i / BLOCK_SIZE < owned) (inside : place / BLOCK_SIZE < owned)
    (kept : i / BLOCK_SIZE ∉ g.cleared) (uncleared : place / BLOCK_SIZE ∉ g.cleared)
    (other : i ≠ place) :
    (Function.update blocks (g.blockOf (place / BLOCK_SIZE))
      ((blocks (g.blockOf (place / BLOCK_SIZE))).put place x)
        (g.blockOf (i / BLOCK_SIZE))).elements (i % BLOCK_SIZE) =
      (blocks (g.blockOf (i / BLOCK_SIZE))).elements (i % BLOCK_SIZE) := by
  by_cases same : i / BLOCK_SIZE = place / BLOCK_SIZE
  · rw [same, Function.update_self]
    exact Block.put_other _ x same other
  · rw [Function.update_of_ne (own.apart below inside kept uncleared same)]

theorem Blocks.construct (own : Blocks g tail tailBlock blocks inUse enqueued taken owned)
    (finished : ∀ i ∈ g.finished, i < tail) (room : tail < BLOCK_SIZE * g.valued) (x : α) :
    Blocks g tail tailBlock
      (Function.update blocks tailBlock ((blocks tailBlock).put tail (some x))) inUse enqueued taken
      owned := by
  obtain ⟨below,kept,at_⟩ := own.tail_block finished room
  exact
    { own with
      counts := by
        intro b inside uncleared
        exact own.put_counts tail (some x) inside uncleared tailBlock
      contents := by
        intro i y element uncleared untaken
        have inside : i < tail := by
          rw [← own.length]
          exact (List.getElem?_eq_some_iff.mp element).1
        rw [at_, own.put_contents (some x) ((own.valued inside).trans_le own.owned_le)
          (below.trans_le own.owned_le) uncleared kept inside.ne]
        exact own.contents i y element uncleared untaken }

theorem Blocks.publish (own : Blocks g tail tailBlock blocks inUse enqueued taken owned)
    (room : tail < BLOCK_SIZE * g.valued) {x : α}
    (here : (blocks (g.blockOf (tail / BLOCK_SIZE))).elements (tail % BLOCK_SIZE) = some x) :
    Blocks g (tail + 1) tailBlock blocks inUse (enqueued ++ [x]) taken owned :=
  { own with
    length := by
      rw [List.length_append, own.length]
      rfl
    span := by
      have := own.span
      omega
    contents := by
      intro i y element uncleared untaken
      by_cases latest : i = tail
      · rw [latest, ← own.length, List.getElem?_concat_length] at element
        cases element
        rw [latest]
        exact here
      · have inside : i < enqueued.length := by
          have := (List.getElem?_eq_some_iff.mp element).1
          rw [List.length_append, own.length] at this
          rw [own.length]
          simp only [List.length_singleton] at this
          omega
        rw [List.getElem?_append_left inside] at element
        exact own.contents i y element uncleared untaken }

theorem Blocks.take (own : Blocks g tail tailBlock blocks inUse enqueued taken owned)
    (below : i < tail) (kept : i / BLOCK_SIZE ∉ g.cleared) (c : Fin n) (x : α) :
    Blocks g tail tailBlock
      (Function.update blocks (g.blockOf (i / BLOCK_SIZE))
        ((blocks (g.blockOf (i / BLOCK_SIZE))).put i none))
      inUse enqueued (taken ++ [⟨c,i,x⟩]) owned :=
  { own with
    counts := by
      intro b inside uncleared
      exact own.put_counts i none inside uncleared _
    contents := by
      intro j y element uncleared untaken
      have inside : j < tail := by
        rw [← own.length]
        exact (List.getElem?_eq_some_iff.mp element).1
      have other : j ≠ i := by
        intro same
        exact untaken _ (List.mem_append_right _ (List.mem_singleton_self _)) same.symm
      rw [own.put_contents none ((own.valued inside).trans_le own.owned_le)
        ((own.valued below).trans_le own.owned_le) uncleared kept other]
      apply own.contents j y element uncleared
      intro r member
      exact untaken r (List.mem_append_left _ member) }

theorem Blocks.count (own : Blocks g tail tailBlock blocks inUse enqueued taken owned)
    (below : i < tail) (left : i ∉ g.finished) :
    Blocks { g with finished := insert i g.finished } tail tailBlock
      (Function.update blocks (g.blockOf (i / BLOCK_SIZE))
        { blocks (g.blockOf (i / BLOCK_SIZE)) with
          elementsCompletelyDequeued := done g.finished (i / BLOCK_SIZE) + 1 })
      inUse enqueued taken owned := by
  have kept := own.kept left
  have valued := own.valued below
  exact
    { own with
      counts := by
        intro b inside uncleared
        simp only [done_insert left]
        by_cases same : i / BLOCK_SIZE = b
        · rw [← same, Function.update_self, if_pos rfl]
        · have apart := own.apart (inside.trans_le own.owned_le) (valued.trans_le own.owned_le)
            uncleared kept (Ne.symm same)
          rw [Function.update_of_ne apart, if_neg same]
          exact own.counts b inside uncleared
      contents := by
        intro j y element uncleared untaken
        have old := own.contents j y element uncleared untaken
        by_cases same : g.blockOf (j / BLOCK_SIZE) = g.blockOf (i / BLOCK_SIZE)
        · simp only
          rw [same] at old ⊢
          rw [Function.update_self]
          exact old
        · simp only
          rw [Function.update_of_ne same]
          exact old
      cleared := by
        intro b member
        obtain ⟨inside,full⟩ := own.cleared b member
        refine ⟨inside, ?_⟩
        have other : i / BLOCK_SIZE ≠ b := by
          intro same
          rw [same] at kept
          exact kept member
        rw [done_insert left, if_neg other]
        exact full }

theorem Blocks.clear (own : Blocks g tail tailBlock blocks inUse enqueued taken owned)
    (below : b < g.valued) (full : done g.finished b = BLOCK_SIZE) :
    Blocks { g with cleared := insert b g.cleared } tail tailBlock blocks inUse enqueued taken
      owned :=
  { own with
    counts := by
      intro a inside uncleared
      exact own.counts a inside fun member => uncleared (Finset.mem_insert_of_mem member)
    contents := by
      intro i x element uncleared untaken
      exact own.contents i x element (fun member => uncleared (Finset.mem_insert_of_mem member))
        untaken
    cleared := by
      intro a member
      rcases Finset.mem_insert.mp member with new | old
      · rw [new]
        exact ⟨below,full⟩
      · exact own.cleared a old
    released := own.released.trans (Finset.subset_insert _ _) }

theorem Blocks.release (own : Blocks g tail tailBlock blocks inUse enqueued taken owned)
    (cleared : b ∈ g.cleared) (left : b ∉ g.released) :
    Blocks { g with released := insert b g.released } tail tailBlock blocks
      (Function.update inUse (g.blockOf b) false) enqueued taken owned :=
  { own with
    held := by
      intro a below kept
      simp only [Finset.mem_insert, not_or] at kept
      have below' := (own.cleared b cleared).1
      have other : g.blockOf a ≠ g.blockOf b := by
        intro same
        exact kept.1 (own.distinct a b below (below'.trans_le own.owned_le) kept.2 left same)
      rw [Function.update_of_ne other]
      exact own.held a below kept.2
    distinct := by
      intro a a' first second unreleased kept same
      simp only [Finset.mem_insert, not_or] at unreleased kept
      exact own.distinct a a' first second unreleased.2 kept.2 same
    released := Finset.insert_subset cleared own.released }

end

section
variable {n : Nat} {g : Ghost} {clearing releasing : Fin n → Option Nat} {c : Fin n} {i b : Nat}

theorem closings_fresh (n : Nat) :
    Closings {} (fun _ : Fin n => none) (fun _ => none) where
  uncleared _ _ here := by cases here
  unreleased _ _ here := by cases here
  clearers _ _ _ here := by cases here
  releasers _ _ _ here := by cases here

theorem Closings.count (closings : Closings g clearing releasing) (left : i ∉ g.finished) :
    Closings { g with finished := insert i g.finished } clearing releasing :=
  { closings with
    uncleared := by
      intro c b here
      obtain ⟨below,kept,full⟩ := closings.uncleared c b here
      refine ⟨below, kept, ?_⟩
      have other : i / BLOCK_SIZE ≠ b := by
        intro same
        have := done_lt left
        rw [same, full] at this
        exact absurd this (Nat.lt_irrefl _)
      rw [done_insert left, if_neg other]
      exact full }

theorem Closings.last (closings : Closings g clearing releasing) (left : i ∉ g.finished)
    (valued : i / BLOCK_SIZE < g.valued) (kept : i / BLOCK_SIZE ∉ g.cleared)
    (last : done g.finished (i / BLOCK_SIZE) = BLOCK_SIZE - 1) :
    Closings { g with finished := insert i g.finished }
      (Function.update clearing c (some (i / BLOCK_SIZE))) releasing :=
  { closings.count left with
    uncleared := by
      intro d b here
      rcases held_update here with ⟨_,own⟩ | ⟨_,here⟩
      · cases own
        refine ⟨valued, kept, ?_⟩
        rw [done_insert left, if_pos rfl, last]
        rfl
      · exact (closings.count left).uncleared d b here
    clearers := by
      apply closings.clearers.take c
      intro d _ here
      have full := (closings.uncleared d _ here).2.2
      have := done_lt left
      omega }

theorem Closings.clear (closings : Closings g clearing releasing)
    (released : g.released ⊆ g.cleared) (here : clearing c = some b) :
    Closings { g with cleared := insert b g.cleared } (Function.update clearing c none)
      (Function.update releasing c (some b)) := by
  obtain ⟨_,kept,_⟩ := closings.uncleared c b here
  exact
    { uncleared := by
        intro d a clears
        rcases held_update clears with ⟨_,none⟩ | ⟨other,clears⟩
        · cases none
        · obtain ⟨below,uncleared,full⟩ := closings.uncleared d a clears
          refine ⟨below, ?_, full⟩
          rw [Finset.mem_insert, not_or]
          refine ⟨?_, uncleared⟩
          intro same
          rw [same] at clears
          exact other (closings.clearers d c b clears here)
      unreleased := by
        intro d a releases
        rcases held_update releases with ⟨_,own⟩ | ⟨_,releases⟩
        · cases own
          exact ⟨Finset.mem_insert_self _ _,fun member => kept (released member)⟩
        · obtain ⟨cleared,left⟩ := closings.unreleased d a releases
          exact ⟨Finset.mem_insert_of_mem cleared,left⟩
      clearers := closings.clearers.drop c
      releasers := by
        apply closings.releasers.take c
        intro d _ releases
        exact kept (closings.unreleased d b releases).1 }

theorem Closings.release (closings : Closings g clearing releasing)
    (here : releasing c = some b) :
    Closings { g with released := insert b g.released } clearing
      (Function.update releasing c none) :=
  { closings with
    unreleased := by
      intro d a releases
      rcases held_update releases with ⟨_,none⟩ | ⟨other,releases⟩
      · cases none
      · obtain ⟨cleared,left⟩ := closings.unreleased d a releases
        refine ⟨cleared, ?_⟩
        rw [Finset.mem_insert, not_or]
        refine ⟨?_, left⟩
        intro same
        rw [same] at releases
        exact other (closings.releasers d c b releases here)
    releasers := closings.releasers.drop c }

end

end TinyMqConcurrentQueue
