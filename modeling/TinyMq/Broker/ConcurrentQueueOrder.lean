import Mathlib.Data.List.Range
import TinyMq.Broker.ConcurrentQueueRuns

/-!
What the threads get from the queue. In every run each element is taken at most once, no assertion
fails, and a thread takes elements in the order in which they were enqueued. A `dequeue` whose
check passed gets an element within nine of its own steps, whatever the other threads do; one
that no other `dequeue` overlaps gets the oldest element, or finds the queue empty if it is.
-/
namespace TinyMqConcurrentQueue
open OptimisticTickets
variable {α : Type} {n : Nat} {s t : State α n} {c d : Fin n}

theorem inv_run (blocks : Nat → Block α) (acts : List (Act α n)) :
    ∃ g, Inv g (acts.foldl next (fresh n blocks)) := by
  have always : ∀ s ∈ Machines.states next (fresh n blocks) acts, ∃ g, Inv g s :=
    Machines.invariant_reached inv_next ⟨_,inv_fresh n blocks⟩ acts
  exact always _ (Machines.last_state_mem next _ acts)

theorem dequeues_in_order (blocks : Nat → Block α) (acts : List (Act α n)) :
    let s := acts.foldl next (fresh n blocks)
    s.broken = false ∧ (s.taken.map (·.index)).Nodup ∧
      (∀ r ∈ s.taken, s.enqueued[r.index]? = some r.element) ∧
      (s.taken.Pairwise fun r r' => r.thread = r'.thread → r.index < r'.index) ∧
      s.headIndex ≤ s.enqueued.length ∧
      ((∀ c, s.consumers c = .idle) → (s.taken.map (·.index)).Perm (List.range s.headIndex)) := by
  intro s
  obtain ⟨g,inv⟩ := inv_run blocks acts
  refine ⟨inv.sound, inv.claims.once, inv.claims.elements, inv.claims.ordered, ?_, ?_⟩
  · rw [inv.own.length]
    exact inv.head_le
  · intro idle
    rw [List.perm_ext_iff_of_nodup inv.claims.once List.nodup_range]
    intro i
    rw [List.mem_map, List.mem_range]
    constructor
    · intro ⟨r,member,same⟩
      rw [← same]
      exact inv.claims.taken_lt r member
    · intro below
      rcases inv.claims.placed i below with got | ⟨c,here⟩
      · exact got
      · rw [Function.comp_apply, idle c] at here
        cases here

inductive Move (s : State α n) (c : Fin n) : State α n → Prop where
  | rest : s.consumers c = .idle → Move s c s
  | overcommit {tail} : s.consumers c = .overcommit tail →
      Move s c (s.goto c (.optimistic tail s.dequeueOvercommit))
  | try_ {tail overcommit} : s.consumers c = .optimistic tail overcommit →
      (s.dequeueOptimisticCount : Int) - overcommit < tail → Move s c (s.goto c (.fetch overcommit))
  | empty {tail overcommit} : s.consumers c = .optimistic tail overcommit →
      ¬ (s.dequeueOptimisticCount : Int) - overcommit < tail → Move s c (s.goto c .idle)
  | fetch {overcommit} : s.consumers c = .fetch overcommit →
      Move s c { s.goto c (.check s.dequeueOptimisticCount overcommit) with
        dequeueOptimisticCount := s.dequeueOptimisticCount + 1 }
  | pass {count overcommit} : s.consumers c = .check count overcommit →
      (count : Int) - overcommit < s.tailIndex → Move s c (s.goto c .claim)
  | fall {count overcommit} : s.consumers c = .check count overcommit →
      ¬ (count : Int) - overcommit < s.tailIndex → Move s c (s.goto c (.giveBack count))
  | giveBack {count} : s.consumers c = .giveBack count →
      Move s c { s.goto c .idle with dequeueOvercommit := s.dequeueOvercommit + 1 }
  | claim : s.consumers c = .claim →
      Move s c { s.goto c (.header s.headIndex) with headIndex := s.headIndex + 1 }
  | header {i} : s.consumers c = .header i → Move s c (s.goto c (.tail i s.blockIndex))
  | tail {i h} : s.consumers c = .tail i h → Move s c (s.goto c (.key i h (s.headers h).tail))
  | key {i h tail} (entry : Nat) : s.consumers c = .key i h tail →
      Move s c (s.goto c (.value i entry))
  | value {i entry} (block : Nat) : s.consumers c = .value i entry →
      Move s c (s.goto c (.take i entry block))
  | take {i entry block} (x : α) : s.consumers c = .take i entry block →
      Move s c { (s.setBlock block ((s.blocks block).put i none)).goto c (.empty i entry block) with
        taken := s.taken ++ [⟨c,i,x⟩] }
  | count {i entry block} (content : Block α) : s.consumers c = .empty i entry block →
      Move s c ((s.setBlock block content).goto c .idle)
  | last {i entry block} (content : Block α) : s.consumers c = .empty i entry block →
      Move s c ((s.setBlock block content).goto c (.clear i entry block))
  | clear {i entry block} : s.consumers c = .clear i entry block →
      Move s c ((s.setValue entry none).goto c (.release i block))
  | release {i block} : s.consumers c = .release i block →
      Move s c { s.goto c .idle with inUse := Function.update s.inUse block false }

theorem move_of_sound (sound : (consumerStep s c).broken = false) : Move s c (consumerStep s c) := by
  unfold consumerStep at sound ⊢
  cases at_ : s.consumers c with
  | idle => exact .rest at_
  | overcommit tail => exact .overcommit at_
  | optimistic tail overcommit =>
    simp only
    split
    · next seen => exact .try_ at_ seen
    · next seen => exact .empty at_ seen
  | fetch overcommit => exact .fetch at_
  | check count overcommit =>
    simp only
    split
    · next supplied => exact .pass at_ supplied
    · next supplied => exact .fall at_ supplied
  | giveBack count => exact .giveBack at_
  | claim => exact .claim at_
  | header i => exact .header at_
  | tail i h => exact .tail at_
  | key i h tail =>
    rw [at_] at sound
    simp only at sound ⊢
    split
    · next invalid =>
      rw [if_pos invalid] at sound
      cases sound
    · exact .key _ at_
  | value i entry =>
    rw [at_] at sound
    simp only at sound ⊢
    split
    · next block here =>
      rw [here] at sound
      simp only at sound ⊢
      split
      · exact .value block at_
      · next wrong =>
        rw [if_neg wrong] at sound
        cases sound
    · next none =>
      rw [none] at sound
      cases sound
  | take i entry block =>
    rw [at_] at sound
    simp only at sound ⊢
    split
    · next x here => exact .take x at_
    · next none =>
      rw [none] at sound
      cases sound
  | empty i entry block =>
    rw [at_] at sound
    simp only at sound ⊢
    split
    · split
      · exact .last _ at_
      · exact .count _ at_
    · next wrong =>
      rw [if_neg wrong] at sound
      cases sound
  | clear i entry block => exact .clear at_
  | release i block => exact .release at_

theorem Move.other (move : Move s c t) (other : d ≠ c) : t.consumers d = s.consumers d := by
  cases move with
  | rest => rfl
  | _ => exact Function.update_of_ne other _ _

theorem Move.supply (move : Move s c t) :
    t.enqueued = s.enqueued ∧ t.tailIndex = s.tailIndex := by
  cases move with
  | _ => exact ⟨rfl,rfl⟩

/-- What the producer, the pool and the other producers leave alone. -/
structure Aside (s t : State α n) : Prop where
  consumers : t.consumers = s.consumers
  head : t.headIndex = s.headIndex
  issued : t.dequeueOptimisticCount = s.dequeueOptimisticCount
  returned : t.dequeueOvercommit = s.dequeueOvercommit
  taken : t.taken = s.taken
  enqueued : s.enqueued <+: t.enqueued
  tail : s.tailIndex ≤ t.tailIndex

theorem Aside.refl (s : State α n) : Aside s s := ⟨rfl,rfl,rfl,rfl,rfl,List.prefix_rfl,le_rfl⟩

theorem Aside.at (s : State α n) (pc : ProducerPc α) : Aside s (s.at pc) :=
  ⟨rfl,rfl,rfl,rfl,rfl,List.prefix_rfl,le_rfl⟩

theorem aside_producer (s : State α n) : Aside s (producerStep s) := by
  unfold producerStep
  split
  case h_13 => exact ⟨rfl,rfl,rfl,rfl,rfl,List.prefix_append _ _,Nat.le_succ _⟩
  all_goals exact ⟨rfl,rfl,rfl,rfl,rfl,List.prefix_rfl,le_rfl⟩

theorem next_cases (inv : ∃ g, Inv g s) (a : Act α n) :
    (∃ d, a = .consumer d ∧ Move s d (next s a)) ∨
    (∃ d, a = .dequeue d ∧ s.consumers d = .idle ∧
      next s a = s.goto d (.overcommit s.tailIndex)) ∨
    (∀ d, a ≠ .consumer d) ∧ Aside s (next s a) := by
  cases a with
  | consumer d =>
    obtain ⟨g,after⟩ := inv_next s (.consumer d) inv
    exact .inl ⟨d,rfl,move_of_sound after.sound⟩
  | dequeue d =>
    by_cases idle : s.consumers d = .idle
    · refine .inr (.inl ⟨d, rfl, idle, ?_⟩)
      simp only [next, if_pos idle]
    · refine .inr (.inr ⟨by simp, ?_⟩)
      simp only [next, if_neg idle]
      exact Aside.refl s
  | enqueue x =>
    refine .inr (.inr ⟨by simp, ?_⟩)
    simp only [next, enqueueStep]
    split
    · exact Aside.at s _
    · exact Aside.refl s
  | producer => exact .inr (.inr ⟨by simp,aside_producer s⟩)
  | give block =>
    refine .inr (.inr ⟨by simp, ?_⟩)
    simp only [next, giveStep]
    split
    · split
      · exact Aside.refl s
      · exact ⟨rfl,rfl,rfl,rfl,rfl,List.prefix_rfl,le_rfl⟩
    · exact Aside.refl s
  | refuse =>
    refine .inr (.inr ⟨by simp, ?_⟩)
    simp only [next, refuseStep]
    split
    · exact Aside.at s _
    · exact Aside.at s _
    · exact Aside.refl s
  | others block content =>
    refine .inr (.inr ⟨by simp, ?_⟩)
    simp only [next]
    split
    · exact Aside.refl s
    · exact ⟨rfl,rfl,rfl,rfl,rfl,List.prefix_rfl,le_rfl⟩

/-- How many steps a thread has still to take at most. -/
def ConsumerPc.rank : ConsumerPc → Nat
  | .overcommit _ => 13
  | .optimistic _ _ => 12
  | .fetch _ => 11
  | .check _ _ => 10
  | .claim => 9
  | .header _ => 8
  | .tail _ _ => 7
  | .key _ _ _ => 6
  | .value _ _ => 5
  | .take _ _ _ => 4
  | .empty _ _ _ => 3
  | .clear _ _ _ => 2
  | .release _ _ | .giveBack _ => 1
  | .idle => 0

theorem ConsumerPc.rank_zero {pc : ConsumerPc} (none : pc.rank = 0) : pc = .idle := by
  cases pc with
  | idle => rfl
  | _ => simp [rank] at none

theorem Move.rank (move : Move s c t) : (t.consumers c).rank ≤ (s.consumers c).rank - 1 := by
  cases move with
  | rest at_ =>
    rw [at_]
    exact le_rfl
  | overcommit at_ | try_ at_ | empty at_ | fetch at_ | pass at_ | fall at_ | giveBack at_ | claim at_
  | header at_ | tail at_ | key _ at_ | value _ at_ | take _ at_ | count _ at_ | last _ at_
  | clear at_ | release at_ =>
    simp [at_, State.goto, ConsumerPc.rank]

def Act.isStep (c : Fin n) : Act α n → Bool
  | .consumer d => d = c
  | _ => false

theorem isStep_false {a : Act α n} (other : a ≠ .consumer c) : a.isStep c = false := by
  cases a with
  | consumer d =>
    simp only [Act.isStep, decide_eq_false_iff_not]
    intro same
    exact other (by rw [same])
  | _ => rfl

/- Whatever the others do, a thread that dequeues gets on with every step of its own. -/
theorem rank_next (inv : ∃ g, Inv g s) {a : Act α n} (again : a ≠ .dequeue c) :
    ((next s a).consumers c).rank ≤ (s.consumers c).rank - (a.isStep c).toNat := by
  rcases next_cases inv a with ⟨d,rfl,move⟩ | ⟨d,rfl,_,after⟩ | ⟨other,aside⟩
  · by_cases same : c = d
    · subst same
      simp only [Act.isStep, decide_true, Bool.toNat_true]
      exact move.rank
    · rw [move.other same, isStep_false (by simpa using Ne.symm same)]
      exact le_rfl
  · have different : c ≠ d := by
      intro same
      exact again (by rw [same])
    rw [after, isStep_false (by simp)]
    simp only [State.goto, Function.update_of_ne different]
    exact le_rfl
  · rw [aside.consumers, isStep_false (other c)]
    exact le_rfl

theorem dequeue_ends (inv : ∃ g, Inv g s) {acts : List (Act α n)}
    (again : ∀ a ∈ acts, a ≠ .dequeue c)
    (enough : (s.consumers c).rank ≤ acts.countP (Act.isStep c)) :
    (acts.foldl next s).consumers c = .idle := by
  induction acts generalizing s with
  | nil =>
    simp only [List.countP_nil, Nat.le_zero] at enough
    exact ConsumerPc.rank_zero enough
  | cons a rest ih =>
    have less := rank_next inv (again a List.mem_cons_self)
    rw [List.countP_cons] at enough
    apply ih (inv_next s a inv) (fun b member => again b (List.mem_cons_of_mem a member))
    cases step : a.isStep c with
    | true =>
      simp only [step, Bool.toNat_true, if_true] at less enough
      omega
    | false =>
      simp only [step, Bool.toNat_false, Bool.false_eq_true, if_false] at less enough
      omega

theorem run_keeps {P : State α n → Prop} {Q : Act α n → Prop}
    (kept : ∀ s a, (∃ g, Inv g s) → Q a → P s → P (next s a)) (inv : ∃ g, Inv g s) (start : P s)
    {acts : List (Act α n)} (all : ∀ a ∈ acts, Q a) : P (acts.foldl next s) := by
  induction acts generalizing s with
  | nil => exact start
  | cons a rest ih =>
    exact ih (inv_next s a inv) (kept s a inv (all a List.mem_cons_self) start)
      fun b member => all b (List.mem_cons_of_mem a member)

def State.takenBy (s : State α n) (c : Fin n) : List (Taken α n) :=
  s.taken.filter fun r => r.thread = c

/-- A thread whose check passed, between what it had taken before and the element it gets. -/
def Owed (before now : List (Taken α n)) : ConsumerPc → Prop
  | .claim | .header _ | .tail _ _ | .key _ _ _ | .value _ _ | .take _ _ _ => now = before
  | .empty _ _ _ | .clear _ _ _ | .release _ _ | .idle => ∃ r, now = before ++ [r]
  | .overcommit _ | .optimistic _ _ | .fetch _ | .check _ _ | .giveBack _ => False

theorem Move.owed {before : List (Taken α n)} (move : Move s c t)
    (owed : Owed before (s.takenBy c) (s.consumers c)) :
    Owed before (t.takenBy c) (t.consumers c) := by
  cases move with
  | rest at_ => exact owed
  | overcommit at_ | try_ at_ | empty at_ | fetch at_ | pass at_ | fall at_ | giveBack at_ =>
    rw [at_] at owed
    exact owed.elim
  | claim at_ | header at_ | tail at_ | key _ at_ | value _ at_ | count _ at_ | last _ at_ | clear at_
  | release at_ =>
    rw [at_] at owed
    simp only [State.goto, Function.update_self]
    exact owed
  | @take i entry block x at_ =>
    rw [at_] at owed
    have taken : s.takenBy c = before := owed
    simp only [State.goto, Function.update_self]
    refine ⟨⟨c,i,x⟩, ?_⟩
    rw [← taken]
    simp [State.takenBy]

theorem Move.takenBy_other (move : Move s c t) (other : d ≠ c) : t.takenBy d = s.takenBy d := by
  cases move with
  | take x at_ => simp [State.takenBy, Ne.symm other]
  | _ => rfl

theorem owed_next {before : List (Taken α n)} (s : State α n) (a : Act α n) (inv : ∃ g, Inv g s)
    (again : a ≠ .dequeue c) (owed : Owed before (s.takenBy c) (s.consumers c)) :
    Owed before ((next s a).takenBy c) ((next s a).consumers c) := by
  rcases next_cases inv a with ⟨d,rfl,move⟩ | ⟨d,rfl,_,after⟩ | ⟨_,aside⟩
  · by_cases same : c = d
    · subst same
      exact move.owed owed
    · rw [move.other same, move.takenBy_other same]
      exact owed
  · have different : c ≠ d := by
      intro same
      exact again (by rw [same])
    rw [after]
    simp only [State.goto, Function.update_of_ne different]
    exact owed
  · rw [aside.consumers, State.takenBy, aside.taken]
    exact owed

/- Whatever the others do, a `dequeue` whose check passed has its element after nine steps of its
   own at most. -/
theorem passed_takes (blocks : Nat → Block α) (acts later : List (Act α n)) (c : Fin n)
    (passed : (acts.foldl next (fresh n blocks)).consumers c = .claim)
    (again : ∀ a ∈ later, a ≠ .dequeue c) (enough : 9 ≤ later.countP (Act.isStep c)) :
    let s := acts.foldl next (fresh n blocks)
    let t := later.foldl next s
    t.consumers c = .idle ∧ ∃ r, t.takenBy c = s.takenBy c ++ [r] := by
  intro s t
  have inv := inv_run blocks acts
  have idle : t.consumers c = .idle := by
    apply dequeue_ends inv again
    rw [passed]
    exact enough
  have owed : Owed (s.takenBy c) (t.takenBy c) (t.consumers c) := by
    apply run_keeps (P := fun t => Owed (s.takenBy c) (t.takenBy c) (t.consumers c))
      (Q := fun a => a ≠ .dequeue c) (fun s a => owed_next s a) inv ?_ again
    show Owed _ _ (s.consumers c)
    rw [passed]
    rfl
  rw [idle] at owed
  exact ⟨idle,owed⟩

def firstEnqueue : List (Act Nat 2) :=
  [.enqueue 7,.producer,.producer,.producer,.producer,.give 0,.producer,.producer,.producer,.producer]

def rivals : List (Act Nat 2) :=
  [.dequeue 0,.dequeue 1,.consumer 0,.consumer 1,.consumer 0,.consumer 1,.consumer 0,.consumer 1,
    .consumer 0,.consumer 1]

def blank : Nat → Block Nat := fun _ => ⟨fun _ => none,0⟩

theorem passed_takes_rivals :
    let s := (firstEnqueue ++ rivals).foldl next (fresh 2 blank)
    let t := (.consumer 1 :: List.replicate 9 (.consumer 0)).foldl next s
    t.consumers 0 = .idle ∧ ∃ r, t.takenBy 0 = s.takenBy 0 ++ [r] :=
  passed_takes blank (firstEnqueue ++ rivals) (.consumer 1 :: List.replicate 9 (.consumer 0)) 0
    (by decide) (by simp) (by decide)

def State.contents (s : State α n) : List α := s.enqueued.drop s.headIndex

/-- Where a `dequeue` that began in `s` stands while no other one is under way. -/
def Phase (s : State α n) (c : Fin n) (head issued returned : Nat) (taken : List (Taken α n)) :
    ConsumerPc → Prop
  | .overcommit tail => head = s.headIndex ∧ taken = s.taken ∧ issued = s.dequeueOptimisticCount ∧
      returned = s.dequeueOvercommit ∧ tail = s.tailIndex
  | .optimistic tail overcommit => head = s.headIndex ∧ taken = s.taken ∧
      issued = s.dequeueOptimisticCount ∧ tail = s.tailIndex ∧ overcommit = s.dequeueOvercommit
  | .fetch overcommit => head = s.headIndex ∧ taken = s.taken ∧ s.headIndex < s.tailIndex ∧
      issued = s.dequeueOptimisticCount ∧ overcommit = s.dequeueOvercommit
  | .check myDequeueCount overcommit => head = s.headIndex ∧ taken = s.taken ∧
      s.headIndex < s.tailIndex ∧ myDequeueCount = s.dequeueOptimisticCount ∧
      overcommit = s.dequeueOvercommit
  | .giveBack _ => False
  | .claim => head = s.headIndex ∧ taken = s.taken ∧ s.headIndex < s.tailIndex
  | .header index | .tail index _ | .key index _ _ | .value index _ | .take index _ _ =>
    head = s.headIndex + 1 ∧ taken = s.taken ∧ s.headIndex < s.tailIndex ∧ index = s.headIndex
  | .empty _ _ _ | .clear _ _ _ | .release _ _ =>
    head = s.headIndex + 1 ∧ s.headIndex < s.tailIndex ∧ ∃ x, taken = s.taken ++ [⟨c,s.headIndex,x⟩]
  | .idle => head = s.headIndex ∧ taken = s.taken ∧ s.tailIndex ≤ s.headIndex ∨
      head = s.headIndex + 1 ∧ s.headIndex < s.tailIndex ∧ ∃ x, taken = s.taken ++ [⟨c,s.headIndex,x⟩]

structure Lone (s : State α n) (c : Fin n) (t : State α n) : Prop where
  others : ∀ d, d ≠ c → t.consumers d = .idle
  enqueued : s.enqueued <+: t.enqueued
  tail : s.tailIndex ≤ t.tailIndex
  phase : Phase s c t.headIndex t.dequeueOptimisticCount t.dequeueOvercommit t.taken (t.consumers c)

theorem Move.idle (move : Move s c t) (idle : s.consumers c = .idle) : t = s := by
  cases move with
  | rest _ => rfl
  | overcommit at_ | try_ at_ | empty at_ | fetch at_ | pass at_ | fall at_ | giveBack at_ | claim at_
  | header at_ | tail at_ | key _ at_ | value _ at_ | take _ at_ | count _ at_ | last _ at_
  | clear at_ | release at_ =>
    rw [idle] at at_
    cases at_

/- With no other thread under way the two checks compare the head with the tail. -/
theorem Move.phase {u : State α n}
    (even : s.dequeueOptimisticCount = s.headIndex + s.dequeueOvercommit) (move : Move t c u)
    (supply : s.tailIndex ≤ t.tailIndex)
    (phase : Phase s c t.headIndex t.dequeueOptimisticCount t.dequeueOvercommit t.taken
      (t.consumers c)) :
    Phase s c u.headIndex u.dequeueOptimisticCount u.dequeueOvercommit u.taken (u.consumers c) := by
  cases move with
  | rest at_ => exact phase
  | overcommit at_ =>
    rw [at_] at phase
    obtain ⟨head,taken,issued,returned,tail⟩ := phase
    simp only [State.goto, Function.update_self]
    exact ⟨head,taken,issued,tail,returned⟩
  | try_ at_ seen =>
    rw [at_] at phase
    obtain ⟨head,taken,issued,tail,returned⟩ := phase
    simp only [State.goto, Function.update_self]
    exact ⟨head,taken,by omega,issued,returned⟩
  | empty at_ seen =>
    rw [at_] at phase
    obtain ⟨head,taken,issued,tail,returned⟩ := phase
    simp only [State.goto, Function.update_self]
    exact .inl ⟨head,taken,by omega⟩
  | fetch at_ =>
    rw [at_] at phase
    simp only [State.goto, Function.update_self]
    exact phase
  | pass at_ supplied =>
    rw [at_] at phase
    obtain ⟨head,taken,below,_⟩ := phase
    simp only [State.goto, Function.update_self]
    exact ⟨head,taken,below⟩
  | fall at_ refused =>
    rw [at_] at phase
    obtain ⟨_,_,below,number,returned⟩ := phase
    omega
  | giveBack at_ =>
    rw [at_] at phase
    exact phase.elim
  | claim at_ =>
    rw [at_] at phase
    obtain ⟨head,taken,below⟩ := phase
    simp only [State.goto, Function.update_self]
    exact ⟨by rw [head],taken,below,head⟩
  | header at_ | tail at_ | key _ at_ | value _ at_ | last _ at_ | clear at_ =>
    rw [at_] at phase
    simp only [State.goto, Function.update_self]
    exact phase
  | take x at_ =>
    rw [at_] at phase
    obtain ⟨head,taken,below,rfl⟩ := phase
    simp only [State.goto, Function.update_self]
    exact ⟨head,below,x,by rw [taken]⟩
  | count _ at_ | release at_ =>
    rw [at_] at phase
    simp only [State.goto, Function.update_self]
    exact .inr phase

theorem lone_next (even : s.dequeueOptimisticCount = s.headIndex + s.dequeueOvercommit)
    (t : State α n) (a : Act α n) (inv : ∃ g, Inv g t) (quiet : ∀ d, a ≠ .dequeue d)
    (lone : Lone s c t) : Lone s c (next t a) := by
  rcases next_cases inv a with ⟨d,rfl,move⟩ | ⟨d,rfl,_⟩ | ⟨_,aside⟩
  · by_cases same : d = c
    · subst same
      obtain ⟨enqueued,tail⟩ := move.supply
      exact
        { others := by
            intro e other
            rw [move.other other]
            exact lone.others e other
          enqueued := by
            rw [enqueued]
            exact lone.enqueued
          tail := by
            rw [tail]
            exact lone.tail
          phase := move.phase even lone.tail lone.phase }
    · rw [move.idle (lone.others d same)]
      exact lone
  · exact absurd rfl (quiet d)
  · exact
      { others := by
          rw [aside.consumers]
          exact lone.others
        enqueued := lone.enqueued.trans aside.enqueued
        tail := lone.tail.trans aside.tail
        phase := by
          rw [aside.head, aside.issued, aside.returned, aside.taken, aside.consumers]
          exact lone.phase }

/- A `dequeue` that no other one overlaps takes what is oldest when it begins, if there is
   anything, whatever the producer does meanwhile. -/
theorem lone_dequeue (blocks : Nat → Block α) (acts later : List (Act α n)) (c : Fin n)
    (idle : ∀ d, (acts.foldl next (fresh n blocks)).consumers d = .idle)
    (quiet : ∀ a ∈ later, ∀ d, a ≠ .dequeue d) (enough : 13 ≤ later.countP (Act.isStep c)) :
    let s := acts.foldl next (fresh n blocks)
    let t := later.foldl next (next s (.dequeue c))
    t.consumers c = .idle ∧
      t.taken = s.taken ++ (s.contents.head?.map fun x => ⟨c,s.headIndex,x⟩).toList ∧
      ∃ published, t.enqueued = s.enqueued ++ published ∧
        t.contents = s.contents.tail ++ published := by
  intro s t
  have reached := inv_run blocks acts
  have began : next s (.dequeue c) = s.goto c (.overcommit s.tailIndex) := by
    simp only [next]
    rw [if_pos (idle c)]
  have after := inv_next s (.dequeue c) reached
  obtain ⟨_,last⟩ : ∃ g, Inv g t := by
    have run := inv_run blocks (acts ++ .dequeue c :: later)
    rw [List.foldl_append] at run
    exact run
  obtain ⟨g,inv⟩ := reached
  obtain ⟨passed,counted,tickets⟩ := inv.tickets
  have out : ∀ d, (ticketOf ∘ s.consumers) d = .out := fun d => view_at ticketOf (idle d)
  have even := tickets.quiet out
  have start : Lone s c (next s (.dequeue c)) := by
    rw [began]
    exact
      { others := by
          intro d other
          simp only [State.goto, Function.update_of_ne other]
          exact idle d
        enqueued := List.prefix_rfl
        tail := le_rfl
        phase := by
          simp only [State.goto, Function.update_self]
          exact ⟨rfl,rfl,rfl,rfl,rfl⟩ }
  have ended : t.consumers c = .idle := by
    apply dequeue_ends after (fun a member => quiet a member c)
    rw [began]
    simp only [State.goto, Function.update_self]
    exact enough
  have lone : Lone s c t :=
    run_keeps (Q := fun a => ∀ d, a ≠ .dequeue d) (lone_next even) after start quiet
  obtain ⟨published,grown⟩ := lone.enqueued
  have length : s.enqueued.length = s.tailIndex := inv.own.length
  have most : s.headIndex ≤ s.tailIndex := inv.head_le
  have phase := lone.phase
  rw [ended] at phase
  rcases phase with ⟨head,taken,nothing⟩ | ⟨head,below,x,taken⟩
  · have empty : s.contents = [] := List.drop_eq_nil_of_le (by omega)
    refine ⟨ended, ?_, published, grown.symm, ?_⟩
    · rw [taken, empty]
      simp
    · rw [empty, State.contents, head, ← grown, List.drop_append_of_le_length (by omega)]
      exact congrArg (· ++ published) empty
  · -- what was taken is what stood at the head
    have oldest : s.enqueued[s.headIndex]? = some x := by
      have member : (⟨c,s.headIndex,x⟩ : Taken α n) ∈ t.taken := by
        rw [taken]
        exact List.mem_append_right _ (List.mem_singleton_self _)
      have element : t.enqueued[s.headIndex]? = some x := last.claims.elements _ member
      rw [← grown, List.getElem?_append_left (by omega)] at element
      exact element
    refine ⟨ended, ?_, published, grown.symm, ?_⟩
    · rw [taken, State.contents, List.head?_drop, oldest]
      rfl
    · rw [State.contents, State.contents, head, ← grown, List.tail_drop,
        List.drop_append_of_le_length (by omega)]

theorem lone_dequeue_first :
    let s := firstEnqueue.foldl next (fresh 2 blank)
    let t := (.enqueue 8 :: List.replicate 13 (.consumer 1)).foldl next (next s (.dequeue 1))
    t.consumers 1 = .idle ∧
      t.taken = s.taken ++ (s.contents.head?.map fun x => ⟨1,s.headIndex,x⟩).toList ∧
      ∃ published, t.enqueued = s.enqueued ++ published ∧
        t.contents = s.contents.tail ++ published :=
  lone_dequeue blank firstEnqueue (.enqueue 8 :: List.replicate 13 (.consumer 1)) 1
    (by decide) (by simp) (by decide)

end TinyMqConcurrentQueue
